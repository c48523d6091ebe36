import FlowRule.Activation.Service
import FlowRule.Lib.Keyed

/- The rule tables of PostgreSQL (internal/adapters/postgres/rules.go, migrations 001 and
   002), at READ COMMITTED. A statement that needs a key another open transaction has
   written waits (`perform` is `none`). A delete of an activation is a transaction of its
   own; it waits for an update of the row but not for an insert.

   `columns` is what the JSONB columns make of a source and its compiled rules, or the error
   with which the row is refused. A version is counted up by one for each change of its row, and
   the end of its type, 2^63 changes later, is left out. -/
namespace FlowRule.Activation

namespace Postgres

structure RevisionRow where
  contentHash : String
  matchMode : MatchMode
  compiled : List CompiledRule

structure Tables where
  revisions : Key × Int → Option RevisionRow
  activations : Key → Option ActivationRow

namespace Tables

def empty : Tables := ⟨fun _ => none, fun _ => none⟩

/-- The rows of `own`, and those of `base` under keys that `own` does not have. -/
def onto (own base : Tables) : Tables where
  revisions k := (own.revisions k).or (base.revisions k)
  activations k := (own.activations k).or (base.activations k)

end Tables

structure Session where
  own : Tables

namespace Session

def idle : Session := ⟨.empty⟩

def sees (s : Session) (t : Tables) : Tables := s.own.onto t

def putRevision (s : Session) (k : Key × Int) (row : RevisionRow) : Session :=
  ⟨{ s.own with revisions := Function.update s.own.revisions k (some row) }⟩

def putActivation (s : Session) (key : Key) (row : ActivationRow) : Session :=
  ⟨{ s.own with activations := Function.update s.own.activations key (some row) }⟩

end Session

abbrev Columns := RawMessage → RuleRevision → Except Err (List CompiledRule)

def revisionKey (revision : RuleRevision) : Key × Int := ((revision.tenantScope, revision.ruleID), revision.revision)

@[simp] theorem revisionKey_posted (key : Key) (revision : RuleRevision) :
    revisionKey (posted key revision) = (key, revision.revision) := rfl

def errForeignKey : Err := .msg "insert or update on table violates foreign key constraint"

def perform (columns : Columns) (t : Tables) (os : List Session) (s : Session) :
    (o : Op) → Option (Tables × Session × Except Err o.Res)
  | .begin => some (t, .idle, .ok ())
  | .save source revision =>
    match columns source revision with
    | .error e => some (t, .idle, .error (.wrap "save revision" e))
    | .ok compiled =>
      if ((s.sees t).revisions (revisionKey revision)).isSome then some (t, s, .ok ())
      else if os.any (fun x => (x.own.revisions (revisionKey revision)).isSome) then none
      else some (t, s.putRevision (revisionKey revision) ⟨revision.contentHash, revision.matchMode, compiled⟩, .ok ())
  | .get key => some (t, s, .ok ((s.sees t).activations key))
  | .setWithVersion key row expectedVersion =>
    if os.any (fun x => (x.own.activations key).isSome) then none
    else
      match (s.sees t).activations key with
      | none =>
        if ((s.sees t).revisions (key, row.revision)).isNone then
          some (t, .idle, .error (.wrap "set activation with version" errForeignKey))
        else some (t, s.putActivation key row,
          if row.version ≠ expectedVersion + 1 then .error errActivationConflict else .ok ())
      | some current =>
        -- an update that is left out returns no row
        if current.version ≠ expectedVersion then
          some (t, s, .error (.wrap "set activation with version" (.msg "no rows in result set")))
        else if ((s.sees t).revisions (key, row.revision)).isNone then
          some (t, .idle, .error (.wrap "set activation with version" errForeignKey))
        else some (t, s.putActivation key { row with version := current.version + 1 }, .ok ())
  | .commit => some (s.sees t, .idle, .ok ())
  | .delete key =>
    if (t.activations key).isSome ∧ os.any (fun x => (x.own.activations key).isSome) then none
    else some ({ t with activations := Function.update t.activations key none }, s, .ok ())

/-- What an upsert did: it waits for nobody, and it has written a row that follows the one it
    found, if it found one, or it has failed. -/
theorem perform_set {columns : Columns} {t t' : Tables} {os : List Session} {s s' : Session} {key : Key}
    {row : ActivationRow} {expectedVersion : Int} {a : Except Err Unit}
    (h : perform columns t os s (.setWithVersion key row expectedVersion) = some (t', s', a)) :
    t' = t ∧ (∀ x ∈ os, x.own.activations key = none) ∧
      ((∃ e, a = .error e ∧ (s' = .idle ∨ s' = s ∨ row.version ≠ expectedVersion + 1)) ∨
        (a = .ok () ∧ ∃ row', s' = s.putActivation key row' ∧ row'.version = expectedVersion + 1 ∧
          ((s.sees t).activations key = none ∨
            ∃ current, (s.sees t).activations key = some current ∧ current.version = expectedVersion))) := by
  simp only [perform] at h
  split at h
  · cases h
  rename_i hwait
  have hfree : ∀ x ∈ os, x.own.activations key = none := by
    intro x hx
    by_contra hne
    exact hwait (List.any_eq_true.mpr ⟨x, hx, Option.isSome_iff_ne_none.mpr hne⟩)
  cases hsees : (s.sees t).activations key with
  | none =>
    simp only [hsees] at h
    split at h
    · cases h
      exact ⟨rfl, hfree, .inl ⟨_, rfl, .inl rfl⟩⟩
    · cases h
      refine ⟨rfl, hfree, ?_⟩
      by_cases hv : row.version = expectedVersion + 1
      · exact .inr ⟨by rw [if_neg (not_not.mpr hv)], row, rfl, hv, .inl rfl⟩
      · exact .inl ⟨errActivationConflict, by rw [if_pos hv], .inr (.inr hv)⟩
  | some current =>
    simp only [hsees] at h
    split at h
    · cases h
      exact ⟨rfl, hfree, .inl ⟨_, rfl, .inr (.inl rfl)⟩⟩
    · rename_i hv
      rw [not_not] at hv
      split at h
      · cases h
        exact ⟨rfl, hfree, .inl ⟨_, rfl, .inl rfl⟩⟩
      · cases h
        exact ⟨rfl, hfree, .inr ⟨rfl, _, rfl, by rw [← hv], .inr ⟨current, rfl, hv⟩⟩⟩

theorem perform_save_own {columns : Columns} {t t' : Tables} {os : List Session} {s s' : Session}
    {source : RawMessage} {revision : RuleRevision} {a : Except Err Unit}
    (h : perform columns t os s (.save source revision) = some (t', s', a)) :
    t' = t ∧ (s' = .idle ∨ s'.own.activations = s.own.activations) := by
  simp only [perform] at h
  split at h
  · cases h
    exact ⟨rfl, .inl rfl⟩
  · split at h
    · cases h
      exact ⟨rfl, .inr rfl⟩
    · split at h <;> cases h
      exact ⟨rfl, .inr rfl⟩

/-- The text the repository puts in front of an error of the database. -/
def context : Op → Err → Err
  | .begin => .wrap "begin tx"
  | .save _ _ => .wrap "save revision"
  | .get _ => .wrap "get activation"
  | .setWithVersion _ _ _ => .wrap "set activation with version"
  | .commit => id
  | .delete _ => .wrap "delete activation"

/-- A statement, which may also fail without effect; its transaction is then over. -/
def exec (columns : Columns) (t : Tables) (os : List Session) (s : Session) (o : Op) (fail : Option Err) :
    Option (Tables × Session × Except Err o.Res) :=
  match fail with
  | some e => some (t, .idle, .error (context o e))
  | none => perform columns t os s o

def get (t : Tables) (key : Key) (revision : Int) : Option RuleRevision :=
  (t.revisions (key, revision)).map (fun r => ⟨key.1, key.2, revision, r.contentHash, r.matchMode, r.compiled⟩)

def getActive (t : Tables) (key : Key) : Option RuleRevision :=
  (t.activations key).bind (fun a => (t.revisions (key, a.revision)).map (fun r =>
    ⟨key.1, key.2, a.revision, r.contentHash, r.matchMode, r.compiled⟩))

end Postgres

end FlowRule.Activation
