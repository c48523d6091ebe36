import FlowRule.Activation.Postgres
import FlowRule.Lib.Checks
import FlowRule.Lib.Handle
import FlowRule.Lib.Machine
import FlowRule.Rules.Compiler

/- Calls of Activate and Deactivate one after another on PostgreSQL. A revision that is stored
   is never replaced (ON CONFLICT DO NOTHING), so an Activate of a number that is taken
   activates what was stored under it first (`active_is_posted_iff`). A statement may fail
   at any point, without effect. -/
namespace FlowRule.Activation

namespace Postgres

open Prog Keyed

/-- A call with the failures of its statements, in the order in which it issues them. -/
inductive Call where
  | activate (key : Key) (source : RawMessage) (actor : String) (now : Time) (faults : List (Option Err))
  | deactivate (key : Key) (faults : List (Option Err))

def answer (columns : Columns) (o : Op) (st : Tables × Session × List (Option Err)) :
    Except Err o.Res × (Tables × Session × List (Option Err)) :=
  match exec columns st.1 [] st.2.1 o st.2.2.head?.join with
  | some (t, s, a) => (a, (t, s, st.2.2.tail))
  | none => (.error (.msg "waiting for a lock"), st)

section
variable (columns : Columns) (compile : RawMessage → Except Err RuleRevision)

def serve (t : Tables) : Call → Except Err Unit × Tables
  | .activate key source actor now faults =>
    let out := handle (answer columns) (activate compile key source actor now) (t, .idle, faults)
    (out.1.map (fun _ => ()), out.2.1)
  | .deactivate key faults =>
    let out := handle (answer columns) (deactivate key) (t, .idle, faults)
    (out.1, out.2.1)

/-- The tables after a call that failed; a call that succeeds is not among these. -/
def failing (t : Tables) (c : Call) : Option Tables :=
  match serve columns compile t c with
  | (.error _, t') => some t'
  | (.ok _, _) => none

end

/-! What a call leaves. -/

section
variable {columns : Columns} {t : Tables} {s : Session} {faults : List (Option Err)}

theorem wp_call_answer {action : String} {o : Op}
    {Q : Tables × Session × List (Option Err) → Except Err o.Res → Prop}
    (herr : ∀ e s' faults', Q (t, s', faults') (.error e))
    (hok : ∀ t' s' a faults', perform columns t [] s o = some (t', s', a) →
      Q (t', s', faults') (a.mapError (Err.wrap action))) :
    wp (handler (answer columns)) (call action o) Q (t, s, faults) := by
  rw [call, wp_wrap, wp_call]
  refine ⟨trivial, ?_⟩
  intro a st ha
  unfold handler answer exec at ha
  simp only at ha
  cases hf : faults.head?.join with
  | some e =>
    rw [hf] at ha
    cases ha
    exact herr _ _ _
  | none =>
    rw [hf] at ha
    cases hp : perform columns t [] s o with
    | none =>
      simp only [hp] at ha
      cases ha
      exact herr _ _ _
    | some r =>
      obtain ⟨t', s', a'⟩ := r
      simp only [hp] at ha
      cases ha
      exact hok t' s' a _ hp

@[simp] theorem sees_idle : Session.idle.sees t = t := by
  simp [Session.sees, Session.idle, Tables.onto, Tables.empty]

def activated (t : Tables) (key : Key) (revision : RuleRevision) (compiled : List CompiledRule) (row : ActivationRow) :
    Tables where
  revisions := insertNew t.revisions (key, revision.revision) ⟨revision.contentHash, revision.matchMode, compiled⟩
  activations := Function.update t.activations key (some row)

structure Saved (t : Tables) (s : Session) (key : Key) (revision : RuleRevision) (compiled : List CompiledRule) :
    Prop where
  revisions : (s.sees t).revisions =
    insertNew t.revisions (key, revision.revision) ⟨revision.contentHash, revision.matchMode, compiled⟩
  activations : s.own.activations = fun _ => none

variable {key : Key} {revision : RuleRevision} {compiled : List CompiledRule}

theorem Saved.sees (h : Saved t s key revision compiled) : (s.sees t).activations = t.activations := by
  simp [Session.sees, Tables.onto, h.activations]

theorem Saved.isNone
    (h : Saved t s key revision compiled) : ((s.sees t).revisions (key, revision.revision)).isNone = false := by
  rw [h.revisions]
  unfold insertNew
  split
  · rename_i hthere
    rw [Option.isNone_eq_false_iff]
    exact hthere
  · simp

theorem Saved.sees_activated (h : Saved t s key revision compiled) (row : ActivationRow) :
    (s.putActivation key row).sees t = activated t key revision compiled row := by
  have hact : ((s.putActivation key row).sees t).activations = Function.update t.activations key (some row) := by
    funext k
    by_cases hk : k = key
    · subst hk
      simp [Session.sees, Session.putActivation, Tables.onto]
    · simp [Session.sees, Session.putActivation, Tables.onto, hk, h.activations]
  show (⟨(s.sees t).revisions, ((s.putActivation key row).sees t).activations⟩ : Tables) = _
  rw [hact, h.revisions]
  rfl

theorem perform_save {source : RawMessage} {t' : Tables} {s' : Session}
    {a : Except Err Unit} (h : perform columns t [] .idle (.save source (posted key revision)) = some (t', s', a)) :
    (∃ e, a = .error e ∧ t' = t) ∨
      (a = .ok () ∧ t' = t ∧ ∃ compiled, columns source (posted key revision) = .ok compiled ∧
        Saved t s' key revision compiled) := by
  simp only [perform] at h
  cases hc : columns source (posted key revision) with
  | error e =>
    rw [hc] at h
    cases h
    exact .inl ⟨_, rfl, rfl⟩
  | ok compiled =>
    simp only [hc, revisionKey_posted, sees_idle, List.any_nil, Bool.false_eq_true, if_false] at h
    split at h
    · rename_i hthere
      cases h
      refine .inr ⟨rfl, rfl, compiled, rfl, ⟨?_, rfl⟩⟩
      rw [sees_idle, insertNew, if_pos hthere]
    · rename_i hfree
      cases h
      refine .inr ⟨rfl, rfl, compiled, rfl, ⟨?_, rfl⟩⟩
      rw [insertNew, if_neg hfree]
      funext k
      by_cases hk : k = (key, revision.revision)
      · subst hk
        simp [Session.sees, Session.putRevision, Tables.onto, posted]
      · simp [Session.sees, Session.putRevision, Tables.onto, hk, Session.idle, Tables.empty]

theorem perform_setWithVersion
    (hs : Saved t s key revision compiled) {actor : String} {now : Time} {t' : Tables} {s' : Session}
    {a : Except Err Unit}
    (h : perform columns t [] s (.setWithVersion key
      ⟨revision.revision, versionOf (t.activations key) + 1, actor, now⟩ (versionOf (t.activations key))) =
        some (t', s', a)) :
    a = .ok () ∧ t' = t ∧ s'.sees t = activated t key revision compiled
      ⟨revision.revision, versionOf (t.activations key) + 1, actor, now⟩ := by
  simp only [perform, List.any_nil, Bool.false_eq_true, if_false, hs.sees, hs.isNone] at h
  cases hcur : t.activations key with
  | none | some current =>
    simp only [hcur, versionOf, ne_eq, not_true_eq_false, if_false] at h
    cases h
    exact ⟨rfl, rfl, hs.sees_activated _⟩

variable (columns t s faults) in
/-- An activation saves its revision, unless one is stored under the number, and points the
    rule set to it; if it fails it leaves the tables. -/
theorem activateWithCAS_wp (key : Key) (source : RawMessage) (revision : RuleRevision) (actor : String) (now : Time) :
    wp (handler (answer columns)) (activateWithCAS key source (posted key revision) actor now) (fun st r =>
      match r with
      | .error _ => st.1 = t
      | .ok row => row.revision = revision.revision ∧ ∃ compiled, columns source (posted key revision) = .ok compiled ∧
        st.1 = activated t key revision compiled row) (t, s, faults) := by
  unfold activateWithCAS
  rw [wp_bind]
  refine wp_call_answer (fun e s' faults' => rfl) ?_
  intro t₁ s₁ a₁ faults₁ h₁
  cases h₁
  rw [wp_bind]
  refine wp_call_answer (fun e s' faults' => rfl) ?_
  intro t₂ s₂ a₂ faults₂ h₂
  rcases perform_save h₂ with ⟨e, rfl, rfl⟩ | ⟨rfl, rfl, compiled, hcol, hsaved⟩
  · rfl
  show wp _ (_ >>= _) _ _
  rw [wp_bind]
  refine wp_call_answer (fun e s' faults' => rfl) ?_
  intro t₃ s₃ a₃ faults₃ h₃
  cases h₃
  rw [hsaved.sees]
  show wp _ (_ >>= _) _ _
  rw [wp_bind]
  refine wp_call_answer (fun e s' faults' => rfl) ?_
  intro t₄ s₄ a₄ faults₄ h₄
  obtain ⟨rfl, rfl, hsees⟩ := perform_setWithVersion hsaved h₄
  show wp _ (_ >>= _) _ _
  rw [wp_bind]
  refine wp_call_answer (fun e s' faults' => rfl) ?_
  intro t₅ s₅ a₅ faults₅ h₅
  cases h₅
  exact ⟨rfl, compiled, hcol, hsees⟩

variable (columns t s faults) in
theorem deactivate_wp (key : Key) :
    wp (handler (answer columns)) (deactivate key) (fun st r =>
      match r with
      | .error _ => st.1 = t
      | .ok _ => st.1 = { t with activations := Function.update t.activations key none }) (t, s, faults) := by
  unfold deactivate
  rw [wp_bind]
  refine wp_call_answer (fun e s' faults' => rfl) ?_
  intro t₁ s₁ a₁ faults₁ h₁
  cases h₁
  show wp _ (Prog.call _) _ _
  rw [wp_call]
  refine ⟨trivial, ?_⟩
  intro a st ha
  unfold handler answer exec at ha
  simp only at ha
  cases hf : faults₁.head?.join with
  | some e =>
    rw [hf] at ha
    cases ha
    rfl
  | none =>
    simp only [hf, perform, List.any_nil, Bool.false_eq_true, and_false, if_false] at ha
    cases ha
    rfl

end

section
variable {columns : Columns} {compile : RawMessage → Except Err RuleRevision} {t : Tables}

variable (columns compile t) in
/-- What an Activate leaves: nothing when it fails, and else its revision's number. -/
theorem serve_activate (key : Key) (source : RawMessage) (actor : String) (now : Time) (faults : List (Option Err)) :
    match serve columns compile t (.activate key source actor now faults) with
    | (.error _, t') => t' = t
    | (.ok _, t') => ∃ revision compiled row, compile source = .ok revision ∧
      columns source (posted key revision) = .ok compiled ∧ row.revision = revision.revision ∧
      t' = activated t key revision compiled row := by
  cases hc : compile source with
  | error e =>
    simp only [serve, activate, hc]
    rfl
  | ok revision =>
    have hrun := handle_of_wp (activateWithCAS_wp columns t .idle faults key source revision actor now)
    have hsame : handle (answer columns) (activate compile key source actor now) (t, .idle, faults) =
        handle (answer columns) (activateWithCAS key source (posted key revision) actor now) (t, .idle, faults) := by
      rw [activate, hc]
      rfl
    simp only [serve, hsame]
    generalize handle (answer columns) (activateWithCAS key source (posted key revision) actor now)
      (t, .idle, faults) = out at hrun
    obtain ⟨r, st⟩ := out
    cases r with
    | error e => exact hrun
    | ok row =>
      obtain ⟨hrow, compiled, hcol, hst⟩ := hrun
      exact ⟨revision, compiled, row, rfl, hcol, hrow, hst⟩

theorem serve_failed {c : Call} {e : Err} {t' : Tables} (h : serve columns compile t c = (.error e, t')) : t' = t := by
  cases c with
  | activate key source actor now faults =>
    have hrun := serve_activate columns compile t key source actor now faults
    rw [h] at hrun
    exact hrun
  | deactivate key faults =>
    have hrun := handle_of_wp (deactivate_wp columns t .idle faults key)
    simp only [serve, Prod.mk.injEq] at h
    obtain ⟨hr, rfl⟩ := h
    rw [hr] at hrun
    exact hrun

theorem run_failing {cs : List Call} {t' : Tables} (h : Machine.run (failing columns compile) t cs = some t') :
    t' = t := by
  refine Machine.run_invariant (fun u => u = t) rfl ?_ h
  rintro a c b rfl hb
  unfold failing at hb
  split at hb
  · rename_i e u hserve
    cases hb
    exact serve_failed hserve
  · cases hb

end

/-! What is active. -/

/-- The active revision has the content hash and the match mode of the one that was posted,
    and its rules as the column gives them back. -/
def IsPosted (columns : Columns) (key : Key) (source : RawMessage) (revision : RuleRevision)
    (active : Option RuleRevision) : Prop :=
  ∃ rev, active = some rev ∧ rev.contentHash = revision.contentHash ∧ rev.matchMode = revision.matchMode ∧
    columns source (posted key revision) = .ok rev.compiled

/-- What is stored under the number of the revision, if anything, is the same. -/
def SameStored (columns : Columns) (t : Tables) (key : Key) (source : RawMessage) (revision : RuleRevision) : Prop :=
  ∀ row, t.revisions (key, revision.revision) = some row → row.contentHash = revision.contentHash ∧
    row.matchMode = revision.matchMode ∧ columns source (posted key revision) = .ok row.compiled

theorem getActive_activated {t : Tables} {key : Key} {revision : RuleRevision} {compiled : List CompiledRule}
    {row : ActivationRow} (hrow : row.revision = revision.revision) :
    getActive (activated t key revision compiled row) key =
      (insertNew t.revisions (key, revision.revision) ⟨revision.contentHash, revision.matchMode, compiled⟩
        (key, revision.revision)).map (fun r =>
          ⟨key.1, key.2, revision.revision, r.contentHash, r.matchMode, r.compiled⟩) := by
  simp [getActive, activated, hrow]

/-- After an Activate that succeeds, whatever is stored before it, and until the next call
    that succeeds, the active revision is the one that was posted exactly when nothing else
    was stored under its number. -/
theorem active_is_posted_iff (columns : Columns) (compile : RawMessage → Except Err RuleRevision) {t t' t'' : Tables}
    {key : Key} {source : RawMessage} {actor : String} {now : Time} {faults : List (Option Err)}
    {revision : RuleRevision} {later : List Call} (hrev : compile source = .ok revision)
    (hok : serve columns compile t (.activate key source actor now faults) = (.ok (), t'))
    (hlater : Machine.run (failing columns compile) t' later = some t'') :
    IsPosted columns key source revision (getActive t'' key) ↔ SameStored columns t key source revision := by
  obtain rfl := run_failing hlater
  have hserve := serve_activate columns compile t key source actor now faults
  rw [hok] at hserve
  obtain ⟨revision', compiled, row, hrev', hcol, hrow, rfl⟩ := hserve
  obtain rfl : revision = revision' := Except.ok.inj (hrev.symm.trans hrev')
  rw [getActive_activated hrow]
  cases hstored : t.revisions (key, revision.revision) with
  | none =>
    -- the number was free, and so the row is the posted one
    have hnew : insertNew t.revisions (key, revision.revision)
        ⟨revision.contentHash, revision.matchMode, compiled⟩ (key, revision.revision) =
        some ⟨revision.contentHash, revision.matchMode, compiled⟩ := by
      simp [insertNew, hstored]
    rw [hnew]
    refine iff_of_true ⟨_, rfl, rfl, rfl, hcol⟩ ?_
    intro row' hrow'
    rw [hstored] at hrow'
    cases hrow'
  | some old =>
    rw [insertNew_keep hstored]
    constructor
    · rintro ⟨rev, hrev, hhash, hmode, hcompiled⟩
      cases hrev
      intro row' hrow'
      cases hstored.symm.trans hrow'
      exact ⟨hhash, hmode, hcompiled⟩
    · intro hsame
      obtain ⟨hhash, hmode, hcompiled⟩ := hsame old hstored
      exact ⟨_, rfl, hhash, hmode, hcompiled⟩

end Postgres

/-! Two sources that name the same revision. -/

namespace TwoSources

def rulesText (limit : String) : RawMessage :=
  "[\x7b\"id\":\"big\",\"name\":\"big order\",\"priority\":1,\"when\":\x7b\"path\":\"order.total\",\"op\":\"gt\"," ++
    "\"value\":" ++ limit ++
    "\x7d,\"then\":[\x7b\"emit\":\x7b\"topic\":\"alerts\",\"data\":\x7b\"order\": 5\x7d\x7d\x7d]\x7d]"

def source (limit : String) : RawMessage :=
  "\x7b\"rule_set\":\"orders\",\"revision\":1,\"mode\":\"first_match\",\"rules\":" ++ rulesText limit ++ "\x7d"

def rule (limit : String) : Rules.RawRule where
  id := "big"
  name := "big order"
  priority := 1
  when := .mk none none none "order.total" "gt" (some (.num limit))
  then_ := [⟨some ⟨"alerts", "\x7b\"order\": 5\x7d"⟩, none, none⟩]
  otherwise := []

/-- The decoders on the sources and the rules of two limits. -/
def codecOf (source rulesText : String → RawMessage) (rule : String → Rules.RawRule)
    (valid : RawMessage → Bool) : Rules.Codec where
  ruleSet text :=
    if text = source "100" then .ok ⟨"orders", 1, "first_match", rulesText "100"⟩
    else if text = source "200" then .ok ⟨"orders", 1, "first_match", rulesText "200"⟩
    else .error (.msg "another source")
  rules text :=
    if text = rulesText "100" then .ok [rule "100"]
    else if text = rulesText "200" then .ok [rule "200"]
    else .error (.msg "other rules")
  valid := valid
  payloadSize data := data.utf8ByteSize

def codec : Rules.Codec := codecOf source rulesText rule (fun _ => true)

def firstHash : String := "1b2f8e770bc2189b7ba5c2398fb40f802c7bd4b5774503fca968adc1b285565a"

def secondHash : String := "0f66eaff62498a9ef9c663e770e4344a795c905675506f63981b435b3d294a1d"

def compile (text : RawMessage) : Except Err RuleRevision :=
  Rules.compile codec Rules.defaultLimits (fun s => if s = source "100" then firstHash else secondHash) text

def columns : Postgres.Columns := fun _ revision => .ok revision.compiled

def key : Key := ("acme", "orders")

def first : Postgres.Call := .activate key (source "100") "api" 5 []

def second : Postgres.Call := .activate key (source "200") "api" 6 []

end TwoSources

open TwoSources

namespace Postgres

set_option maxRecDepth 4000 in
theorem first_is_posted :
    ∃ t' revision, serve columns compile .empty first = (.ok (), t') ∧
      compile (source "100") = .ok revision ∧
      IsPosted columns key (source "100") revision (getActive t' key) := by
  refine ⟨_, _, rfl, rfl, ?_⟩
  refine (@active_is_posted_iff columns compile .empty _ _ key
    (source "100") "api" 5 [] _ [] rfl rfl rfl).mpr ?_
  intro row hrow
  cases hrow

/-- The second source is activated with success, and the rules of the first one stay
    active. -/
theorem second_not_active :
    let out := serve columns compile
      (serve columns compile .empty first).2 second
    out.1 = .ok () ∧ (getActive out.2 key).map RuleRevision.contentHash = some firstHash ∧
      (compile (source "200")).map RuleRevision.contentHash = .ok secondHash := by
  decide +kernel

end Postgres

end FlowRule.Activation
