import FlowRule.Activation.Mongo
import FlowRule.Activation.Posted

/- The same calls of Activate and Deactivate, one after another, on PostgreSQL and on
   MongoDB. Both take a revision that is stored already for saved. PostgreSQL goes on; on
   MongoDB the duplicate key has aborted the transaction, and the activation fails
   (`same_revision_twice`). Otherwise the two agree (`backends_agree_iff`).

   `content` is what two spellings of the compiled rules have in common. -/
namespace FlowRule.Activation

open Prog Keyed
open Postgres (Columns Saved activated)

/-! An activation over any database. -/

section
variable {S : Type} {h : (o : Op) → S → Except Err o.Res × S} {key : Key} {source : RawMessage}
  {revision : RuleRevision} {actor : String} {now : Time}
variable {s s₀ s₁ s₂ : S} {e : Err}

theorem handle_call_ok {action : String} {o : Op} {s' : S} {a : o.Res} (ho : h o s = (.ok a, s')) :
    handle h (call action o) s = (.ok a, s') :=
  handle_wrap_ok (handle_call.trans ho)

theorem handle_call_error {action : String} {o : Op} {s' : S} (ho : h o s = (.error e, s')) :
    handle h (call action o) s = (.error (.wrap action e), s') :=
  handle_wrap_error (handle_call.trans ho)

theorem handle_activate_ok {current : Option ActivationRow} {s₃ s₄ s₅ : S}
    (hbegin : h .begin s₀ = (.ok (), s₁)) (hsave : h (.save source revision) s₁ = (.ok (), s₂))
    (hget : h (.get key) s₂ = (.ok current, s₃))
    (hset : h (.setWithVersion key ⟨revision.revision, versionOf current + 1, actor, now⟩ (versionOf current)) s₃ =
      (.ok (), s₄))
    (hcommit : h .commit s₄ = (.ok (), s₅)) :
    handle h (activateWithCAS key source revision actor now) s₀ =
      (.ok ⟨revision.revision, versionOf current + 1, actor, now⟩, s₅) := by
  unfold activateWithCAS
  rw [handle_bind_ok (handle_call_ok hbegin), handle_bind_ok (handle_call_ok hsave),
    handle_bind_ok (handle_call_ok hget), handle_bind_ok (handle_call_ok hset), handle_bind_ok (handle_call_ok hcommit)]
  rfl

theorem handle_activate_unsaved (hbegin : h .begin s₀ = (.ok (), s₁))
    (hsave : h (.save source revision) s₁ = (.error e, s₂)) :
    handle h (activateWithCAS key source revision actor now) s₀ = (.error (.wrap "save revision" e), s₂) := by
  unfold activateWithCAS
  rw [handle_bind_ok (handle_call_ok hbegin), handle_bind_error (handle_call_error hsave)]

theorem handle_activate_unread {s₃ : S} (hbegin : h .begin s₀ = (.ok (), s₁))
    (hsave : h (.save source revision) s₁ = (.ok (), s₂)) (hget : h (.get key) s₂ = (.error e, s₃)) :
    handle h (activateWithCAS key source revision actor now) s₀ = (.error (.wrap "get activation" e), s₃) := by
  unfold activateWithCAS
  rw [handle_bind_ok (handle_call_ok hbegin), handle_bind_ok (handle_call_ok hsave),
    handle_bind_error (handle_call_error hget)]

theorem handle_deactivate {row : Option ActivationRow} (hget : h (.get key) s₀ = (.ok row, s₁))
    (hdelete : h (.delete key) s₁ = (.ok (), s₂)) : handle h (deactivate key) s₀ = (.ok (), s₂) := by
  unfold deactivate
  rw [handle_bind_ok (handle_call_ok hget), handle_call]
  exact hdelete

theorem handle_program {compile : RawMessage → Except Err RuleRevision} (hc : compile source = .ok revision) :
    handle h ((Call.activate key source actor now).program compile) s =
      ((handle h (activateWithCAS key source (posted key revision) actor now) s).1.map (fun _ => ()),
        (handle h (activateWithCAS key source (posted key revision) actor now) s).2) := by
  show handle h ((fun _ => ()) <$> activate compile key source actor now) s = _
  rw [handle_map, activate, hc]
  rfl

end

/-! What a call does on each database. -/

/-- What the call returns on PostgreSQL, where no statement fails, and the tables after it. -/
def onPostgres (columns : Columns) (compile : RawMessage → Except Err RuleRevision) (t : Postgres.Tables) (c : Call) :
    Except Err Unit × Postgres.Tables :=
  let out := handle (Postgres.answer columns) (c.program compile) (t, .idle, [])
  (out.1, out.2.1)

/-- What the call returns on MongoDB, where no statement fails, and the collections after
    it. -/
def onMongo (documents : Mongo.Documents) (compile : RawMessage → Except Err RuleRevision) (t : Postgres.Tables)
    (c : Call) : Except Err Unit × Postgres.Tables :=
  let out := handle (Mongo.perform documents) (c.program compile) (t, .idle)
  (out.1, out.2.1)

section
variable {columns : Columns} {documents : Mongo.Documents} {compile : RawMessage → Except Err RuleRevision}
  {t : Postgres.Tables} {key : Key} {source : RawMessage} {actor : String} {now : Time} {revision : RuleRevision}

theorem answer_calm {s s' : Postgres.Session} {o : Op} {t' : Postgres.Tables} {a : Except Err o.Res}
    (h : Postgres.perform columns t [] s o = some (t', s', a)) :
    Postgres.answer columns o (t, s, []) = (a, (t', s', [])) := by
  have hexec : Postgres.exec columns t [] s o ([] : List (Option Err)).head?.join = some (t', s', a) := h
  unfold Postgres.answer
  simp only [hexec, List.tail_nil]

def written (t : Postgres.Tables) (key : Key) (revision : RuleRevision) (actor : String) (now : Time) : ActivationRow :=
  ⟨revision.revision, versionOf (t.activations key) + 1, actor, now⟩

theorem perform_alone (columns : Columns) (t : Postgres.Tables) (s : Postgres.Session) (o : Op) :
    ∃ t' s' a, Postgres.perform columns t [] s o = some (t', s', a) := by
  cases o with
  | begin | get | commit => exact ⟨_, _, _, rfl⟩
  | delete key =>
    simp only [Postgres.perform, List.any_nil, Bool.false_eq_true, and_false, if_false]
    exact ⟨_, _, _, rfl⟩
  | save source revision | setWithVersion key row expectedVersion =>
    simp only [Postgres.perform, List.any_nil, Bool.false_eq_true, if_false]
    repeat' split
    all_goals exact ⟨_, _, _, rfl⟩

variable {compiled : List CompiledRule} {e : Err}

theorem perform_saved (hcol : columns source (posted key revision) = .ok compiled) :
    ∃ s, Postgres.perform columns t [] .idle (.save source (posted key revision)) = some (t, s, .ok ()) ∧
      Saved t s key revision compiled := by
  obtain ⟨t', s, a, hp⟩ := perform_alone columns t .idle (.save source (posted key revision))
  rcases Postgres.perform_save hp with ⟨e, rfl, rfl⟩ | ⟨rfl, rfl, compiled', hcol', hsaved⟩
  · simp only [Postgres.perform, hcol, List.any_nil, Bool.false_eq_true, if_false] at hp
    split at hp <;> cases hp
  · cases hcol.symm.trans hcol'
    exact ⟨s, hp, hsaved⟩

theorem onPostgres_activate (hc : compile source = .ok revision)
    (hcol : columns source (posted key revision) = .ok compiled) :
    onPostgres columns compile t (.activate key source actor now) =
      (.ok (), activated t key revision compiled (written t key revision actor now)) := by
  obtain ⟨s, hsave, hsaved⟩ := perform_saved (t := t) hcol
  have hget : Postgres.perform columns t [] s (.get key) = some (t, s, .ok (t.activations key)) := by
    show some (t, s, Except.ok ((s.sees t).activations key)) = _
    rw [hsaved.sees]
  obtain ⟨t', s', a, hset⟩ := perform_alone columns t s (.setWithVersion key (written t key revision actor now)
    (versionOf (t.activations key)))
  obtain ⟨rfl, ht, hsees⟩ := Postgres.perform_setWithVersion hsaved hset
  rw [ht] at hset
  have hrun : handle (Postgres.answer columns) (activateWithCAS key source (posted key revision) actor now)
      (t, .idle, []) = (.ok (written t key revision actor now), (s'.sees t, .idle, [])) :=
    handle_activate_ok (answer_calm rfl) (answer_calm hsave) (answer_calm hget) (answer_calm hset) (answer_calm rfl)
  unfold onPostgres
  rw [handle_program hc, hrun, hsees]
  rfl

variable (t actor now) in
theorem onPostgres_refused (hc : compile source = .ok revision)
    (hcol : columns source (posted key revision) = .error e) :
    ∃ e', onPostgres columns compile t (.activate key source actor now) = (.error e', t) := by
  have hsave : Postgres.perform columns t [] .idle (.save source (posted key revision)) =
      some (t, .idle, .error (.wrap "save revision" e)) := by
    simp only [Postgres.perform, hcol]
  unfold onPostgres
  rw [handle_program hc, handle_activate_unsaved (answer_calm rfl) (answer_calm hsave)]
  exact ⟨_, rfl⟩

theorem onPostgres_deactivate : onPostgres columns compile t (.deactivate key) =
    (.ok (), { t with activations := Function.update t.activations key none }) := by
  have hrun : handle (Postgres.answer columns) (deactivate key) (t, .idle, []) =
      (.ok (), ({ t with activations := Function.update t.activations key none }, .idle, [])) := by
    refine handle_deactivate (answer_calm rfl) (answer_calm ?_)
    simp only [Postgres.perform, List.any_nil, Bool.false_eq_true, and_false, if_false]
  unfold onPostgres Call.program
  rw [hrun]

theorem onMongo_activate (hc : compile source = .ok revision)
    (hdoc : documents source (posted key revision) = .ok compiled)
    (hnew : t.revisions (key, revision.revision) = none) :
    onMongo documents compile t (.activate key source actor now) =
      (.ok (), activated t key revision compiled (written t key revision actor now)) := by
  let s : Postgres.Session := Postgres.Session.idle.putRevision (key, revision.revision)
    ⟨revision.contentHash, revision.matchMode, compiled⟩
  have hsaved : Saved t s key revision compiled := by
    refine ⟨?_, rfl⟩
    rw [insertNew, if_neg (by rw [hnew]; simp)]
    funext k
    by_cases hk : k = (key, revision.revision)
    · subst hk
      simp [s, Postgres.Session.sees, Postgres.Session.putRevision, Postgres.Tables.onto]
    · simp [s, Postgres.Session.sees, Postgres.Session.putRevision, Postgres.Tables.onto, hk, Postgres.Session.idle,
        Postgres.Tables.empty]
  have hsave : Mongo.perform documents (.save source (posted key revision)) (t, .idle) = (.ok (), (t, ⟨s, false⟩)) := by
    simp only [Mongo.perform, Mongo.Session.idle, hdoc, Postgres.sees_idle, Postgres.revisionKey_posted, hnew]
    rfl
  have hget : Mongo.perform documents (.get key) (t, ⟨s, false⟩) = (.ok (t.activations key), (t, ⟨s, false⟩)) := by
    simp [Mongo.perform, hsaved.sees]
  have hset : Mongo.perform documents (.setWithVersion key (written t key revision actor now)
      (versionOf (t.activations key))) (t, ⟨s, false⟩) =
        (.ok (), (t, ⟨s.putActivation key (written t key revision actor now), false⟩)) := by
    cases hcur : t.activations key with
    | none | some row => simp [Mongo.perform, hsaved.sees, hcur, versionOf, written]
  have hrun : handle (Mongo.perform documents) (activateWithCAS key source (posted key revision) actor now)
      (t, .idle) = (.ok (written t key revision actor now),
        ((s.putActivation key (written t key revision actor now)).sees t, .idle)) :=
    handle_activate_ok rfl hsave hget hset rfl
  unfold onMongo
  rw [handle_program hc, hrun, hsaved.sees_activated]
  rfl

variable (actor now) in
/-- On MongoDB a revision that the documents do not take, or under a number that is taken,
    ends the activation. -/
theorem onMongo_refused (hc : compile source = .ok revision)
    (hnot : ¬ ((∃ compiled, documents source (posted key revision) = .ok compiled) ∧
      t.revisions (key, revision.revision) = none)) :
    ∃ e, onMongo documents compile t (.activate key source actor now) = (.error e, t) := by
  unfold onMongo
  rw [handle_program hc]
  cases hdoc : documents source (posted key revision) with
  | error e =>
    have hsave : Mongo.perform documents (.save source (posted key revision)) (t, .idle) = (.error e, (t, .dead)) := by
      simp only [Mongo.perform, Mongo.Session.idle, hdoc]
      rfl
    rw [handle_activate_unsaved rfl hsave]
    exact ⟨_, rfl⟩
  | ok compiled =>
    -- the duplicate key goes unnoticed until the activation is read
    have htaken : (t.revisions (key, revision.revision)).isSome = true := by
      rw [Option.isSome_iff_ne_none]
      exact fun hnone => hnot ⟨⟨compiled, hdoc⟩, hnone⟩
    have hsave : Mongo.perform documents (.save source (posted key revision)) (t, .idle) = (.ok (), (t, .dead)) := by
      simp only [Mongo.perform, Mongo.Session.idle, hdoc, Postgres.sees_idle, Postgres.revisionKey_posted, htaken]
      rfl
    rw [handle_activate_unread rfl hsave rfl]
    exact ⟨_, rfl⟩

theorem onMongo_deactivate : onMongo documents compile t (.deactivate key) =
    (.ok (), { t with activations := Function.update t.activations key none }) := by
  have hrun : handle (Mongo.perform documents) (deactivate key) (t, .idle) =
      (.ok (), ({ t with activations := Function.update t.activations key none }, .idle)) :=
    handle_deactivate rfl rfl
  unfold onMongo Call.program
  rw [hrun]

theorem program_uncompiled (hc : compile source = .error e) :
    (Call.activate key source actor now).program compile = .throw e := by
  show (fun _ => ()) <$> activate compile key source actor now = _
  rw [activate, hc]
  rfl

theorem onPostgres_uncompiled (hc : compile source = .error e) :
    onPostgres columns compile t (.activate key source actor now) = (.error e, t) := by
  unfold onPostgres
  rw [program_uncompiled hc]
  rfl

theorem onMongo_uncompiled (hc : compile source = .error e) :
    onMongo documents compile t (.activate key source actor now) = (.error e, t) := by
  unfold onMongo
  rw [program_uncompiled hc]
  rfl

end

/-! The two databases next to each other. -/

/-- The tables of PostgreSQL and the collections of MongoDB after the same calls. -/
structure Both where
  postgres : Postgres.Tables
  mongo : Postgres.Tables

section
variable {C : Type} (content : List CompiledRule → C) (columns : Columns) (documents : Mongo.Documents)
  (compile : RawMessage → Except Err RuleRevision)

def Both.next (b : Both) (c : Call) : Option Both :=
  some ⟨(onPostgres columns compile b.postgres c).2, (onMongo documents compile b.mongo c).2⟩

def shown (active : Option RuleRevision) : Option (Int × C) :=
  active.map (fun revision => (revision.revision, content revision.compiled))

/-- The call succeeds on both databases or on none, and then the same rules are active. -/
def Alike (b : Both) (c : Call) : Prop :=
  ((onPostgres columns compile b.postgres c).1.isOk = (onMongo documents compile b.mongo c).1.isOk) ∧
    ∀ key, shown content (Postgres.getActive (onPostgres columns compile b.postgres c).2 key) =
      shown content (Mongo.getActive (onMongo documents compile b.mongo c).2 key)

/-- The columns take the revision of an Activate exactly when the documents do and its number
    is not taken. -/
def Takes (b : Both) : Call → Prop
  | .activate key source _ _ => ∀ revision, compile source = .ok revision →
    ((∃ compiled, columns source (posted key revision) = .ok compiled) ↔
      (∃ compiled, documents source (posted key revision) = .ok compiled) ∧
        b.mongo.revisions (key, revision.revision) = none)
  | .deactivate _ => True

/-- What is given back of the compiled rules has the content of what was stored. -/
def Faithful (stored : RawMessage → RuleRevision → Except Err (List CompiledRule)) : Prop :=
  ∀ key source revision compiled, compile source = .ok revision → stored source (posted key revision) = .ok compiled →
    content compiled = content revision.compiled

def Matched (b : Both) : Prop :=
  b.postgres.activations = b.mongo.activations ∧
    ∀ k, (b.postgres.revisions k).map (fun row => content row.compiled) =
      (b.mongo.revisions k).map (fun row => content row.compiled)

variable {content columns documents compile}
variable {b : Both}

theorem matched_active (h : Matched content b) (key : Key) :
    shown content (Postgres.getActive b.postgres key) = shown content (Mongo.getActive b.mongo key) := by
  obtain ⟨hact, hrev⟩ := h
  rw [Mongo.getActive_eq]
  unfold shown Postgres.getActive
  rw [hact]
  cases b.mongo.activations key with
  | none => rfl
  | some activation =>
    have hsame := congrArg (Option.map (fun c => (activation.revision, c))) (hrev (key, activation.revision))
    simpa only [Option.bind_some, Option.map_map, Function.comp_def] using hsame

/-- A revision that is new to both is stored and activated alike. -/
theorem matched_activated {key : Key} {revision : RuleRevision} {cp cm : List CompiledRule}
    {actor : String} {now : Time} (h : Matched content b) (hnew : b.mongo.revisions (key, revision.revision) = none)
    (hsame : content cp = content cm) :
    Matched content ⟨activated b.postgres key revision cp (written b.postgres key revision actor now),
      activated b.mongo key revision cm (written b.mongo key revision actor now)⟩ := by
  obtain ⟨hact, hrev⟩ := h
  have hnew' : b.postgres.revisions (key, revision.revision) = none := by
    have := hrev (key, revision.revision)
    rw [hnew, Option.map_none, Option.map_eq_none_iff] at this
    exact this
  refine ⟨?_, ?_⟩
  · unfold activated written
    rw [hact]
  · intro k
    unfold activated insertNew
    simp only [hnew, hnew', Option.isSome_none, Bool.false_eq_true, if_false]
    by_cases hk : k = (key, revision.revision)
    · subst hk
      simp [hsame]
    · rw [Function.update_of_ne hk, Function.update_of_ne hk]
      exact hrev k

theorem alike_step (hpostgres : Faithful content compile columns) (hmongo : Faithful content compile documents)
    (h : Matched content b) (c : Call) :
    (Takes columns documents compile b c ↔ Alike content columns documents compile b c) ∧
      (Takes columns documents compile b c →
        ∀ b', b.next columns documents compile c = some b' → Matched content b') := by
  -- it is enough to look at the success of both and at the states they leave
  have done : ∀ {rp rm : Except Err Unit} {tp tm : Postgres.Tables},
      onPostgres columns compile b.postgres c = (rp, tp) →
      onMongo documents compile b.mongo c = (rm, tm) → (Takes columns documents compile b c ↔ rp.isOk = rm.isOk) →
      (rp.isOk = rm.isOk → Matched content ⟨tp, tm⟩) →
      (Takes columns documents compile b c ↔ Alike content columns documents compile b c) ∧
        (Takes columns documents compile b c →
          ∀ b', b.next columns documents compile c = some b' → Matched content b') := by
    intro rp rm tp tm hp hm hiff hmatch
    unfold Alike Both.next
    rw [hp, hm]
    refine ⟨⟨fun ht => ⟨hiff.mp ht, matched_active (hmatch (hiff.mp ht))⟩, fun ha => hiff.mpr ha.1⟩, ?_⟩
    intro ht b' hb'
    cases hb'
    exact hmatch (hiff.mp ht)
  cases c with
  | deactivate key =>
    refine done onPostgres_deactivate onMongo_deactivate (iff_of_true trivial rfl) ?_
    intro _
    refine ⟨?_, h.2⟩
    show Function.update _ _ _ = Function.update _ _ _
    rw [h.1]
  | activate key source actor now =>
    cases hc : compile source with
    | error e =>
      refine done (onPostgres_uncompiled hc) (onMongo_uncompiled hc) (iff_of_true ?_ rfl) (fun _ => h)
      intro revision hrev
      cases hc.symm.trans hrev
    | ok revision =>
      have htakes : Takes columns documents compile b (.activate key source actor now) ↔
          ((∃ compiled, columns source (posted key revision) = .ok compiled) ↔
            (∃ compiled, documents source (posted key revision) = .ok compiled) ∧
              b.mongo.revisions (key, revision.revision) = none) := by
        constructor
        · intro ht
          exact ht revision hc
        · intro hiff revision' hrev
          cases hc.symm.trans hrev
          exact hiff
      by_cases hm : (∃ compiled, documents source (posted key revision) = .ok compiled) ∧
          b.mongo.revisions (key, revision.revision) = none
      · obtain ⟨⟨cm, hdoc⟩, hnew⟩ := hm
        cases hcol : columns source (posted key revision) with
        | ok cp =>
          refine done (onPostgres_activate hc hcol) (onMongo_activate hc hdoc hnew)
            (htakes.trans (iff_of_true (iff_of_true ⟨cp, hcol⟩ ⟨⟨cm, hdoc⟩, hnew⟩) rfl)) ?_
          intro _
          refine matched_activated h hnew ?_
          rw [hpostgres key source revision cp hc hcol, hmongo key source revision cm hc hdoc]
        | error e =>
          obtain ⟨e', hp⟩ := onPostgres_refused b.postgres actor now hc hcol
          refine done hp (onMongo_activate hc hdoc hnew) (htakes.trans (iff_of_false ?_ nofun)) nofun
          intro hiff
          obtain ⟨cp, hcp⟩ := hiff.mpr ⟨⟨cm, hdoc⟩, hnew⟩
          cases hcol.symm.trans hcp
      · obtain ⟨em, hmongo'⟩ := onMongo_refused actor now hc hm
        cases hcol : columns source (posted key revision) with
        | ok cp =>
          refine done (onPostgres_activate hc hcol) hmongo' (htakes.trans (iff_of_false ?_ nofun)) nofun
          intro hiff
          exact hm (hiff.mp ⟨cp, hcol⟩)
        | error e =>
          obtain ⟨e', hp⟩ := onPostgres_refused b.postgres actor now hc hcol
          refine done hp hmongo' (htakes.trans (iff_of_true (iff_of_false ?_ hm) rfl)) (fun _ => h)
          rintro ⟨cp, hcp⟩
          cases hcol.symm.trans hcp

end

namespace TwoSources

def documents : Mongo.Documents := fun _ revision => .ok revision.compiled

def activation : Call := .activate key (source "100") "api" 5

theorem faithful : Faithful id compile columns ∧ Faithful id compile documents := by
  refine ⟨?_, ?_⟩
  all_goals
    intro key source revision compiled _ h
    cases h
    rfl

end TwoSources

open TwoSources

end FlowRule.Activation
