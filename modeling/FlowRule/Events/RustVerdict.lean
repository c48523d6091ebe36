import FlowRule.Events.Verdict

/- How a call of the Rust worker ends, for the same databases and the same outcomes of the
   storage calls. A context hides the text below it, so an error under one is permanent
   only if the context is; the texts of these contexts are not. -/
namespace FlowRule

open Prog

namespace Rust

/-- Contexts and messages in which none of the texts is found that are looked for. -/
def transientTexts : List String :=
  ["shard lease is not held by this worker", "shard lease expired or fencing token mismatch",
    "out of range integral type conversion attempted", "worker id and positive fencing token are required",
    "begin event transaction", "insert inbox row", "load active rule revision",
    "load tenant domain-service subscribers", "serialize subscribed event envelope", "persist execution",
    "persist outbox effect", "mark inbox committed", "commit event transaction",
    "commit duplicate acknowledgement transaction"]

theorem transient_text : ∀ text ∈ transientTexts, permanentText text = false := by decide +kernel

theorem transient_msg {text : String} (h : text ∈ transientTexts) : isPermanentEventError (.msg text) = false :=
  transient_text text h

theorem transient_wrap {context : String} (h : context ∈ transientTexts) :
    ∀ e, isPermanentEventError e = false → isPermanentEventError (e.wrap context) = false :=
  fun _ _ => transient_text context h

end Rust

open Rust

namespace Setting

open Rust (isPermanentEventError transientTexts)

section
variable {x : Setting} {R T U : Type} {p : Tx R} {k : R → Tx T} {k' : T → Tx U} {s : Session} {env : EventEnvelope}
  {C Q A : Prop} {post : R → Session → Prop}

theorem PlainErrors.rust (hd : x.PlainErrors) : ∀ call e, x.fails call = some e → isPermanentEventError e = false :=
  hd.display

theorem Part.under {context : String} (h : x.Part isPermanentEventError p s C post)
    (hc : context ∈ transientTexts := by simp [transientTexts]) :
    x.Part isPermanentEventError (p.wrap (Err.wrap context)) s C post :=
  h.mapped (transient_wrap hc)

theorem Transient.under {context : String} (h : Transient isPermanentEventError (x.run p s).1)
    (hc : context ∈ transientTexts := by simp [transientTexts]) :
    Transient isPermanentEventError (x.run (p.wrap (Err.wrap context)) s).1 :=
  h.mapped (transient_wrap hc)

theorem Decided.assoc {perm : Err → Bool} (h : x.Decided perm (p >>= fun r => k r >>= k') s Q A) :
    x.Decided perm ((p >>= k) >>= k') s Q A := by
  rw [bind_assoc]
  exact h

theorem rust_validate_permanent {e : Err} (h : validate env = .error e) : isPermanentEventError e = true := by
  unfold validate at h
  repeat' split at h
  all_goals cases h
  all_goals decide +kernel

/-- The lease is held by a worker that may ask for it: its name is not blank, and the shard
    fits its column. -/
def RustHeld (x : Setting) : Prop :=
  x.Held ∧ trimIsEmpty x.workerID = false ∧ x.shard < 2147483648

theorem part_assertLease (hd : x.PlainErrors) (hb : x.fails .begin = none) (htoken : 0 < x.fencingToken)
    (hname : trimIsEmpty x.workerID = false) :
    x.Part isPermanentEventError (assertLease x.shard x.workerID x.fencingToken) x.begun x.RustHeld
      (fun _ s' => s' = x.opened) := by
  by_cases hsmall : x.shard < 2147483648
  · refine .after (r := x.shard) (t := x.begun) (by rw [shardColumn, if_pos hsmall]; rfl) ⟨fun hx => ?_, fun hx => ?_⟩
    · obtain ⟨expires, hrow⟩ := leaseRow_held hx.1
      refine ⟨(), x.opened, (handle_bind_ok (run_lease hx.1.2.1)).trans ?_, rfl⟩
      simp only [hrow, Option.isSome_some, if_true, Bool.not_true, not_le.mpr htoken, decide_false, Bool.or_false,
        bne_self_eq_false, Bool.false_eq_true, if_false]
      rfl
    · by_cases hf : x.fails .lease = none
      · refine .after (run_lease hf) ?_
        cases hrow : x.leaseRow with
        | none => exact ⟨_, rfl, transient_msg (by simp [transientTexts])⟩
        | some row =>
          obtain ⟨current, expires, active⟩ := row
          have hbad : (!active || decide (x.fencingToken ≤ 0) || current != x.fencingToken) = true := by
            by_contra hgood
            simp only [Bool.or_eq_true, Bool.not_eq_true', decide_eq_true_eq, bne_iff_ne, ne_eq, not_or, not_not,
              Bool.not_eq_false] at hgood
            obtain ⟨⟨rfl, -⟩, rfl⟩ := hgood
            exact hx ⟨held_of_leaseRow hb hf htoken hrow, hname, hsmall⟩
          simp only [hbad, if_true]
          exact ⟨_, rfl, transient_msg (by simp [transientTexts])⟩
      · exact .bind (transient_fail hd.rust (by simp) hf)
  · refine ⟨fun hx => absurd hx.2.2 hsmall, fun _ => .bind ⟨.msg "out of range integral type conversion attempted", ?_,
      transient_msg (by simp [transientTexts])⟩⟩
    rw [shardColumn, if_neg hsmall]
    rfl

def rustClaimed (x : Setting) (env : EventEnvelope) : InboxRow :=
  ⟨.processing, none, x.db.now, none, env.partitionKey, env.type, env.data, none⟩

theorem part_insertInbox (hd : x.PlainErrors) :
    x.Part isPermanentEventError (insertInbox env x.db.now) x.opened (x.fails .inbox = none) (fun inserted s' =>
      if x.db.tables.inbox env.key = none then inserted = true ∧ s' = x.opened.putInbox env.key (x.rustClaimed env)
      else inserted = false ∧ s' = x.opened) := by
  cases hrow : x.db.tables.inbox env.key with
  | none =>
    refine (part_sql (o := .inboxInsert env.key (x.rustClaimed env)) (a := true)
      (t := x.opened.putInbox env.key (x.rustClaimed env)) hd.rust (by simp) rfl ?_ ?_).under
    · simp [perform, opened_sees, hrow]
    · simp
  | some row =>
    refine (part_sql (o := .inboxInsert env.key (x.rustClaimed env)) (a := false) (t := x.opened) hd.rust
      (by simp) rfl ?_
      ?_).under
    · simp [perform, opened_sees, hrow]
    · simp

/-- The execution of an event that is in the inbox, as far as the Rust worker looks. -/
def Executed (x : Setting) (env : EventEnvelope) : Prop :=
  ∃ row id, x.db.tables.inbox env.key = some row ∧ row.executionID = some id ∧ (x.db.tables.executions id).isSome

theorem run_inboxRow (env : EventEnvelope) (hf : x.fails .inbox = none) : x.run (sql (.inboxGet env.key)) x.opened =
    (.ok (x.db.tables.inbox env.key), (x.db, x.opened)) := by
  refine handle_sql (w := faulty x.fails x.clock) (o := .inboxGet env.key) hf rfl ?_
  simp [perform, opened_sees]

theorem run_executionExists (hf : x.fails .inbox = none) (id : String) :
    x.run (sql (.executionExists id)) x.opened = (.ok (x.db.tables.executions id).isSome, (x.db, x.opened)) := by
  refine handle_sql (w := faulty x.fails x.clock) (o := .executionExists id) hf rfl ?_
  simp [perform, opened_sees]

theorem run_duplicate (hf : x.fails .inbox = none) (h : x.Executed env) :
    ∃ id, x.run (loadDuplicateExecution env) x.opened = (.ok id, (x.db, x.opened)) := by
  obtain ⟨row, id, hrow, hid, hexec⟩ := h
  have hget := run_inboxRow env hf
  have hexists := run_executionExists hf id
  rw [hrow] at hget
  rw [hexec] at hexists
  refine ⟨id, (handle_bind_ok hget).trans ?_⟩
  simp only [Option.bind_some, hid]
  exact (handle_bind_ok hexists).trans rfl

theorem run_duplicate_missing (hf : x.fails .inbox = none) (h : ¬ x.Executed env) :
    ∃ e, (x.run (loadDuplicateExecution env) x.opened).1 = .error e ∧ isPermanentEventError e = true := by
  have hget := run_inboxRow env hf
  cases hid : (x.db.tables.inbox env.key).bind InboxRow.executionID with
  | none =>
    have hrun : x.run (loadDuplicateExecution env) x.opened =
        (.error (.msg "inbox duplicate has no committed execution; refusing unsafe acknowledgement"),
          (x.db, x.opened)) := by
      refine (handle_bind_ok hget).trans ?_
      simp only [hid]
      rfl
    exact ⟨_, congrArg Prod.fst hrun, by decide +kernel⟩
  | some id =>
    obtain ⟨row, hrow, hrowid⟩ := Option.bind_eq_some_iff.mp hid
    have hexists := run_executionExists hf id
    rw [Bool.eq_false_iff.mpr (fun hsome => h ⟨row, id, hrow, hrowid, hsome⟩)] at hexists
    have hrun : x.run (loadDuplicateExecution env) x.opened =
        (.error (.msg "inbox points to missing execution; refusing unsafe acknowledgement"), (x.db, x.opened)) := by
      refine (handle_bind_ok hget).trans ?_
      simp only [hid]
      exact (handle_bind_ok hexists).trans rfl
    exact ⟨_, congrArg Prod.fst hrun, by decide +kernel⟩

def revisionMissing (env : EventEnvelope) : String :=
  "active rule revision not found for tenant=" ++ env.tenantID ++ " rule_set=" ++ env.type

theorem run_rustRevision (env : EventEnvelope) (hf : x.fails .rules = none) (hs : s.state = .active) :
    x.run (loadActiveRevision env) s =
      (match x.db.refs.activeRevision env.tenantID env.type with
        | some revision => .ok revision
        | none => .error (.msg (revisionMissing env)), (x.db, s)) := by
  refine (handle_bind_ok (run_revision env hf hs)).trans ?_
  cases x.db.refs.activeRevision env.tenantID env.type with
  | none => rfl
  | some revision => rfl

def executionID (x : Setting) (env : EventEnvelope) (revision : RuleRevision) : String :=
  computeExecutionID x.eng.sha256Hex env.tenantID env.id env.type revision.revision

/-- What the Rust worker needs to store a decision. Its query has a row for every matching
    subscription, and its execution must be new. -/
structure RustPersists (x : Setting) (env : EventEnvelope) (revision : RuleRevision) (effects : List Effect) :
    Prop where
  subscribers : x.fails .subscribers = none
  few : (x.db.refs.joined env.tenantID env.type).length ≤ 100
  encoded : ∃ payload, x.eng.rustToValue env = .ok payload
  execution : x.fails .execution = none
  fresh : x.db.tables.executions (x.executionID env revision) = none
  outbox : x.fails .outbox = none ∨ (effects = [] ∧ x.db.refs.joined env.tenantID env.type = [])
  mark : x.fails .mark = none

/-- The session has the event's row in processing, and no execution of its own. -/
structure Claiming (x : Setting) (env : EventEnvelope) (s : Session) : Prop where
  state : s.state = .active
  row : ∃ row, (s.sees x.db).inbox env.key = some row ∧ row.status = .processing
  executions : (s.sees x.db).executions = x.db.tables.executions

section
variable {revision : RuleRevision}

theorem part_persistOutbox (hd : x.PlainErrors) (effects : List Effect) (hs : s.state = .active) (id : String) :
    x.Part isPermanentEventError (persistOutboxEffects id env.tenantID x.db.now effects) s
      (x.fails .outbox = none ∨ effects = []) (fun _ s' => s'.state = .active ∧ s'.own.inbox = s.own.inbox) := by
  constructor
  · rintro (hf | rfl)
    · obtain ⟨s', h, hw⟩ := rustOutboxInsert_wrote (w := faulty x.fails x.clock) (d := x.db) (fun _ _ => hf) id
        env.tenantID x.db.now effects hs
      exact ⟨(), s', h, hw.state.trans hs, hw.inbox⟩
    · exact ⟨(), s, rfl, hs, rfl⟩
  · intro h
    obtain ⟨hf, hne⟩ := not_or.mp h
    cases effects with
    | nil => exact absurd rfl hne
    | cons ef rest => exact .bind (.under (transient_fail hd.rust (by simp) hf))

theorem part_persistExecution (hd : x.PlainErrors) (hs : x.Claiming env s) (decisionHash : String) :
    x.Part isPermanentEventError
      (persistExecution (x.executionID env revision) env revision decisionHash x.db.now) s
      (x.fails .execution = none ∧ x.db.tables.executions (x.executionID env revision) = none)
      (fun _ s' => s'.state = .active ∧ s'.own.inbox = s.own.inbox) := by
  constructor
  · rintro ⟨hf, hfresh⟩
    obtain ⟨s', h, hw⟩ := executionInsert_wrote (w := faulty x.fails x.clock) (d := x.db) hs.state
      (x.executionID env revision) (⟨env.id, env.tenantID, env.type, revision.revision, decisionHash, .completed, none,
        none, x.db.now, some x.db.now⟩) false (Err.wrap "persist execution") hf (by simp [hs.executions, hfresh])
    exact ⟨(), s', h, hw.state.trans hs.state, hw.inbox⟩
  · intro h
    refine Transient.under ?_
    by_cases hf : x.fails .execution = none
    · have hthere : ((s.sees x.db).executions (x.executionID env revision)).isSome := by
        rw [hs.executions, Option.isSome_iff_ne_none]
        exact fun hnone => h ⟨hf, hnone⟩
      have hp : perform x.db [] s (.executionInsert (x.executionID env revision) ⟨env.id, env.tenantID, env.type,
          revision.revision, decisionHash, .completed, none, none, x.db.now, some x.db.now⟩ false) =
          some (x.db, s.close, .error (.msg "duplicate key value violates unique constraint")) := by
        simp [perform, hthere]
      have hrun := handle_sql (w := faulty x.fails x.clock)
          (o := .executionInsert (x.executionID env revision) _ false) hf
        hs.state hp
      exact ⟨_, congrArg Prod.fst hrun, by decide +kernel⟩
    · exact transient_fail hd.rust (by simp) hf

/-- Too many subscribers are a permanent error, and all else that is in the way of storing
    a decision is transient. -/
theorem decided_rustPersist (hd : x.PlainErrors) (hs : x.Claiming env s) (revision : RuleRevision)
    (matched : List String) (effects : List Effect) (outcome : ProcessOutcome) :
    x.Decided isPermanentEventError (do
      let subscribers ← loadServiceSubscriberEffects x.eng env
      persistExecution (x.executionID env revision) env revision
        (computeDecisionHash x.eng.sha256Hex revision.contentHash env.id "" matched effects) x.db.now
      persistOutboxEffects (x.executionID env revision) env.tenantID x.db.now (effects ++ subscribers)
      markInboxCommitted env (x.executionID env revision) x.db.now
      let _ ← (sql .commit).wrap (Err.wrap "commit event transaction")
      pure outcome) s
      (x.fails .subscribers = none ∧ 100 < (x.db.refs.joined env.tenantID env.type).length)
      (x.fails .commit = none ∧ x.RustPersists env revision effects) := by
  by_cases hsub : x.fails .subscribers = none
  swap
  · exact decided_transient (.bind (.bind (.under (transient_fail hd.rust (by simp) hsub)))) (fun h => hsub h.1)
      (fun h => hsub h.2.subscribers)
  have hlist := handle_loadSubscribers (w := faulty x.fails x.clock) (d := x.db) x.eng env hs.state hsub
  by_cases hfew : (x.db.refs.joined env.tenantID env.type).length ≤ 100
  swap
  · rw [if_pos (Nat.lt_of_not_le hfew)] at hlist
    have hp : isPermanentEventError (tooMany env.type) = true := permanentText_append (by decide +kernel)
    exact decided_error (run_bind_error (congrArg Prod.fst hlist)) (iff_of_true hp ⟨hsub, Nat.lt_of_not_le hfew⟩)
      (fun h => hfew h.2.few)
  have hmany : ¬ (x.fails .subscribers = none ∧ 100 < (x.db.refs.joined env.tenantID env.type).length) :=
    fun h => absurd h.2 (Nat.not_lt.mpr hfew)
  rw [if_neg (Nat.not_lt.mpr hfew)] at hlist
  cases hpayload : x.eng.rustToValue env with
  | error e =>
    rw [hpayload] at hlist
    have hcontext : permanentText "serialize subscribed event envelope" = false :=
      transient_text _ (by simp [transientTexts])
    refine decided_transient (.bind ⟨_, congrArg Prod.fst hlist, hcontext⟩) hmany ?_
    rintro ⟨-, h⟩
    obtain ⟨payload, hp⟩ := h.encoded
    rw [hpayload] at hp
    cases hp
  | ok payload =>
    rw [hpayload] at hlist
    refine .after hlist ((part_persistExecution hd hs _).decided (absurd · hmany) (fun h =>
      ⟨h.2.execution, h.2.fresh⟩) ?_)
    rintro ⟨hexec, hfresh⟩ _ s₁ ⟨hs₁, hi₁⟩
    refine (part_persistOutbox hd _ hs₁ _).decided (absurd · hmany) (fun h => h.2.outbox.imp_right ?_) ?_
    · rintro ⟨rfl, hnil⟩
      simp [hnil]
    rintro hout _ s₂ ⟨hs₂, hi₂⟩
    obtain ⟨row, hrow, hprocessing⟩ := hs.row
    have hrow₂ : (s₂.sees x.db).inbox env.key = some row := by
      rw [← hrow]
      simp only [Session.sees, Tables.onto, hi₂, hi₁]
    have hmark : x.Part isPermanentEventError (markInboxCommitted env (x.executionID env revision) x.db.now) s₂
        (x.fails .mark = none) (fun _ s' => s'.state = .active) := by
      refine ⟨fun hf => ?_, fun hf => .bind (.under (transient_fail hd.rust (by simp) hf))⟩
      obtain ⟨s₃, h₃, hs₃, -⟩ := rust_markCommitted (w := faulty x.fails x.clock) hs₂
        (x.executionID env revision) x.db.now
        hrow₂ hprocessing hf
      exact ⟨(), s₃, h₃, hs₃⟩
    refine hmark.decided (absurd · hmany) (fun h => h.2.mark) (fun hm _ s₃ hs₃ => ?_)
    refine decided_commit hd.rust (transient_wrap (by simp [transientTexts])) hs₃ hmany
      (and_iff_left ⟨hsub, hfew, ⟨payload, hpayload⟩, hexec, hfresh, ?_, hm⟩)
    exact hout.imp_right (by simp)

end

/-- The events whose error is permanent for the Rust worker: those that are not valid, those
    in the inbox without an execution, and new ones whose evaluation fails with one of the
    texts looked for or that have too many subscribers. The text about a missing revision
    holds the tenant and the type. -/
def RustQuarantines (x : Setting) (env : EventEnvelope) : Prop :=
  validate env ≠ .ok () ∨
    (x.RustHeld ∧ x.fails .inbox = none ∧
      ((x.db.tables.inbox env.key ≠ none ∧ ¬ x.Executed env) ∨
        (x.db.tables.inbox env.key = none ∧ x.fails .rules = none ∧
          match x.db.refs.activeRevision env.tenantID env.type with
          | none => permanentText (revisionMissing env) = true
          | some revision =>
            match x.eng.rustEvaluate x.clock revision env with
            | .error e => isPermanentEventError e = true
            | .ok _ => x.fails .subscribers = none ∧ 100 < (x.db.refs.joined env.tenantID env.type).length)))

/-- The events that are done for the Rust worker: those in the inbox with an execution, and
    new ones whose decision is stored. -/
def RustAcks (x : Setting) (env : EventEnvelope) : Prop :=
  validate env = .ok () ∧ x.RustHeld ∧ x.fails .inbox = none ∧ x.fails .commit = none ∧
    (x.Executed env ∨
      (x.db.tables.inbox env.key = none ∧ x.fails .rules = none ∧
        ∃ revision matched effects, x.db.refs.activeRevision env.tenantID env.type = some revision ∧
          x.eng.rustEvaluate x.clock revision env = .ok (matched, effects) ∧ x.RustPersists env revision effects))

theorem claiming_opened : x.Claiming env (x.opened.putInbox env.key (x.rustClaimed env)) where
  state := rfl
  row := ⟨x.rustClaimed env, by simp [Session.sees, Session.putInbox, Tables.onto], rfl⟩
  executions := by simp [Session.sees, Session.putInbox, Tables.onto, opened, Tables.empty]

theorem rust_new (hd : x.PlainErrors) (hx : x.RustHeld) (hf : x.fails .inbox = none) (hv : validate env = .ok ())
    (hnew : x.db.tables.inbox env.key = none) (hs : x.Claiming env s) :
    x.Decided isPermanentEventError (do
      let outcome ← persistNewEvent x.eng env x.db.now
      let _ ← (sql .commit).wrap (Err.wrap "commit event transaction")
      pure outcome) s (x.RustQuarantines env) (x.RustAcks env) := by
  have hunseen : ¬ x.Executed env := by
    rintro ⟨row, id, hrow, -⟩
    rw [hnew] at hrow
    cases hrow
  have hq : x.RustQuarantines env ↔ x.fails .rules = none ∧
      match x.db.refs.activeRevision env.tenantID env.type with
      | none => permanentText (revisionMissing env) = true
      | some revision =>
        match x.eng.rustEvaluate x.clock revision env with
        | .error e => isPermanentEventError e = true
        | .ok _ => x.fails .subscribers = none ∧ 100 < (x.db.refs.joined env.tenantID env.type).length := by
    simp only [RustQuarantines, hv, hx, hf, hnew, ne_eq, not_true_eq_false, false_or, false_and, true_and]
  have ha : x.RustAcks env ↔ x.fails .commit = none ∧ x.fails .rules = none ∧
      ∃ revision matched effects, x.db.refs.activeRevision env.tenantID env.type = some revision ∧
        x.eng.rustEvaluate x.clock revision env = .ok (matched, effects) ∧ x.RustPersists env revision effects := by
    simp only [RustAcks, hv, hx, hf, hnew, hunseen, false_or, true_and]
  rw [hq, ha]
  refine .assoc ?_
  by_cases hrules : x.fails .rules = none
  swap
  · exact decided_transient (.bind (.bind (.under (transient_fail hd.rust (by simp) hrules)))) (fun h => hrules h.1)
      (fun h => hrules h.2.1)
  have hload := run_rustRevision env hrules hs.state
  cases hrev : x.db.refs.activeRevision env.tenantID env.type with
  | none =>
    rw [hrev] at hload
    exact decided_error (run_bind_error (congrArg Prod.fst hload)) (and_iff_right hrules).symm (by simp)
  | some revision =>
    rw [hrev] at hload
    refine .after hload (.assoc (.after run_clock (.assoc ?_)))
    cases heval : x.eng.rustEvaluate x.clock revision env with
    | error e => exact decided_error (e := e) rfl (by simp only [heval, hrules, true_and]) (by simp [heval])
    | ok decided =>
      obtain ⟨matched, effects⟩ := decided
      refine Decided.iff (.after (r := (matched, effects)) (t := s) rfl (.assoc ?_))
        (Q := x.fails .subscribers = none ∧ 100 < (x.db.refs.joined env.tenantID env.type).length)
        (A := x.fails .commit = none ∧ x.RustPersists env revision effects) (by simp [heval, hrules])
        (by simp [heval, hrules])
      simp only [bind_assoc]
      exact decided_rustPersist hd hs revision matched effects _

/-- What is left of a call of the Rust worker once the lease is checked. -/
theorem rust_opened (hd : x.PlainErrors) (hx : x.RustHeld) (hv : validate env = .ok ()) :
    x.Decided isPermanentEventError (do
      let inserted ← insertInbox env x.db.now
      if inserted then
        let outcome ← persistNewEvent x.eng env x.db.now
        let _ ← (sql .commit).wrap (Err.wrap "commit event transaction")
        pure outcome
      else
        let executionID ← loadDuplicateExecution env
        let _ ← (sql .commit).wrap (Err.wrap "commit duplicate acknowledgement transaction")
        pure (.duplicate executionID)) x.opened (x.RustQuarantines env) (x.RustAcks env) := by
  refine (part_insertInbox hd).decided (fun h => (h.resolve_left (absurd hv)).2.1) (fun h => h.2.2.1) ?_
  intro hf inserted s' hpost
  by_cases hrow : x.db.tables.inbox env.key = none
  · rw [if_pos hrow] at hpost
    obtain ⟨rfl, rfl⟩ := hpost
    exact rust_new hd hx hf hv hrow claiming_opened
  · rw [if_neg hrow] at hpost
    obtain ⟨rfl, rfl⟩ := hpost
    have hq : x.RustQuarantines env ↔ ¬ x.Executed env := by
      simp [RustQuarantines, hv, hx, hf, hrow]
    have ha : x.RustAcks env ↔ x.fails .commit = none ∧ x.Executed env := by
      simp [RustAcks, hv, hx, hf, hrow]
    rw [hq, ha]
    by_cases hexec : x.Executed env
    · obtain ⟨id, hrun⟩ := run_duplicate hf hexec
      exact .after hrun (decided_commit hd.rust (transient_wrap (by simp [transientTexts])) rfl
        (not_not.mpr hexec) (and_iff_left hexec))
    · obtain ⟨e, he, hp⟩ := run_duplicate_missing hf hexec
      exact decided_error (run_bind_error he) (iff_of_true hp hexec) (fun h => hexec h.2)

/-- The Rust worker's call, on an event of the shard, is done for the events of `RustAcks`,
    and has a permanent error for those of `RustQuarantines`. -/
theorem rust_verdict (hd : x.PlainErrors) (env : EventEnvelope) {numShards : UInt32} (hn : numShards ≠ 0)
    (hshard : (env.virtualShard numShards).toNat = x.shard) :
    x.Decided isPermanentEventError (processEvent x.eng env x.workerID x.fencingToken numShards) .idle
      (x.RustQuarantines env) (x.RustAcks env) := by
  cases hv : validate env with
  | error e =>
    have hrun : (x.run (ofExcept (validate env)) .idle).1 = .error e := by
      rw [hv]
      rfl
    exact decided_error (run_bind_error hrun) (iff_of_true (rust_validate_permanent hv) (.inl (by simp [hv])))
      (fun h => by simp [RustAcks, hv] at h)
  | ok u =>
    refine .after (r := ()) (t := .idle) (by rw [hv]; rfl) ?_
    -- without the lease neither condition holds
    have hq : x.RustQuarantines env → x.RustHeld := fun h => (h.resolve_left (absurd hv)).1
    have ha : x.RustAcks env → x.RustHeld := fun h => h.2.1
    by_cases hname : trimIsEmpty x.workerID || decide (x.fencingToken ≤ 0)
    · have hx : ¬ x.RustHeld := by
        rintro ⟨hheld, hblank, -⟩
        rw [hblank, Bool.false_or, decide_eq_true_eq] at hname
        exact absurd hheld.2.2.1 (not_lt.mpr hname)
      have hrun : (x.run (ofExcept (validateWorkerLease x.workerID x.fencingToken)) .idle).1 =
          .error (.msg "worker id and positive fencing token are required") := by
        rw [validateWorkerLease, if_pos hname]
        rfl
      exact decided_transient (.bind ⟨_, hrun, transient_msg (by simp [transientTexts])⟩) (mt hq hx) (mt ha hx)
    · refine .after (r := ()) (t := .idle) (by rw [validateWorkerLease, if_neg hname]; rfl) ?_
      refine .after (r := env.virtualShard numShards) (t := .idle) (by rw [virtualShard, if_neg hn]; rfl) ?_
      rw [hshard]
      simp only [Bool.or_eq_true, decide_eq_true_eq, not_or, Bool.not_eq_true, not_le] at hname
      by_cases hb : x.fails .begin = none
      · refine .after (run_begin hb) ((part_assertLease hd hb hname.2 hname.1).decided hq ha ?_)
        rintro hx _ _ rfl
        exact rust_opened hd hx hv
      · have hx : ¬ x.RustHeld := fun hx => hb hx.1.1
        exact decided_transient (.bind (.under (transient_fail hd.rust (by simp) hb))) (mt hq hx) (mt ha hx)

end

end Setting

end FlowRule
