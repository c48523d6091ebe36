import FlowRule.Events.FanOut
import FlowRule.Lib.Checks

/- How a call ends on a database that nobody else uses, when a storage call of a kind fails for
   both workers or for none (`StorageCall`): the event is done, its error is permanent, or its
   error is transient. The Go worker reads the class of an error off its sentinels
   (internal/domain/errors.go), the Rust worker looks for texts in what the error displays
   (is_permanent_event_error of rust-worker/src/runtime/consumer.rs). -/
namespace FlowRule

open Prog

/-! Kinds of errors. -/

inductive Verdict where
  | done | permanent | transient
  deriving DecidableEq, Repr

/-- How a call has ended, for a worker that takes the errors of `perm` for permanent. -/
def verdict (perm : Err → Bool) {R : Type} : Except Err R → Verdict
  | .ok _ => .done
  | .error e => if perm e then .permanent else .transient

namespace Rust

def permanentNeedles : List String :=
  ["event id is required", "event type is required", "tenant_id is required", "partition_key is required",
    "unsupported predicate operator", "unsupported partition key policy", "emit topic is required",
    "resolved an empty partition key", "action must contain exactly one supported action", "predicate path missing",
    "inbox duplicate has no committed execution", "inbox points to missing execution",
    "exceeds the 100-service fan-out limit", "command destination and name are required"]

def permanentText (text : String) : Bool :=
  permanentNeedles.any (fun needle => (text.toList.map Char.toLower).tails.any needle.toList.isPrefixOf)

def isPermanentEventError (error : Err) : Bool := permanentText error.display

/-- A needle at the end of a text is found whatever stands before it. -/
theorem permanentText_append {a b : String} (h : permanentText b = true) : permanentText (a ++ b) = true := by
  unfold permanentText at h ⊢
  rw [List.any_eq_true] at h ⊢
  obtain ⟨needle, hneedle, htail⟩ := h
  refine ⟨needle, hneedle, ?_⟩
  rw [List.any_eq_true] at htail ⊢
  obtain ⟨tail, hmem, hp⟩ := htail
  refine ⟨tail, ?_, hp⟩
  rw [List.mem_tails] at hmem ⊢
  rw [String.toList_append, List.map_append]
  exact hmem.trans (List.suffix_append _ _)

end Rust

@[simp]
theorem isPermanent_wrap (context : String) (e : Err) : isPermanent (e.wrap context) = isPermanent e := rfl

theorem not_permanent_of_sentinels {e : Err} (h : e.sentinels = []) : isPermanent e = false := by
  simp [isPermanent, classifyError, Err.isAny, h]

/-! Storage calls that fail. -/

/-- The kinds of storage calls both workers make, in their order; deduplication is one. -/
inductive StorageCall where
  | begin | lease | inbox | rules | execution | subscribers | outbox | mark | commit | quarantine
  deriving DecidableEq, Repr

def Op.storage : Op → StorageCall
  | .clock | .begin => .begin
  | .assertHeld _ _ | .leaseUpsert _ _ _ | .leaseRenew _ _ _ | .leaseRelease _ _ | .leaseGet _ => .lease
  | .inboxGet _ | .inboxInsert _ _ | .executionGet _ | .executionExists _ => .inbox
  | .activationGet _ _ | .revisionGetActive _ _ => .rules
  | .executionInsert _ _ _ => .execution
  | .subscribersGet _ _ _ => .subscribers
  | .outboxInsert _ _ => .outbox
  | .inboxMarkCommitted _ _ _ _ => .mark
  | .commit => .commit

def faulty (fails : StorageCall → Option Err) (clock : Time) : Op → Oracle := fun o => ⟨fails o.storage, clock⟩

structure Setting where
  eng : Engine
  fails : StorageCall → Option Err
  clock : Time
  db : DB
  shard : Nat
  workerID : String
  fencingToken : Int

namespace Setting

variable (x : Setting)

/-- Errors of the database driver and of the JSON encoder: none has a sentinel of the code,
    and no error of the driver displays a text that the Rust worker looks for. -/
structure PlainErrors : Prop where
  sentinels : ∀ call e, x.fails call = some e → e.sentinels = []
  display : ∀ call e, x.fails call = some e → Rust.permanentText e.display = false
  marshal : ∀ env e, x.eng.marshal env = .error e → e.sentinels = []

/-- The result of a call in a session that is open or not, and the state it leaves. -/
abbrev run {R : Type} (p : Tx R) (s : Session) : Except Err R × (DB × Session) :=
  handle (statement (faulty x.fails x.clock)) p (x.db, s)

/-- The transaction begins, and the shard's lease is this worker's, with this token. -/
def Held : Prop :=
  x.fails .begin = none ∧ x.fails .lease = none ∧ 0 < x.fencingToken ∧
    ∃ l, x.db.leases x.shard = some l ∧ l.owner = x.workerID ∧ x.db.now < l.expiresAt ∧
      l.fencingToken = x.fencingToken

def begun : Session := ⟨.active, x.db.now, .empty, []⟩

/-- The transaction after the lease was checked: it has written nothing. -/
def opened : Session := ⟨.active, x.db.now, .empty, [x.shard]⟩

def leaseRow : Option (Int × Time × Bool) :=
  (x.db.leases x.shard).bind (fun l =>
    if l.owner = x.workerID then some (l.fencingToken, l.expiresAt, decide (x.db.now < l.expiresAt)) else none)

/-! Parts of a call. -/

def Transient (perm : Err → Bool) {R : Type} (r : Except Err R) : Prop := ∃ e, r = .error e ∧ perm e = false

/-- A part of a call succeeds exactly if `C`, with the database as it was; else it has an error
    to retry. -/
structure Part (perm : Err → Bool) {R : Type} (p : Tx R) (s : Session) (C : Prop) (post : R → Session → Prop) :
    Prop where
  ok : C → ∃ r s', x.run p s = (.ok r, (x.db, s')) ∧ post r s'
  retry : ¬ C → Transient perm (x.run p s).1

/-- A call has a permanent error exactly if `Q`, and is done exactly if `A`. -/
def Decided (perm : Err → Bool) {R : Type} (p : Tx R) (s : Session) (Q A : Prop) : Prop :=
  (verdict perm (x.run p s).1 = .permanent ↔ Q) ∧ (verdict perm (x.run p s).1 = .done ↔ A)

section
variable {x : Setting} {perm : Err → Bool} {R T : Type} {p : Tx R} {k : R → Tx T} {s t : Session} {r : R} {e : Err}
  {g : Err → Err} {C C' Q A : Prop} {post : R → Session → Prop} {post' : T → Session → Prop}

theorem run_wrap : (x.run (p.wrap g) s).1 = (x.run p s).1.mapError g := by
  rw [run, handle_wrap]

theorem run_bind_error (h : (x.run p s).1 = .error e) : (x.run (p >>= k) s).1 = .error e := by
  have hp : handle (statement (faulty x.fails x.clock)) p (x.db, s) = (.error e, (x.run p s).2) := Prod.ext h rfl
  rw [run, handle_bind_error hp]

theorem run_fail {o : Op} (ho : o ≠ .clock) (hf : x.fails o.storage = some e) : (x.run (sql o) s).1 = .error e := by
  obtain ⟨st, h⟩ := handle_sql_fail (w := faulty x.fails x.clock) (x.db, s) ho hf
  exact congrArg Prod.fst h

theorem run_clock : x.run clockNow s = (.ok x.clock, (x.db, s)) := rfl

theorem run_begin (hf : x.fails .begin = none) :
    x.run ((sql .begin).wrap g) .idle = (.ok x.db.now, (x.db, x.begun)) :=
  handle_wrap_ok (handle_begin hf)

theorem Transient.bind (h : Transient perm (x.run p s).1) : Transient perm (x.run (p >>= k) s).1 := by
  obtain ⟨e, he, hp⟩ := h
  exact ⟨e, run_bind_error he, hp⟩

theorem Transient.after (hp : x.run p s = (.ok r, (x.db, t))) (h : Transient perm (x.run (k r) t).1) :
    Transient perm (x.run (p >>= k) s).1 := by
  rw [run, handle_bind_ok hp]
  exact h

theorem Transient.mapped (hg : ∀ e, perm e = false → perm (g e) = false) (h : Transient perm (x.run p s).1) :
    Transient perm (x.run (p.wrap g) s).1 := by
  obtain ⟨e, he, hp⟩ := h
  exact ⟨g e, by rw [run_wrap, he]; rfl, hg e hp⟩

theorem transient_fail {o : Op} (hd : ∀ call e, x.fails call = some e → perm e = false) (ho : o ≠ .clock)
    (hf : x.fails o.storage ≠ none) : Transient perm (x.run (sql o) s).1 := by
  obtain ⟨e, he⟩ := Option.ne_none_iff_exists'.mp hf
  exact ⟨e, run_fail ho he, hd _ e he⟩

theorem Part.iff (h : x.Part perm p s C post) (hC : C ↔ C') : x.Part perm p s C' post := propext hC ▸ h

theorem Part.mapped (hg : ∀ e, perm e = false → perm (g e) = false) (h : x.Part perm p s C post) :
    x.Part perm (p.wrap g) s C post where
  ok := by
    intro hc
    obtain ⟨r, s', hp, hpost⟩ := h.ok hc
    exact ⟨r, s', handle_wrap_ok hp, hpost⟩
  retry := fun hc => (h.retry hc).mapped hg

theorem Part.bind (h : x.Part perm p s C post) (hk : C → ∀ r s', post r s' → x.Part perm (k r) s' C' post') :
    x.Part perm (p >>= k) s (C ∧ C') post' where
  ok := by
    rintro ⟨hc, hc'⟩
    obtain ⟨r, s', hp, hpost⟩ := h.ok hc
    obtain ⟨t, s'', ht, hpost'⟩ := (hk hc r s' hpost).ok hc'
    exact ⟨t, s'', (handle_bind_ok hp).trans ht, hpost'⟩
  retry := by
    intro hn
    by_cases hc : C
    · obtain ⟨r, s', hp, hpost⟩ := h.ok hc
      exact .after hp ((hk hc r s' hpost).retry (fun hc' => hn ⟨hc, hc'⟩))
    · exact .bind (h.retry hc)

theorem Part.after (hp : x.run p s = (.ok r, (x.db, t))) (h : x.Part perm (k r) t C post') :
    x.Part perm (p >>= k) s C post' := by
  constructor
  · rw [run, handle_bind_ok hp]
    exact h.ok
  · exact fun hc => .after hp (h.retry hc)

/-- A statement that answers unless it fails. -/
theorem part_sql {o : Op} {a : o.Res} {post : o.Res → Session → Prop}
    (hd : ∀ call e, x.fails call = some e → perm e = false) (ho : o ≠ .clock) (hs : s.state = .active)
    (hp : perform x.db [] s o = some (x.db, t, .ok a)) (hpost : post a t) :
    x.Part perm (sql o) s (x.fails o.storage = none) post where
  ok := fun hf => ⟨a, t, handle_sql (w := faulty x.fails x.clock) hf hs hp, hpost⟩
  retry := transient_fail hd ho

theorem Decided.after (hp : x.run p s = (.ok r, (x.db, t))) (h : x.Decided perm (k r) t Q A) :
    x.Decided perm (p >>= k) s Q A := by
  unfold Decided
  rw [run, handle_bind_ok hp]
  exact h

theorem Decided.iff {Q' A' : Prop} (h : x.Decided perm p s Q A) (hq : Q ↔ Q') (ha : A ↔ A') :
    x.Decided perm p s Q' A' :=
  ⟨h.1.trans hq, h.2.trans ha⟩

theorem decided_error (h : (x.run p s).1 = .error e) (hq : perm e = true ↔ Q) (ha : ¬ A) : x.Decided perm p s Q A := by
  unfold Decided
  rw [h]
  cases hp : perm e with
  | true => simp [verdict, hp, hq.mp hp, ha]
  | false => simp [verdict, hp, mt hq.mpr (by simp [hp]), ha]

theorem decided_transient (h : Transient perm (x.run p s).1) (hq : ¬ Q) (ha : ¬ A) : x.Decided perm p s Q A := by
  obtain ⟨e, he, hp⟩ := h
  exact decided_error he (iff_of_false (by simp [hp]) hq) ha

theorem decided_done (h : (x.run p s).1 = .ok r) (hq : ¬ Q) (ha : A) : x.Decided perm p s Q A := by
  unfold Decided
  rw [h]
  simp [verdict, hq, ha]

/-- A part without which neither condition holds, and then the rest of the call. -/
theorem Part.decided (h : x.Part perm p s C post) (hq : Q → C) (ha : A → C)
    (hk : C → ∀ r s', post r s' → x.Decided perm (k r) s' Q A) : x.Decided perm (p >>= k) s Q A := by
  by_cases hc : C
  · obtain ⟨r, s', hp, hpost⟩ := h.ok hc
    exact .after hp (hk hc r s' hpost)
  · exact decided_transient (.bind (h.retry hc)) (mt hq hc) (mt ha hc)

/-- The commit at the end of a call that is done if nothing fails. -/
theorem decided_commit (hd : ∀ call e, x.fails call = some e → perm e = false)
    (hg : ∀ e, perm e = false → perm (g e) = false) (hs : s.state = .active) (hq : ¬ Q)
    (ha : A ↔ x.fails .commit = none) : x.Decided perm (do let _ ← (sql .commit).wrap g; pure r) s Q A := by
  by_cases hf : x.fails .commit = none
  · have hcommit := handle_sql_wrap (w := faulty x.fails x.clock) (d := x.db) (o := .commit) (g := g) hf hs rfl
    refine decided_done (r := r) ?_ hq (ha.mpr hf)
    rw [run, handle_bind_ok hcommit]
    rfl
  · exact decided_transient (.bind (.mapped hg (transient_fail (o := .commit) hd (by simp) hf))) hq (mt ha.mp hf)

end

/-! The check of the lease. -/

section
variable {x : Setting}

theorem leaseRow_held (hx : x.Held) : ∃ expires, x.leaseRow = some (x.fencingToken, expires, true) := by
  obtain ⟨-, -, -, l, hl, howner, hlive, hcur⟩ := hx
  refine ⟨l.expiresAt, ?_⟩
  simp [leaseRow, hl, howner, hlive, hcur]

theorem held_of_leaseRow {expires : Time} (hb : x.fails .begin = none) (hf : x.fails .lease = none)
    (htoken : 0 < x.fencingToken) (hrow : x.leaseRow = some (x.fencingToken, expires, true)) : x.Held := by
  obtain ⟨l, hl, h⟩ := Option.bind_eq_some_iff.mp hrow
  split at h
  · rename_i howner
    simp only [Option.some.injEq, Prod.mk.injEq, decide_eq_true_eq] at h
    exact ⟨hb, hf, htoken, l, hl, howner, h.2.2, h.1⟩
  · cases h

theorem run_lease (hf : x.fails .lease = none) : x.run (sql (.assertHeld x.shard x.workerID)) x.begun =
    (.ok x.leaseRow, (x.db, if x.leaseRow.isSome then x.opened else x.begun)) := by
  refine handle_sql (w := faulty x.fails x.clock) (o := .assertHeld x.shard x.workerID) hf rfl ?_
  cases hl : x.db.leases x.shard with
  | none => simp [perform, leaseRow, hl]
  | some l =>
    by_cases howner : l.owner = x.workerID
    · simp only [perform, leaseRow, hl, howner, opened, begun, Option.bind_some, Option.isSome_some, if_true]
      rfl
    · simp [perform, leaseRow, hl, howner]

end

/-! The Go worker. -/

section
variable {x : Setting} {R T : Type} {p : Tx R} {k : R → Tx T} {s : Session} {env : EventEnvelope} {g : Err → Err}

theorem PlainErrors.go (hd : x.PlainErrors) : ∀ call e, x.fails call = some e → isPermanent e = false :=
  fun call e h => not_permanent_of_sentinels (hd.sentinels call e h)

theorem Transient.wrap {context : String} (h : Transient isPermanent (x.run p s).1) :
    Transient isPermanent (x.run (p.wrap (Err.wrap context)) s).1 :=
  h.mapped (fun _ he => he)

theorem Part.context {context : String} {C : Prop} {post : R → Session → Prop} (h : x.Part isPermanent p s C post) :
    x.Part isPermanent (p.wrap (Err.wrap context)) s C post :=
  h.mapped (fun _ he => he)

theorem run_inboxGet (hf : x.fails .inbox = none) (env : EventEnvelope) :
    x.run (Go.inboxGet env.tenantID env.id) x.opened =
      (match x.db.tables.inbox env.key with
        | none => .ok none
        | some row => (Go.scanInbox env.tenantID env.id row).map some, (x.db, x.opened)) := by
  have hquery := handle_sql_wrap (w := faulty x.fails x.clock) (d := x.db) (o := .inboxGet env.key)
    (g := Err.wrap "get inbox") (s := x.opened) hf rfl rfl
  refine (handle_bind_ok hquery).trans ?_
  rw [show x.opened.sees x.db = x.db.tables from Tables.empty_onto _]
  cases x.db.tables.inbox env.key with
  | none => rfl
  | some row =>
    show handle _ (some <$> ofExcept (Go.scanInbox env.tenantID env.id row)) _ = _
    rw [handle_map, handle_ofExcept]

theorem run_executionGet (hf : x.fails .inbox = none) (id : String) :
    x.run (Go.executionGet id) x.opened =
      (match x.db.tables.executions id with
        | none => .ok none
        | some row => (Go.scanExecution id row).map some, (x.db, x.opened)) := by
  have hquery := handle_sql_wrap (w := faulty x.fails x.clock) (d := x.db) (o := .executionGet id)
    (g := Err.wrap "get execution") (s := x.opened) hf rfl rfl
  refine (handle_bind_ok hquery).trans ?_
  rw [show x.opened.sees x.db = x.db.tables from Tables.empty_onto _]
  cases x.db.tables.executions id with
  | none => rfl
  | some row =>
    show handle _ (some <$> ofExcept (Go.scanExecution id row)) _ = _
    rw [handle_map, handle_ofExcept]

theorem part_assertHeld (hd : x.PlainErrors) (hb : x.fails .begin = none) (htoken : 0 < x.fencingToken) :
    x.Part isPermanent (Go.assertHeld x.shard x.workerID x.fencingToken) x.begun x.Held (fun _ s' =>
      s' = x.opened) where
  ok := by
    intro hx
    obtain ⟨l, hrow⟩ := leaseRow_held hx
    refine ⟨(), x.opened, (handle_bind_ok (handle_wrap_ok (run_lease hx.2.1))).trans ?_, rfl⟩
    simp only [hrow, Option.isSome_some, if_true, not_le.mpr htoken, if_false, Bool.not_true, Bool.false_eq_true, ne_eq,
      not_true_eq_false]
    rfl
  retry := by
    intro hx
    by_cases hf : x.fails .lease = none
    · refine .after (handle_wrap_ok (run_lease hf)) ?_
      cases hrow : x.leaseRow with
      | none => exact ⟨_, rfl, rfl⟩
      | some row =>
        obtain ⟨current, expires, active⟩ := row
        simp only [not_le.mpr htoken, if_false]
        cases active with
        | false => exact ⟨_, rfl, rfl⟩
        | true =>
          have hother : current ≠ x.fencingToken := fun h => hx (held_of_leaseRow hb hf htoken (h ▸ hrow))
          simp only [Bool.not_true, Bool.false_eq_true, if_false, ne_eq, hother, not_false_eq_true, if_true]
          exact ⟨_, rfl, rfl⟩
    · exact .bind (.wrap (transient_fail hd.go (by simp) hf))

/-- The event is in the inbox, and its execution is one the Go worker can read: its error
    and its trace are not NULL. -/
def Readable (x : Setting) (env : EventEnvelope) : Prop :=
  ∃ row id execution, x.db.tables.inbox env.key = some row ∧ row.executionID = some id ∧
    x.db.tables.executions id = some execution ∧ execution.error.isSome ∧ execution.traceID.isSome

def claimed (x : Setting) (env : EventEnvelope) : InboxRow :=
  Go.InboxEntry.row ⟨env.tenantID, env.id, .processing, "", env.partitionKey, env.type, env.data, "", x.clock, none⟩

theorem opened_sees : x.opened.sees x.db = x.db.tables := Tables.empty_onto _

theorem run_deduplicate_new (hf : x.fails .inbox = none) (hnew : x.db.tables.inbox env.key = none) :
    x.run (Go.deduplicateEvent env) x.opened = (.ok none, (x.db, x.opened.putInbox env.key (x.claimed env))) := by
  have hget := run_inboxGet hf env
  rw [hnew] at hget
  have hp : perform x.db [] x.opened (.inboxInsert env.key (x.claimed env)) =
      some (x.db, x.opened.putInbox env.key (x.claimed env), .ok true) := by
    simp [perform, opened_sees, hnew]
  have hinsert := handle_sql_wrap (w := faulty x.fails x.clock) (o := .inboxInsert env.key (x.claimed env))
    (g := Err.wrap "insert inbox") hf rfl hp
  refine (handle_bind_ok (handle_wrap_ok hget)).trans ?_
  refine (handle_bind_ok (t := (x.db, x.opened)) rfl).trans ?_
  refine (handle_bind_ok handle_clockNow).trans ?_
  exact (handle_bind_ok (handle_wrap_ok hinsert)).trans rfl

theorem run_deduplicate_readable (hf : x.fails .inbox = none) (h : x.Readable env) :
    ∃ execution, x.run (Go.deduplicateEvent env) x.opened = (.ok (some execution), (x.db, x.opened)) := by
  obtain ⟨row, id, ex, hrow, hid, hex, herror, htrace⟩ := h
  obtain ⟨error, herror⟩ := Option.isSome_iff_exists.mp herror
  obtain ⟨trace, htrace⟩ := Option.isSome_iff_exists.mp htrace
  have hget := run_inboxGet hf env
  simp only [hrow, Go.scanInbox, hid, Except.map] at hget
  have hexec := run_executionGet hf id
  simp only [hex, Go.scanExecution, herror, htrace, Except.map] at hexec
  exact ⟨_, (handle_bind_ok (handle_wrap_ok hget)).trans ((handle_bind_ok (handle_wrap_ok hexec)).trans rfl)⟩

/-- An event whose execution is missing or cannot be read is an error to retry. -/
theorem transient_deduplicate (hd : x.PlainErrors)
    (h : ¬ (x.fails .inbox = none ∧ (x.db.tables.inbox env.key = none ∨ x.Readable env))) :
    Transient isPermanent (x.run (Go.deduplicateEvent env) x.opened).1 := by
  by_cases hf : x.fails .inbox = none
  · have hget := run_inboxGet hf env
    cases hrow : x.db.tables.inbox env.key with
    | none => exact absurd ⟨hf, .inl hrow⟩ h
    | some row =>
      cases hid : row.executionID with
      | none =>
        simp only [hrow, Go.scanInbox, hid, Except.map] at hget
        exact .bind (.wrap ⟨_, congrArg Prod.fst hget, rfl⟩)
      | some id =>
        simp only [hrow, Go.scanInbox, hid, Except.map] at hget
        have hexec := run_executionGet hf id
        cases hex : x.db.tables.executions id with
        | some ex =>
          refine .after (handle_wrap_ok hget) (.bind (.wrap ?_))
          -- one of the two columns is NULL
          cases herror : ex.error with
          | none =>
            simp only [hex, Go.scanExecution, herror, Except.map] at hexec
            exact ⟨_, congrArg Prod.fst hexec, rfl⟩
          | some error =>
            cases htrace : ex.traceID with
            | none =>
              simp only [hex, Go.scanExecution, herror, htrace, Except.map] at hexec
              exact ⟨_, congrArg Prod.fst hexec, rfl⟩
            | some trace =>
              exact absurd ⟨hf, .inr ⟨row, id, ex, hrow, hid, hex, by simp [herror], by simp [htrace]⟩⟩ h
        | none =>
          -- the insert finds the row, and so does the second look
          rw [hex] at hexec
          have hp : perform x.db [] x.opened (.inboxInsert env.key (x.claimed env)) =
              some (x.db, x.opened, .ok false) := by
            simp [perform, opened_sees, hrow]
          have hinsert := handle_sql_wrap (w := faulty x.fails x.clock) (o := .inboxInsert env.key (x.claimed env))
            (g := Err.wrap "insert inbox") hf rfl hp
          refine .after (handle_wrap_ok hget) (.after (handle_wrap_ok hexec) ?_)
          refine .after (t := x.opened) handle_clockNow (.after (handle_wrap_ok hinsert) ?_)
          refine .after (handle_wrap_ok hget) (.after (handle_wrap_ok hexec) ?_)
          exact ⟨_, rfl, rfl⟩
  · exact .bind (.wrap (.bind (.wrap (transient_fail hd.go (by simp) hf))))

theorem activation_of_revision {r : Reference} {tenantScope ruleSet : String} {revision : RuleRevision}
    (h : r.activeRevision tenantScope ruleSet = some revision) : (r.activation tenantScope ruleSet).isSome := by
  obtain ⟨a, ha, -⟩ := Option.bind_eq_some_iff.mp h
  exact Option.isSome_iff_exists.mpr ⟨a, ha⟩

theorem run_revision (env : EventEnvelope) (hf : x.fails .rules = none) (hs : s.state = .active) :
    x.run ((sql (.revisionGetActive env.tenantID env.type)).wrap g) s =
      (.ok (x.db.refs.activeRevision env.tenantID env.type), (x.db, s)) :=
  handle_sql_wrap (w := faulty x.fails x.clock) (o := .revisionGetActive env.tenantID env.type) hf hs rfl

theorem run_goRevision (hf : x.fails .rules = none) (hs : s.state = .active)
    (ha : (x.db.refs.activation env.tenantID env.type).isSome) :
    x.run (Go.loadActiveRevision env) s =
      (match x.db.refs.activeRevision env.tenantID env.type with
        | some revision => .ok revision
        | none => .error (.sentinel .ruleNotFound), (x.db, s)) := by
  obtain ⟨a, ha⟩ := Option.isSome_iff_exists.mp ha
  have hact := handle_sql_wrap (w := faulty x.fails x.clock) (d := x.db) (o := .activationGet env.tenantID env.type)
    (g := Err.wrap "get activation" ∘ Err.wrap "get activation") hf hs rfl
  rw [ha] at hact
  refine (handle_bind_ok hact).trans ((handle_bind_ok (run_revision env hf hs)).trans ?_)
  cases x.db.refs.activeRevision env.tenantID env.type with
  | none => rfl
  | some revision => rfl

theorem transient_goRevision (hd : x.PlainErrors) (hs : s.state = .active)
    (h : ¬ (x.fails .rules = none ∧ (x.db.refs.activation env.tenantID env.type).isSome)) :
    Transient isPermanent (x.run (Go.loadActiveRevision env) s).1 := by
  by_cases hf : x.fails .rules = none
  · have hact := handle_sql_wrap (w := faulty x.fails x.clock) (d := x.db) (o := .activationGet env.tenantID env.type)
      (g := Err.wrap "get activation" ∘ Err.wrap "get activation") hf hs rfl
    rw [Option.not_isSome_iff_eq_none.mp (fun ha => h ⟨hf, ha⟩)] at hact
    exact .after hact ⟨_, rfl, rfl⟩
  · exact .bind (.mapped (fun _ he => he) (transient_fail hd.go (by simp) hf))

/-- What the Go worker needs to store a decision: no storage call fails, not more than 100
    services subscribe, and the event can be encoded. Without entries the outbox is not
    written. -/
structure GoPersists (x : Setting) (env : EventEnvelope) (effects : List Effect) : Prop where
  execution : x.fails .execution = none
  subscribers : x.fails .subscribers = none
  few : (x.db.refs.subscribed env.tenantID env.type).length ≤ 100
  encoded : ∃ payload, x.eng.marshal env = .ok payload
  outbox : x.fails .outbox = none ∨ (effects = [] ∧ x.db.refs.subscribed env.tenantID env.type = [])
  mark : x.fails .mark = none

def goEntries (x : Setting) (env : EventEnvelope) (revision : RuleRevision) (decision : Decision)
    (payload : RawMessage) : List Go.OutboxEffect :=
  decision.effects.map (Go.decisionEffect env (Go.newExecution x.eng env revision decision x.clock).id x.clock) ++
    ((x.db.refs.subscribed env.tenantID env.type).map (fun s => (⟨s.serviceID⟩ : DomainService))).map
      (Go.subscriberEffect x.eng env (Go.newExecution x.eng env revision decision x.clock).id x.clock payload)

section
variable {revision : RuleRevision} {decision : Decision} {payload : RawMessage}

theorem part_listSubscribers (hd : x.PlainErrors) (hs : s.state = .active) :
    x.Part isPermanent (Go.listSubscribersForEvent env.tenantID env.type) s
      (x.fails .subscribers = none ∧ (x.db.refs.subscribed env.tenantID env.type).length ≤ 100)
      (fun r s' => r = (x.db.refs.subscribed env.tenantID env.type).map (fun s => ⟨s.serviceID⟩) ∧ s' = s) where
  ok := by
    rintro ⟨hf, hfew⟩
    have hlist := handle_listSubscribers (w := faulty x.fails x.clock) (d := x.db) hs env.tenantID env.type hf
    rw [if_neg (Nat.not_lt.mpr hfew)] at hlist
    exact ⟨_, s, hlist, rfl, rfl⟩
  retry := by
    intro h
    by_cases hf : x.fails .subscribers = none
    · have hlist := handle_listSubscribers (w := faulty x.fails x.clock) (d := x.db) hs env.tenantID env.type hf
      rw [if_pos (Nat.lt_of_not_le (fun hfew => h ⟨hf, hfew⟩))] at hlist
      exact ⟨_, congrArg Prod.fst hlist, rfl⟩
    · exact .bind (.wrap (transient_fail hd.go (by simp) hf))

theorem part_outboxInsert (hd : x.PlainErrors) (hs : s.state = .active) (htenant : env.tenantID ≠ "") :
    x.Part isPermanent (Go.outboxInsert (x.goEntries env revision decision payload)) s
      (x.fails .outbox = none ∨ (decision.effects = [] ∧ x.db.refs.subscribed env.tenantID env.type = []))
      (fun _ s' => s'.state = .active) := by
  have hempty : x.goEntries env revision decision payload = [] ↔
      decision.effects = [] ∧ x.db.refs.subscribed env.tenantID env.type = [] := by
    simp [goEntries]
  have hrow : ∀ ef ∈ x.goEntries env revision decision payload, ef.row.tenantID ≠ "" := by
    intro ef hef
    simp only [goEntries, List.mem_append, List.mem_map] at hef
    rcases hef with ⟨_, -, rfl⟩ | ⟨_, -, rfl⟩ <;> exact htenant
  rw [← hempty]
  constructor
  · rintro (hf | hnil)
    · obtain ⟨s', h, hw⟩ := goOutboxInsert_wrote (w := faulty x.fails x.clock) (d := x.db) (fun _ _ => hf) _ hrow hs
      exact ⟨(), s', h, hw.state.trans hs⟩
    · rw [hnil]
      exact ⟨(), s, rfl, hs⟩
  · intro h
    obtain ⟨hf, hne⟩ := not_or.mp h
    cases hl : x.goEntries env revision decision payload with
    | nil => exact absurd hl hne
    | cons ef rest =>
      unfold Go.outboxInsert
      rw [if_neg (hrow ef (hl ▸ List.mem_cons_self))]
      exact .bind (.wrap (transient_fail hd.go (by simp) hf))

theorem part_goPersist (hd : x.PlainErrors) (revision : RuleRevision) (decision : Decision) (hs : s.state = .active)
    (htenant : env.tenantID ≠ "") :
    x.Part isPermanent (Go.persistExecutionAndOutbox x.eng env revision decision) s (x.GoPersists env decision.effects)
      (fun _ s' => s'.state = .active) := by
  have hexec : x.Part isPermanent (Go.executionSave (Go.newExecution x.eng env revision decision x.clock)) s
      (x.fails .execution = none) (fun _ s' => s'.state = .active) := by
    refine ⟨fun hf => ?_, fun hf => .wrap (transient_fail hd.go (by simp) hf)⟩
    obtain ⟨s', h, hw⟩ := executionInsert_wrote (w := faulty x.fails x.clock) (d := x.db) hs _
      (Go.executionRow (Go.newExecution x.eng env revision decision x.clock)) true _ hf (fun _ => rfl)
    exact ⟨(), s', h, hw.state.trans hs⟩
  have hmark : ∀ (s' : Session) (id : String), s'.state = .active →
      x.Part isPermanent (Go.inboxMarkCommitted env.tenantID env.id id) s' (x.fails .mark = none)
        (fun _ s'' => s''.state = .active) := by
    intro s' id hs'
    refine ⟨fun hf => ?_, fun hf => .after (t := s') handle_clockNow
      (.bind (.wrap (transient_fail hd.go (by simp) hf)))⟩
    obtain ⟨s₃, h₃, hs₃, -⟩ := go_markCommitted (w := faulty x.fails x.clock) (d := x.db) hs' env.tenantID env.id id
      (fun _ => hf)
    exact ⟨(), s₃, h₃, hs₃⟩
  refine Part.iff (C := x.fails .execution = none ∧ (x.fails .subscribers = none ∧
    (x.db.refs.subscribed env.tenantID env.type).length ≤ 100) ∧ (∃ payload, x.eng.marshal env = .ok payload) ∧
    (x.fails .outbox = none ∨ (decision.effects = [] ∧ x.db.refs.subscribed env.tenantID env.type = [])) ∧
    x.fails .mark = none ∧ True) ?_ ?_
  · refine .after (t := s) handle_clockNow (hexec.context.bind ?_)
    intro _ _ s₁ hs₁
    refine (part_listSubscribers hd hs₁).context.bind ?_
    rintro ⟨-, hfew⟩ _ _ ⟨rfl, rfl⟩
    rw [if_neg (by rw [List.length_map]; exact Nat.not_lt.mpr hfew)]
    cases hm : x.eng.marshal env with
    | error e =>
      refine ⟨fun ⟨⟨payload, hpayload⟩, _⟩ => by simp at hpayload, fun _ => .bind ⟨_, rfl, ?_⟩⟩
      exact not_permanent_of_sentinels (hd.marshal env e hm)
    | ok payload =>
      refine Part.iff (.after (r := payload) rfl ((part_outboxInsert hd hs₁ htenant).context.bind ?_))
        (and_iff_right ⟨payload, rfl⟩).symm
      intro _ _ s₂ hs₂
      refine (hmark s₂ _ hs₂).context.bind ?_
      exact fun _ _ s₃ hs₃ => ⟨fun _ => ⟨_, s₃, rfl, hs₃⟩, fun h => absurd trivial h⟩
  · constructor
    · rintro ⟨h₁, ⟨h₂, h₃⟩, h₄, h₅, h₆, -⟩
      exact ⟨h₁, h₂, h₃, h₄, h₅, h₆⟩
    · rintro ⟨h₁, h₂, h₃, h₄, h₅, h₆⟩
      exact ⟨h₁, ⟨h₂, h₃⟩, h₄, h₅, h₆, trivial⟩

end

/-- The events whose error is permanent for the Go worker: those that are not valid, and new
    ones whose revision is missing or cannot be evaluated. -/
def GoQuarantines (x : Setting) (env : EventEnvelope) : Prop :=
  env.validate ≠ .ok () ∨
    (x.Held ∧ x.fails .inbox = none ∧ x.db.tables.inbox env.key = none ∧ x.fails .rules = none ∧
      (x.db.refs.activation env.tenantID env.type).isSome ∧
      ∀ revision, x.db.refs.activeRevision env.tenantID env.type = some revision →
        ∃ e, x.eng.evaluate x.clock revision env = .error e ∧ isPermanent e = true)

/-- The events that are done for the Go worker: those with an execution it can read, and new
    ones whose decision is stored. -/
def GoAcks (x : Setting) (env : EventEnvelope) : Prop :=
  env.validate = .ok () ∧ x.Held ∧ x.fails .inbox = none ∧
    (x.Readable env ∨
      (x.db.tables.inbox env.key = none ∧ x.fails .rules = none ∧
        ∃ revision decision, x.db.refs.activeRevision env.tenantID env.type = some revision ∧
          x.eng.evaluate x.clock revision env = .ok decision ∧ x.GoPersists env decision.effects ∧
          x.fails .commit = none))

theorem validate_permanent {e : Err} (h : env.validate = .error e) : isPermanent e = true := by
  unfold EventEnvelope.validate at h
  repeat' split at h
  all_goals cases h
  all_goals rfl

/-- What is left of a call of the Go worker once the event is claimed. -/
theorem go_new (hd : x.PlainErrors) (hx : x.Held) (hf : x.fails .inbox = none) (hv : env.validate = .ok ())
    (hnew : x.db.tables.inbox env.key = none) (hs : s.state = .active) :
    x.Decided isPermanent (do
      let revision ← Go.loadActiveRevision env
      let now ← clockNow
      let decision ← ofExcept ((x.eng.evaluate now revision env).mapError (Err.wrap "evaluate"))
      let execution ← Go.persistExecutionAndOutbox x.eng env revision decision
      let _ ← (sql .commit).wrap (Err.wrap "commit tx")
      pure execution) s (x.GoQuarantines env) (x.GoAcks env) := by
  have hunread : ¬ x.Readable env := by
    rintro ⟨row, id, ex, hrow, -⟩
    rw [hnew] at hrow
    cases hrow
  have htenant : env.tenantID ≠ "" := by
    simp only [EventEnvelope.validate, Checks.ite_ok] at hv
    exact hv.2.2.1
  -- what the conditions say of a valid and new event
  have hq : x.GoQuarantines env ↔ x.fails .rules = none ∧ (x.db.refs.activation env.tenantID env.type).isSome ∧
      ∀ revision, x.db.refs.activeRevision env.tenantID env.type = some revision →
        ∃ e, x.eng.evaluate x.clock revision env = .error e ∧ isPermanent e = true := by
    simp [GoQuarantines, hv, hx, hf, hnew]
  have ha : x.GoAcks env ↔ x.fails .rules = none ∧
      ∃ revision decision, x.db.refs.activeRevision env.tenantID env.type = some revision ∧
        x.eng.evaluate x.clock revision env = .ok decision ∧ x.GoPersists env decision.effects ∧
        x.fails .commit = none := by
    simp [GoAcks, hv, hx, hf, hnew, hunread]
  rw [hq, ha]
  by_cases hrules : x.fails .rules = none ∧ (x.db.refs.activation env.tenantID env.type).isSome
  · have hload := run_goRevision (s := s) hrules.1 hs hrules.2
    cases hrev : x.db.refs.activeRevision env.tenantID env.type with
    | none =>
      rw [hrev] at hload
      exact decided_error (run_bind_error (congrArg Prod.fst hload)) (iff_of_true rfl ⟨hrules.1, hrules.2, nofun⟩)
        (by simp)
    | some revision =>
      rw [hrev] at hload
      refine .after hload (.after run_clock ?_)
      cases heval : x.eng.evaluate x.clock revision env with
      | error e => exact decided_error rfl (by simp [hrules.1, hrules.2, heval]) (by simp [heval])
      | ok decision =>
        refine .after (r := decision) (t := s) rfl ((part_goPersist hd revision decision hs htenant).decided ?_ ?_ ?_)
        · simp [heval]
        · simp only [Option.some.injEq]
          rintro ⟨-, _, _, rfl, heval', hstore, -⟩
          rw [heval] at heval'
          cases heval'
          exact hstore
        · intro hstore _ s' hs'
          exact decided_commit hd.go (fun _ he => he) hs' (by simp [heval]) (by simp [hrules.1, heval, hstore])
  · refine decided_transient (.bind (transient_goRevision hd hs hrules)) (fun h => hrules ⟨h.1, h.2.1⟩) ?_
    rintro ⟨hf, revision, -, hrev, -⟩
    exact hrules ⟨hf, activation_of_revision hrev⟩

/-- The Go worker's call is done for the events of `GoAcks`, and has a permanent error for
    those of `GoQuarantines`. -/
theorem go_verdict (hd : x.PlainErrors) (env : EventEnvelope) :
    x.Decided isPermanent (Go.process x.eng env x.fencingToken x.shard x.workerID) .idle (x.GoQuarantines env)
      (x.GoAcks env) := by
  cases hv : env.validate with
  | error e =>
    have hrun : (x.run (ofExcept env.validate) .idle).1 = .error e := by
      rw [hv]
      rfl
    exact decided_error (run_bind_error hrun) (iff_of_true (validate_permanent hv) (.inl (by simp [hv])))
      (fun h => by simp [GoAcks, hv] at h)
  | ok u =>
    refine .after (r := ()) (t := .idle) (by rw [hv]; rfl) ?_
    -- without the lease neither condition holds
    have hq : x.GoQuarantines env → x.Held := fun h => (h.resolve_left (absurd hv)).1
    have ha : x.GoAcks env → x.Held := fun h => h.2.1
    by_cases htoken : x.fencingToken ≤ 0
    · have hx : ¬ x.Held := fun hx => absurd hx.2.2.1 (not_lt.mpr htoken)
      rw [if_pos htoken]
      exact decided_error rfl (iff_of_false (by decide) (mt hq hx)) (mt ha hx)
    rw [if_neg htoken]
    by_cases hb : x.fails .begin = none
    · refine .after (run_begin hb) ((part_assertHeld hd hb (not_le.mp htoken)).context.decided hq ha ?_)
      rintro hx _ _ rfl
      by_cases hdup : x.fails .inbox = none ∧ (x.db.tables.inbox env.key = none ∨ x.Readable env)
      · obtain ⟨hf, hnew | hread⟩ := hdup
        · exact .after (run_deduplicate_new hf hnew) (go_new hd hx hf hv hnew rfl)
        · obtain ⟨execution, hrun⟩ := run_deduplicate_readable hf hread
          refine .after hrun (decided_done rfl ?_ ⟨hv, hx, hf, .inl hread⟩)
          obtain ⟨row, -, -, hrow, -⟩ := hread
          simp [GoQuarantines, hv, hrow]
      · refine decided_transient (.bind (transient_deduplicate hd hdup)) ?_ ?_
        · rintro (h | ⟨-, hf, hnew, -⟩)
          · exact h hv
          · exact hdup ⟨hf, .inl hnew⟩
        · rintro ⟨-, -, hf, hread | ⟨hnew, -⟩⟩
          · exact hdup ⟨hf, .inr hread⟩
          · exact hdup ⟨hf, .inl hnew⟩
    · have hx : ¬ x.Held := fun hx => hb hx.1
      exact decided_transient (.bind (.mapped (fun _ he => he) (transient_fail hd.go (by simp) hb))) (mt hq hx)
        (mt ha hx)

end

end Setting

end FlowRule
