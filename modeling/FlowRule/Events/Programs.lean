import FlowRule.Lib.Triple
import FlowRule.Events.Protocol

/- The programs of the calls follow the protocol: every statement a call issues is permitted in
   the stage it has reached, and what it returns is what that stage established
   (`program_wp`). An error may be returned from any stage but that of a transaction that has
   committed its event (`Uncommitted`). -/
namespace FlowRule

open Prog

def Uncommitted (st : Stage) : Prop := ∀ id r, st ≠ .committed id r

/-- The program keeps to the protocol of the call and fails only where nothing is committed. -/
abbrev Goes (eng : Engine) (i : Call) {R : Type} (st : Stage) (p : Tx R) (Q : Stage → R → Prop) : Prop :=
  Triple (proto eng i) (fun st _ => Uncommitted st) st p Q

section
variable {eng : Engine} {i : Call} {R : Type}
variable {o : Op} {st : Stage} {tenantID id owner : String} {r : ExecutionRow} {env : EventEnvelope}
variable {p : Tx R} {Q : Stage → R → Prop} {g : Err → Err} {shard : Nat} {token : Int} {now : Time}

theorem goes_sql (ha : allowed eng i st o) : Goes eng i st (sql o) (fun st' x => trans st o (.ok x) st') := by
  refine triple_call ha (fun e st' ht => ?_)
  obtain rfl : st' = .ended := by cases o <;> exact ht
  simp [Uncommitted]

theorem goes_clock (hu : Uncommitted st) : Goes eng i st clockNow (fun st' _ => st' = st) :=
  goes_sql hu

theorem goes_throw {e : Err} (hu : Uncommitted st) : Goes eng i st (Prog.throw e) Q := hu

theorem goes_ofExcept {x : Except Err R} (hu : Uncommitted st) :
    Goes eng i st (ofExcept x) (fun st' r => st' = st ∧ x = .ok r) :=
  triple_ofExcept (fun _ _ => hu)

/-! The Go event service. -/

theorem goes_inboxGet {eventID : String} (hk : i.key = some (tenantID, eventID))
    (hst : st = .clean ∨ ∃ id r, st = .found id r) :
    Goes eng i st (Go.inboxGet tenantID eventID) (fun st' found => (found = none ∧ st = .clean ∧ st' = .clean) ∨
      ∃ entry r, found = some entry ∧ st' = .found entry.executionID r) := by
  refine .bind (.under (goes_sql ⟨hk, hst⟩)) ?_
  intro st' row ht
  match row with
  | none =>
    obtain ⟨rfl, rfl⟩ := ht
    exact .inl ⟨rfl, rfl, rfl⟩
  | some row =>
    obtain ⟨id, r, hid, rfl⟩ := ht
    refine .map (goes_ofExcept (by rintro _ _ ⟨⟩)) ?_
    rintro _ entry ⟨rfl, he⟩
    simp only [Go.scanInbox, hid] at he
    cases he
    exact .inr ⟨_, r, rfl, rfl⟩

theorem scanExecution_id {e : Execution} (h : Go.scanExecution id r = .ok e) : e.id = id := by
  unfold Go.scanExecution at h
  split at h
  · cases h
  · cases h
  · cases h
    rfl

/-- The execution that an inbox entry names can be read, unless a column of it is NULL. -/
theorem goes_executionGet : Goes eng i (.found id r) (Go.executionGet id) (fun st' found =>
    ∃ e, found = some e ∧ Go.scanExecution e.id r = .ok e ∧ st' = .found e.id r) := by
  refine .bind (.under (goes_sql ⟨r, rfl⟩)) ?_
  rintro _ row ⟨r', rfl, hst, rfl⟩
  cases hst
  refine .map (goes_ofExcept (by rintro _ _ ⟨⟩)) ?_
  rintro _ e ⟨rfl, he⟩
  obtain rfl := scanExecution_id he
  exact ⟨e, rfl, he, rfl⟩

theorem goes_deduplicateEvent (hk : i.key = some env.key) :
    Goes eng i .clean (Go.deduplicateEvent env) (fun st' found => (found = none ∧ st' = .claimed) ∨
      ∃ e r, found = some e ∧ Go.scanExecution e.id r = .ok e ∧ st' = .found e.id r) := by
  refine .bind (.under (goes_inboxGet hk (.inl rfl))) ?_
  rintro _ _ (⟨rfl, -, rfl⟩ | ⟨entry, r, rfl, rfl⟩)
  · change Goes eng i .clean (clockNow >>= _) _
    refine .bind (goes_clock (by rintro _ _ ⟨⟩)) ?_
    rintro _ now rfl
    refine .bind (.under (.under (goes_sql ⟨hk, rfl, rfl⟩))) ?_
    intro st' inserted ht
    match inserted with
    | true =>
      cases ht
      exact .inl ⟨rfl, rfl⟩
    | false =>
      obtain ⟨id, r, rfl⟩ := ht
      refine .bind (.under (goes_inboxGet hk (.inr ⟨id, r, rfl⟩))) ?_
      rintro _ _ (⟨-, h, -⟩ | ⟨entry, r', rfl, rfl⟩)
      · cases h
      · refine .bind (.under goes_executionGet) ?_
        rintro _ _ ⟨e, rfl, he, rfl⟩
        exact .inr ⟨e, r', rfl, he, rfl⟩
  · refine .bind (.under goes_executionGet) ?_
    rintro _ _ ⟨e, rfl, he, rfl⟩
    exact .inr ⟨e, r, rfl, he, rfl⟩

theorem goes_goLoadActiveRevision :
    Goes eng i .claimed (Go.loadActiveRevision env) (fun st' _ => st' = .claimed) := by
  refine .bind (.under (goes_sql rfl)) ?_
  rintro _ (_ | activation) rfl
  · exact goes_throw (by rintro _ _ ⟨⟩)
  refine .bind (.under (goes_sql rfl)) ?_
  rintro _ (_ | revision) rfl
  · exact goes_throw (by rintro _ _ ⟨⟩)
  · rfl

theorem goes_goOutboxInsert {effects : List Go.OutboxEffect}
    (hid : ∀ ef ∈ effects, ef.row.executionID = id ∧ SameWriter r ef.row) :
    Goes eng i (.executed id r) (Go.outboxInsert effects) (fun st' _ => st' = .executed id r) := by
  induction effects with
  | nil => rfl
  | cons ef rest ih =>
    rw [Go.outboxInsert]
    split
    · exact goes_throw (by rintro _ _ ⟨⟩)
    obtain ⟨hef, hsame⟩ := hid ef List.mem_cons_self
    refine .bind (.under (goes_sql ⟨r, by rw [hef], hsame⟩)) ?_
    rintro _ _ rfl
    exact ih (fun x hx => hid x (List.mem_cons_of_mem _ hx))

theorem goes_mark {at_ : Time} {guarded : Bool} {key : String × String} (hk : i.key = some key) :
    Goes eng i (.executed id r) (sql (.inboxMarkCommitted key id at_ guarded)) (fun st' n =>
      n = (1 : Nat) ∧ st' = .settled id r) := by
  refine .mono (goes_sql ⟨hk, r, rfl⟩) (fun _ _ hu => hu) ?_
  rintro _ n ⟨hn, id', r', hst, rfl⟩
  cases hst
  exact ⟨hn, rfl⟩

theorem goes_goInboxMarkCommitted {eventID : String} (hk : i.key = some (tenantID, eventID)) :
    Goes eng i (.executed id r) (Go.inboxMarkCommitted tenantID eventID id) (fun st' _ => st' = .settled id r) := by
  refine .bind (goes_clock (by rintro _ _ ⟨⟩)) ?_
  rintro _ at_ rfl
  refine .bind (.under (goes_mark hk)) ?_
  rintro _ n ⟨-, rfl⟩
  rfl

theorem goes_goListSubscribers {eventType : String} :
    Goes eng i (.executed id r) (Go.listSubscribersForEvent tenantID eventType) (fun st' _ =>
      st' = .executed id r) := by
  refine .bind (.under (goes_sql (.inr ⟨id, r, rfl⟩))) ?_
  rintro _ items rfl
  split
  · exact goes_throw (by rintro _ _ ⟨⟩)
  · rfl

/-- Everything of the event is written, under the identity computed for it. -/
theorem goes_persistExecutionAndOutbox {revision : RuleRevision} {decision : Decision} (hk : i.key = some env.key) :
    Goes eng i .claimed (Go.persistExecutionAndOutbox eng env revision decision) (fun st' e =>
      ∃ r, Go.scanExecution e.id r = .ok e ∧ st' = .settled e.id r) := by
  refine .bind (goes_clock (by rintro _ _ ⟨⟩)) ?_
  rintro _ now rfl
  refine .bind (.under (.under (goes_sql ⟨rfl, hk, rfl⟩))) ?_
  rintro _ _ rfl
  refine .bind (.under goes_goListSubscribers) ?_
  rintro _ subscribers rfl
  split
  · exact goes_throw (by rintro _ _ ⟨⟩)
  refine .bind (goes_ofExcept (by rintro _ _ ⟨⟩)) ?_
  rintro _ payload ⟨rfl, -⟩
  refine .bind (.under (goes_goOutboxInsert ?_)) ?_
  · intro ef hef
    -- the Go worker writes an empty error
    rcases List.mem_append.mp hef with h | h
    all_goals
      obtain ⟨x, -, rfl⟩ := List.mem_map.mp h
      exact ⟨rfl, nofun⟩
  rintro _ _ rfl
  refine .bind (.under (goes_goInboxMarkCommitted hk)) ?_
  rintro _ _ rfl
  exact ⟨_, rfl, rfl⟩

theorem goes_assertHeld :
    Goes eng i .clean (Go.assertHeld shard owner token) (fun st' _ => st' = .clean) := by
  refine .bind (.under (goes_sql rfl)) ?_
  rintro _ (_ | ⟨current, expires, active⟩) rfl
  · exact goes_throw (by rintro _ _ ⟨⟩)
  dsimp only
  split
  · exact goes_throw (by rintro _ _ ⟨⟩)
  split
  · exact goes_throw (by rintro _ _ ⟨⟩)
  split
  · exact goes_throw (by rintro _ _ ⟨⟩)
  · rfl

theorem goes_commit :
    Goes eng i (.settled id r) ((sql .commit).wrap g) (fun st' _ => st' = .committed id r) := by
  refine .mono (.under (goes_sql ⟨id, r, .inl rfl⟩)) (fun _ _ hu => hu) ?_
  rintro _ _ ⟨id', r', ⟨hst, rfl⟩ | ⟨hst, rfl⟩⟩
  · cases hst
    rfl
  · cases hst

theorem goes_process {workerID : String} (hk : i.key = some env.key) :
    Goes eng i .idle (Go.process eng env token shard workerID) (fun st' e =>
      ∃ r, (st' = .found e.id r ∨ st' = .committed e.id r) ∧ Go.scanExecution e.id r = .ok e) := by
  refine .bind (goes_ofExcept (by rintro _ _ ⟨⟩)) ?_
  rintro _ _ ⟨rfl, -⟩
  split
  · exact goes_throw (by rintro _ _ ⟨⟩)
  refine .bind (.under (goes_sql (.inl rfl))) ?_
  rintro _ now rfl
  refine .bind (.under goes_assertHeld) ?_
  rintro _ _ rfl
  refine .bind (goes_deduplicateEvent hk) ?_
  rintro _ _ (⟨rfl, rfl⟩ | ⟨e, r, rfl, he, rfl⟩)
  · refine .bind goes_goLoadActiveRevision ?_
    rintro _ revision rfl
    refine .bind (goes_clock (by rintro _ _ ⟨⟩)) ?_
    rintro _ clock rfl
    refine .bind (goes_ofExcept (by rintro _ _ ⟨⟩)) ?_
    rintro _ decision ⟨rfl, -⟩
    refine .bind (goes_persistExecutionAndOutbox hk) ?_
    rintro _ e ⟨r, he, rfl⟩
    refine .bind goes_commit ?_
    rintro _ _ rfl
    exact ⟨r, .inr rfl, he⟩
  · exact ⟨r, .inl rfl, he⟩

/-! The Rust engine. -/

theorem goes_assertLease :
    Goes eng i .clean (Rust.assertLease shard owner token) (fun st' _ => st' = .clean) := by
  refine .bind (goes_ofExcept (by rintro _ _ ⟨⟩)) ?_
  rintro _ _ ⟨rfl, -⟩
  refine .bind (goes_sql rfl) ?_
  rintro _ (_ | ⟨current, expires, active⟩) rfl
  · exact goes_throw (by rintro _ _ ⟨⟩)
  dsimp only
  split
  · exact goes_throw (by rintro _ _ ⟨⟩)
  · rfl

/-- After a conflict the event's execution is on record. -/
theorem goes_loadDuplicateExecution (hk : i.key = some env.key) :
    Goes eng i (.found id r) (Rust.loadDuplicateExecution env) (fun st' id => ∃ r, st' = .found id r) := by
  refine .bind (goes_sql ⟨hk, .inr ⟨id, r, rfl⟩⟩) ?_
  intro st' row ht
  match row with
  | none =>
    obtain ⟨h, -⟩ := ht
    cases h
  | some row =>
    obtain ⟨id', r', hid, rfl⟩ := ht
    simp only [Option.bind_some, hid]
    refine .bind (goes_sql ⟨r', rfl⟩) ?_
    rintro _ found ⟨rfl, rfl⟩
    exact ⟨r', rfl⟩

theorem goes_rustLoadActiveRevision :
    Goes eng i .claimed (Rust.loadActiveRevision env) (fun st' _ => st' = .claimed) := by
  refine .bind (.under (goes_sql rfl)) ?_
  rintro _ (_ | revision) rfl
  · exact goes_throw (by rintro _ _ ⟨⟩)
  · rfl

theorem goes_loadServiceSubscriberEffects :
    Goes eng i .claimed (Rust.loadServiceSubscriberEffects eng env) (fun st' _ => st' = .claimed) := by
  refine .bind (.under (goes_sql (.inl rfl))) ?_
  rintro _ rows rfl
  split
  · exact goes_throw (by rintro _ _ ⟨⟩)
  refine .bind (goes_ofExcept (by rintro _ _ ⟨⟩)) ?_
  rintro _ payload ⟨rfl, -⟩
  rfl

theorem goes_persistOutboxEffects {effects : List Effect} :
    Goes eng i (.executed id r) (Rust.persistOutboxEffects id tenantID now effects)
      (fun st' _ => st' = .executed id r) := by
  induction effects with
  | nil => rfl
  | cons ef rest ih =>
    refine .bind (.under (goes_sql ⟨r, rfl, fun _ => rfl⟩)) ?_
    rintro _ _ rfl
    exact ih

theorem goes_markInboxCommitted (hk : i.key = some env.key) :
    Goes eng i (.executed id r) (Rust.markInboxCommitted env id now) (fun st' _ => st' = .settled id r) := by
  refine .bind (.under (goes_mark hk)) ?_
  rintro _ n ⟨rfl, rfl⟩
  exact rfl

theorem goes_persistNewEvent (hk : i.key = some env.key) :
    Goes eng i .claimed (Rust.persistNewEvent eng env now) (fun st' outcome => ∃ id r matched,
      outcome = .processed id r.decisionHash matched ∧ r.error = none ∧ st' = .settled id r) := by
  refine .bind goes_rustLoadActiveRevision ?_
  rintro _ revision rfl
  refine .bind (goes_clock (by rintro _ _ ⟨⟩)) ?_
  rintro _ clock rfl
  refine .bind (goes_ofExcept (by rintro _ _ ⟨⟩)) ?_
  rintro _ ⟨matched, effects⟩ ⟨rfl, -⟩
  refine .bind goes_loadServiceSubscriberEffects ?_
  rintro _ subscribers rfl
  refine .bind (.under (goes_sql ⟨rfl, hk, rfl⟩)) ?_
  rintro _ _ rfl
  refine .bind goes_persistOutboxEffects ?_
  rintro _ _ rfl
  refine .bind (goes_markInboxCommitted hk) ?_
  rintro _ _ rfl
  exact ⟨_, _, matched, rfl, rfl, rfl⟩

theorem goes_processEvent {numShards : UInt32} {workerID : String} (hk : i.key = some env.key) :
    Goes eng i .idle (Rust.processEvent eng env workerID token numShards) (fun st' outcome =>
      (∃ id r, outcome = .duplicate id ∧ st' = .confirmed id r) ∨ ∃ id r matched,
        outcome = .processed id r.decisionHash matched ∧ r.error = none ∧ st' = .committed id r) := by
  refine .bind (goes_ofExcept (by rintro _ _ ⟨⟩)) ?_
  rintro _ _ ⟨rfl, -⟩
  refine .bind (goes_ofExcept (by rintro _ _ ⟨⟩)) ?_
  rintro _ _ ⟨rfl, -⟩
  refine .bind (goes_ofExcept (by rintro _ _ ⟨⟩)) ?_
  rintro _ shard ⟨rfl, -⟩
  refine .bind (.under (goes_sql (.inl rfl))) ?_
  rintro _ now rfl
  refine .bind goes_assertLease ?_
  rintro _ _ rfl
  refine .bind (.under (goes_sql ⟨hk, rfl, rfl⟩)) ?_
  intro st' inserted ht
  match inserted with
  | true =>
    cases ht
    refine .bind (goes_persistNewEvent hk) ?_
    rintro _ _ ⟨id, r, matched, rfl, hnull, rfl⟩
    refine .bind goes_commit ?_
    rintro _ _ rfl
    exact .inr ⟨id, r, matched, rfl, hnull, rfl⟩
  | false =>
    obtain ⟨id, r, rfl⟩ := ht
    refine .bind (goes_loadDuplicateExecution hk) ?_
    rintro _ id ⟨r, rfl⟩
    refine .bind (.under (goes_sql ⟨id, r, .inr rfl⟩)) ?_
    rintro _ _ ⟨id', r', ⟨hst, rfl⟩ | ⟨hst, rfl⟩⟩
    · cases hst
    · cases hst
      exact .inl ⟨id, r, rfl, rfl⟩

/-! The lease calls: they write no event. -/

theorem goes_getOwner (hst : st = .idle ∨ st = .ended) :
    Goes eng i st (do let _ ← (sql .begin).wrap g; Go.getOwner shard) (fun st' _ => Uncommitted st') := by
  refine .bind (.under (goes_sql hst)) ?_
  rintro _ _ rfl
  refine .bind (.under (goes_sql rfl)) ?_
  rintro _ (_ | lease) rfl
  · exact goes_throw (by rintro _ _ ⟨⟩)
  · rintro _ _ ⟨⟩

theorem Goes.finishes {f : R → Reply} (h : Goes eng i .idle p Q) (hf : ∀ st x, Q st x → Finishes i st (.ok (f x))) :
    wp (proto eng i) (f <$> p) (Finishes i) .idle := by
  refine wp_map.mpr (wp_mono (fun st r hr => ?_) h)
  cases r with
  | ok x => exact hf st x hr
  | error e => exact hr

theorem program_wp (eng : Engine) (i : Call) : wp (proto eng i) (i.program eng) (Finishes i) .idle := by
  cases i with
  | goProcess env token shard workerID => exact (goes_process rfl).finishes (fun _ _ h => h)
  | rustProcess env workerID token numShards =>
    refine (goes_processEvent rfl).finishes ?_
    rintro _ _ (⟨id, r, rfl, rfl⟩ | ⟨id, r, matched, rfl, hnull, rfl⟩)
    · exact ⟨r, rfl⟩
    · exact ⟨r, rfl, rfl, hnull⟩
  | goAcquire shard owner ttl =>
    refine Goes.finishes (.bind (.under (goes_sql (.inl rfl))) ?_) (fun _ _ hu => ⟨rfl, hu⟩)
    rintro _ _ rfl
    refine .bind (.under (goes_sql rfl)) ?_
    rintro _ _ rfl
    exact goes_getOwner (.inr rfl)
  | goRenew shard owner token ttl =>
    refine Goes.finishes (.bind (.under (goes_sql (.inl rfl))) ?_) (fun _ _ hu => ⟨rfl, hu⟩)
    rintro _ _ rfl
    refine .bind (.under (goes_sql rfl)) ?_
    rintro _ rows rfl
    split
    · exact goes_throw (by rintro _ _ ⟨⟩)
    · exact goes_getOwner (.inr rfl)
  | goRenewOwned owner leases ttl =>
    refine Goes.finishes (Q := fun st _ => Uncommitted st) ?_ (fun _ _ hu => ⟨rfl, hu⟩)
    unfold Go.renewOwned
    split
    · rintro _ _ ⟨⟩
    refine .bind (.under (goes_sql (.inl rfl))) ?_
    rintro _ _ rfl
    refine .mono (.under (goes_sql rfl)) (fun _ _ hu => hu) ?_
    rintro _ _ rfl _ _ ⟨⟩
  | goRelease shard owner =>
    refine Goes.finishes (.bind (.under (goes_sql (.inl rfl))) ?_) (fun _ _ hu => ⟨rfl, hu⟩)
    rintro _ _ rfl
    refine .mono (.under (goes_sql rfl)) (fun _ _ hu => hu) ?_
    rintro _ _ rfl _ _ ⟨⟩
  | rustAcquire shard owner ttl | rustRenew shard owner token ttl =>
    refine Goes.finishes (.bind (goes_ofExcept (by rintro _ _ ⟨⟩)) ?_) (fun _ _ hu => ⟨rfl, hu⟩)
    rintro _ _ ⟨rfl, -⟩
    refine .bind (goes_sql (.inl rfl)) ?_
    rintro _ _ rfl
    refine .bind (goes_sql rfl) ?_
    rintro _ _ rfl
    rintro _ _ ⟨⟩
  | rustRelease shard owner =>
    refine Goes.finishes (.bind (goes_ofExcept (by rintro _ _ ⟨⟩)) ?_) (fun _ _ hu => ⟨rfl, hu⟩)
    rintro _ _ ⟨rfl, -⟩
    refine .bind (goes_sql (.inl rfl)) ?_
    rintro _ _ rfl
    refine .mono (goes_sql rfl) (fun _ _ hu => hu) ?_
    rintro _ _ rfl _ _ ⟨⟩

end

/-! The parts of a transaction that only read, or write the inbox and the executions. -/

def Quiet : Op → Prop
  | .clock => True
  | .inboxGet _ => True
  | .inboxInsert _ _ => True
  | .inboxMarkCommitted _ _ _ _ => True
  | .executionGet _ => True
  | .executionExists _ => True
  | .executionInsert _ _ _ => True
  | .activationGet _ _ => True
  | .revisionGetActive _ _ => True
  | .subscribersGet _ _ _ => True
  | _ => False

def Marked (batchID : Option String) : Op → Prop
  | .inboxInsert _ row => row.batchID = batchID
  | _ => True

/-- The parts of a Go transaction among them: its rows have an empty batch. -/
def QuietGo (o : Op) : Prop := Quiet o ∧ Marked (some "") o

section
variable {A : Op → Prop}

theorem only_sql {o : Op} (h : A o := by trivial) : (sql o).Only A := only_call h

theorem only_inboxGet (t e : String) : (Go.inboxGet t e).Only QuietGo := by
  refine ((only_sql).wrap _).bind (fun row => ?_)
  cases row with
  | none => trivial
  | some row => exact (only_ofExcept _).map _

theorem only_named {R : Type} (entry : Option Go.InboxEntry) (g : Err → Err) {k : Option Execution → Tx R}
    (hk : ∀ found, (k found).Only QuietGo) :
    (match entry with
      | some e => (Go.executionGet e.executionID).wrap g >>= k
      | none => pure none >>= k : Tx R).Only QuietGo := by
  cases entry with
  | none => exact hk none
  | some e =>
    refine Only.bind (Only.wrap _ (((only_sql).wrap _).bind (fun row => ?_))) hk
    cases row with
    | none => trivial
    | some row => exact (only_ofExcept _).map _

theorem only_deduplicateEvent (env : EventEnvelope) : (Go.deduplicateEvent env).Only QuietGo := by
  refine ((only_inboxGet _ _).wrap _).bind (fun entry => only_named entry _ (fun found => ?_))
  cases found with
  | some exec => trivial
  | none =>
    refine (only_sql).bind (fun now => (((only_sql).wrap _).wrap _).bind (fun inserted => ?_))
    cases inserted with
    | true => trivial
    | false =>
      refine ((only_inboxGet _ _).wrap _).bind (fun entry => only_named entry _ (fun found => ?_))
      cases found <;> trivial

theorem only_loadActiveRevision (env : EventEnvelope) : (Go.loadActiveRevision env).Only QuietGo := by
  refine ((only_sql).wrap _).bind (fun activation => ?_)
  cases activation with
  | none => trivial
  | some a =>
    refine ((only_sql).wrap _).bind (fun revision => ?_)
    cases revision <;> trivial

end

end FlowRule
