import FlowRule.Events.FanOut
import FlowRule.Outbox.Repository

/- What a Go worker makes of the rows a Rust worker has written. The Rust worker leaves the error
   and the trace of an execution and the last error of an effect NULL, and the Go worker reads
   all three into strings: every Go call for such a row fails on it (`rust_rows_not_usable`). -/
namespace FlowRule

open Machine Clients Prog

namespace Outbox

def statement (w : Oracle) (o : Op) (st : DB × Session) : Except Err o.Res × (DB × Session) :=
  match exec st.1 [] st.2 o w with
  | some (d, s, a) => (a, (d, s))
  | none => (.error (.msg "waiting"), st)

def claimAlone (w : Oracle) (d : DB) (batchSize : Int) (owner : String) (claimTTL : Int) :
    Except Err (List (String × OutboxRow)) :=
  (handle (statement w) (Go.claimPending batchSize owner claimTTL) (d, none)).1

variable {d : DB} {owner id : String} {row : OutboxRow}

theorem claimed_row {ttl : Int} {pick : List String}
    (h : (id, row) ∈ pick.filterMap (fun id =>
      (changed d.outbox pick (fun r => r.claim owner d.now ttl) id).map (fun r => (id, r)))) :
    ∃ r, d.outbox id = some r ∧ row = r.claim owner d.now ttl := by
  obtain ⟨id', hmem, hrow⟩ := List.mem_filterMap.mp h
  obtain ⟨r', hr', heq⟩ := Option.map_eq_some_iff.mp hrow
  cases heq
  simp only [changed, if_pos hmem, Option.map_eq_some_iff] at hr'
  obtain ⟨r, hr, rfl⟩ := hr'
  exact ⟨r, hr, rfl⟩

theorem statement_claim {w : Oracle} {batch : Nat} {ttl : Int} {atOnce : Bool} {rows : List (String × OutboxRow)}
    {st : DB × Session} (h : statement w (.claim batch owner ttl atOnce) (d, none) = (.ok rows, st))
    (hmem : (id, row) ∈ rows) : ∃ r, d.outbox id = some r ∧ row = r.claim owner d.now ttl := by
  unfold statement exec at h
  split at h
  · rename_i d' s' a he
    cases h
    split at he
    · cases he
    simp only [perform] at he
    split at he <;> cases he
    exact claimed_row hmem
  · cases h

/-- ClaimPending answers no row without a last error. -/
theorem claimAlone_lastError {w : Oracle} {batchSize : Int} {claimTTL : Int}
    {effects : List (String × OutboxRow)} (h : claimAlone w d batchSize owner claimTTL = .ok effects)
    {r : OutboxRow} (hr : d.outbox id = some r) (hmem : (id, row) ∈ effects) : r.lastError ≠ none := by
  unfold claimAlone Go.claimPending at h
  rw [handle_bind, handle_ofExcept] at h
  cases hargs : Go.validateClaimArguments batchSize owner claimTTL with
  | error e =>
    rw [hargs] at h
    cases h
  | ok _ =>
    simp only [hargs] at h
    have hst : handle (statement w) ((sql (.claim batchSize.toNat owner claimTTL true)).wrap
        (Err.wrap "claim pending")) (d, none) =
        ((statement w (.claim batchSize.toNat owner claimTTL true) (d, none)).1.mapError (Err.wrap "claim pending"),
          (statement w (.claim batchSize.toNat owner claimTTL true) (d, none)).2) := by
      rw [handle_wrap, sql, handle_call]
    cases hans : statement w (.claim batchSize.toNat owner claimTTL true) (d, none) with
    | mk a st =>
    rw [hans] at hst
    match a with
    | .error e =>
      have h' := (congrArg Prod.fst (handle_bind_error
        (f := fun rows => (ofExcept (Go.scanOutboxEffects rows) : Tx (List (String × OutboxRow)))) hst)).symm.trans h
      cases h'
    | .ok rows =>
      have h' := (congrArg Prod.fst (handle_bind_ok
        (f := fun rows => (ofExcept (Go.scanOutboxEffects rows) : Tx (List (String × OutboxRow)))) hst)).symm.trans h
      rw [handle_ofExcept] at h'
      obtain ⟨x, hx, hscan⟩ := (Checks.mapM_ok h').1 _ hmem
      unfold Go.scanOutboxEffect at hscan
      split at hscan
      · cases hscan
      rename_i error herror
      cases hscan
      obtain ⟨r', hr', rfl⟩ := statement_claim hans hx
      rw [hr] at hr'
      cases hr'
      intro hnull
      exact absurd (herror.symm.trans hnull) (by simp)

end Outbox

/-- In every reachable state in which a Rust call has processed an event, no Go call for the
    event has returned an execution, and from whatever database has one of the effects of
    that execution, no ClaimPending answers it. -/
theorem rust_rows_not_usable {eng : Engine} (hsha : Function.Injective eng.sha256Hex) {now : Time} {refs : Reference}
    {ls : List StoreAct} {w : Store} (h : run (storeNext eng) (Store.init now refs) ls = some w) {c : Nat}
    {env : EventEnvelope} {workerID : String} {token : Int} {numShards : UInt32} {s : Session} {id hash : String}
    {matchedRules : List String}
    (hc : w.clients[c]? = some ⟨.rustProcess env workerID token numShards, s,
      .returned (.ok (.outcome (.processed id hash matchedRules)))⟩) :
    (∀ (c' : Nat) env' token' shard workerID' s' e, env'.key = env.key →
      w.clients[c']? ≠ some ⟨.goProcess env' token' shard workerID', s', .returned (.ok (.execution e))⟩) ∧
    (∀ effectID row, w.db.tables.outbox effectID = some row → row.executionID = id →
      ∀ (d : Outbox.DB) o batchSize owner claimTTL effects, d.outbox effectID = some row →
        Outbox.claimAlone o d batchSize owner claimTTL = .ok effects → effectID ∉ effects.map Prod.fst) := by
  have hw := holds_run hsha h
  have hok : TablesOk eng w.db.tables := hw.glob
  obtain ⟨r, ⟨hexec, hkey, -⟩, -, hnull⟩ : Post (.rustProcess env workerID token numShards) w.db
    (.ok (.outcome (.processed id hash matchedRules))) := hw.returned c _ s _ hc
  constructor
  · intro c' env' token' shard workerID' s' e hsame hc'
    obtain ⟨id', r', hid', hexec', hkey', hscan⟩ := returned_execution hw hc' rfl
    -- the event has one execution, and that is the one without an error text
    obtain ⟨-, row, hrow, hid⟩ := hok.execution id r hexec
    obtain ⟨-, row', hrow', hid''⟩ := hok.execution id' r' hexec'
    have hk : r.key = r'.key := by
      rw [hkey', hsame]
      exact (Option.some.inj hkey).symm
    rw [hk, hrow'] at hrow
    cases hrow
    rw [hid] at hid''
    cases hid''
    rw [hexec] at hexec'
    cases hexec'
    have hread := hscan e rfl
    simp [Go.scanExecution, hnull] at hread
  · intro effectID row hrow hrowID d o batchSize owner claimTTL effects hd hclaim hmem
    obtain ⟨r', hr', hwriter⟩ := hok.outbox effectID row hrow
    rw [hrowID, hexec] at hr'
    cases hr'
    obtain ⟨⟨id', row'⟩, hin, rfl⟩ := List.mem_map.mp hmem
    exact Outbox.claimAlone_lastError hclaim hd hin (hwriter hnull)

/-! The event of `Sample` with one subscriber: a Rust worker processes it, then it is
    delivered again to a Go worker. -/

namespace Redelivered

def run : Option Store :=
  Machine.run (storeNext Subscribed.engine) (Store.init 63902822400000000 (Subscribed.refs 1 1))
    (([.start (.goAcquire 12 "w1" 30000000)] : List StoreAct) ++ Sample.steps 0 4 ++ ([.finish 0] : List StoreAct) ++
      ([.start (.rustProcess Sample.event "w1" 1 16)] : List StoreAct) ++ Sample.steps 1 10 ++
      ([.finish 1] : List StoreAct) ++
      ([.start (.goProcess Sample.event 1 12 "w1")] : List StoreAct) ++ Sample.steps 2 4 ++
      ([.finish 2] : List StoreAct))

def processed (w : Store) (c : Nat) : Option ((String × String) × String) :=
  match w.clients[c]? with
  | some ⟨.rustProcess env _ _ _, _, .returned (.ok (.outcome (.processed id _ _)))⟩ => some (env.key, id)
  | _ => none

def failed (w : Store) (c : Nat) : Option String :=
  match w.clients[c]? with
  | some ⟨_, _, .returned (.error e)⟩ => some e.text
  | _ => none

def effectID : String := computeEffectID Subscribed.sha256Hex "acme" "o-1" "service-subscription" 1 "0" 0

def publisherDB (w : Store) : Outbox.DB := ⟨63902822402000000, w.db.tables.outbox, fun _ => none, [], [], []⟩

def choice : Outbox.Oracle := ⟨none, 0, "", [effectID], .stored⟩

def claimFailed (w : Store) : Option String :=
  match Outbox.claimAlone choice (publisherDB w) 10 "publisher-1" 120000000 with
  | .error e => some e.text
  | .ok _ => none

theorem processed_client {w : Store} {c : Nat} {key : String × String} {id : String}
    (h : processed w c = some (key, id)) : ∃ env workerID token numShards s hash matchedRules, env.key = key ∧
      w.clients[c]? = some ⟨.rustProcess env workerID token numShards, s,
        .returned (.ok (.outcome (.processed id hash matchedRules)))⟩ := by
  unfold processed at h
  split at h
  · rename_i hc
    cases h
    exact ⟨_, _, _, _, _, _, _, rfl, hc⟩
  · cases h

end Redelivered

theorem rust_rows_not_usable_redelivered :
    ∃ w id, Redelivered.run = some w ∧ Redelivered.processed w 1 = some (("acme", "o-1"), id) ∧
      ∀ (c' : Nat) env' token' shard workerID' s' e, env'.key = ("acme", "o-1") →
        w.clients[c']? ≠ some ⟨.goProcess env' token' shard workerID', s', .returned (.ok (.execution e))⟩ := by
  have hrun : Redelivered.run.bind (fun w => Redelivered.processed w 1) =
      some (("acme", "o-1"), "daadf629e1d919d7c22b64935efdc9b01ede5b202f660a3907c8dd8a5ddb5146") := by decide +kernel
  obtain ⟨w, hw, hp⟩ := Option.bind_eq_some_iff.mp hrun
  obtain ⟨env, workerID, token, numShards, s, hash, matchedRules, hkey, hc⟩ := Redelivered.processed_client hp
  refine ⟨w, _, hw, hp, ?_⟩
  rw [← hkey]
  exact (rust_rows_not_usable (Text.digest_injective (by decide +kernel) (by decide +kernel)) hw hc).1

/-- Both Go calls fail on the NULL columns. -/
theorem rust_rows_go_fails :
    Redelivered.run.map (fun w => (Redelivered.processed w 1, Redelivered.failed w 2,
      (w.db.tables.outbox Redelivered.effectID).map OutboxRow.status, Redelivered.claimFailed w)) =
    some (some (("acme", "o-1"), "daadf629e1d919d7c22b64935efdc9b01ede5b202f660a3907c8dd8a5ddb5146"),
      some "get existing execution: get execution: can't scan into dest[7] (col: error): cannot scan NULL into *string",
      some .pending,
      some "scan outbox: can't scan into dest[11] (col: last_error): cannot scan NULL into *string") := by
  decide +kernel

end FlowRule
