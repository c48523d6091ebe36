import FlowRule.Events.Service
import FlowRule.Rules.RustRules

/- The Rust worker's side of the same database (rust-worker/src/engine.rs,
   engine/persistence.rs, engine/lease.rs). It inserts into the inbox first and reads
   afterwards, commits also when it finds a duplicate, and inserts the execution without
   ON CONFLICT, so that a conflict is an error. -/
namespace FlowRule.Rust

def validate (env : EventEnvelope) : Except Err Unit :=
  if trimIsEmpty env.id then .error (.msg "event id is required")
  else if trimIsEmpty env.type then .error (.msg "event type is required")
  else if trimIsEmpty env.tenantID then .error (.msg "tenant_id is required")
  else if trimIsEmpty env.partitionKey then .error (.msg "partition_key is required")
  else .ok ()

def virtualShard (env : EventEnvelope) (numShards : UInt32) : Except Err UInt32 :=
  if numShards = 0 then .error (.msg "NUM_SHARDS must be greater than zero")
  else .ok (env.virtualShard numShards)

def validateWorkerLease (workerID : String) (fencingToken : Int) : Except Err Unit :=
  if trimIsEmpty workerID || decide (fencingToken ≤ 0) then
    .error (.msg "worker id and positive fencing token are required")
  else .ok ()

/-- i32::try_from of a shard number. -/
def shardColumn (shard : Nat) : Except Err Nat :=
  if shard < 2147483648 then .ok shard else .error (.msg "out of range integral type conversion attempted")

inductive ProcessOutcome where
  | processed (executionID decisionHash : String) (matchedRules : List String)
  | duplicate (executionID : String)

def assertLease (shard : Nat) (owner : String) (token : Int) : Tx Unit := do
  let shard ← Prog.ofExcept (shardColumn shard)
  let row : Option (Int × Time × Bool) ← sql (.assertHeld shard owner)
  match row with
  | none => Prog.throw (.msg "shard lease is not held by this worker")
  | some (current, _, active) =>
    if !active || decide (token ≤ 0) || current != token then
      Prog.throw (.msg "shard lease expired or fencing token mismatch")
    else pure ()

def insertInbox (env : EventEnvelope) (now : Time) : Tx Bool :=
  (sql (.inboxInsert env.key ⟨.processing, none, now, none, env.partitionKey, env.type, env.data, none⟩)).wrap
    (Err.wrap "insert inbox row")

def loadDuplicateExecution (env : EventEnvelope) : Tx String := do
  let row : Option InboxRow ← sql (.inboxGet env.key)
  match row.bind InboxRow.executionID with
  | none => Prog.throw (.msg "inbox duplicate has no committed execution; refusing unsafe acknowledgement")
  | some executionID =>
    let found : Bool ← sql (.executionExists executionID)
    if found then pure executionID
    else Prog.throw (.msg "inbox points to missing execution; refusing unsafe acknowledgement")

def loadActiveRevision (env : EventEnvelope) : Tx RuleRevision := do
  let row : Option RuleRevision ← (sql (.revisionGetActive env.tenantID env.type)).wrap
    (Err.wrap "load active rule revision")
  match row with
  | none => Prog.throw (.msg ("active rule revision not found for tenant=" ++ env.tenantID ++
      " rule_set=" ++ env.type))
  | some revision => pure revision

section
variable (eng : Engine)

def loadServiceSubscriberEffects (env : EventEnvelope) : Tx (List Effect) := do
  let rows : List DomainService ← (sql (.subscribersGet env.tenantID env.type false)).wrap
    (Err.wrap "load tenant domain-service subscribers")
  if 100 < rows.length then
    Prog.throw (.msg ("event type " ++ env.type ++ " exceeds the 100-service fan-out limit"))
  else
    let payload ← Prog.ofExcept ((eng.rustToValue env).mapError
      (Err.wrap "serialize subscribed event envelope"))
    pure (rows.map (fun s => ⟨computeEffectID eng.sha256Hex env.tenantID env.id "service-subscription" 1 s.id 0,
      s.id, env.type, payload, .serviceEvent, 0⟩))

def persistExecution (executionID : String) (env : EventEnvelope) (revision : RuleRevision)
    (decisionHash : String) (now : Time) : Tx Unit :=
  (sql (.executionInsert executionID ⟨env.id, env.tenantID, env.type, revision.revision, decisionHash,
    .completed, none, none, now, some now⟩ false)).wrap (Err.wrap "persist execution")

def persistOutboxEffects (executionID tenantID : String) (now : Time) : List Effect → Tx Unit
  | [] => pure ()
  | ef :: rest => do
    let _ ← (sql (.outboxInsert ef.id (pendingRow executionID tenantID ef.destination ef.name ef.payload
      ef.effectType now none))).wrap (Err.wrap "persist outbox effect")
    persistOutboxEffects executionID tenantID now rest

def markInboxCommitted (env : EventEnvelope) (executionID : String) (now : Time) : Tx Unit := do
  let affected : Nat ← (sql (.inboxMarkCommitted env.key executionID now true)).wrap
    (Err.wrap "mark inbox committed")
  if affected ≠ 1 then
    Prog.throw (.msg ("inbox commit transition affected " ++ toString affected ++ " rows"))
  else pure ()

/-- Evaluates the active rules and writes what they decided; the commit is the caller's. -/
def persistNewEvent (env : EventEnvelope) (now : Time) : Tx ProcessOutcome := do
  let revision ← loadActiveRevision env
  let clock ← clockNow
  let (matchedRules, effects) ← Prog.ofExcept (eng.rustEvaluate clock revision env)
  let decisionHash := computeDecisionHash eng.sha256Hex revision.contentHash env.id "" matchedRules effects
  let subscribers ← loadServiceSubscriberEffects eng env
  let executionID := computeExecutionID eng.sha256Hex env.tenantID env.id env.type revision.revision
  persistExecution executionID env revision decisionHash now
  persistOutboxEffects executionID env.tenantID now (effects ++ subscribers)
  markInboxCommitted env executionID now
  pure (.processed executionID decisionHash matchedRules)

def processEvent (env : EventEnvelope) (workerID : String) (fencingToken : Int) (numShards : UInt32) :
    Tx ProcessOutcome := do
  Prog.ofExcept (validate env)
  Prog.ofExcept (validateWorkerLease workerID fencingToken)
  let shard ← Prog.ofExcept (virtualShard env numShards)
  let now : Time ← (sql .begin).wrap (Err.wrap "begin event transaction")
  assertLease shard.toNat workerID fencingToken
  let inserted ← insertInbox env now
  if inserted then
    let outcome ← persistNewEvent eng env now
    let _ ← (sql .commit).wrap (Err.wrap "commit event transaction")
    pure outcome
  else
    let executionID ← loadDuplicateExecution env
    let _ ← (sql .commit).wrap (Err.wrap "commit duplicate acknowledgement transaction")
    pure (.duplicate executionID)

end

/-! Leases. -/

/-- The token of the lease, when it is now this owner's and has not expired. -/
def acquireLease (shard : Nat) (owner : String) (ttl : Int) : Tx (Option Int) := do
  let shard ← Prog.ofExcept (shardColumn shard)
  let now : Time ← sql .begin
  let lease : ShardLease ← sql (.leaseUpsert shard owner ttl)
  pure (if lease.owner = owner ∧ now < lease.expiresAt then some lease.fencingToken else none)

def renewLease (shard : Nat) (owner : String) (token : Int) (ttl : Int) : Tx Bool := do
  let shard ← Prog.ofExcept (shardColumn shard)
  let _ ← sql .begin
  let rows : List (Nat × ShardLease) ← sql (.leaseRenew owner [(shard, token)] ttl)
  pure (rows.length == 1)

def releaseLease (shard : Nat) (owner : String) : Tx Unit := do
  let shard ← Prog.ofExcept (shardColumn shard)
  let _ ← sql .begin
  sql (.leaseRelease shard owner)

end FlowRule.Rust
