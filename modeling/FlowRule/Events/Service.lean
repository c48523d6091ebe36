import FlowRule.Events.Postgres

/- Event processing of the Go service (internal/services/events/service.go with the repositories
   of internal/adapters/postgres), and the lease calls. Every call is a program of statements;
   between two statements anything may happen in the database.

   Rule evaluation and JSON encoding are parameters (`Engine`). The evaluator's clock is read
   once for one evaluation. Left out: the type check of the transaction in
   NewEventTxRepositories and the nil check of the domain services repository. -/
namespace FlowRule

abbrev Tx := Prog Op Op.Res Err

/-- What the transactions take from elsewhere: sha256 in hexadecimal, the rule
    evaluators and the JSON encoders. -/
structure Engine where
  sha256Hex : String → String
  evaluate : Time → RuleRevision → EventEnvelope → Except Err Decision
  marshal : EventEnvelope → Except Err RawMessage
  rustEvaluate : Time → RuleRevision → EventEnvelope → Except Err (List String × List Effect)
  rustToValue : EventEnvelope → Except Err RawMessage

/-- The %q of a text without characters to escape. -/
def quoted (s : String) : String := "\"" ++ s ++ "\""

/-- The error of reading NULL into a string, with the column's place in the select. -/
def scanNull (index : Nat) (column : String) : Err :=
  .msg ("can't scan into dest[" ++ toString index ++ "] (col: " ++ column ++ "): cannot scan NULL into *string")

def sql (o : Op) : Tx o.Res := Prog.call o

def clockNow : Tx Time := sql .clock

/-- A new outbox row, with five attempts to make; the workers differ in the last error
    they write. -/
def pendingRow (executionID tenantID destination name : String) (payload : RawMessage)
    (effectType : EffectType) (now : Time) (lastError : Option String) : OutboxRow where
  executionID := executionID
  tenantID := tenantID
  destination := destination
  name := name
  payload := payload
  effectType := effectType
  status := .pending
  attempts := 0
  maxAttempts := 5
  availableAt := now
  lastError := lastError
  claimedBy := none
  claimedAt := none
  claimExpiresAt := none
  createdAt := now
  updatedAt := now

/-! The Go repositories. -/

namespace Go

structure InboxEntry where
  tenantID : String
  eventID : String
  status : InboxStatus
  executionID : String
  partitionKey : String
  ruleSet : String
  payload : RawMessage
  batchID : String
  firstSeenAt : Time
  committedAt : Option Time

/-- The row the Go worker inserts: no execution yet, and an empty batch rather than none. -/
def InboxEntry.row (e : InboxEntry) : InboxRow :=
  ⟨e.status, none, e.firstSeenAt, e.committedAt, e.partitionKey, e.ruleSet, e.payload, some e.batchID⟩

def inboxInsert (e : InboxEntry) : Tx Bool :=
  (sql (.inboxInsert (e.tenantID, e.eventID) e.row)).wrap (Err.wrap "insert inbox")

/-- A row read into an entry; a row without an execution cannot be read. -/
def scanInbox (tenantID eventID : String) (row : InboxRow) : Except Err InboxEntry :=
  match row.executionID with
  | none => .error (.wrap "get inbox" (scanNull 3 "execution_id"))
  | some id => .ok ⟨tenantID, eventID, row.status, id, row.partitionKey, row.ruleSet, row.payload,
      row.batchID.getD "", row.firstSeenAt, row.committedAt⟩

def inboxGet (tenantID eventID : String) : Tx (Option InboxEntry) := do
  let row : Option InboxRow ← (sql (.inboxGet (tenantID, eventID))).wrap (Err.wrap "get inbox")
  match row with
  | none => pure none
  | some row => some <$> Prog.ofExcept (scanInbox tenantID eventID row)

def inboxMarkCommitted (tenantID eventID executionID : String) : Tx Unit := do
  let now ← clockNow
  let _ ← (sql (.inboxMarkCommitted (tenantID, eventID) executionID now false)).wrap
    (Err.wrap "mark committed")

/-- The row of an execution; error and trace are written as they are, also when empty. -/
def executionRow (e : Execution) : ExecutionRow :=
  ⟨e.eventID, e.tenantID, e.ruleSet, e.revision, e.decisionHash, e.status, some e.error,
    some e.traceID, e.createdAt, none⟩

def executionSave (e : Execution) : Tx Unit :=
  (sql (.executionInsert e.id (executionRow e) true)).wrap (Err.wrap "save execution")

/-- A row read into an execution; a row without an error text or trace cannot be read. -/
def scanExecution (id : String) (r : ExecutionRow) : Except Err Execution :=
  match r.error, r.traceID with
  | none, _ => .error (.wrap "get execution" (scanNull 7 "error"))
  | some _, none => .error (.wrap "get execution" (scanNull 8 "trace_id"))
  | some error, some traceID => .ok ⟨id, r.eventID, r.tenantID, r.ruleSet, r.revision, r.decisionHash,
      r.status, error, traceID, r.createdAt, r.completedAt⟩

def executionGet (id : String) : Tx (Option Execution) := do
  let row : Option ExecutionRow ← (sql (.executionGet id)).wrap (Err.wrap "get execution")
  match row with
  | none => pure none
  | some row => some <$> Prog.ofExcept (scanExecution id row)

structure OutboxEffect where
  id : String
  row : OutboxRow

def outboxInsert : List OutboxEffect → Tx Unit
  | [] => pure ()
  | ef :: rest => do
    if ef.row.tenantID = "" then Prog.throw (.msg "insert outbox: tenant_id is required")
    let _ ← (sql (.outboxInsert ef.id ef.row)).wrap (Err.wrap "insert outbox")
    outboxInsert rest

def assertHeld (shard : Nat) (owner : String) (fencingToken : Int) : Tx Unit := do
  let row : Option (Int × Time × Bool) ← (sql (.assertHeld shard owner)).wrap (Err.wrap "assert held")
  match row with
  | none => Prog.throw (.wrap "assert held" (.msg "no rows in result set"))
  | some (currentToken, _, active) =>
    if fencingToken ≤ 0 then Prog.throw (.sentinel .fencingTokenMismatch)
    else if !active then Prog.throw (.sentinel .leaseExpired)
    else if currentToken ≠ fencingToken then Prog.throw (.sentinel .fencingTokenMismatch)
    else pure ()

def listSubscribersForEvent (tenantID eventType : String) : Tx (List DomainService) := do
  let items : List DomainService ← (sql (.subscribersGet tenantID eventType true)).wrap
    (Err.wrap "list services subscribed to event")
  if 100 < items.length then
    Prog.throw (.msg ("event " ++ quoted eventType ++ " exceeds maximum of 100 tenant subscribers"))
  else pure items

/-! The event service. -/

section
variable (eng : Engine)

/-- The execution already recorded for the event, or none once the event is claimed. -/
def deduplicateEvent (env : EventEnvelope) : Tx (Option Execution) := do
  let entry ← (inboxGet env.tenantID env.id).wrap (Err.wrap "check inbox")
  let found : Option Execution ← match entry with
    | some e => (executionGet e.executionID).wrap (Err.wrap "get existing execution")
    | none => pure none
  match found with
  | some exec => pure (some exec)
  | none =>
    let now ← clockNow
    let inserted ← (inboxInsert ⟨env.tenantID, env.id, .processing, "", env.partitionKey, env.type,
      env.data, "", now, none⟩).wrap (Err.wrap "insert inbox")
    if inserted then pure none
    else
      let entry ← (inboxGet env.tenantID env.id).wrap (Err.wrap "get inbox after conflict")
      let found : Option Execution ← match entry with
        | some e => (executionGet e.executionID).wrap (Err.wrap "get execution after conflict")
        | none => pure none
      match found with
      | some exec => pure (some exec)
      | none => Prog.throw (.sentinel .inboxDuplicate)

def loadActiveRevision (env : EventEnvelope) : Tx RuleRevision := do
  let activation : Option RuleActivation ← (sql (.activationGet env.tenantID env.type)).wrap
    (Err.wrap "get activation" ∘ Err.wrap "get activation")
  match activation with
  | none => Prog.throw (.sentinel .ruleNotReady)
  | some _ =>
    let revision : Option RuleRevision ← (sql (.revisionGetActive env.tenantID env.type)).wrap
      (Err.wrap "get active revision" ∘ Err.wrap "query active revision")
    match revision with
    | none => Prog.throw (.sentinel .ruleNotFound)
    | some revision => pure revision

def decisionEffect (env : EventEnvelope) (executionID : String) (now : Time) (ef : Effect) : OutboxEffect :=
  ⟨ef.id, pendingRow executionID env.tenantID ef.destination ef.name ef.payload ef.effectType now (some "")⟩

def subscriberEffect (env : EventEnvelope) (executionID : String) (now : Time) (payload : RawMessage)
    (s : DomainService) : OutboxEffect :=
  ⟨computeEffectID eng.sha256Hex env.tenantID env.id "service-subscription" 1 s.id 0,
    pendingRow executionID env.tenantID s.id env.type payload .serviceEvent now (some "")⟩

def newExecution (env : EventEnvelope) (revision : RuleRevision) (decision : Decision) (now : Time) : Execution :=
  { id := computeExecutionID eng.sha256Hex env.tenantID env.id env.type revision.revision
    eventID := env.id, tenantID := env.tenantID, ruleSet := env.type, revision := revision.revision,
    decisionHash := decision.hash, status := .completed, error := "", traceID := "", createdAt := now,
    completedAt := none }

def persistExecutionAndOutbox (env : EventEnvelope) (revision : RuleRevision) (decision : Decision) :
    Tx Execution := do
  let now ← clockNow
  let execution := newExecution eng env revision decision now
  (executionSave execution).wrap (Err.wrap "save execution")
  let subscribers ← (listSubscribersForEvent env.tenantID env.type).wrap
    (Err.wrap "get tenant domain subscribers")
  if 100 < subscribers.length then
    Prog.throw (.msg ("event " ++ quoted env.type ++ " exceeds the 100-service fan-out limit"))
  else
    let payload ← Prog.ofExcept ((eng.marshal env).mapError (Err.wrap "marshal subscribed event"))
    (outboxInsert (decision.effects.map (decisionEffect env execution.id now) ++
      subscribers.map (subscriberEffect eng env execution.id now payload))).wrap (Err.wrap "insert outbox")
    (inboxMarkCommitted env.tenantID env.id execution.id).wrap (Err.wrap "mark inbox committed")
    pure execution

def processInTransaction (env : EventEnvelope) (fencingToken : Int) (shard : Nat) (workerID : String) :
    Tx Execution := do
  let _ ← (sql .begin).wrap (Err.wrap "begin tx" ∘ Err.wrap "begin tx")
  (assertHeld shard workerID fencingToken).wrap (Err.wrap "fencing token validation failed")
  match ← deduplicateEvent env with
  | some existing => pure existing
  | none =>
    let revision ← loadActiveRevision env
    let now ← clockNow
    let decision ← Prog.ofExcept ((eng.evaluate now revision env).mapError (Err.wrap "evaluate"))
    let execution ← persistExecutionAndOutbox eng env revision decision
    let _ ← (sql .commit).wrap (Err.wrap "commit tx")
    pure execution

def process (env : EventEnvelope) (fencingToken : Int) (shard : Nat) (workerID : String) : Tx Execution := do
  Prog.ofExcept env.validate
  if fencingToken ≤ 0 then Prog.throw (.sentinel .fencingTokenMismatch)
  else processInTransaction eng env fencingToken shard workerID

end

/-! The lease repository. Its statements get a TTL in whole milliseconds. -/

def milliseconds (ttl : Int) : Int := ttl.tdiv 1000 * 1000

def getOwner (shard : Nat) : Tx ShardLease := do
  let lease : Option ShardLease ← (sql (.leaseGet shard)).wrap (Err.wrap "get owner")
  match lease with
  | none => Prog.throw (.wrap "get owner" (.msg "no rows in result set"))
  | some lease => pure lease

def acquire (shard : Nat) (owner : String) (ttl : Int) : Tx ShardLease := do
  let _ ← (sql .begin).wrap (Err.wrap "acquire lease")
  let _ ← (sql (.leaseUpsert shard owner (milliseconds ttl))).wrap (Err.wrap "acquire lease")
  let _ ← (sql .begin).wrap (Err.wrap "get owner")
  getOwner shard

def renew (shard : Nat) (owner : String) (fencingToken : Int) (ttl : Int) : Tx ShardLease := do
  let _ ← (sql .begin).wrap (Err.wrap "renew lease")
  let rows : List (Nat × ShardLease) ← (sql (.leaseRenew owner [(shard, fencingToken)] (milliseconds ttl))).wrap
    (Err.wrap "renew lease")
  if rows.isEmpty then Prog.throw (.sentinel .leaseExpired)
  else
    let _ ← (sql .begin).wrap (Err.wrap "get owner")
    getOwner shard

def renewOwned (owner : String) (leases : List (Nat × Int)) (ttl : Int) : Tx (List (Nat × ShardLease)) := do
  if leases.isEmpty then pure []
  else
    let _ ← (sql .begin).wrap (Err.wrap "renew owned leases")
    (sql (.leaseRenew owner leases (milliseconds ttl))).wrap (Err.wrap "renew owned leases")

def release (shard : Nat) (owner : String) : Tx Unit := do
  let _ ← (sql .begin).wrap (Err.wrap "release lease")
  (sql (.leaseRelease shard owner)).wrap (Err.wrap "release lease")

end Go

end FlowRule
