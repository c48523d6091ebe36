import FlowRule.Batches.Unbatched

/- The batch service (internal/services/batches/service.go, internal/domain/batch.go) on the
   Postgres repositories. Tick and CreateBatch are programs of repository calls, questions to
   the lease provider and the clock, and Process, each of them a transaction of its own;
   between two of them anything may happen, and a call may be lost at any point.

   `executed` records every batch event for which Process has returned an execution. sha256
   and the JSON encoder are parameters. No group is empty when its first member is read. -/
namespace FlowRule.Batches

inductive BatchMode where
  | none | accumulate | window
  deriving DecidableEq, Repr

structure BatchMember where
  id : String
  type : String
  data : RawMessage

structure BatchData where
  batchID : String
  tenantID : String
  partitionKey : String
  ruleSet : String
  windowFrom : Time
  windowTo : Time
  events : List BatchMember

def batchRuleSet (ruleSet : String) : String := ruleSet ++ ".batch"

def computeBatchID (sha256Hex : String → String) (tenantID partitionKey ruleSet : String) (eventIDs : List String) :
    String :=
  sha256Hex (tenantID ++ "|" ++ partitionKey ++ "|" ++ ruleSet ++ "|" ++
    ",".intercalate (eventIDs.insertionSort (· ≤ ·)))

/-- A service and what it was created with; `events` and `leases` say whether it has a processor
    and a lease provider. -/
structure Service where
  mode : BatchMode
  maxBatch : Int
  window : Int
  events : Bool
  leases : Bool
  workerID : String
  numShards : UInt32
  sha256Hex : String → String
  marshal : BatchData → Except Err RawMessage

/-- What the service asks for. A completion names the tenant of the group it is for, and Process
    is given the members of the envelope; neither is used. -/
inductive Ask where
  | clock
  | listUnbatched (limit : Int)
  | listUnbatchedByIDs (tenantID partitionKey ruleSet : String) (eventIDs : List String)
  | getRun (batchID : String)
  | isOwner (shard : UInt32)
  | getFencingToken (shard : UInt32)
  | process (env : EventEnvelope) (members : List String) (fencingToken : Int) (shard : UInt32) (workerID : String)
  | completeBatch (tenantID : String) (run : BatchRun) (eventIDs : List String)

def Ask.Res : Ask → Type
  | clock => Time
  | listUnbatched _ => List Go.InboxEntry
  | listUnbatchedByIDs _ _ _ _ => List Go.InboxEntry
  | getRun _ => Option BatchRun
  | isOwner _ => Bool
  | getFencingToken _ => Option Int
  | process _ _ _ _ _ => Execution
  | completeBatch _ _ _ => Unit

abbrev Work := Prog Ask Ask.Res Err

def ask (o : Ask) : Work o.Res := Prog.call o

/-! Groups. -/

structure GroupKey where
  tenantID : String
  partitionKey : String
  ruleSet : String
  deriving DecidableEq, Repr

def groupKey (e : Go.InboxEntry) : GroupKey := ⟨e.tenantID, e.partitionKey, e.ruleSet⟩

/-- One more entry; one without a tenant, partition or rule set is left out. -/
def addEntry (g : (GroupKey → List Go.InboxEntry) × List GroupKey) (e : Go.InboxEntry) :
    (GroupKey → List Go.InboxEntry) × List GroupKey :=
  if e.tenantID = "" ∨ e.partitionKey = "" ∨ e.ruleSet = "" then g
  else (Function.update g.1 (groupKey e) (g.1 (groupKey e) ++ [e]),
    if (g.1 (groupKey e)).isEmpty then g.2 ++ [groupKey e] else g.2)

def groupInboxEntries (entries : List Go.InboxEntry) : (GroupKey → List Go.InboxEntry) × List GroupKey :=
  entries.foldl addEntry (fun _ => [], [])

/-- sort.SliceStable by the time of the first sight. -/
def sortMembers (members : List Go.InboxEntry) : List Go.InboxEntry :=
  members.insertionSort (fun a b => a.firstSeenAt ≤ b.firstSeenAt)

structure BatchInput where
  batchID : String
  tenantID : String
  partitionKey : String
  ruleSet : String
  eventIDs : List String
  batchEvents : List BatchMember
  windowFrom : Time

namespace Service

variable (s : Service)

def ownsPartition (tenantID partitionKey : String) : Work Bool :=
  if !s.leases || tenantID = "" || partitionKey = "" then pure false
  else do
    let envelope : EventEnvelope := ⟨"", "", tenantID, partitionKey, "", 0, "", []⟩
    let owner : Bool ← ask (.isOwner (envelope.virtualShard s.numShards))
    pure (owner == true)

def ready (members : List Go.InboxEntry) : Work Bool :=
  match s.mode, members with
  | .accumulate, _ => pure (decide (0 < s.maxBatch ∧ s.maxBatch ≤ members.length))
  | .window, oldest :: _ => do
    let now : Time ← ask .clock
    pure (decide (oldest.firstSeenAt + s.window ≤ now))
  | _, _ => pure false

def limitBatchMembers (members : List Go.InboxEntry) : List Go.InboxEntry :=
  if 0 < s.maxBatch ∧ s.maxBatch < members.length then members.take s.maxBatch.toNat else members

def buildBatchInput (first : Go.InboxEntry) (members : List Go.InboxEntry) : BatchInput where
  batchID := computeBatchID s.sha256Hex first.tenantID first.partitionKey first.ruleSet (members.map (·.eventID))
  tenantID := first.tenantID
  partitionKey := first.partitionKey
  ruleSet := first.ruleSet
  eventIDs := members.map (·.eventID)
  batchEvents := members.map (fun m => ⟨m.eventID, m.ruleSet, m.payload⟩)
  windowFrom := first.firstSeenAt

def buildBatchEnvelope (input : BatchInput) (now : Time) : Except Err EventEnvelope := do
  let data ← (s.marshal ⟨input.batchID, input.tenantID, input.partitionKey, input.ruleSet, input.windowFrom, now,
    input.batchEvents⟩).mapError (Err.wrap "marshal batch data")
  .ok ⟨input.batchID, batchRuleSet input.ruleSet, input.tenantID, input.partitionKey, "", now, data, []⟩

def processBatchEnvelope (envelope : EventEnvelope) (members : List String) : Work (Option Execution) := do
  if !s.leases || s.workerID = "" then
    Prog.throw (.msg "batch processing requires a configured shard lease provider and worker ID")
  let shard := envelope.virtualShard s.numShards
  let owner : Bool ← ask (.isOwner shard)
  if !owner then Prog.throw (.sentinel .fencingTokenMismatch)
  let token : Option Int ← ask (.getFencingToken shard)
  match token with
  | none => Prog.throw (.sentinel .fencingTokenMismatch)
  | some token =>
    if token ≤ 0 then Prog.throw (.sentinel .fencingTokenMismatch)
    let result : Except Err Execution ← (ask (.process envelope members token shard s.workerID)).caught
    match result with
    | .ok execution => pure (some execution)
    | .error e =>
      if e.isAny [.ruleNotActive, .ruleNotFound] then pure none
      else Prog.throw (.wrap "process batch" e)

def buildCompletedBatchRun (input : BatchInput) (execution : Execution) (now : Time) : BatchRun where
  batchID := input.batchID
  tenantID := input.tenantID
  partitionKey := input.partitionKey
  ruleSet := input.ruleSet
  status := .completed
  memberCount := input.eventIDs.length
  executionID := execution.id
  decisionHash := execution.decisionHash
  windowFrom := some input.windowFrom
  windowTo := some now
  createdAt := now

def errUnavailable : Err := .msg "batch processing is not configured"

/-- How many batches were formed: a batch that was completed before is only completed again. -/
def processGroup (members : List Go.InboxEntry) : Work Nat :=
  if !s.events then Prog.throw errUnavailable
  else match members with
  | [] => pure 0
  | first :: _ => do
    let input := s.buildBatchInput first (s.limitBatchMembers members)
    let existing : Option BatchRun ← (ask (.getRun input.batchID)).wrap (Err.wrap "check existing batch")
    match existing.filter (fun run => run.status == .completed) with
    | some run =>
      let _ ← (ask (.completeBatch input.tenantID run input.eventIDs)).wrap (Err.wrap "recover completed batch")
      pure 0
    | none =>
      let now : Time ← ask .clock
      let envelope ← Prog.ofExcept (s.buildBatchEnvelope input now)
      match ← s.processBatchEnvelope envelope input.eventIDs with
      | none => pure 0
      | some execution =>
        let run := buildCompletedBatchRun input execution now
        let _ ← (ask (.completeBatch input.tenantID run input.eventIDs)).wrap (Err.wrap "complete batch")
        pure 1

def processReadyGroups (groups : GroupKey → List Go.InboxEntry) : List GroupKey → Nat → Work (Nat × Option Err)
  | [], formed => pure (formed, none)
  | key :: rest, formed => do
    let members := sortMembers (groups key)
    let isReady ← s.ready members
    if !isReady then processReadyGroups groups rest formed
    else
      let owned ← s.ownsPartition key.tenantID key.partitionKey
      if !owned then processReadyGroups groups rest formed
      else
        match ← (s.processGroup members).caught with
        | .error e => pure (formed, some e)
        | .ok count => processReadyGroups groups rest (formed + count)

def tick : Work (Nat × Option Err) :=
  if s.mode = .none then pure (0, none)
  else do
    -- the product is an int
    let limit := (s.maxBatch * 10).bmod 18446744073709551616
    let entries : List Go.InboxEntry ← (ask (.listUnbatched (if limit ≤ 0 then 400 else limit))).wrap
      (Err.wrap "list unbatched")
    s.processReadyGroups (groupInboxEntries entries).1 (groupInboxEntries entries).2 0

def validateUniqueEventIDs (eventIDs : List String) : Except Err Unit :=
  distinctIDs "event IDs must not be empty" "duplicate event ID " eventIDs []

def validateManualBatchRequest (tenantID partitionKey ruleSet : String) (eventIDs : List String) : Except Err Unit :=
  if !s.events then .error errUnavailable
  else if eventIDs = [] then .error (.msg "no event IDs provided")
  else if tenantID = "" ∨ partitionKey = "" ∨ ruleSet = "" then
    .error (.msg "tenant, partition key, and rule set are required")
  else if 0 < s.maxBatch ∧ s.maxBatch < eventIDs.length then
    .error (.msg ("requested batch size " ++ toString eventIDs.length ++ " exceeds maximum " ++ toString s.maxBatch))
  else validateUniqueEventIDs eventIDs

def validateRequestedBatchMembers (eventIDs : List String) (members : List Go.InboxEntry) : Except Err Unit :=
  if members.length = eventIDs.length then .ok ()
  else
    match eventIDs.find? (fun id => !members.any (fun m => m.eventID == id)) with
    | some id => .error (.msg ("requested event " ++ quoted id ++
        " is missing, already batched, or outside the requested scope"))
    | none => .error (.msg "requested event set is incomplete")

def createBatch (tenantID partitionKey ruleSet : String) (eventIDs : List String) : Work (Option BatchRun) := do
  Prog.ofExcept (s.validateManualBatchRequest tenantID partitionKey ruleSet eventIDs)
  let members : List Go.InboxEntry ← (ask (.listUnbatchedByIDs tenantID partitionKey ruleSet eventIDs)).wrap
    (Err.wrap "list requested unbatched events")
  Prog.ofExcept (validateRequestedBatchMembers eventIDs members)
  let _ ← s.processGroup (sortMembers members)
  ask (.getRun (computeBatchID s.sha256Hex tenantID partitionKey ruleSet eventIDs))

end Service

/-! The service at work. -/

structure Batch where
  tenantID : String
  batchID : String
  members : List String
  deriving DecidableEq, Repr

structure State where
  b : Database
  executed : List Batch

/-- What is decided outside: which repository calls fail, and what the clock, the lease provider
    and the statements of Process meet. -/
structure Outcome where
  query : Option QueryFailure
  read : Option Err
  clock : Time
  owner : Bool
  token : Option Int
  process : List Oracle
  completion : Failures

/-- What is answered. Process that is lost before its end answers nothing. -/
def answer (eng : Engine) (collate : String → String → Bool) (st : State) (w : Outcome) :
    (o : Ask) → Option (State × Except Err o.Res)
  | .clock => some (st, .ok w.clock)
  | .listUnbatched limit => some (st, Batches.listUnbatched collate st.b limit w.query)
  | .listUnbatchedByIDs tenantID partitionKey ruleSet eventIDs =>
    some (st, Batches.listUnbatchedByIDs collate st.b tenantID partitionKey ruleSet eventIDs w.query)
  | .getRun batchID => some (st, Batches.getRun st.b batchID w.read)
  | .isOwner _ => some (st, .ok w.owner)
  | .getFencingToken _ => some (st, .ok w.token)
  | .process env members token shard workerID =>
    let (d, result) := callAlone eng st.b.db (.goProcess env token shard.toNat workerID) w.process
    let b := st.b.after (some env.key) d
    match result with
    | some (.ok (.execution e)) => some (⟨b, ⟨env.tenantID, env.id, members⟩ :: st.executed⟩, .ok e)
    | some (.error e) => some (⟨b, st.executed⟩, .error e)
    | _ => none
  | .completeBatch _ run eventIDs =>
    match Batches.completeBatch st.b w.completion (some run) eventIDs with
    | .ok b => some (⟨b, st.executed⟩, .ok ())
    | .error e => some (st, .error e)

inductive Request where
  | tick
  | createBatch (tenantID partitionKey ruleSet : String) (eventIDs : List String)

inductive Formed where
  | batches (formed : Nat) (e : Option Err)
  | run (run : Option BatchRun)

def Request.program (s : Service) : Request → Work Formed
  | tick => (fun r => .batches r.1 r.2) <$> s.tick
  | createBatch tenantID partitionKey ruleSet eventIDs => .run <$> s.createBatch tenantID partitionKey ruleSet eventIDs

/-- Calls of the service, and calls of the workers on the events between their steps. -/
def service (eng : Engine) (collate : String → String → Bool) (s : Service) :
    Server State Unit Request Turn Outcome Ask Ask.Res Err Formed where
  start st i := some (st, (), i.program s)
  exec st _ _ o w := (answer eng collate st w o).map (fun r => (r.1, (), r.2))
  env st _ t := (turn eng st.b.db t).map (fun d => ⟨st.b.after (eventOf t) d, st.executed⟩)

abbrev World := Clients.World State Unit Request Ask Ask.Res Err Formed

abbrev WorldAct := Clients.Act Request Turn Outcome

end FlowRule.Batches
