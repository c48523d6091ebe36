import FlowRule.Domain.Errors
import FlowRule.Lib.Json
import FlowRule.Lib.Text

/- The data of the event pipeline (internal/domain/types.go) and the rows it is stored in
   (migrations/). JSON payloads are kept as the text they have on the wire. Instants are
   microseconds since the zero time of the source's clock type, so the zero time is 0.
   A nullable column is an `Option`; the primary key of a table is the argument of the
   table, not a field of the row, so that two rows of one key cannot be written down. -/
namespace FlowRule

abbrev RawMessage := String

abbrev Time := Int

/-! Events. -/

structure EventEnvelope where
  id : String
  type : String
  tenantID : String
  partitionKey : String
  workflowID : String
  occurredAt : Time
  data : RawMessage
  headers : List (String × String)
  deriving DecidableEq, Repr

/-- FNV-1a over the bytes of the key. -/
def shardHash (key : String) : UInt32 :=
  key.toUTF8.data.toList.foldl (fun h b => (h ^^^ b.toUInt32) * 16777619) 2166136261

def EventEnvelope.virtualShard (e : EventEnvelope) (modulus : UInt32) : UInt32 :=
  shardHash (e.tenantID ++ ":" ++ e.partitionKey) % modulus

def EventEnvelope.validate (e : EventEnvelope) : Except Err Unit :=
  if e.id = "" then .error (.sentinel .eventIDRequired)
  else if e.type = "" then .error (.sentinel .eventTypeRequired)
  else if e.tenantID = "" then .error (.sentinel .tenantIDRequired)
  else if e.partitionKey = "" then .error (.sentinel .partitionKeyRequired)
  else if e.occurredAt = 0 then .error (.sentinel .occurredAtRequired)
  else .ok ()

def EventEnvelope.key (e : EventEnvelope) : String × String := (e.tenantID, e.id)

/-! Rules, effects and decisions. -/

inductive MatchMode where
  | firstMatch | allMatches
  deriving DecidableEq, Repr

/-- A predicate tree; a missing list is `none`, an empty one `some []`, and a child that is
    null in the list is `none` there. The compared value is the document that is stored. -/
inductive Predicate where
  | mk (all any : Option (List (Option Predicate))) (not : Option Predicate) (path op : String)
      (value : Option Json)

structure EmitAction where
  topic : String
  data : RawMessage

inductive PartitionKeyPolicy where
  | unset | explicit | inherit | fromData | other (name : String)
  deriving DecidableEq, Repr

def PartitionKeyPolicy.text : PartitionKeyPolicy → String
  | .unset => ""
  | .explicit => "explicit"
  | .inherit => "inherit"
  | .fromData => "from_data"
  | .other name => name

structure EmitEventAction where
  type : String
  partitionKey : String
  partitionKeyPolicy : PartitionKeyPolicy
  partitionKeyPath : String
  data : RawMessage

structure CommandAction where
  destination : String
  name : String
  data : RawMessage

structure Action where
  emit : Option EmitAction
  emitEvent : Option EmitEventAction
  command : Option CommandAction

structure CompiledRule where
  id : String
  name : String
  priority : Int
  when : Predicate
  then_ : List Action
  otherwise : List Action

structure RuleRevision where
  tenantScope : String
  ruleID : String
  revision : Int
  contentHash : String
  matchMode : MatchMode
  compiled : List CompiledRule

inductive EffectType where
  | emit | emitEvent | command | serviceEvent | unset
  deriving DecidableEq, Repr

structure Effect where
  id : String
  destination : String
  name : String
  payload : RawMessage
  effectType : EffectType
  createdAt : Time
  deriving DecidableEq, Repr

structure RuleExplanation where
  ruleID : String
  ruleName : String
  matched : Bool
  priority : Int
  reason : String
  actions : List String
  deriving DecidableEq, Repr

structure Decision where
  matchedRules : List String
  effects : List Effect
  hash : String
  explanations : List RuleExplanation
  deriving DecidableEq, Repr

structure RuleActivation where
  tenantScope : String
  ruleSet : String
  revision : Int
  deriving DecidableEq, Repr

/-- A service that listens to a tenant's events; only its identity is used. -/
structure DomainService where
  id : String
  deriving DecidableEq, Repr

/-! Executions, inbox and outbox. -/

inductive ExecutionStatus where
  | pending | completed | failed | quarantined
  deriving DecidableEq, Repr

structure Execution where
  id : String
  eventID : String
  tenantID : String
  ruleSet : String
  revision : Int
  decisionHash : String
  status : ExecutionStatus
  error : String
  traceID : String
  createdAt : Time
  completedAt : Option Time
  deriving DecidableEq, Repr

structure ExecutionRow where
  eventID : String
  tenantID : String
  ruleSet : String
  revision : Int
  decisionHash : String
  status : ExecutionStatus
  error : Option String
  traceID : Option String
  createdAt : Time
  completedAt : Option Time
  deriving DecidableEq, Repr

def ExecutionRow.key (r : ExecutionRow) : String × String := (r.tenantID, r.eventID)

inductive InboxStatus where
  | processing | committed
  deriving DecidableEq, Repr

structure InboxRow where
  status : InboxStatus
  executionID : Option String
  firstSeenAt : Time
  committedAt : Option Time
  partitionKey : String
  ruleSet : String
  payload : RawMessage
  batchID : Option String
  deriving DecidableEq, Repr

structure QuarantineEntry where
  id : String
  sourceType : String
  sourceID : String
  errorClass : String
  payloadRef : String
  eventID : String
  tenantID : String
  error : String
  createdAt : Time
  deriving DecidableEq, Repr

inductive OutboxStatus where
  | pending | claimed | delivered | failed | quarantined
  deriving DecidableEq, Repr

structure OutboxRow where
  executionID : String
  tenantID : String
  destination : String
  name : String
  payload : RawMessage
  effectType : EffectType
  status : OutboxStatus
  attempts : Int
  maxAttempts : Int
  availableAt : Time
  lastError : Option String
  claimedBy : Option String
  claimedAt : Option Time
  claimExpiresAt : Option Time
  createdAt : Time
  updatedAt : Time
  deriving DecidableEq, Repr

/-! Leases. -/

structure ShardLease where
  owner : String
  fencingToken : Int
  expiresAt : Time
  routingEpoch : Int
  deriving DecidableEq, Repr

end FlowRule
