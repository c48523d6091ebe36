import Mathlib.Logic.Function.Basic

/- Errors of the worker and their classes (internal/domain/errors.go). An error is what the code
   can see of it: the sentinels that errors.Is finds in its chain, its text, and what is
   displayed of it. Errors of the Rust worker carry no sentinel; anyhow displays only the
   outermost context. Sentinels that no modelled function raises are left out. -/
namespace FlowRule

inductive Sentinel where
  | eventIDRequired | eventTypeRequired | tenantIDRequired | partitionKeyRequired
  | occurredAtRequired | invalidEventEnvelope
  | ruleIDRequired | revisionRequired | ruleSourceRequired | invalidMatchMode | invalidOperator
  | invalidPredicate | invalidAction | duplicateRuleID | ambiguousPriority | unknownDestination
  | destinationNotAllowed | ruleExceedsLimits | invalidRuleSchema | ruleNotFound | ruleNotActive
  | ruleNotReady
  | evaluationTimeout | evaluationError | factSnapshotRequired | invalidFactPath
  | executionNotFound | invalidExecutionStatus | executionAlreadyExists
  | effectIDRequired | executionIDRequired | invalidEffectType | effectNotFound
  | maxAttemptsExceeded | outboxClaimLost
  | brokerFetchFailed | brokerAckFailed | brokerRetryFailed
  | inboxEntryNotFound | inboxDuplicate | inboxInvalidStatus | leaseNotFound | leaseExpired
  | leaseOwnedByOther | fencingTokenMismatch | databaseError | transactionFailed
  | unauthorized | forbidden
  | quarantineNotFound | quarantineReplayFailed
  deriving DecidableEq, Repr

def Sentinel.text : Sentinel → String
  | .eventIDRequired => "event id is required"
  | .eventTypeRequired => "event type is required"
  | .tenantIDRequired => "tenant id is required"
  | .partitionKeyRequired => "partition key is required"
  | .occurredAtRequired => "occurred at is required"
  | .invalidEventEnvelope => "invalid event envelope"
  | .ruleIDRequired => "rule id is required"
  | .revisionRequired => "revision is required"
  | .ruleSourceRequired => "rule source is required"
  | .invalidMatchMode => "invalid match mode"
  | .invalidOperator => "invalid operator"
  | .invalidPredicate => "invalid predicate"
  | .invalidAction => "invalid action"
  | .duplicateRuleID => "duplicate rule id"
  | .ambiguousPriority => "ambiguous priority"
  | .unknownDestination => "unknown destination"
  | .destinationNotAllowed => "destination not allowed"
  | .ruleExceedsLimits => "rule exceeds limits"
  | .invalidRuleSchema => "invalid rule schema"
  | .ruleNotFound => "rule not found"
  | .ruleNotActive => "rule not active"
  | .ruleNotReady => "rule not ready, retry later"
  | .evaluationTimeout => "evaluation timeout"
  | .evaluationError => "evaluation error"
  | .factSnapshotRequired => "fact snapshot required"
  | .invalidFactPath => "invalid fact path"
  | .executionNotFound => "execution not found"
  | .invalidExecutionStatus => "invalid execution status"
  | .executionAlreadyExists => "execution already exists"
  | .effectIDRequired => "effect id is required"
  | .executionIDRequired => "execution id is required"
  | .invalidEffectType => "invalid effect type"
  | .effectNotFound => "effect not found"
  | .maxAttemptsExceeded => "max attempts exceeded"
  | .outboxClaimLost => "outbox claim lost"
  | .brokerFetchFailed => "broker fetch failed"
  | .brokerAckFailed => "broker ack failed"
  | .brokerRetryFailed => "broker retry failed"
  | .inboxEntryNotFound => "inbox entry not found"
  | .inboxDuplicate => "duplicate event id"
  | .inboxInvalidStatus => "invalid inbox status"
  | .leaseNotFound => "lease not found"
  | .leaseExpired => "lease expired"
  | .leaseOwnedByOther => "lease owned by another worker"
  | .fencingTokenMismatch => "fencing token mismatch"
  | .databaseError => "database error"
  | .transactionFailed => "transaction failed"
  | .unauthorized => "unauthorized"
  | .forbidden => "forbidden"
  | .quarantineNotFound => "quarantine entry not found"
  | .quarantineReplayFailed => "quarantine replay failed"

/-- An error: the sentinels in its chain, its text with every context in front, and the
    outermost of these alone. -/
structure Err where
  sentinels : List Sentinel
  text : String
  display : String
  deriving DecidableEq, Repr

namespace Err

/-- errors.New, anyhow! and bail! with a text of their own. -/
def msg (text : String) : Err := ⟨[], text, text⟩

def sentinel (s : Sentinel) : Err := ⟨[s], s.text, s.text⟩

/-- fmt.Errorf("...: %w", err) and anyhow's context: the text in front, the chain kept. -/
def wrap (context : String) (e : Err) : Err := ⟨e.sentinels, context ++ ": " ++ e.text, context⟩

/-- fmt.Errorf("...: %w: %w", s, err). -/
def wrapWith (context : String) (s : Sentinel) (e : Err) : Err :=
  ⟨s :: e.sentinels, context ++ ": " ++ s.text ++ ": " ++ e.text, context⟩

/-- errors.Is against any of the listed sentinels. -/
def isAny (e : Err) (ss : List Sentinel) : Bool := ss.any (· ∈ e.sentinels)

end Err

/-- errors.Join: the texts on lines of their own, nothing for no errors. -/
def joinErrors : List Err → Option Err
  | [] => none
  | e :: rest =>
    let text := rest.foldl (fun t e => t ++ "\n" ++ e.text) e.text
    some ⟨e.sentinels ++ rest.flatMap Err.sentinels, text, text⟩

inductive ErrorClass where
  | validation | rule | evaluation | execution | effect | broker | database | authorization
  | quarantine | internal
  deriving DecidableEq, Repr

def ErrorClass.text : ErrorClass → String
  | .validation => "validation"
  | .rule => "rule"
  | .evaluation => "evaluation"
  | .execution => "execution"
  | .effect => "effect"
  | .broker => "broker"
  | .database => "database"
  | .authorization => "authorization"
  | .quarantine => "quarantine"
  | .internal => "internal"

theorem ErrorClass.text_injective : Function.Injective ErrorClass.text := by
  intro a b hab
  revert hab
  cases a <;> cases b <;> decide

def classifyError (err : Err) : ErrorClass :=
  if err.isAny [.eventIDRequired, .eventTypeRequired, .tenantIDRequired, .partitionKeyRequired,
      .occurredAtRequired, .invalidEventEnvelope] then .validation
  else if err.isAny [.ruleIDRequired, .revisionRequired, .ruleSourceRequired, .invalidMatchMode,
      .invalidOperator, .invalidPredicate, .invalidAction, .duplicateRuleID, .ambiguousPriority,
      .unknownDestination, .destinationNotAllowed, .ruleExceedsLimits, .invalidRuleSchema,
      .ruleNotFound, .ruleNotActive] then .rule
  else if err.isAny [.ruleNotReady] then .broker
  else if err.isAny [.evaluationTimeout, .evaluationError, .factSnapshotRequired,
      .invalidFactPath] then .evaluation
  else if err.isAny [.executionNotFound, .invalidExecutionStatus, .executionAlreadyExists] then
    .execution
  else if err.isAny [.effectIDRequired, .executionIDRequired, .invalidEffectType, .effectNotFound,
      .maxAttemptsExceeded, .outboxClaimLost] then .effect
  else if err.isAny [.brokerFetchFailed, .brokerAckFailed, .brokerRetryFailed] then .broker
  else if err.isAny [.inboxEntryNotFound, .inboxDuplicate, .inboxInvalidStatus, .leaseNotFound,
      .leaseExpired, .leaseOwnedByOther, .fencingTokenMismatch, .databaseError,
      .transactionFailed] then .database
  else if err.isAny [.unauthorized, .forbidden] then .authorization
  else if err.isAny [.quarantineNotFound, .quarantineReplayFailed] then .quarantine
  else .internal

def isPermanent (err : Err) : Bool :=
  match classifyError err with
  | .validation | .rule | .evaluation | .authorization => true
  | _ => false

end FlowRule
