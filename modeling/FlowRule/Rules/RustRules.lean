import FlowRule.Rules.Evaluator

/- Rule evaluation in the Rust worker (rust-worker/src/engine/rules.rs and the identities of
   engine.rs). What looks into JSON is a parameter (`Semantics`). A Rust effect has no creation
   time, which is 0 here, and its tenant is the event's. -/
namespace FlowRule.Rust

def trimIsEmpty (s : String) : Bool := s.toList.all Text.isSpace

/-- The parts of evaluation that look into JSON. A path resolves to the text of its value, as
    it is for a string and in JSON for any other. -/
structure Semantics where
  evalPredicate : Predicate → RawMessage → Except Err Bool
  resolvePath : String → RawMessage → Option String
  interpolateTemplates : RawMessage → EventEnvelope → String → Time → RawMessage
  toValue : EventEnvelope → RawMessage

section
variable (sha256Hex : String → String) (sem : Semantics) (now : Time)

def effectID (revision : RuleRevision) (event : EventEnvelope) (ruleID : String) (index : Nat) : String :=
  sha256Hex (event.tenantID ++ "|" ++ event.id ++ "|" ++ revision.ruleID ++ "|" ++ toString revision.revision ++
    "|" ++ ruleID ++ "|" ++ toString index)

def buildEmitEffect (effectID : String) (emit : EmitAction) : Except Err Effect :=
  if trimIsEmpty emit.topic then .error (.msg "emit topic is required")
  else .ok ⟨effectID, emit.topic, emit.topic, emit.data, .emit, 0⟩

/-- An empty policy is explicit; a path without a value gives an empty key. -/
def resolveChildPartitionKey (action : EmitEventAction) (event : EventEnvelope) : Except Err String := do
  let policy := if action.partitionKeyPolicy.text = "" then .explicit else action.partitionKeyPolicy
  let key ← match policy with
    | .explicit => .ok action.partitionKey
    | .inherit => .ok event.partitionKey
    | .fromData => .ok ((sem.resolvePath action.partitionKeyPath event.data).getD "")
    | other => .error (.msg ("unsupported partition key policy \"" ++ other.text ++ "\""))
  if key = "" then .error (.msg "emit_event resolved an empty partition key") else .ok key

/-- The fields of the child event, written as an envelope without a workflow. -/
def buildChildEventPayload (action : EmitEventAction) (event : EventEnvelope) (childID partitionKey : String) :
    EventEnvelope where
  id := childID
  type := action.type
  tenantID := event.tenantID
  partitionKey := partitionKey
  workflowID := ""
  occurredAt := now
  data := sem.interpolateTemplates action.data event childID now
  headers := [("flowrule_parent_event_id", event.id), ("flowrule_child_event_id", childID)]

def buildChildEventEffect (effectID : String) (event : EventEnvelope) (ruleID : String) (index : Nat)
    (action : EmitEventAction) : Except Err Effect := do
  let childID := sha256Hex ("child|" ++ event.id ++ "|" ++ ruleID ++ "|" ++ toString index)
  let partitionKey ← resolveChildPartitionKey sem action event
  .ok ⟨effectID, "events." ++ action.type, action.type,
    sem.toValue (buildChildEventPayload sem now action event childID partitionKey), .emitEvent, 0⟩

def buildCommandEffect (effectID : String) (command : CommandAction) : Except Err Effect :=
  if trimIsEmpty command.destination || trimIsEmpty command.name then
    .error (.msg "command destination and name are required")
  else .ok ⟨effectID, command.destination, command.name, command.data, .command, 0⟩

def buildEffect (revision : RuleRevision) (event : EventEnvelope) (ruleID : String) (index : Nat)
    (action : Action) : Except Err Effect :=
  let effectID := effectID sha256Hex revision event ruleID index
  match action.emit, action.emitEvent, action.command with
  | some emit, none, none => buildEmitEffect effectID emit
  | none, some child, none => buildChildEventEffect sha256Hex sem now effectID event ruleID index child
  | none, none, some command => buildCommandEffect effectID command
  | _, _, _ => .error (.msg "action must contain exactly one supported action")

def buildEffects (revision : RuleRevision) (event : EventEnvelope) (ruleID : String) :
    Nat → List Action → Except Err (List Effect)
  | _, [] => .ok []
  | n, action :: rest => do
    let effect ← buildEffect sha256Hex sem now revision event ruleID n action
    let effects ← buildEffects revision event ruleID (n + 1) rest
    .ok (effect :: effects)

def evaluateRules (revision : RuleRevision) (event : EventEnvelope) :
    List CompiledRule → List String → List Effect → Except Err (List String × List Effect)
  | [], matched, effects => .ok (matched, effects)
  | rule :: rest, matched, effects => do
    let isMatch ← sem.evalPredicate rule.when event.data
    let actions := if isMatch then rule.then_ else rule.otherwise
    let matched := if isMatch then matched ++ [rule.id] else matched
    let built ← buildEffects sha256Hex sem now revision event rule.id 0 actions
    if revision.matchMode = .firstMatch ∧ isMatch = true then .ok (matched, effects ++ built)
    else evaluateRules revision event rest matched (effects ++ built)

def evaluate (revision : RuleRevision) (event : EventEnvelope) : Except Err (List String × List Effect) :=
  evaluateRules sha256Hex sem now revision event revision.compiled [] []

def calculateDecisionHash (revision : RuleRevision) (envelope : EventEnvelope) (matched : List String)
    (effects : List Effect) : String :=
  let material := matched.foldl (fun m id => m ++ id) revision.contentHash
  let material := effects.foldl (fun m ef => m ++ ef.id) material
  sha256Hex (material ++ envelope.id)

def calculateExecutionID (envelope : EventEnvelope) (revision : Int) : String :=
  sha256Hex ("execution|" ++ toString envelope.tenantID.utf8ByteSize ++ ":" ++ envelope.tenantID ++ "|" ++
    toString envelope.id.utf8ByteSize ++ ":" ++ envelope.id ++ "|" ++
    toString envelope.type.utf8ByteSize ++ ":" ++ envelope.type ++ "|" ++ toString revision)

end

end FlowRule.Rust
