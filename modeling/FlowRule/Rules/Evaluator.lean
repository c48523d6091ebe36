import FlowRule.Domain.Identity

/- Rule evaluation (internal/rules/evaluator.go): the loop over the compiled rules, the
   effects it builds and their identities. What a predicate says of the event's data, what
   a path in the data resolves to, and how templates and JSON are written are parameters
   (`Semantics`); the facts are those of event processing, none. -/
namespace FlowRule.Rules

/-- The parts of evaluation that look into JSON: a predicate on the data, the text of the
    value at a path (`none` when there is none), template expansion of emitted data for a
    child event at an instant, and the encoding of an envelope. -/
structure Semantics where
  evalPredicate : Predicate → RawMessage → Except Err Bool
  resolvePath : String → RawMessage → Except Err (Option String)
  interpolateTemplates : RawMessage → EventEnvelope → String → Time → Except Err RawMessage
  marshal : EventEnvelope → Except Err RawMessage

def describeAction (action : Action) : String :=
  match action.emit, action.emitEvent, action.command with
  | some a, _, _ => "emit:" ++ a.topic
  | none, some a, _ => "emit_event:" ++ a.type
  | none, none, some a => "command:" ++ a.destination ++ "/" ++ a.name
  | none, none, none => "unknown"

section
variable (sha256Hex : String → String) (sem : Semantics) (now : Time)

def resolveEmitEventPartitionKey (action : EmitEventAction) (event : EventEnvelope) : Except Err String := do
  let policy := if action.partitionKeyPolicy.text = "" then .explicit else action.partitionKeyPolicy
  let partitionKey ← match policy with
    | .inherit => .ok event.partitionKey
    | .fromData =>
      if action.partitionKeyPath = "" then .ok action.partitionKey
      else
        let context := "resolve partition key from path " ++ action.partitionKeyPath
        match sem.resolvePath action.partitionKeyPath event.data with
        | .error e => .error (.wrap context e)
        | .ok none => .error (.msg (context ++ ": %!w(<nil>)"))
        | .ok (some value) => .ok value
    | _ => .ok action.partitionKey
  if partitionKey = "" then
    .error (.msg ("partition key resolution resulted in empty value for policy " ++ policy.text))
  else .ok partitionKey

def buildChildEventEnvelope (parent : EventEnvelope) (action : EmitEventAction) (childID partitionKey : String)
    (data : RawMessage) (occurredAt : Time) : EventEnvelope where
  id := childID
  type := action.type
  tenantID := parent.tenantID
  partitionKey := partitionKey
  workflowID := ""
  occurredAt := occurredAt
  data := data
  headers := [("flowrule_parent_event_id", parent.id), ("flowrule_child_event_id", childID)]

def buildEmitEventEffect (effect : Effect) (event : EventEnvelope) (ruleID : String) (actionIndex : Nat)
    (action : EmitEventAction) : Except Err Effect := do
  let childID := computeChildEventID sha256Hex event.id ruleID actionIndex
  let partitionKey ← resolveEmitEventPartitionKey sem action event
  let childData ← (sem.interpolateTemplates action.data event childID now).mapError (Err.wrap "interpolate templates")
  let child := buildChildEventEnvelope event action childID partitionKey childData now
  let encoded ← (sem.marshal child).mapError (Err.wrap "marshal child event")
  .ok { effect with
    effectType := .emitEvent, destination := "events." ++ child.type, name := child.type, payload := encoded }

/-- The effect of one action. Its identity is fixed before the action is looked at. -/
def buildEffect (revision : RuleRevision) (event : EventEnvelope) (ruleID : String) (actionIndex : Nat)
    (action : Action) : Except Err Effect :=
  let effect : Effect := ⟨computeEffectID sha256Hex event.tenantID event.id revision.ruleID revision.revision
    ruleID actionIndex, "", "", "", .unset, now⟩
  match action.emit, action.emitEvent, action.command with
  | some a, _, _ => .ok { effect with
      destination := a.topic, name := a.topic, payload := a.data, effectType := .emit }
  | none, some a, _ => buildEmitEventEffect sha256Hex sem now effect event ruleID actionIndex a
  | none, none, some a => .ok { effect with
      effectType := .command, destination := a.destination, name := a.name, payload := a.data }
  | none, none, none => .ok effect

/-- The effects of a list of actions from an index on; the first error ends the loop. -/
def buildEffects (revision : RuleRevision) (event : EventEnvelope) (ruleID context : String) :
    Nat → List Action → Except Err (List Effect)
  | _, [] => .ok []
  | n, action :: rest =>
    match buildEffect sha256Hex sem now revision event ruleID n action with
    | .error e => .error (.wrapWith ("rule " ++ ruleID ++ context ++ toString n) .evaluationError e)
    | .ok effect => (buildEffects revision event ruleID context (n + 1) rest).map (effect :: ·)

structure Collected where
  matched : List String
  effects : List Effect
  explanations : List RuleExplanation

/-- A rule that matched acts through `then`, any other through `otherwise`. -/
def processRuleResult (revision : RuleRevision) (event : EventEnvelope) (rule : CompiledRule) (ok : Bool)
    (acc : Collected) : Except Err Collected :=
  let actions := if ok then rule.then_ else rule.otherwise
  let context := if ok then " action " else " otherwise action "
  (buildEffects sha256Hex sem now revision event rule.id context 0 actions).map (fun effects =>
    { matched := if ok then acc.matched ++ [rule.id] else acc.matched,
      effects := acc.effects ++ effects,
      explanations := acc.explanations ++ [⟨rule.id, rule.name, ok, rule.priority,
        if ok then "predicate matched" else "predicate did not match", actions.map describeAction⟩] })

/-- The loop over the rules, in their order; first_match ends it at the first match. -/
def evaluateRules (revision : RuleRevision) (event : EventEnvelope) :
    List CompiledRule → Collected → Except Err Collected
  | [], acc => .ok acc
  | rule :: rest, acc =>
    match sem.evalPredicate rule.when event.data with
    | .error e => .error (.wrapWith ("rule " ++ rule.id) .evaluationError e)
    | .ok ok =>
      match processRuleResult sha256Hex sem now revision event rule ok acc with
      | .error e => .error e
      | .ok acc =>
        if revision.matchMode = .firstMatch ∧ ok = true then .ok acc
        else evaluateRules revision event rest acc

def evaluate (revision : RuleRevision) (event : EventEnvelope) : Except Err Decision :=
  (evaluateRules sha256Hex sem now revision event revision.compiled ⟨[], [], []⟩).map (fun c =>
    ⟨c.matched, c.effects,
      computeDecisionHash sha256Hex revision.contentHash event.id "" c.matched c.effects, c.explanations⟩)

end

end FlowRule.Rules
