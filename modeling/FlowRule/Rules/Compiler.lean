import FlowRule.Domain.Identity

/- Rule compilation (internal/rules/compiler.go): the checks a rule set passes before it is
   stored, and the order its rules get. JSON decoding is a parameter (`Codec`). Description,
   tags and the input contract are left out. -/
namespace FlowRule.Rules

structure Limits where
  maxRulesPerSet : Int
  maxPredicates : Int
  maxNestingDepth : Int
  maxActionsPerSet : Int
  maxPayloadBytes : Int
  maxRuleIDLen : Int

def defaultLimits : Limits := ⟨100, 200, 10, 10, 256 * 1024, 128⟩

structure RawRuleSet where
  ruleSet : String
  revision : Int
  mode : String
  rules : RawMessage

structure RawRule where
  id : String
  name : String
  priority : Int
  when : Predicate
  then_ : List Action
  otherwise : List Action

/-- What the compiler takes from encoding/json: a rule set and its rules decoded, whether a
    text is JSON, and the size of a message that is encoded again. -/
structure Codec where
  ruleSet : RawMessage → Except Err RawRuleSet
  rules : RawMessage → Except Err (List RawRule)
  valid : RawMessage → Bool
  payloadSize : RawMessage → Int

def validOps : List String :=
  ["eq", "neq", "gt", "gte", "lt", "lte", "in", "not_in", "exists", "not_exists"]

def validOp (op : String) : Bool := validOps.contains op

/-! Predicates. -/

mutual

def countPredicates : Predicate → Nat
  | .mk all any not path _ _ =>
    (match all with
      | some children => countChildren children
      | none => 0) +
    (match any with
      | some children => countChildren children
      | none => 0) +
    (match not with
      | some child => countPredicates child
      | none => 0) +
    (if path ≠ "" then 1 else 0)

def countChildren : List (Option Predicate) → Nat
  | [] => 0
  | none :: rest => countChildren rest
  | some child :: rest => countPredicates child + countChildren rest

end

/-- A composite predicate is of one kind, and a list in it is not empty. -/
def validateCompositePredicateShape (all any : Option (List (Option Predicate))) (not : Option Predicate) :
    Except Err Unit :=
  if all.any List.isEmpty || any.any List.isEmpty then .error (.sentinel .invalidPredicate)
  else if all.isSome.toNat + any.isSome.toNat + not.isSome.toNat ≠ 1 then .error (.sentinel .invalidPredicate)
  else .ok ()

mutual

def validatePredicate (limits : Limits) : Predicate → Int → Except Err Unit
  | .mk all any not path op _, depth =>
    if limits.maxNestingDepth < depth then .error (.sentinel .ruleExceedsLimits)
    else
      let hasLeaf : Bool := path ≠ ""
      let hasComposite := all.isSome || any.isSome || not.isSome
      if hasLeaf == hasComposite then .error (.sentinel .invalidPredicate)
      else if hasLeaf then
        if validOp op then .ok () else .error (.sentinel .invalidOperator)
      else do
        validateCompositePredicateShape all any not
        match all with
          | some children => validateCompositeChildren limits children depth
          | none => .ok ()
        match any with
          | some children => validateCompositeChildren limits children depth
          | none => .ok ()
        match not with
          | some child => validatePredicate limits child (depth + 1)
          | none => .ok ()

def validateCompositeChildren (limits : Limits) : List (Option Predicate) → Int → Except Err Unit
  | [], _ => .ok ()
  | none :: _, _ => .error (.sentinel .invalidPredicate)
  | some child :: rest, depth => do
    validatePredicate limits child (depth + 1)
    validateCompositeChildren limits rest depth

end

/-! Actions. -/

section
variable (codec : Codec) (limits : Limits)

def validateEmitAction (action : EmitAction) : Except Err Unit :=
  if action.topic = "" then .error (.sentinel .invalidAction)
  else if limits.maxPayloadBytes < codec.payloadSize action.data then .error (.sentinel .ruleExceedsLimits)
  else .ok ()

def validPartitionKeyPolicy (policy : PartitionKeyPolicy) : Bool :=
  policy == .explicit || policy == .inherit || policy == .fromData

def validatePartitionKeyPolicy (action : EmitEventAction) : PartitionKeyPolicy → Except Err Unit
  | .explicit => if action.partitionKey = "" then .error (.sentinel .invalidAction) else .ok ()
  | .fromData =>
    if action.partitionKeyPath = "" ∨ ¬ "$.".toList <+: action.partitionKeyPath.toList then
      .error (.sentinel .invalidAction)
    else .ok ()
  | _ => .ok ()

def validateEmitEventAction (action : EmitEventAction) : Except Err Unit := do
  let policy := if action.partitionKeyPolicy.text = "" then .explicit else action.partitionKeyPolicy
  if validPartitionKeyPolicy policy then
    validatePartitionKeyPolicy action policy
    if action.type = "" || action.type.toList.any (fun c => c = '*' || c = '>') || !codec.valid action.data then
      .error (.sentinel .invalidAction)
    else if limits.maxPayloadBytes < action.data.utf8ByteSize then .error (.sentinel .ruleExceedsLimits)
    else .ok ()
  else .error (.sentinel .invalidAction)

def validateCommandAction (action : CommandAction) : Except Err Unit :=
  if action.destination = "" ∨ action.name = "" then .error (.sentinel .invalidAction)
  else if limits.maxPayloadBytes < codec.payloadSize action.data then .error (.sentinel .ruleExceedsLimits)
  else .ok ()

/-- An action is of exactly one kind, and passes the check of its kind. -/
def validateAction (action : Action) : Except Err Unit :=
  match action.emit, action.emitEvent, action.command with
  | some a, none, none => validateEmitAction codec limits a
  | none, some a, none => validateEmitEventAction codec limits a
  | none, none, some a => validateCommandAction codec limits a
  | _, _, _ => .error (.sentinel .invalidAction)

def validateActions : List Action → Except Err Unit
  | [] => .ok ()
  | action :: rest => do
    validateAction codec limits action
    validateActions rest

/-! Rules. -/

def validateRuleIdentity (rule : RawRule) (seenIDs : List String) (seenPriorities : List Int) : Except Err Unit :=
  if rule.id = "" then .error (.sentinel .ruleIDRequired)
  else if limits.maxRuleIDLen < rule.id.utf8ByteSize then .error (.sentinel .ruleExceedsLimits)
  else if rule.id ∈ seenIDs then .error (.sentinel .duplicateRuleID)
  else if rule.priority ∈ seenPriorities then .error (.sentinel .ambiguousPriority)
  else .ok ()

def validateRuleActions (rule : RawRule) : Except Err Unit := do
  validatePredicate limits rule.when 0
  if limits.maxPredicates < countPredicates rule.when then .error (.sentinel .ruleExceedsLimits)
  else if rule.then_ = [] ∨ limits.maxActionsPerSet < rule.then_.length then .error (.sentinel .ruleExceedsLimits)
  else
    validateActions codec limits rule.then_
    if limits.maxActionsPerSet < rule.otherwise.length then .error (.sentinel .ruleExceedsLimits)
    else validateActions codec limits rule.otherwise

def compileRule (rule : RawRule) (seenIDs : List String) (seenPriorities : List Int) : Except Err CompiledRule := do
  validateRuleIdentity limits rule seenIDs seenPriorities
  validateRuleActions codec limits rule
  .ok ⟨rule.id, rule.name, rule.priority, rule.when, rule.then_, rule.otherwise⟩

/-- The loop over the rules, with the identities and priorities seen so far. -/
def compileEach : List RawRule → List String → List Int → Except Err (List CompiledRule)
  | [], _, _ => .ok []
  | rule :: rest, seenIDs, seenPriorities => do
    let compiled ← compileRule codec limits rule seenIDs seenPriorities
    let compiledRest ← compileEach rest (rule.id :: seenIDs) (rule.priority :: seenPriorities)
    .ok (compiled :: compiledRest)

def byPriority (compiled : List CompiledRule) : List CompiledRule :=
  compiled.insertionSort (fun a b => b.priority ≤ a.priority)

def compileRules (rules : List RawRule) : Except Err (List CompiledRule) :=
  (compileEach codec limits rules [] []).map byPriority

/-! Rule sets. -/

def parseRuleSet (source : RawMessage) : Except Err RawRuleSet :=
  if source = "" then .error (.msg "empty rule source")
  else (codec.ruleSet source).mapError (Err.wrap "parse rule set")

def validateRuleSetMetadata (rs : RawRuleSet) : Except Err Unit :=
  if rs.ruleSet = "" then .error (.sentinel .ruleIDRequired)
  else if rs.revision ≤ 0 then .error (.sentinel .revisionRequired)
  else if rs.mode ≠ "first_match" ∧ rs.mode ≠ "all_matches" then .error (.sentinel .invalidMatchMode)
  else .ok ()

def validateRuleSetBudgets (rules : List RawRule) : Except Err Unit :=
  let totalPredicates : Nat := (rules.map (fun r => countPredicates r.when)).sum
  let totalActions : Nat := (rules.map (fun r => r.then_.length + r.otherwise.length)).sum
  if rules = [] ∨ limits.maxRulesPerSet < rules.length then .error (.sentinel .ruleExceedsLimits)
  else if limits.maxPredicates < totalPredicates ∨ limits.maxActionsPerSet < totalActions then
    .error (.sentinel .ruleExceedsLimits)
  else .ok ()

def validateRuleSet (rs : RawRuleSet) : Except Err (List RawRule) := do
  validateRuleSetMetadata rs
  let rules ← (codec.rules rs.rules).mapError (Err.wrap "parse rules")
  validateRuleSetBudgets limits rules
  .ok rules

/-- Under first_match only the last rule may have otherwise actions. -/
def validateOtherwise (mode : String) (compiled : List CompiledRule) : Except Err Unit :=
  if mode = "first_match" ∧ compiled.dropLast.any (fun r => !r.otherwise.isEmpty) then
    .error (.wrap "first_match permits otherwise only on the lowest-priority rule" (.sentinel .invalidAction))
  else .ok ()

def compile (sha256Hex : String → String) (source : RawMessage) : Except Err RuleRevision := do
  let rawSet ← parseRuleSet codec source
  let rules ← validateRuleSet codec limits rawSet
  let compiled ← compileRules codec limits rules
  validateOtherwise rawSet.mode compiled
  .ok ⟨"", rawSet.ruleSet, rawSet.revision, computeSourceHash sha256Hex source,
    if rawSet.mode = "first_match" then .firstMatch else .allMatches, compiled⟩

end

end FlowRule.Rules
