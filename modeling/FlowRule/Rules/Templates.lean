import FlowRule.Rules.Predicates
import FlowRule.Rules.Evaluator

/- Templates in the data of an emit_event action, and the child that is built from it
   (interpolateTemplates and what it calls in internal/rules/evaluator.go).

   A placeholder is what the expression \{\{\s*([^{}]+?)\s*\}\} finds. What is captured is the
   run without the blanks at its ends, or its last blank when there is nothing else. A child is a
   document here (`ChildEvent`). -/
namespace FlowRule

/-! Placeholders. -/

def placeholder : List Char → Option (List Char)
  | '{' :: '{' :: rest =>
    let run := rest.takeWhile (fun c => c ≠ '{' ∧ c ≠ '}')
    if run ≠ [] ∧ ['}', '}'] <+: rest.drop run.length then some run else none
  | _ => none

inductive Piece where
  | text (c : Char)
  | hole (run : List Char)
  deriving DecidableEq, Repr

/-- The pieces of a text behind its first `n` characters, which belong to a placeholder. -/
def pieces : Nat → List Char → List Piece
  | _, [] => []
  | n + 1, _ :: rest => pieces n rest
  | 0, c :: rest =>
    match placeholder (c :: rest) with
    | some run => .hole run :: pieces (run.length + 3) rest
    | none => .text c :: pieces 0 rest

def captured (blank : Char → Bool) (run : List Char) : String :=
  let trimmed := ((run.dropWhile blank).reverse.dropWhile blank).reverse
  String.ofList (if trimmed = [] then run.drop (run.length - 1) else trimmed)

/-- The value of a template: a single placeholder is its value, anything else is text. -/
def expandPieces (lookup : List Char → Option Json) (text : Json → String) (ps : List Piece) : Json :=
  match ps with
  | [.hole run] => (lookup run).getD (.str "")
  | ps =>
    .str ("".intercalate (ps.map (fun piece => match piece with
      | .text c => String.singleton c
      | .hole run => ((lookup run).map text).getD "")))

/-- What a template may refer to: the data of the parent event, the child's identity and
    the time as it is written. -/
structure TemplateContext where
  data : Json
  childID : String
  now : String

structure ChildEvent where
  id : String
  type : String
  tenantID : String
  partitionKey : String
  data : Json
  headers : List (String × String)

def ChildEvent.envelope (c : ChildEvent) (write : Json → RawMessage) (occurredAt : Time) : EventEnvelope where
  id := c.id
  type := c.type
  tenantID := c.tenantID
  partitionKey := c.partitionKey
  workflowID := ""
  occurredAt := occurredAt
  data := write c.data
  headers := c.headers

structure Texts where
  read : RawMessage → Json
  goWrite : Json → RawMessage
  goMarshal : EventEnvelope → Except Err RawMessage
  rfc3339 : Time → String

namespace Rules
section
variable (num : Numbers)

/-- encoding/json also escapes what HTML would read. -/
def htmlEscape (c : Char) : String :=
  if c = '<' then "\\u003c"
  else if c = '>' then "\\u003e"
  else if c = '&' then "\\u0026"
  else if c.toNat = 0x2028 then "\\u2028"
  else if c.toNat = 0x2029 then "\\u2029"
  else Json.escape c

def numberText (literal : String) : String := num.goMarshal (num.goFloat literal)

/-- json.Marshal of a decoded value. -/
def marshalText (v : Json) : String := v.render (Json.compact (Json.quote htmlEscape) (numberText num))

def isBlank (c : Char) : Bool := c = '\t' || c = '\n' || c.toNat = 12 || c = '\r' || c = ' '

def lookup (c : TemplateContext) (expr : String) : Option Json :=
  if expr = "new_id" then some (.str c.childID)
  else if expr = "now" then some (.str c.now)
  else
    let path := if "$.".toList <+: expr.toList then expr else "$." ++ expr
    match resolvePath num path c.data [] with
    | .ok (some val) => some val
    | _ => none

def expand (c : TemplateContext) (s : String) : Json :=
  if ¬ ['{', '{'] <:+: s.toList then .str s
  else
    expandPieces (fun run => lookup num c (captured isBlank run))
      (fun val => match val with
        | .str str => str
        | val => marshalText num val)
      (pieces 0 s.toList)

def walk (c : TemplateContext) (v : Json) : Json := v.mapLeaves .num (expand num c)

def interpolateTemplates (c : TemplateContext) (data : Json) : Except Err Json := do
  let tree ← unmarshal num data
  .ok ((walk num c tree).mapLeaves (fun literal => .num (numberText num literal)) .str)

/-- The parts of evaluation that look into JSON, on the documents of the messages. -/
def documentSemantics (texts : Texts) : Semantics where
  evalPredicate := fun p data => Rules.evalPredicate num (texts.read data) [] p
  resolvePath := fun path data => (Rules.resolvePath num path (texts.read data) []).map
    (Option.map (fun v => sprint num (some v)))
  interpolateTemplates := fun data event childID now =>
    (Rules.interpolateTemplates num ⟨texts.read event.data, childID, texts.rfc3339 now⟩ (texts.read data)).map
      texts.goWrite
  marshal := texts.goMarshal

def factSemantics (texts : Texts) (facts : Facts) : Semantics :=
  { documentSemantics num texts with
    evalPredicate := fun p data => Rules.evalPredicate num (texts.read data) facts p }

/-- The child an emit_event action builds. -/
def childEvent (sha256Hex : String → String) (texts : Texts) (now : Time) (event : EventEnvelope) (ruleID : String)
    (actionIndex : Nat) (action : EmitEventAction) : Except Err ChildEvent := do
  let childID := computeChildEventID sha256Hex event.id ruleID actionIndex
  let partitionKey ← resolveEmitEventPartitionKey (documentSemantics num texts) action event
  let childData ← (interpolateTemplates num ⟨texts.read event.data, childID, texts.rfc3339 now⟩
    (texts.read action.data)).mapError (Err.wrap "interpolate templates")
  .ok ⟨childID, action.type, event.tenantID, partitionKey, childData,
    [("flowrule_parent_event_id", event.id), ("flowrule_child_event_id", childID)]⟩

theorem buildEmitEventEffect_eq (sha256Hex : String → String) (texts : Texts) (now : Time) (effect : Effect)
    (event : EventEnvelope) (ruleID : String) (actionIndex : Nat) (action : EmitEventAction) :
    buildEmitEventEffect sha256Hex (documentSemantics num texts) now effect event ruleID actionIndex action =
      (childEvent num sha256Hex texts now event ruleID actionIndex action).bind (fun child =>
        ((texts.goMarshal (child.envelope texts.goWrite now)).mapError (Err.wrap "marshal child event")).map
          (fun encoded => { effect with
            effectType := .emitEvent, destination := "events." ++ child.type, name := child.type,
            payload := encoded })) := by
  unfold buildEmitEventEffect childEvent
  cases resolveEmitEventPartitionKey (documentSemantics num texts) action event with
  | error e => rfl
  | ok partitionKey =>
    simp only [documentSemantics]
    cases interpolateTemplates num ⟨texts.read event.data, computeChildEventID sha256Hex event.id ruleID actionIndex,
        texts.rfc3339 now⟩ (texts.read action.data) with
    | error e => rfl
    | ok childData => rfl

end
end Rules

end FlowRule
