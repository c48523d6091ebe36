import FlowRule.Rules.Compiler
import FlowRule.Rules.Documents

/- Predicates on event data in Go (internal/rules/evaluator.go) and in Rust
   (rust-worker/src/engine/rules.rs). The trees are walked alike. The leaves are not: Go compares
   printed texts where Rust compares numbers and then values, and what is an error in Go is false
   or taken from the root in Rust. -/
namespace FlowRule

inductive Operator where
  | eq | neq | gt | gte | lt | lte | in_ | notIn | exists_ | notExists
  deriving DecidableEq, Repr

def Operator.table : List (String × Operator) :=
  [("eq", .eq), ("neq", .neq), ("gt", .gt), ("gte", .gte), ("lt", .lt), ("lte", .lte), ("in", .in_),
   ("not_in", .notIn), ("exists", .exists_), ("not_exists", .notExists)]

def Operator.ofText (op : String) : Option Operator := Operator.table.lookup op

namespace Rules
section
variable (num : Numbers)

/-! Go. A value is `none` for nil. -/

def normalizeNumber : Option Json → Option (Int ⊕ Json)
  | none => none
  | some (.num literal) =>
    match num.goInt (num.goFloat literal) with
    | some n => some (.inl n)
    | none => some (.inr (.num literal))
  | some v => some (.inr v)

def sprintNormal : Int ⊕ Json → String
  | .inl n => toString n
  | .inr v => sprint num (some v)

def compareEq (actual expected : Option Json) : Bool :=
  match normalizeNumber num actual, normalizeNumber num expected with
  | some a, some b => sprintNormal num a == sprintNormal num b
  | _, _ => sprint num actual == sprint num expected

def toFloat64 : Option Json → Option num.Float
  | some (.num literal) => some (num.goFloat literal)
  | some (.str s) => num.goParse s
  | _ => none

def compareCmp (actual expected : Option Json) : Int :=
  match toFloat64 num actual, toFloat64 num expected with
  | some a, some b => if num.lt b a then 1 else if num.lt a b then -1 else 0
  | _, _ => 2

def comparisonHolds (op : Operator) (comparison : Int) : Bool :=
  match op with
  | .gt => 0 < comparison
  | .gte => 0 ≤ comparison
  | .lt => comparison < 0
  | _ => comparison ≤ 0

def compareNumericLeaf (op : Operator) (name : String) (actual expected : Option Json) : Except Err Bool :=
  let comparison := compareCmp num actual expected
  if comparison = 2 then
    .error (.msg ("cannot compare non-numeric values for " ++ name ++ ": " ++ sprint num actual ++ " vs " ++
      sprint num expected))
  else .ok (comparisonHolds op comparison)

def compareIn (val list : Option Json) : Bool :=
  match list with
  | some (.arr items) => items.any (fun item => compareEq num val item.nonNull)
  | _ => false

def evaluateLeafValue (op : String) (actual expected : Option Json) : Except Err Bool :=
  match Operator.ofText op with
  | some .eq => .ok (compareEq num actual expected)
  | some .neq => .ok (!compareEq num actual expected)
  | some .gt => compareNumericLeaf num .gt op actual expected
  | some .gte => compareNumericLeaf num .gte op actual expected
  | some .lt => compareNumericLeaf num .lt op actual expected
  | some .lte => compareNumericLeaf num .lte op actual expected
  | some .in_ => .ok (compareIn num actual expected)
  | some .notIn => .ok (!compareIn num actual expected)
  | _ => .error (.sentinel .invalidOperator)

def evalLeaf (path op : String) (value : Option Json) (data : Json) (facts : Facts) : Except Err Bool :=
  match resolvePath num path data facts with
  | .error e =>
    let context := Sentinel.evaluationError.text ++ ": resolve predicate path \"" ++ path ++ "\""
    .error { Err.wrap context e with sentinels := .evaluationError :: e.sentinels }
  | .ok found =>
    if op = "exists" then .ok found.isSome
    else if op = "not_exists" then .ok found.isNone
    else if found.isNone then .ok false
    else evaluateLeafValue num op found (value.bind (fun v => v.canon.nonNull))

mutual

def evalPredicate (data : Json) (facts : Facts) : Predicate → Except Err Bool
  | .mk (some children) _ _ _ _ _ => evalAll data facts children
  | .mk none (some children) _ _ _ _ => evalAny data facts children
  | .mk none none (some child) _ _ _ => do
    let matched ← evalPredicate data facts child
    .ok (!matched)
  | .mk none none none path op value => evalLeaf num path op value data facts

def evalAll (data : Json) (facts : Facts) : List (Option Predicate) → Except Err Bool
  | [] => .ok true
  | none :: _ => .error (.sentinel .invalidPredicate)
  | some predicate :: rest => do
    let matched ← evalPredicate data facts predicate
    if matched then evalAll data facts rest else .ok false

def evalAny (data : Json) (facts : Facts) : List (Option Predicate) → Except Err Bool
  | [] => .ok false
  | none :: rest => evalAny data facts rest
  | some predicate :: rest => do
    let matched ← evalPredicate data facts predicate
    if matched then .ok true else evalAny data facts rest

end

end
end Rules

namespace Rust
section
variable (num : Numbers)

/-! Rust. The stored value null reads as none. -/

def numberValue : Json → Option num.Float
  | .num literal => some (num.rustFloat literal)
  | .str s => num.rustParse s
  | _ => none

def compareEq (actual : Json) : Option Json → Bool
  | none => false
  | some expected =>
    match numberValue num actual, numberValue num expected with
    | some a, some b => num.eq a b
    | _, _ => Json.same num.rustSame actual expected

def compare (actual : Json) (expected : Option Json) (predicate : num.Float → num.Float → Bool) : Bool :=
  match numberValue num actual, expected.bind (numberValue num) with
  | some a, some b => predicate a b
  | _, _ => false

def isIn (actual : Json) : Option Json → Bool
  | some (.arr values) => values.any (fun value => compareEq num actual (some value))
  | _ => false

def evaluateComparison (operator : String) (actual : Json) (expected : Option Json) : Except Err Bool :=
  match Operator.ofText operator with
  | some .eq => .ok (compareEq num actual expected)
  | some .neq => .ok (!compareEq num actual expected)
  | some .gt => .ok (compare num actual expected (fun a b => num.lt b a))
  | some .gte => .ok (compare num actual expected (fun a b => num.lt b a || num.eq a b))
  | some .lt => .ok (compare num actual expected (fun a b => num.lt a b))
  | some .lte => .ok (compare num actual expected (fun a b => num.lt a b || num.eq a b))
  | some .in_ => .ok (isIn num actual expected)
  | some .notIn => .ok (!isIn num actual expected)
  | _ => .error (.msg ("unsupported predicate operator \"" ++ operator ++ "\""))

def evaluateLeafPredicate (path op : String) (value : Option Json) (data : Json) : Except Err Bool :=
  if path = "" then .error (.msg "predicate path missing")
  else
    let found := resolvePath path data.canon
    if op = "exists" then .ok found.isSome
    else if op = "not_exists" then .ok found.isNone
    else
      match found with
      | some actual => evaluateComparison num op actual (value.bind (fun v => v.canon.nonNull))
      | none => .ok false

mutual

def evalPredicate (data : Json) : Predicate → Except Err Bool
  | .mk (some children) _ _ _ _ _ => evalAll data children
  | .mk none (some children) _ _ _ _ => evalAny data children
  | .mk none none (some child) _ _ _ => do
    let matched ← evalPredicate data child
    .ok (!matched)
  | .mk none none none path op value => evaluateLeafPredicate num path op value data

def evalAll (data : Json) : List (Option Predicate) → Except Err Bool
  | [] => .ok true
  | none :: _ => .error (.msg "invalid type: null, expected struct Predicate")
  | some child :: rest => do
    let matched ← evalPredicate data child
    if matched then evalAll data rest else .ok false

def evalAny (data : Json) : List (Option Predicate) → Except Err Bool
  | [] => .ok false
  | none :: _ => .error (.msg "invalid type: null, expected struct Predicate")
  | some child :: rest => do
    let matched ← evalPredicate data child
    if matched then .ok true else evalAny data rest

end

end
end Rust

end FlowRule
