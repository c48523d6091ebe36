import FlowRule.Domain.Types

/- What the two rule engines see of a JSON document (internal/rules/evaluator.go and
   rust-worker/src/engine/rules.rs). Go decodes every number as a float64, which fails when a
   literal is out of range, Rust as a number of serde_json. What the languages make of numbers is
   a parameter (`Numbers`). -/
namespace FlowRule

/-- Floating point numbers and how the languages read and write them. `go` is encoding/json,
    strconv and fmt, `rust` is serde_json and the standard library. -/
structure Numbers where
  Float : Type
  lt : Float → Float → Bool
  eq : Float → Float → Bool
  /-- The literal is in the range of a float64. -/
  goInRange : String → Bool
  goFloat : String → Float
  /-- strconv.ParseFloat. -/
  goParse : String → Option Float
  /-- The integer `int64(n)` when it converts back to the same float. -/
  goInt : Float → Option Int
  /-- fmt's %v. -/
  goPrint : Float → String
  /-- json.Marshal. -/
  goMarshal : Float → String
  /-- as_f64. -/
  rustFloat : String → Float
  /-- parse::<f64>. -/
  rustParse : String → Option Float
  /-- Equality of serde_json's numbers. -/
  rustSame : String → String → Bool
  /-- The text serde_json writes for the number it has read. -/
  rustText : String → String

def dotted (cs : List Char) : List String := (cs.splitOn '.').map String.ofList

namespace Rules
variable (num : Numbers)

abbrev Facts := List (String × Json)

/-- json.Unmarshal into an interface: the first number out of range is reported. -/
def unmarshal (document : Json) : Except Err Json :=
  match document.literals.find? (fun literal => !num.goInRange literal) with
  | some literal =>
    .error (.msg ("json: cannot unmarshal number " ++ literal ++ " into Go value of type float64"))
  | none => .ok document.canon

def walkObjectPath : Json → List String → Option Json
  | current, [] => Json.nonNull current
  | current, part :: parts =>
    if part = "" then walkObjectPath current parts
    else
      match current with
      | .obj object =>
        match Json.member object part with
        | some next => walkObjectPath next parts
        | none => none
      | _ => none

def resolveFactPath (parts : List String) (facts : Facts) : Except Err (Option Json) :=
  match parts with
  | [] => .ok none
  | factKey :: parts =>
    match facts.lookup factKey with
    | none => .ok none
    | some factData => do
      let value ← (unmarshal num factData).mapError (Err.wrap ("unmarshal fact " ++ factKey))
      .ok (walkObjectPath value parts)

def resolveEventDataPath (data : Json) (parts : List String) : Except Err (Option Json) := do
  let value ← (unmarshal num data).mapError (Err.wrap "unmarshal data")
  .ok (walkObjectPath value parts)

def resolvePath (path : String) (data : Json) (facts : Facts) : Except Err (Option Json) :=
  if ¬ "$.".toList <+: path.toList then .error (.sentinel .invalidFactPath)
  else
    let parts := dotted (path.toList.drop 2)
    if parts.head? = some "facts" then resolveFactPath num parts.tail facts
    else resolveEventDataPath num data parts

/-- fmt's %v of a decoded value. -/
def printed : Json.Layout where
  null := "<nil>"
  num := fun literal => num.goPrint (num.goFloat literal)
  str := id
  arr := fun items => "[" ++ " ".intercalate items ++ "]"
  obj := fun members => "map[" ++ " ".intercalate (members.map (fun m => m.1 ++ ":" ++ m.2)) ++ "]"

def sprint (v : Option Json) : String := (v.getD .null).render (printed num)

end Rules

open Rules

namespace Rust

def follow : Json → List String → Option Json
  | value, [] => some value
  | .obj object, key :: keys =>
    match Json.member object key with
    | some next => follow next keys
    | none => none
  | _, _ :: _ => none

/-- A path may go without its root, which is not a value itself; facts are not known. -/
def resolvePath (path : String) (root : Json) : Option Json :=
  let trimmed := if "$.".toList <+: path.toList then path.toList.drop 2 else path.toList
  if trimmed = [] ∨ trimmed = "facts".toList ∨ "facts.".toList <+: trimmed then none
  else (follow root ((dotted trimmed).filter (· ≠ ""))).bind Json.nonNull

end Rust

def OnFacts (path : String) : Prop := (dotted (path.toList.drop 2)).head? = some "facts"

instance (path : String) : Decidable (OnFacts path) := inferInstanceAs (Decidable (_ = _))

def Readable (num : Numbers) (document : Json) : Prop :=
  ∀ literal ∈ document.literals, num.goInRange literal = true

instance (num : Numbers) (document : Json) : Decidable (Readable num document) :=
  inferInstanceAs (Decidable (∀ literal ∈ _, _))

section
variable {num : Numbers}

theorem unmarshal_readable {document : Json} (h : Readable num document) :
    unmarshal num document = .ok document.canon := by
  have hnone : document.literals.find? (fun literal => !num.goInRange literal) = none :=
    List.find?_eq_none.mpr (fun literal hl => by simp [h literal hl])
  rw [unmarshal, hnone]

theorem unmarshal_unreadable {document : Json} (h : ¬ Readable num document) :
    ∃ e, unmarshal num document = .error e := by
  obtain ⟨literal, hl, hr⟩ : ∃ literal ∈ document.literals, ¬ num.goInRange literal = true := by
    simpa [Readable] using h
  cases hf : document.literals.find? (fun literal => !num.goInRange literal) with
  | none => exact absurd (List.find?_eq_none.mp hf literal hl) (by simp [hr])
  | some l => exact ⟨_, by rw [unmarshal, hf]⟩

theorem resolvePath_of_data {path : String} (hp : "$.".toList <+: path.toList) (hf : ¬ OnFacts path) (data : Json)
    (facts : Facts) :
    resolvePath num path data facts = resolveEventDataPath num data (dotted (path.toList.drop 2)) := by
  simp only [resolvePath, if_neg (not_not.mpr hp)]
  exact if_neg hf

theorem resolvePath_facts {path : String} (hp : "$.".toList <+: path.toList) (hf : OnFacts path) (data : Json) :
    resolvePath num path data [] = .ok none := by
  simp only [resolvePath, if_neg (not_not.mpr hp)]
  refine (if_pos hf).trans ?_
  cases (dotted (path.toList.drop 2)).tail <;> rfl

/-- Data that Go cannot read makes every path into it an error. -/
theorem resolvePath_unreadable {path : String} (hp : "$.".toList <+: path.toList) (hf : ¬ OnFacts path) {data : Json}
    (hr : ¬ Readable num data) (facts : Facts) : ∃ e, resolvePath num path data facts = .error e := by
  obtain ⟨e, he⟩ := unmarshal_unreadable hr
  rw [resolvePath_of_data hp hf, resolveEventDataPath, he]
  exact ⟨_, rfl⟩

end

/-! Integers of at most 15 digits, which both languages hold and write exactly. -/

/-- A float that is written with an exponent: from seven digits on, without the zeros at the
    end of the significand. -/
def scientific (n : Int) : String :=
  let ds := (toString n.natAbs).toList
  let exponent := ds.length - 1
  let significand := (ds.reverse.dropWhile (· = '0')).reverse
  (if n < 0 then "-" else "") ++ String.ofList (significand.take 1) ++
    (if significand.length ≤ 1 then "" else "." ++ String.ofList (significand.drop 1)) ++
    "e+" ++ (if exponent < 10 then "0" else "") ++ toString exponent

def parseDigits (s : String) : Option Int :=
  if s ≠ "" ∧ s.toList.all Char.isDigit then some (Json.digits s.toList) else none

def integers : Numbers where
  Float := Int
  lt := fun a b => a < b
  eq := fun a b => a == b
  goInRange := fun _ => true
  goFloat := fun literal => Json.signed literal.toList
  goParse := parseDigits
  goInt := some
  goPrint := fun n => if n.natAbs < 1000000 then toString n else scientific n
  goMarshal := fun n => toString n
  rustFloat := fun literal => Json.signed literal.toList
  rustParse := parseDigits
  rustSame := Json.sameNumber
  rustText := id

end FlowRule
