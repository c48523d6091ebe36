import Mathlib.Algebra.Group.Int.Defs
import Mathlib.Data.List.Basic

/- JSON documents. A number is kept as the literal it is written with, since readers
   differ in what they make of it, and an object as its members in the order they are
   written. A member that is written twice counts with its last value, which is how the
   readers of both workers build their maps: `canon` is the document as such a map, its
   members by their keys. -/

inductive Json where
  | null
  | bool (b : Bool)
  | num (literal : String)
  | str (s : String)
  | arr (items : List Json)
  | obj (members : List (String × Json))
  deriving Repr

namespace Json

def member (members : List (String × Json)) (key : String) : Option Json := members.reverse.lookup key

def nonNull : Json → Option Json
  | .null => none
  | v => some v

/-- The members with one more in the order of the keys; a key that is there keeps its value. -/
def insertNew (key : String) (v : Json) : List (String × Json) → List (String × Json)
  | [] => [(key, v)]
  | m :: rest =>
    if key = m.1 then m :: rest
    else if key < m.1 then (key, v) :: m :: rest
    else m :: insertNew key v rest

mutual

def canon : Json → Json
  | .null => .null
  | .bool b => .bool b
  | .num literal => .num literal
  | .str s => .str s
  | .arr items => .arr (canonItems items)
  | .obj members => .obj (canonMembers members)

def canonItems : List Json → List Json
  | [] => []
  | v :: rest => canon v :: canonItems rest

def canonMembers : List (String × Json) → List (String × Json)
  | [] => []
  | m :: rest => insertNew m.1 (canonMember m) (canonMembers rest)

def canonMember : String × Json → Json
  | (_, v) => canon v

end

mutual

def leaves : Json → List Json
  | .arr items => leavesItems items
  | .obj members => leavesMembers members
  | .null => [.null]
  | .bool b => [.bool b]
  | .num literal => [.num literal]
  | .str s => [.str s]

def leavesItems : List Json → List Json
  | [] => []
  | v :: rest => leaves v ++ leavesItems rest

def leavesMembers : List (String × Json) → List Json
  | [] => []
  | m :: rest => leavesMember m ++ leavesMembers rest

def leavesMember : String × Json → List Json
  | (_, v) => leaves v

end

def isScalar : Json → Bool
  | .arr _ | .obj _ => false
  | .null | .bool _ | .num _ | .str _ => true

mutual

theorem leaves_scalar : ∀ (v : Json), ∀ leaf ∈ leaves v, leaf.isScalar = true
  | .null, leaf, h | .bool _, leaf, h | .num _, leaf, h | .str _, leaf, h => by
    cases List.mem_singleton.mp h
    rfl
  | .arr items, leaf, h => leavesItems_scalar items leaf h
  | .obj members, leaf, h => leavesMembers_scalar members leaf h

theorem leavesItems_scalar : ∀ (items : List Json), ∀ leaf ∈ leavesItems items, leaf.isScalar = true
  | [], leaf, h => by cases h
  | v :: rest, leaf, h => by
    rcases List.mem_append.mp h with h | h
    · exact leaves_scalar v leaf h
    · exact leavesItems_scalar rest leaf h

theorem leavesMembers_scalar : ∀ (members : List (String × Json)), ∀ leaf ∈ leavesMembers members,
    leaf.isScalar = true
  | [], leaf, h => by cases h
  | (_, v) :: rest, leaf, h => by
    rcases List.mem_append.mp h with h | h
    · exact leaves_scalar v leaf h
    · exact leavesMembers_scalar rest leaf h

end

def literals (v : Json) : List String :=
  v.leaves.filterMap (fun leaf => match leaf with
    | .num literal => some literal
    | _ => none)

/-! Equality of documents, by what their numbers stand for. -/

mutual

def same (sameNumber : String → String → Bool) : Json → Json → Bool
  | .null, .null => true
  | .bool a, .bool b => a == b
  | .num l, .num m => sameNumber l m
  | .str s, .str t => s == t
  | .arr items, .arr others => sameItems sameNumber items others
  | .obj members, .obj others => sameMembers sameNumber members others
  | _, _ => false

def sameItems (sameNumber : String → String → Bool) : List Json → List Json → Bool
  | [], [] => true
  | v :: rest, w :: others => same sameNumber v w && sameItems sameNumber rest others
  | _, _ => false

def sameMembers (sameNumber : String → String → Bool) : List (String × Json) → List (String × Json) → Bool
  | [], [] => true
  | m :: rest, n :: others => sameMember sameNumber m n && sameMembers sameNumber rest others
  | _, _ => false

def sameMember (sameNumber : String → String → Bool) : String × Json → String × Json → Bool
  | (k, v), (k', w) => k == k' && same sameNumber v w

end

/-- A decimal number, `significand * 10 ^ exponent`. -/
structure Decimal where
  significand : Int
  exponent : Int

def digits (cs : List Char) : Nat := cs.foldl (fun n c => if c.isDigit then 10 * n + (c.toNat - 48) else n) 0

def signed : List Char → Int
  | '-' :: cs => - (digits cs : Int)
  | cs => digits cs

def decimal (literal : String) : Decimal :=
  let cs := literal.toList
  let mantissa := cs.takeWhile (fun c => c ≠ 'e' ∧ c ≠ 'E')
  let fraction := (mantissa.dropWhile (· ≠ '.')).drop 1
  ⟨signed mantissa, signed ((cs.dropWhile (fun c => c ≠ 'e' ∧ c ≠ 'E')).drop 1) - fraction.length⟩

def sameNumber (a b : String) : Bool :=
  let x := decimal a
  let y := decimal b
  let low := min x.exponent y.exponent
  x.significand * 10 ^ (x.exponent - low).toNat == y.significand * 10 ^ (y.exponent - low).toNat

/-! Texts of documents. -/

structure Layout where
  null : String
  num : String → String
  str : String → String
  arr : List String → String
  obj : List (String × String) → String

mutual

def render (l : Layout) : Json → String
  | .null => l.null
  | .bool b => toString b
  | .num literal => l.num literal
  | .str s => l.str s
  | .arr items => l.arr (renderItems l items)
  | .obj members => l.obj (renderMembers l members)

def renderItems (l : Layout) : List Json → List String
  | [] => []
  | v :: rest => render l v :: renderItems l rest

def renderMembers (l : Layout) : List (String × Json) → List (String × String)
  | [] => []
  | m :: rest => (m.1, renderMember l m) :: renderMembers l rest

def renderMember (l : Layout) : String × Json → String
  | (_, v) => render l v

end

/-- JSON without white space. -/
def compact (quote num : String → String) : Layout where
  null := "null"
  num := num
  str := quote
  arr := fun items => "[" ++ ",".intercalate items ++ "]"
  obj := fun members => "\x7b" ++ ",".intercalate (members.map (fun m => quote m.1 ++ ":" ++ m.2)) ++ "\x7d"

/-- A character as it stands in a JSON string. -/
def escape (c : Char) : String :=
  if c = '"' then "\\\""
  else if c = '\\' then "\\\\"
  else if c = '\n' then "\\n"
  else if c = '\r' then "\\r"
  else if c = '\t' then "\\t"
  else if c.toNat = 8 then "\\b"
  else if c.toNat = 12 then "\\f"
  else if c.toNat < 16 then "\\u000" ++ String.ofList (Nat.toDigits 16 c.toNat)
  else if c.toNat < 32 then "\\u00" ++ String.ofList (Nat.toDigits 16 c.toNat)
  else String.singleton c

def quote (escape : Char → String) (s : String) : String := "\"" ++ "".intercalate (s.toList.map escape) ++ "\""

/-! Documents with their leaves replaced. -/

mutual

def mapLeaves (num str : String → Json) : Json → Json
  | .null => .null
  | .bool b => .bool b
  | .num literal => num literal
  | .str s => str s
  | .arr items => .arr (mapItems num str items)
  | .obj members => .obj (mapMembers num str members)

def mapItems (num str : String → Json) : List Json → List Json
  | [] => []
  | v :: rest => mapLeaves num str v :: mapItems num str rest

def mapMembers (num str : String → Json) : List (String × Json) → List (String × Json)
  | [] => []
  | m :: rest => mapMember num str m :: mapMembers num str rest

def mapMember (num str : String → Json) : String × Json → String × Json
  | (k, v) => (k, mapLeaves num str v)

end

mutual

variable {num str num' str' : String → Json}

theorem mapLeaves_mapLeaves : ∀ v : Json,
    (v.mapLeaves num str).mapLeaves num' str' =
      v.mapLeaves (fun l => (num l).mapLeaves num' str') (fun s => (str s).mapLeaves num' str')
  | .null | .bool _ | .num _ | .str _ => rfl
  | .arr items => congrArg Json.arr (mapItems_mapItems items)
  | .obj members => congrArg Json.obj (mapMembers_mapMembers members)

theorem mapItems_mapItems : ∀ items : List Json,
    mapItems num' str' (mapItems num str items) =
      mapItems (fun l => (num l).mapLeaves num' str') (fun s => (str s).mapLeaves num' str') items
  | [] => rfl
  | v :: rest => congrArg₂ List.cons (mapLeaves_mapLeaves v) (mapItems_mapItems rest)

theorem mapMembers_mapMembers : ∀ members : List (String × Json),
    mapMembers num' str' (mapMembers num str members) =
      mapMembers (fun l => (num l).mapLeaves num' str') (fun s => (str s).mapLeaves num' str') members
  | [] => rfl
  | (k, v) :: rest =>
    congrArg₂ List.cons (congrArg (Prod.mk k) (mapLeaves_mapLeaves v)) (mapMembers_mapMembers rest)

end

mutual

variable {r : String → String → Bool} {num str num' str' : String → Json}

/-- Two documents made from one are the same exactly when they are at each of its leaves. -/
theorem same_mapLeaves_iff : ∀ v : Json,
    same r (mapLeaves num str v) (mapLeaves num' str' v) = true ↔
      ∀ leaf ∈ leaves v, same r (mapLeaves num str leaf) (mapLeaves num' str' leaf) = true
  | .null | .bool _ | .num _ | .str _ => by simp [leaves]
  | .arr items => by
    simp only [mapLeaves, same, leaves]
    exact sameItems_mapItems_iff items
  | .obj members => by
    simp only [mapLeaves, same, leaves]
    exact sameMembers_mapMembers_iff members

theorem sameItems_mapItems_iff : ∀ items : List Json,
    sameItems r (mapItems num str items) (mapItems num' str' items) = true ↔
      ∀ leaf ∈ leavesItems items, same r (mapLeaves num str leaf) (mapLeaves num' str' leaf) = true
  | [] => by simp [mapItems, sameItems, leavesItems]
  | v :: rest => by
    simp only [mapItems, sameItems, leavesItems, Bool.and_eq_true, List.mem_append, or_imp, forall_and]
    exact and_congr (same_mapLeaves_iff v) (sameItems_mapItems_iff rest)

theorem sameMembers_mapMembers_iff :
    ∀ members : List (String × Json),
    sameMembers r (mapMembers num str members) (mapMembers num' str' members) = true ↔
      ∀ leaf ∈ leavesMembers members, same r (mapLeaves num str leaf) (mapLeaves num' str' leaf) = true
  | [] => by simp [mapMembers, sameMembers, leavesMembers]
  | (k, v) :: rest => by
    simp only [mapMembers, mapMember, sameMembers, sameMember, leavesMembers, leavesMember, Bool.and_eq_true,
      beq_self_eq_true, true_and, List.mem_append, or_imp, forall_and]
    exact and_congr (same_mapLeaves_iff v) (sameMembers_mapMembers_iff rest)

end

end Json
