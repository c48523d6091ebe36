import FlowRule.Lib.Checks
import FlowRule.Rules.Compiler

/- The predicates the compiler accepts (validatePredicate in internal/rules/compiler.go).
   `InGrammar` is the set of them; the compiler checks it together with the depth of the tree
   (`validatePredicate_iff`), and counts the leaves of all rules against one budget
   (`countPredicates_eq`). -/
namespace FlowRule
open Checks Rules

/-! The shape of accepted trees. -/

inductive InGrammar : Predicate → Prop
  | leaf (path op : String) (value : Option Json) (hpath : path ≠ "") (hop : validOp op = true) :
      InGrammar (.mk none none none path op value)
  | all (children : List Predicate) (op : String) (value : Option Json) (hne : children ≠ [])
      (h : ∀ child ∈ children, InGrammar child) : InGrammar (.mk (some (children.map some)) none none "" op value)
  | any (children : List Predicate) (op : String) (value : Option Json) (hne : children ≠ [])
      (h : ∀ child ∈ children, InGrammar child) : InGrammar (.mk none (some (children.map some)) none "" op value)
  | not (child : Predicate) (op : String) (value : Option Json) (h : InGrammar child) :
      InGrammar (.mk none none (some child) "" op value)

mutual

def depth : Predicate → Nat
  | .mk all any not _ _ _ =>
    max (match all with
      | some children => depthOf children
      | none => 0)
    (max (match any with
      | some children => depthOf children
      | none => 0)
    (match not with
      | some child => depth child + 1
      | none => 0))

def depthOf : List (Option Predicate) → Nat
  | [] => 0
  | none :: rest => depthOf rest
  | some child :: rest => max (depth child + 1) (depthOf rest)

end

mutual

def parts : Predicate → List Predicate
  | .mk (some children) any not path op value => .mk (some children) any not path op value :: partsOf children
  | .mk none (some children) not path op value => .mk none (some children) not path op value :: partsOf children
  | .mk none none (some child) path op value => .mk none none (some child) path op value :: parts child
  | .mk none none none path op value => [.mk none none none path op value]

def partsOf : List (Option Predicate) → List Predicate
  | [] => []
  | none :: rest => partsOf rest
  | some child :: rest => parts child ++ partsOf rest

end

def isLeaf : Predicate → Bool
  | .mk none none none _ _ _ => true
  | _ => false

def leafCount (p : Predicate) : Nat := (parts p).countP isLeaf

/-! The checks of the compiler. -/

section
variable {limits : Limits}

theorem compositeShape {all any : Option (List (Option Predicate))} {not : Option Predicate} :
    validateCompositePredicateShape all any not = .ok () ↔
    (∃ children, all = some children ∧ any = none ∧ not = none ∧ children ≠ []) ∨
    (∃ children, all = none ∧ any = some children ∧ not = none ∧ children ≠ []) ∨
    ∃ child, all = none ∧ any = none ∧ not = some child := by
  unfold validateCompositePredicateShape
  cases all <;> cases any <;> cases not <;> simp

variable {d : Int} {path op : String} {value : Option Json} {p : Predicate} {P : Predicate → Prop}

/-- A list of children passes when it has no null in it and every child passes one level
    further down. -/
theorem validateCompositeChildren_ok : ∀ {children : List (Option Predicate)},
    validateCompositeChildren limits children d = .ok () ↔
      ∃ ps : List Predicate, children = ps.map some ∧
        ∀ p ∈ ps, validatePredicate limits p (d + 1) = .ok ()
  | [] => by
    refine iff_of_true rfl ⟨[], rfl, ?_⟩
    simp
  | none :: rest => by
    refine iff_of_false (by intro h; cases h) ?_
    rintro ⟨ps, hps, -⟩
    cases ps <;> cases hps
  | some child :: rest => by
    unfold validateCompositeChildren
    constructor
    · intro h
      obtain ⟨_, hchild, hrest⟩ := bind_ok.mp h
      obtain ⟨ps, rfl, hps⟩ := validateCompositeChildren_ok.mp hrest
      exact ⟨child :: ps, rfl, List.forall_mem_cons.mpr ⟨hchild, hps⟩⟩
    · rintro ⟨ps, hps, hall⟩
      cases ps with
      | nil => cases hps
      | cons p ps =>
        simp only [List.map_cons, List.cons.injEq, Option.some.injEq] at hps
        obtain ⟨rfl, rfl⟩ := hps
        obtain ⟨hchild, hrest⟩ := List.forall_mem_cons.mp hall
        exact bind_ok.mpr ⟨(), hchild, validateCompositeChildren_ok.mpr ⟨ps, rfl, hrest⟩⟩

variable (limits)

/-- What passes at a depth: a leaf with a known operator, or one kind of children that pass
    below it. -/
inductive Accepted (d : Int) : Predicate → Prop
  | leaf {path op : String} (value : Option Json) (hpath : path ≠ "") (hop : validOp op = true) :
      Accepted d (.mk none none none path op value)
  | all {children : List (Option Predicate)} (op : String) (value : Option Json) (hne : children ≠ [])
      (h : validateCompositeChildren limits children d = .ok ()) :
      Accepted d (.mk (some children) none none "" op value)
  | any {children : List (Option Predicate)} (op : String) (value : Option Json) (hne : children ≠ [])
      (h : validateCompositeChildren limits children d = .ok ()) :
      Accepted d (.mk none (some children) none "" op value)
  | not {child : Predicate} (op : String) (value : Option Json)
      (h : validatePredicate limits child (d + 1) = .ok ()) :
      Accepted d (.mk none none (some child) "" op value)

variable {limits}

theorem validatePredicate_ok : ∀ {p : Predicate},
    validatePredicate limits p d = .ok () ↔ d ≤ limits.maxNestingDepth ∧ Accepted limits d p
  | .mk all any not path op value => by
    unfold validatePredicate
    rw [ite_ok, Int.not_lt]
    refine and_congr_right (fun _ => ?_)
    by_cases hpath : path = ""
    · -- No path: the children are of one kind, and they are checked.
      subst hpath
      simp only [ne_eq, not_true_eq_false, decide_false, Bool.false_eq_true, ↓reduceIte, ite_ok]
      constructor
      · rintro ⟨-, h⟩
        obtain ⟨_, hshape, hrest⟩ := bind_ok.mp h
        obtain ⟨children, rfl, rfl, rfl, hne⟩ | ⟨children, rfl, rfl, rfl, hne⟩ | ⟨child, rfl, rfl, rfl⟩ :=
          compositeShape.mp hshape
        · obtain ⟨_, hall, -⟩ := bind_ok.mp hrest
          exact .all op value hne hall
        · obtain ⟨_, -, hlater⟩ := bind_ok.mp hrest
          obtain ⟨_, hany, -⟩ := bind_ok.mp hlater
          exact .any op value hne hany
        · exact .not op value hrest
      · intro h
        cases h with
        | leaf _ hpath _ => exact absurd rfl hpath
        | all _ _ hne hchildren =>
          refine ⟨by simp, bind_ok.mpr ⟨(), compositeShape.mpr (Or.inl ⟨_, rfl, rfl, rfl, hne⟩), ?_⟩⟩
          exact bind_ok.mpr ⟨(), hchildren, rfl⟩
        | any _ _ hne hchildren =>
          refine ⟨by simp, bind_ok.mpr ⟨(), compositeShape.mpr (Or.inr (Or.inl ⟨_, rfl, rfl, rfl, hne⟩)), ?_⟩⟩
          exact bind_ok.mpr ⟨(), rfl, bind_ok.mpr ⟨(), hchildren, rfl⟩⟩
        | not _ _ hchild =>
          exact ⟨by simp, bind_ok.mpr ⟨(), compositeShape.mpr (Or.inr (Or.inr ⟨_, rfl, rfl, rfl⟩)), hchild⟩⟩
    · -- A path: nothing else may be there.
      simp only [hpath, ne_eq, not_false_eq_true, decide_true, ↓reduceIte, ite_ok]
      constructor
      · rintro ⟨hkind, hop⟩
        have hvalid : validOp op = true := by
          by_contra hno
          rw [if_neg hno] at hop
          cases hop
        cases all <;> cases any <;> cases not <;> simp at hkind
        exact .leaf value hpath hvalid
      · intro h
        cases h with
        | leaf _ _ hop => exact ⟨by simp, if_pos hop⟩
        | all | any | not => exact absurd rfl hpath

/-! The grammar. -/

theorem depthOf_le {ps : List Predicate} {n : Int} (hn : 0 ≤ n) :
    (depthOf (ps.map some) : Int) ≤ n ↔ ∀ p ∈ ps, (depth p : Int) + 1 ≤ n := by
  induction ps with
  | nil => simpa [depthOf] using hn
  | cons p rest ih =>
    rw [List.map_cons, depthOf, List.forall_mem_cons, ← ih]
    push_cast
    exact max_le_iff

@[simp] theorem depth_leaf :
    depth (.mk none none none path op value) = 0 := rfl

@[simp] theorem depth_all {children : List (Option Predicate)} :
    depth (.mk (some children) none none path op value) = depthOf children := by
  simp [depth]

@[simp] theorem depth_any {children : List (Option Predicate)} :
    depth (.mk none (some children) none path op value) = depthOf children := by
  simp [depth]

@[simp] theorem depth_not {child : Predicate} :
    depth (.mk none none (some child) path op value) = depth child + 1 := by
  simp [depth]

mutual

theorem inGrammar_of_valid : ∀ (p : Predicate) (d : Int), validatePredicate limits p d = .ok () →
    InGrammar p ∧ d + depth p ≤ limits.maxNestingDepth
  | .mk (some children) _ _ _ op value, d, h => by
    obtain ⟨hd, hacc⟩ := validatePredicate_ok.mp h
    cases hacc with
    | all _ _ hne hchildren =>
      obtain ⟨ps, rfl, hps, hdepth⟩ := inGrammar_of_children children d hchildren
      refine ⟨.all ps op value (by simpa using hne) hps, ?_⟩
      rw [depth_all]
      have hmax := (depthOf_le (by omega)).mpr (fun p hp => le_sub_iff_add_le'.mpr (hdepth p hp))
      omega
  | .mk none (some children) _ _ op value, d, h => by
    obtain ⟨hd, hacc⟩ := validatePredicate_ok.mp h
    cases hacc with
    | any _ _ hne hchildren =>
      obtain ⟨ps, rfl, hps, hdepth⟩ := inGrammar_of_children children d hchildren
      refine ⟨.any ps op value (by simpa using hne) hps, ?_⟩
      rw [depth_any]
      have hmax := (depthOf_le (by omega)).mpr (fun p hp => le_sub_iff_add_le'.mpr (hdepth p hp))
      omega
  | .mk none none (some child) _ op value, d, h => by
    cases (validatePredicate_ok.mp h).2 with
    | not _ _ hchild =>
      obtain ⟨hg, hdepth⟩ := inGrammar_of_valid child (d + 1) hchild
      refine ⟨.not child op value hg, ?_⟩
      rw [depth_not]
      omega
  | .mk none none none path op value, d, h => by
    obtain ⟨hd, hacc⟩ := validatePredicate_ok.mp h
    cases hacc with
    | leaf _ hpath hop => exact ⟨.leaf path op value hpath hop, by simpa using hd⟩

theorem inGrammar_of_children : ∀ (children : List (Option Predicate)) (d : Int),
    validateCompositeChildren limits children d = .ok () →
    ∃ ps : List Predicate, children = ps.map some ∧ (∀ p ∈ ps, InGrammar p) ∧
      ∀ p ∈ ps, d + (depth p + 1) ≤ limits.maxNestingDepth
  | [], _, _ => ⟨[], rfl, by simp, by simp⟩
  | none :: _, _, h => by cases h
  | some child :: rest, d, h => by
    unfold validateCompositeChildren at h
    obtain ⟨_, hchild, hrest⟩ := bind_ok.mp h
    obtain ⟨hg, hdepth⟩ := inGrammar_of_valid child (d + 1) hchild
    obtain ⟨ps, rfl, hps, hmax⟩ := inGrammar_of_children rest d hrest
    refine ⟨child :: ps, rfl, List.forall_mem_cons.mpr ⟨hg, hps⟩, List.forall_mem_cons.mpr ⟨?_, hmax⟩⟩
    omega

end

theorem validatePredicate_iff : validatePredicate limits p d = .ok () ↔
    InGrammar p ∧ d + depth p ≤ limits.maxNestingDepth := by
  refine ⟨inGrammar_of_valid p d, ?_⟩
  rintro ⟨hg, hd⟩
  rw [validatePredicate_ok]
  induction hg generalizing d with
  | leaf path op value hpath hop => exact ⟨by simpa using hd, .leaf value hpath hop⟩
  | all children op value hne h ih | any children op value hne h ih =>
    simp only [depth_all, depth_any] at hd
    have hchildren : validateCompositeChildren limits (children.map some) d = .ok () := by
      refine validateCompositeChildren_ok.mpr ⟨children, rfl, fun p hp => validatePredicate_ok.mpr (ih p hp ?_)⟩
      have hmax := (depthOf_le (n := depthOf (children.map some)) (by omega)).mp le_rfl p hp
      omega
    first
      | exact ⟨by omega, .all op value (by simpa using hne) hchildren⟩
      | exact ⟨by omega, .any op value (by simpa using hne) hchildren⟩
  | not child op value h ih =>
    rw [depth_not] at hd
    exact ⟨by omega, .not op value (validatePredicate_ok.mpr (ih (by omega)))⟩

/-! The parts of accepted trees. -/

theorem mem_partsOf {q : Predicate} {children : List Predicate} :
    q ∈ partsOf (children.map some) ↔ ∃ child ∈ children, q ∈ parts child := by
  induction children with
  | nil => simp [partsOf]
  | cons child rest ih => simp [partsOf, ih]

theorem mem_parts_self : ∀ p : Predicate, p ∈ parts p
  | .mk (some _) _ _ _ _ _ | .mk none (some _) _ _ _ _ | .mk none none (some _) _ _ _ | .mk none none none _ _ _ =>
    List.mem_cons_self

def OnLeaves (L : String → String → Option Json → Prop) (p : Predicate) : Prop :=
  ∀ path op value, Predicate.mk none none none path op value ∈ parts p → L path op value

/-! The leaves of an accepted tree are what the compiler counts. -/

theorem countChildren_map (children : List Predicate) :
    countChildren (children.map some) = (children.map countPredicates).sum := by
  induction children with
  | nil => rfl
  | cons child rest ih => simp [countChildren, ih]

theorem countP_partsOf (children : List Predicate) :
    (partsOf (children.map some)).countP isLeaf = (children.map leafCount).sum := by
  induction children with
  | nil => rfl
  | cons child rest ih => simp [partsOf, leafCount, ih]

theorem countPredicates_eq (h : InGrammar p) : countPredicates p = leafCount p := by
  induction h with
  | leaf path op value hpath hop => simp [countPredicates, leafCount, parts, isLeaf, hpath]
  | all children op value _ _ ih | any children op value _ _ ih =>
    simp only [countPredicates, leafCount, parts, isLeaf, countChildren_map, List.map_congr_left ih, add_zero,
      zero_add, ne_eq, not_true_eq_false, ↓reduceIte, Bool.false_eq_true, not_false_eq_true, List.countP_cons_of_neg,
      countP_partsOf]
  | not child op value _ ih =>
    simp [countPredicates, leafCount, parts, isLeaf, ih]

end

end FlowRule
