import FlowRule.Rules.Grammar
import FlowRule.Rules.Predicates

/- What an evaluation of an accepted predicate comes to (evalPredicate in
   internal/rules/evaluator.go, eval_predicate in rust-worker/src/engine/rules.rs). Both engines
   walk a tree from left to right and end early (`Walks`). `visited` are the leaves a walk comes
   to: it fails exactly when one of them does (`visited_spec`), and otherwise its answer is the
   truth of the tree over the answers of the leaves (`walk_holds`). -/
namespace FlowRule
open Checks Rules

/-- The children one after the other, up to the first that answers `stop`. -/
def untilStop (ev : Predicate → Except Err Bool) (stop : Bool) : List Predicate → Except Err Bool
  | [] => .ok (!stop)
  | p :: rest => do
    let b ← ev p
    if b = stop then .ok stop else untilStop ev stop rest

structure Walks (ev : Predicate → Except Err Bool) : Prop where
  all : ∀ (children : List Predicate) op value,
    ev (.mk (some (children.map some)) none none "" op value) = untilStop ev false children
  any : ∀ (children : List Predicate) op value,
    ev (.mk none (some (children.map some)) none "" op value) = untilStop ev true children
  not : ∀ child op value, ev (.mk none none (some child) "" op value) = (ev child).map (! ·)

mutual

def visited (ev : Predicate → Except Err Bool) : Predicate → List Predicate
  | .mk (some children) _ _ _ _ _ => visitedUntil ev false children
  | .mk none (some children) _ _ _ _ => visitedUntil ev true children
  | .mk none none (some child) _ _ _ => visited ev child
  | .mk none none none path op value => [.mk none none none path op value]

def visitedUntil (ev : Predicate → Except Err Bool) (stop : Bool) : List (Option Predicate) → List Predicate
  | [] => []
  | none :: _ => []
  | some p :: rest =>
    visited ev p ++ match ev p with
      | .ok b => if b = stop then [] else visitedUntil ev stop rest
      | .error _ => []

end

mutual

/-- The truth of a tree over its leaves. -/
def Truth (L : Predicate → Prop) : Predicate → Prop
  | .mk (some children) _ _ _ _ _ => AllHold L children
  | .mk none (some children) _ _ _ _ => AnyHolds L children
  | .mk none none (some child) _ _ _ => ¬ Truth L child
  | .mk none none none path op value => L (.mk none none none path op value)

def AllHold (L : Predicate → Prop) : List (Option Predicate) → Prop
  | [] => True
  | none :: rest => AllHold L rest
  | some p :: rest => Truth L p ∧ AllHold L rest

def AnyHolds (L : Predicate → Prop) : List (Option Predicate) → Prop
  | [] => False
  | none :: rest => AnyHolds L rest
  | some p :: rest => Truth L p ∨ AnyHolds L rest

end

section
variable {ev : Predicate → Except Err Bool} {stop b : Bool} {ps : List Predicate} {p : Predicate} {e : Err}

theorem untilStop_ok (h : untilStop ev stop ps = .ok b) :
    b = stop ∧ (∃ p ∈ ps, ev p = .ok stop) ∨ b = !stop ∧ ∀ p ∈ ps, ev p = .ok !stop := by
  induction ps with
  | nil =>
    cases h
    exact .inr ⟨rfl, List.forall_mem_nil _⟩
  | cons p rest ih =>
    obtain ⟨answer, hp, h⟩ := bind_ok.mp h
    by_cases hstop : answer = stop
    · rw [if_pos hstop] at h
      cases h
      exact .inl ⟨rfl, p, List.mem_cons_self, hstop ▸ hp⟩
    · rw [if_neg hstop] at h
      rcases ih h with ⟨hb, q, hq, hans⟩ | ⟨hb, hall⟩
      · exact .inl ⟨hb, q, List.mem_cons_of_mem p hq, hans⟩
      · exact .inr ⟨hb, List.forall_mem_cons.mpr ⟨Bool.eq_not.mpr hstop ▸ hp, hall⟩⟩

theorem untilStop_append (ps qs : List Predicate) : untilStop ev stop (ps ++ qs) = (do
    let b ← untilStop ev stop ps
    if b = stop then .ok stop else untilStop ev stop qs) := by
  induction ps with
  | nil => exact (if_neg (Bool.not_ne_self stop)).symm
  | cons p rest ih =>
    rw [List.cons_append, untilStop, untilStop, ih]
    cases ev p with
    | error e => rfl
    | ok b =>
      by_cases hb : b = stop
      · simp [hb, Except.bind, bind]
      · simp [hb, Except.bind, bind]

/-- De Morgan: the list stops where the list of the negations does. -/
theorem untilStop_not {neg : Predicate → Predicate} (h : ∀ p, ev (neg p) = (ev p).map (! ·)) (ps : List Predicate) :
    untilStop ev (!stop) (ps.map neg) = (untilStop ev stop ps).map (! ·) := by
  induction ps with
  | nil => rfl
  | cons p rest ih =>
    rw [List.map_cons, untilStop, untilStop, ih, h]
    -- by the answer of the first child: it decides, leaves it to the rest, or fails
    cases ev p with
    | error e => rfl
    | ok b => cases b <;> cases stop <;> rfl

theorem allHold_map {L : Predicate → Prop} : AllHold L (ps.map some) ↔ ∀ p ∈ ps, Truth L p := by
  induction ps with
  | nil => simp [AllHold]
  | cons p rest ih => simp [AllHold, ih]

theorem anyHolds_map {L : Predicate → Prop} : AnyHolds L (ps.map some) ↔ ∃ p ∈ ps, Truth L p := by
  induction ps with
  | nil => simp [AnyHolds]
  | cons p rest ih => simp [AnyHolds, ih]

/-- A leaf that the compiler accepts. -/
def AcceptedLeaf (p : Predicate) : Prop :=
  ∃ path op value, p = .mk none none none path op value ∧ path ≠ "" ∧ validOp op = true

/-- The walk fails with the error of a leaf it comes to, and only then. -/
def VisitedSpec (ev : Predicate → Except Err Bool) (p : Predicate) : Prop :=
  (∀ leaf ∈ visited ev p, AcceptedLeaf leaf) ∧ ∀ e, ev p = .error e ↔ ∃ leaf ∈ visited ev p, ev leaf = .error e

theorem visitedUntil_spec (h : ∀ p ∈ ps, VisitedSpec ev p) :
    (∀ leaf ∈ visitedUntil ev stop (ps.map some), AcceptedLeaf leaf) ∧
      ∀ e, untilStop ev stop ps = .error e ↔ ∃ leaf ∈ visitedUntil ev stop (ps.map some), ev leaf = .error e := by
  induction ps with
  | nil => exact ⟨List.forall_mem_nil _, fun e => by simp [untilStop, visitedUntil]⟩
  | cons p rest ih =>
    obtain ⟨⟨hleaf, hp⟩, hrest⟩ := List.forall_mem_cons.mp h
    obtain ⟨ihleaf, ihe⟩ := ih hrest
    rw [List.map_cons, visitedUntil, untilStop]
    -- the child fails, decides, or leaves it to the rest
    cases hans : ev p with
    | error e' =>
      simp only [List.append_nil, ← hp, hans]
      exact ⟨hleaf, fun e => Iff.rfl⟩
    | ok b =>
      show _ ∧ ∀ e, (if b = stop then .ok stop else untilStop ev stop rest) = Except.error e ↔ _
      have hno : ∀ e, ¬ ∃ leaf ∈ visited ev p, ev leaf = .error e := by
        intro e he
        have hfail := (hp e).mpr he
        rw [hans] at hfail
        cases hfail
      by_cases hstop : b = stop
      · simp only [hstop, if_true, List.append_nil]
        exact ⟨hleaf, fun e => iff_of_false (fun h => by cases h) (hno e)⟩
      · simp only [hstop, if_false, List.mem_append, or_imp, forall_and, or_and_right, exists_or]
        exact ⟨⟨hleaf, ihleaf⟩, fun e => (ihe e).trans (or_iff_right (hno e)).symm⟩

theorem visited_spec (hw : Walks ev) (h : InGrammar p) : VisitedSpec ev p := by
  induction h with
  | leaf path op value hpath hop =>
    refine ⟨fun leaf hleaf => ?_, fun e => by simp [visited]⟩
    exact ⟨path, op, value, List.mem_singleton.mp hleaf, hpath, hop⟩
  | all children op value _ _ ih =>
    simp only [VisitedSpec, visited, hw.all]
    exact visitedUntil_spec ih
  | any children op value _ _ ih =>
    simp only [VisitedSpec, visited, hw.any]
    exact visitedUntil_spec ih
  | not child op value _ ih =>
    simp only [VisitedSpec, visited, hw.not]
    refine ⟨ih.1, fun e => Iff.trans ?_ (ih.2 e)⟩
    cases ev child <;> simp [Except.map]

/-- What a walk answers is the truth of the tree, when `L` is what its leaves answer. -/
theorem walk_holds (hw : Walks ev) {L : Predicate → Prop}
    (hL : ∀ leaf, AcceptedLeaf leaf → (ev leaf = .ok true ↔ L leaf))
    (h : InGrammar p) : ∀ {b : Bool}, ev p = .ok b → (b = true ↔ Truth L p) := by
  induction h with
  | leaf path op value hpath hop =>
    intro b hb
    have hleaf := hL _ ⟨path, op, value, rfl, hpath, hop⟩
    rw [hb, Except.ok.injEq] at hleaf
    exact hleaf
  | all children op value _ _ ih =>
    intro b hb
    rw [hw.all] at hb
    rw [Truth, allHold_map]
    rcases untilStop_ok hb with ⟨rfl, q, hq, hans⟩ | ⟨rfl, hall⟩
    · exact iff_of_false Bool.false_ne_true (fun h => Bool.false_ne_true ((ih q hq hans).mpr (h q hq)))
    · exact iff_of_true rfl (fun q hq => (ih q hq (hall q hq)).mp rfl)
  | any children op value _ _ ih =>
    intro b hb
    rw [hw.any] at hb
    rw [Truth, anyHolds_map]
    rcases untilStop_ok hb with ⟨rfl, q, hq, hans⟩ | ⟨rfl, hall⟩
    · exact iff_of_true rfl ⟨q, hq, (ih q hq hans).mp rfl⟩
    · refine iff_of_false Bool.false_ne_true ?_
      rintro ⟨q, hq, h⟩
      exact Bool.false_ne_true ((ih q hq (hall q hq)).mpr h)
  | not child op value _ ih =>
    intro b hb
    rw [hw.not] at hb
    obtain ⟨answer, hans, rfl⟩ := map_ok.mp hb
    rw [Truth, ← ih hans]
    cases answer <;> simp

end

/-! The two engines. -/

theorem go_walks (num : Numbers) (data : Json) (facts : Facts) : Walks (evalPredicate num data facts) where
  all := by
    intro children op value
    rw [evalPredicate]
    induction children with
    | nil => rfl
    | cons p rest ih =>
      simp only [List.map_cons, evalAll, untilStop, ih]
      cases evalPredicate num data facts p with
      | error e => rfl
      | ok b => cases b <;> rfl
  any := by
    intro children op value
    rw [evalPredicate]
    induction children with
    | nil => rfl
    | cons p rest ih =>
      simp only [List.map_cons, evalAny, untilStop, ih]
  not := by
    intro child op value
    rw [evalPredicate]
    cases evalPredicate num data facts child <;> rfl

theorem rust_walks (num : Numbers) (data : Json) : Walks (Rust.evalPredicate num data) where
  all := by
    intro children op value
    rw [Rust.evalPredicate]
    induction children with
    | nil => rfl
    | cons p rest ih =>
      simp only [List.map_cons, Rust.evalAll, untilStop, ih]
      cases Rust.evalPredicate num data p with
      | error e => rfl
      | ok b => cases b <;> rfl
  any := by
    intro children op value
    rw [Rust.evalPredicate]
    induction children with
    | nil => rfl
    | cons p rest ih =>
      simp only [List.map_cons, Rust.evalAny, untilStop, ih]
  not := by
    intro child op value
    rw [Rust.evalPredicate]
    cases Rust.evalPredicate num data child <;> rfl

end FlowRule
