import Mathlib.Logic.Function.Basic

/- Chains of checks that end at the first error, and two chains with the same result. -/
namespace Checks

variable {E A B : Type}
variable {x : Except E A} {f : A → Except E B} {a : A} {xs : List A}

theorem bind_ok {b : B} : (x >>= f) = .ok b ↔ ∃ a, x = .ok a ∧ f a = .ok b := by
  cases x with
  | error e =>
    constructor
    · intro h
      cases h
    · rintro ⟨a, h, -⟩
      cases h
  | ok a =>
    constructor
    · intro h
      exact ⟨a, rfl, h⟩
    · rintro ⟨a', h, hf⟩
      cases h
      exact hf

theorem map_ok {f : A → B} {b : B} : x.map f = .ok b ↔ ∃ a, x = .ok a ∧ f a = b := by
  cases x with
  | error e | ok a => simp [Except.map]

theorem ite_ok {c : Prop} [Decidable c] {e : E} : (if c then .error e else x) = .ok a ↔ ¬ c ∧ x = .ok a := by
  by_cases hc : c <;> simp [hc]

theorem mapError_ok {F : Type} {g : E → F} : x.mapError g = .ok a ↔ x = .ok a := by
  cases x with
  | error e => constructor <;> (intro h; cases h)
  | ok a => constructor <;> (intro h; cases h; rfl)

/-- Results of a list of checks come from its members, and so the checks all pass. -/
theorem mapM_ok : ∀ {ys : List B}, xs.mapM f = .ok ys →
    (∀ y ∈ ys, ∃ x ∈ xs, f x = .ok y) ∧ ∀ x ∈ xs, ∃ y, f x = .ok y := by
  induction xs with
  | nil =>
    intro ys h
    cases h
    simp
  | cons x xs ih =>
    intro ys h
    rw [List.mapM_cons] at h
    obtain ⟨y, hy, h⟩ := bind_ok.mp h
    obtain ⟨ys', hys, h⟩ := bind_ok.mp h
    cases h
    obtain ⟨hfrom, hall⟩ := ih hys
    constructor
    · intro z hz
      rcases List.mem_cons.mp hz with rfl | hmem
      · exact ⟨x, List.mem_cons_self, hy⟩
      · obtain ⟨x', hx', hf⟩ := hfrom z hmem
        exact ⟨x', List.mem_cons_of_mem x hx', hf⟩
    · intro z hz
      rcases List.mem_cons.mp hz with rfl | hmem
      · exact ⟨y, hy⟩
      · exact hall z hmem

theorem map_mapM {C : Type} {g : A → C} {g' : B → C} (h : ∀ x y, f x = .ok y → g' y = g x) :
    ∀ {ys : List B}, xs.mapM f = .ok ys → ys.map g' = xs.map g := by
  induction xs with
  | nil =>
    intro ys hys
    cases hys
    rfl
  | cons x xs ih =>
    intro ys hys
    rw [List.mapM_cons] at hys
    obtain ⟨y, hy, hys⟩ := bind_ok.mp hys
    obtain ⟨rest, hrest, hys⟩ := bind_ok.mp hys
    cases hys
    rw [List.map_cons, List.map_cons, h x y hy, ih hrest]

theorem mapM_eq {g : A → B} (h : ∀ x ∈ xs, f x = .ok (g x)) : xs.mapM f = .ok (xs.map g) := by
  induction xs with
  | nil => rfl
  | cons x xs ih =>
    rw [List.mapM_cons]
    exact bind_ok.mpr ⟨g x, h x List.mem_cons_self, bind_ok.mpr ⟨_, ih (fun y hy =>
      h y (List.mem_cons_of_mem x hy)), rfl⟩⟩

/-- The order of the checks matters for the error only. -/
theorem mapM_perm {xs' : List A} (hperm : xs.Perm xs') :
    ∀ {ys : List B}, xs.mapM f = .ok ys → ∃ ys', xs'.mapM f = .ok ys' ∧ ys.Perm ys' := by
  induction hperm with
  | nil => exact fun h => ⟨_, h, List.Perm.refl _⟩
  | cons x _ ih =>
    intro ys h
    rw [List.mapM_cons] at h
    obtain ⟨y, hy, h⟩ := bind_ok.mp h
    obtain ⟨rest, hrest, h⟩ := bind_ok.mp h
    cases h
    obtain ⟨rest', hrest', hp⟩ := ih hrest
    refine ⟨y :: rest', ?_, hp.cons y⟩
    rw [List.mapM_cons]
    exact bind_ok.mpr ⟨y, hy, bind_ok.mpr ⟨rest', hrest', rfl⟩⟩
  | swap x x' xs =>
    intro ys h
    simp only [List.mapM_cons] at h
    obtain ⟨y', hy', h⟩ := bind_ok.mp h
    obtain ⟨tail, htail, h⟩ := bind_ok.mp h
    obtain ⟨y, hy, htail⟩ := bind_ok.mp htail
    obtain ⟨rest, hrest, htail⟩ := bind_ok.mp htail
    cases htail
    cases h
    refine ⟨y :: y' :: rest, ?_, List.Perm.swap y y' rest⟩
    simp only [List.mapM_cons]
    exact bind_ok.mpr ⟨y, hy, bind_ok.mpr ⟨_, bind_ok.mpr ⟨y', hy', bind_ok.mpr ⟨rest, hrest, rfl⟩⟩, rfl⟩⟩
  | trans _ _ ih₁ ih₂ =>
    intro ys h
    obtain ⟨ys₁, h₁, hp₁⟩ := ih₁ h
    obtain ⟨ys₂, h₂, hp₂⟩ := ih₂ h₁
    exact ⟨ys₂, h₂, hp₁.trans hp₂⟩

/-! Two chains that end alike. -/

inductive SameResult : Except E A → Except E A → Prop
  | result (a : A) : SameResult (.ok a) (.ok a)
  | failure (e e' : E) : SameResult (.error e) (.error e')

theorem sameResult_ok {b : A} : SameResult (E := E) (.ok a) (.ok b) ↔ a = b := by
  constructor
  · intro h
    cases h
    rfl
  · rintro rfl
    exact .result a

theorem not_sameResult_error {e : E} : ¬ SameResult (.error e) (.ok a) := by
  intro h
  cases h

inductive Both (R : A → B → Prop) : Except E A → Except E B → Prop
  | ok {a : A} {b : B} (h : R a b) : Both R (.ok a) (.ok b)
  | error (e e' : E) : Both R (.error e) (.error e')

theorem Both.refl {R : A → A → Prop} (h : ∀ a, R a a) : ∀ x : Except E A, Both R x x
  | .ok a => .ok (h a)
  | .error e => .error e e

theorem Both.map {A' B' : Type} {R : A → B → Prop} {R' : A' → B' → Prop} {y : Except E B}
    {f : A → A'} {g : B → B'} (h : Both R x y) (hfg : ∀ a b, R a b → R' (f a) (g b)) : Both R' (x.map f) (y.map g) := by
  cases h with
  | ok h => exact .ok (hfg _ _ h)
  | error e e' => exact .error e e'

end Checks
