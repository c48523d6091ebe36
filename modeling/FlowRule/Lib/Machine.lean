import Mathlib.Logic.Function.Basic
import Mathlib.Data.List.Induction

/- Runs of a guarded step function: `next s l` is the state after the step labelled `l`, or
   `none` when that step is not enabled in `s`. Every choice the environment makes is in the
   label, so that a run is a list of labels and can be replayed by evaluation.

   `run_induct` is the induction over a run with the labels so far in hand, `run_invariant` its
   form without them, `run_mono` carries a transitive relation along a run, and `run_along` is
   the invariant rule for runs all of whose steps meet a condition. -/
namespace Machine

variable {S L : Type}

/-- The state after the labels, oldest first; `none` once a step is not enabled. -/
def run (next : S → L → Option S) : S → List L → Option S
  | s, [] => some s
  | s, l :: ls => (next s l).bind (fun t => run next t ls)

/-- The states a run from `init` passes through. -/
def Reachable (next : S → L → Option S) (init s : S) : Prop :=
  ∃ ls, run next init ls = some s

section
variable {next : S → L → Option S}

theorem run_append (s : S) (ls ms : List L) :
    run next s (ls ++ ms) = (run next s ls).bind (fun t => run next t ms) := by
  induction ls generalizing s with
  | nil => rfl
  | cons l ls ih =>
    simp only [List.cons_append, run]
    cases next s l with
    | none => rfl
    | some t => exact ih t

theorem run_snoc (s : S) (ls : List L) (l : L) :
    run next s (ls ++ [l]) = (run next s ls).bind (fun t => next t l) := by
  rw [run_append]
  congr 1
  funext t
  simp [run]

variable {s u t : S} {ls : List L} {G : S → L → Prop}

theorem run_split {ms : List L} (h : run next s (ls ++ ms) = some u) :
    ∃ t, run next s ls = some t ∧ run next t ms = some u := by
  rw [run_append] at h
  exact Option.bind_eq_some_iff.mp h

/-- Induction over a run, with the labels so far. -/
theorem run_induct (I : List L → S → Prop) (h0 : I [] s)
    (hstep : ∀ ls t l u, run next s ls = some t → I ls t → next t l = some u → I (ls ++ [l]) u) :
    ∀ (ls : List L) (t : S), run next s ls = some t → I ls t := by
  intro ls
  induction ls using List.reverseRecOn with
  | nil =>
    intro t h
    simp only [run, Option.some.injEq] at h
    exact h ▸ h0
  | append_singleton ls l ih =>
    intro u h
    rw [run_snoc] at h
    obtain ⟨t, ht, hu⟩ := Option.bind_eq_some_iff.mp h
    exact hstep ls t l u ht (ih t ht) hu

theorem run_invariant (I : S → Prop) (h0 : I s)
    (hstep : ∀ a l b, I a → next a l = some b → I b) (h : run next s ls = some t) : I t :=
  run_induct (fun _ u => I u) h0 (fun _ a l b _ ha hb => hstep a l b ha hb) ls t h

theorem run_mono (I : S → Prop) (R : S → S → Prop) (hrefl : ∀ a, R a a) (htrans : ∀ a b c, R a b → R b c → R a c)
    (h0 : I s) (hI : ∀ a l b, I a → next a l = some b → I b) (hstep : ∀ a l b, I a → next a l = some b → R a b)
    (h : run next s ls = some t) : R s t := by
  have key : I t ∧ R s t :=
    run_invariant (fun u => I u ∧ R s u) ⟨h0, hrefl s⟩
      (fun a l b ⟨ha, hr⟩ hb => ⟨hI a l b ha hb, htrans s a b hr (hstep a l b ha hb)⟩) h
  exact key.2

/-- Every step of the run meets `G` in the state it is taken in. -/
def Along (next : S → L → Option S) (G : S → L → Prop) : S → List L → Prop
  | _, [] => True
  | s, l :: ls => G s l ∧ ∀ t, next s l = some t → Along next G t ls

instance decidableAlong {G : S → L → Prop} [∀ s l, Decidable (G s l)] :
    (s : S) → (ls : List L) → Decidable (Along next G s ls)
  | _, [] => .isTrue trivial
  | s, l :: ls =>
    match h : next s l with
    | none => decidable_of_iff (G s l) ⟨fun hg => ⟨hg, fun _ ht => nomatch h.symm.trans ht⟩, fun hg => hg.1⟩
    | some t =>
      letI : Decidable (Along next G t ls) := decidableAlong t ls
      decidable_of_iff (G s l ∧ Along next G t ls)
        ⟨fun hg => ⟨hg.1, fun _ ht => Option.some.inj (h.symm.trans ht) ▸ hg.2⟩, fun hg => ⟨hg.1, hg.2 t h⟩⟩

theorem along_append {ls ms : List L} : ∀ {s : S}, Along next G s ls →
    (∀ t, run next s ls = some t → Along next G t ms) → Along next G s (ls ++ ms) := by
  induction ls with
  | nil => exact fun _ h => h _ rfl
  | cons l ls ih =>
    intro s h hms
    exact ⟨h.1, fun t ht => ih (h.2 t ht) (fun u hu => hms u (by rw [run, ht]; exact hu))⟩

theorem run_along (I : S → Prop) (hstep : ∀ a l b, I a → G a l → next a l = some b → I b) :
    ∀ {ls : List L} {s t : S}, I s → Along next G s ls → run next s ls = some t → I t := by
  intro ls
  induction ls with
  | nil =>
    intro s t hs _ h
    simp only [run, Option.some.injEq] at h
    exact h ▸ hs
  | cons l ls ih =>
    intro s t hs hG h
    obtain ⟨u, hu, ht⟩ := Option.bind_eq_some_iff.mp h
    have hu' : I u := hstep s l u hs hG.1 hu
    exact ih hu' (hG.2 u hu) ht

/-- A condition that follows from another one in the states of an invariant, which the other
    one keeps, holds along every run along which the other one holds. -/
theorem along_imp {G' : S → L → Prop} (I : S → Prop) (hG : ∀ s l, I s → G s l → G' s l)
    (hstep : ∀ s l t, I s → G s l → next s l = some t → I t) :
    ∀ {ls : List L} {s : S}, I s → Along next G s ls → Along next G' s ls := by
  intro ls
  induction ls with
  | nil => exact fun _ _ => trivial
  | cons l ls ih =>
    intro s hs h
    exact ⟨hG s l hs h.1, fun t ht => ih (hstep s l t hs h.1 ht) (h.2 t ht)⟩

/-- Two conditions that agree on the states of an invariant, which one of them keeps, hold
    along the same runs. -/
theorem along_congr {G' : S → L → Prop} (I : S → Prop) (hG : ∀ s l, I s → (G s l ↔ G' s l))
    (hstep : ∀ s l t, I s → G s l → next s l = some t → I t) (hs : I s) : Along next G s ls ↔ Along next G' s ls := by
  have hstep' : ∀ s l t, I s → G' s l → next s l = some t → I t :=
    fun s l t hs hg => hstep s l t hs ((hG s l hs).mpr hg)
  constructor
  · exact along_imp I (fun s l hs => (hG s l hs).mp) hstep hs
  · exact along_imp I (fun s l hs => (hG s l hs).mpr) hstep' hs

theorem along_trivial (hG : ∀ s l, G s l) : ∀ {ls : List L} {s : S}, Along next G s ls := by
  intro ls
  induction ls with
  | nil => exact trivial
  | cons l ls ih => exact fun {s} => ⟨hG s l, fun _ _ => ih⟩

/-- Where a step always leads on, and keeps `I` exactly when it meets `G`, the runs that stay
    in `I` are those whose steps all meet `G`. -/
theorem along_iff (I : S → Prop) (hstep : ∀ s l, I s → ∃ t, next s l = some t ∧ (I t ↔ G s l)) :
    ∀ {ls : List L} {s : S}, I s → ((∀ ms, ms <+: ls → ∀ t, run next s ms = some t → I t) ↔ Along next G s ls) := by
  intro ls
  induction ls with
  | nil =>
    intro s hs
    refine ⟨fun _ => trivial, ?_⟩
    intro _ ms hms t ht
    rw [List.prefix_nil.mp hms] at ht
    cases ht
    exact hs
  | cons l ls ih =>
    intro s hs
    obtain ⟨t, hst, hG⟩ := hstep s l hs
    constructor
    · intro h
      have ht : I t := h [l] (by simp) t (by simp [run, hst])
      refine ⟨hG.mp ht, ?_⟩
      intro t' ht'
      cases hst.symm.trans ht'
      refine (ih ht).mp ?_
      intro ms hms u hu
      exact h (l :: ms) (by simpa using hms) u (by simpa [run, hst] using hu)
    · rintro ⟨hg, hrest⟩ ms hms u hu
      cases ms with
      | nil =>
        cases hu
        exact hs
      | cons m ms =>
        obtain ⟨rfl, hpre⟩ := List.cons_prefix_cons.mp hms
        rw [run, hst] at hu
        exact (ih (hG.mpr hg)).mpr (hrest t hst) ms hpre u hu

/-- Where a step that meets `F` in a state of `J` leads to a state of `I` exactly when it comes from
    one and meets `G`, a run whose steps all meet `F` ends in `I` exactly when they all meet `G`. -/
theorem run_iff_along {F : S → L → Prop} (J I : S → Prop) (hJ : ∀ s l t, J s → next s l = some t → J t)
    (hstep : ∀ s l t, J s → F s l → next s l = some t → (I t ↔ I s ∧ G s l)) :
    ∀ {ls : List L} {s u : S}, J s → Along next F s ls → run next s ls = some u →
      (I u ↔ I s ∧ Along next G s ls) := by
  intro ls
  induction ls with
  | nil =>
    intro s u _ _ h
    cases h
    simp [Along]
  | cons l ls ih =>
    intro s u hs hF h
    obtain ⟨t, ht, hu⟩ := Option.bind_eq_some_iff.mp h
    rw [ih (hJ s l t hs ht) (hF.2 t ht) hu, hstep s l t hs hF.1 ht, and_assoc]
    refine and_congr_right fun _ => and_congr_right fun _ => ?_
    exact ⟨fun hr t' ht' => Option.some.inj (ht.symm.trans ht') ▸ hr, fun hr => hr t ht⟩

/-- Whether every step of the run meets `g`. -/
def check (next : S → L → Option S) (g : S → L → Bool) : S → List L → Bool
  | _, [] => true
  | s, l :: ls => g s l && (next s l).all (fun t => check next g t ls)

/-- A run is shown to meet a condition by evaluating a stronger one along it. -/
theorem along_of_check {g : S → L → Bool} (hg : ∀ s l, g s l = true → G s l) :
    ∀ {ls : List L} {s : S}, check next g s ls = true → Along next G s ls := by
  intro ls
  induction ls with
  | nil => exact fun _ => trivial
  | cons l ls ih =>
    intro s h
    simp only [check, Bool.and_eq_true] at h
    refine ⟨hg s l h.1, ?_⟩
    intro t ht
    rw [ht] at h
    exact ih h.2

theorem Reachable.refl (s : S) : Reachable next s s := ⟨[], rfl⟩

theorem Reachable.trans (h₁ : Reachable next s t) (h₂ : Reachable next t u) : Reachable next s u := by
  obtain ⟨ls, hl⟩ := h₁
  obtain ⟨ms, hm⟩ := h₂
  exact ⟨ls ++ ms, by rw [run_append, hl]; exact hm⟩

theorem Reachable.step {l : L} (h : Reachable next s t) (hl : next t l = some u) : Reachable next s u :=
  h.trans ⟨[l], by simp [run, hl]⟩

theorem Reachable.invariant (I : S → Prop) (h : Reachable next s t) (h0 : I s)
    (hstep : ∀ a l b, I a → next a l = some b → I b) : I t := by
  obtain ⟨ls, hl⟩ := h
  exact run_invariant I h0 hstep hl

end

end Machine
