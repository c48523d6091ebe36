import FlowRule.Lib.Machine
import FlowRule.Lib.Prog

/- Workers that share data and each run one program at a time. The data holds what is shared and
   what is local to each worker; `finish` is what the end of a program leaves in it. `Sound`
   asks that every kind of step keeps an invariant of the data and of the stages of all
   workers, and `Holds` is then kept by every step that meets the condition `G` (`holds_step`). -/

structure Shop (D W V X Op : Type) (Res : Op → Type) (E R : Type) where
  start : D → W → Option (D × Prog Op Res E R)
  exec : D → W → (o : Op) → X → Option (D × Except E (Res o))
  finish : D → W → Except E R → D
  env : D → V → Option D

namespace Workers

structure World (D W Op : Type) (Res : Op → Type) (E R : Type) where
  data : D
  tasks : W → Option (Prog Op Res E R)

inductive Act (W V X : Type) where
  | start (w : W)
  | exec (w : W) (x : X)
  | finish (w : W)
  | env (v : V)

variable {D W V X Op : Type} {Res : Op → Type} {E R St : Type} [DecidableEq W]

def next (shop : Shop D W V X Op Res E R) (u : World D W Op Res E R) : Act W V X → Option (World D W Op Res E R)
  | .start w =>
    match u.tasks w with
    | none => (shop.start u.data w).map (fun r => ⟨r.1, Function.update u.tasks w (some r.2)⟩)
    | some _ => none
  | .exec w x =>
    match u.tasks w with
    | some (.stmt o k) =>
      (shop.exec u.data w o x).map (fun r => ⟨r.1, Function.update u.tasks w (some (k r.2))⟩)
    | _ => none
  | .finish w =>
    match u.tasks w with
    | some (.ret r) => some ⟨shop.finish u.data w (.ok r), Function.update u.tasks w none⟩
    | some (.throw e) => some ⟨shop.finish u.data w (.error e), Function.update u.tasks w none⟩
    | _ => none
  | .env v => (shop.env u.data v).map (fun d => ⟨d, u.tasks⟩)

/-- The answer to a statement, when it is not lost on its way. -/
def unlessLost {A : Type} (lost : Option E) (a : Except E A) : Except E A :=
  match lost with
  | some e => .error e
  | none => a

theorem unlessLost_ok {A : Type} {lost : Option E} {a : Except E A} {r : A} (h : unlessLost lost a = .ok r) :
    a = .ok r := by
  cases lost with
  | some e => cases h
  | none => exact h

def init (d : D) : World D W Op Res E R := ⟨d, fun _ => none⟩

/-- A program follows the protocol of its worker from the stage the worker is in. -/
def Follows (P : W → Prog.Proto Op Res E St) (Fin : W → St → Except E R → Prop) (w : W) :
    Option (Prog Op Res E R) → Option St → Prop
  | none, none => True
  | some p, some st => Prog.wp (P w) p (Fin w) st
  | _, _ => False

structure Sound (shop : Shop D W V X Op Res E R) (P : W → Prog.Proto Op Res E St)
    (Fin : W → St → Except E R → Prop) (Inv : D → (W → Option St) → Prop)
    (G : D → W → Op → X → Prop) : Prop where
  start : ∀ {d σ w d' p}, Inv d σ → σ w = none → shop.start d w = some (d', p) →
    ∃ st, Inv d' (Function.update σ w (some st)) ∧ Prog.wp (P w) p (Fin w) st
  exec : ∀ {d σ w st o x d' a}, Inv d σ → σ w = some st → (P w).allowed st o → G d w o x →
    shop.exec d w o x = some (d', a) →
    ∃ st', (P w).trans st o a st' ∧ Inv d' (Function.update σ w (some st'))
  finish : ∀ {d σ w st r}, Inv d σ → σ w = some st → Fin w st r →
    Inv (shop.finish d w r) (Function.update σ w none)
  env : ∀ {d σ v d'}, Inv d σ → shop.env d v = some d' → Inv d' σ

/-- The statements of a step meet the condition `G`. -/
def Meets (G : D → W → Op → X → Prop) (u : World D W Op Res E R) : Act W V X → Prop
  | .exec w x =>
    match u.tasks w with
    | some (.stmt o _) => G u.data w o x
    | _ => True
  | _ => True

instance decidableMeets {G : D → W → Op → X → Prop} [∀ d w o x, Decidable (G d w o x)] {u : World D W Op Res E R} :
    (a : Act W V X) → Decidable (Meets G u a)
  | .exec w x =>
    match h : u.tasks w with
    | some (.stmt o _) => decidable_of_iff (G u.data w o x) (by simp only [Meets, h])
    | some (.ret _) => .isTrue (by simp only [Meets, h])
    | some (.throw _) => .isTrue (by simp only [Meets, h])
    | none => .isTrue (by simp only [Meets, h])
  | .start _ => .isTrue trivial
  | .finish _ => .isTrue trivial
  | .env _ => .isTrue trivial

def Holds (P : W → Prog.Proto Op Res E St) (Fin : W → St → Except E R → Prop)
    (Inv : D → (W → Option St) → Prop) (u : World D W Op Res E R) : Prop :=
  ∃ σ : W → Option St, Inv u.data σ ∧ ∀ w, Follows P Fin w (u.tasks w) (σ w)

section
variable {shop : Shop D W V X Op Res E R} {P : W → Prog.Proto Op Res E St}
  {Fin : W → St → Except E R → Prop} {Inv : D → (W → Option St) → Prop} {G : D → W → Op → X → Prop}

theorem update_cases {f : W → D} {w w' : W} {v x : D} (h : Function.update f w v w' = x) :
    (w' = w ∧ v = x) ∨ (w' ≠ w ∧ f w' = x) := by
  by_cases hne : w' = w
  · subst hne
    exact .inl ⟨rfl, by rwa [Function.update_self] at h⟩
  · exact .inr ⟨hne, by rwa [Function.update_of_ne hne] at h⟩

theorem follows_update {tasks : W → Option (Prog Op Res E R)} {σ : W → Option St} {w : W}
    {t : Option (Prog Op Res E R)} {st : Option St} (h : ∀ w, Follows P Fin w (tasks w) (σ w))
    (hw : Follows P Fin w t st) :
    ∀ w', Follows P Fin w' (Function.update tasks w t w') (Function.update σ w st w') := by
  intro w'
  by_cases hne : w' = w
  · subst hne
    rw [Function.update_self, Function.update_self]
    exact hw
  · rw [Function.update_of_ne hne, Function.update_of_ne hne]
    exact h w'

omit [DecidableEq W] in
theorem stage_of_task {σ : W → Option St} {w : W} {p : Prog Op Res E R}
    (h : Follows P Fin w (some p) (σ w)) : ∃ st, σ w = some st ∧ Prog.wp (P w) p (Fin w) st := by
  cases hσ : σ w with
  | none => rw [hσ] at h; exact h.elim
  | some st => rw [hσ] at h; exact ⟨st, rfl, h⟩

theorem holds_step (hs : Sound shop P Fin Inv G) {u u' : World D W Op Res E R} {a : Act W V X}
    (h : Holds P Fin Inv u) (hG : Meets G u a) (hn : next shop u a = some u') : Holds P Fin Inv u' := by
  obtain ⟨σ, hinv, hfol⟩ := h
  cases a with
  | start w =>
    simp only [next] at hn
    split at hn
    · rename_i ht
      obtain ⟨⟨d', p⟩, hst, rfl⟩ := Option.map_eq_some_iff.mp hn
      have hw := hfol w
      rw [ht] at hw
      have hσ : σ w = none := by
        cases hσ : σ w with
        | none => rfl
        | some st => rw [hσ] at hw; exact hw.elim
      obtain ⟨st, hinv', hwp⟩ := hs.start hinv hσ hst
      exact ⟨_, hinv', follows_update hfol hwp⟩
    · cases hn
  | exec w x =>
    simp only [next] at hn
    split at hn
    · rename_i o k ht
      obtain ⟨⟨d', r⟩, hex, rfl⟩ := Option.map_eq_some_iff.mp hn
      have hw := hfol w
      rw [ht] at hw
      obtain ⟨st, hσ, hwp⟩ := stage_of_task hw
      have hG' : G u.data w o x := by
        simp only [Meets, ht] at hG
        exact hG
      obtain ⟨st', htr, hinv'⟩ := hs.exec hinv hσ hwp.1 hG' hex
      exact ⟨_, hinv', follows_update hfol (hwp.2 r st' htr)⟩
    · cases hn
  | finish w =>
    simp only [next] at hn
    split at hn
    · rename_i r ht
      cases hn
      have hw := hfol w
      rw [ht] at hw
      obtain ⟨st, hσ, hwp⟩ := stage_of_task hw
      exact ⟨_, hs.finish hinv hσ hwp, follows_update hfol trivial⟩
    · rename_i e ht
      cases hn
      have hw := hfol w
      rw [ht] at hw
      obtain ⟨st, hσ, hwp⟩ := stage_of_task hw
      exact ⟨_, hs.finish hinv hσ hwp, follows_update hfol trivial⟩
    · cases hn
  | env v =>
    obtain ⟨d', hd, rfl⟩ := Option.map_eq_some_iff.mp hn
    exact ⟨σ, hs.env hinv hd, hfol⟩

/-- The invariant holds at the end of every run whose statements all meet the condition. -/
theorem holds_along (hs : Sound shop P Fin Inv G) {d : D} {ls : List (Act W V X)} {u : World D W Op Res E R}
    (hd : Inv d (fun _ => none)) (hG : Machine.Along (next shop) (Meets G) (init d) ls)
    (h : Machine.run (next shop) (init d) ls = some u) : Holds P Fin Inv u := by
  have h0 : Holds P Fin Inv (init d : World D W Op Res E R) := ⟨fun _ => none, hd, fun _ => trivial⟩
  exact Machine.run_along (Holds P Fin Inv) (fun _ _ _ ha hg hn => holds_step hs ha hg hn) h0 hG h

end

end Workers
