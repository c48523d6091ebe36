import FlowRule.Lib.Prog

/- Triples over a protocol. `Triple P F st p Q` says that from the stage `st` the program keeps
   to the protocol, that it fails only as `F` permits, and that it returns only as `Q` says.
   The rules follow the constructs of a program, so a call is proved from its parts without
   naming what comes after it. -/

namespace Prog

variable {Op : Type} {Res : Op → Type} {E R T St : Type}

def ends (F : St → E → Prop) (Q : St → R → Prop) (st : St) : Except E R → Prop
  | .ok r => Q st r
  | .error e => F st e

def Triple (P : Proto Op Res E St) (F : St → E → Prop) (st : St) (p : Prog Op Res E R) (Q : St → R → Prop) : Prop :=
  wp P p (ends F Q) st

section
variable {P : Proto Op Res E St} {F F' : St → E → Prop} {st : St} {p : Prog Op Res E R} {Q Q' : St → R → Prop}

theorem Triple.mono (h : Triple P F st p Q) (hF : ∀ st e, F st e → F' st e) (hQ : ∀ st r, Q st r → Q' st r) :
    Triple P F' st p Q' := by
  refine wp_mono (fun st r hr => ?_) h
  cases r with
  | ok r => exact hQ st r hr
  | error e => exact hF st e hr

theorem Triple.bind {f : R → Prog Op Res E T} {Q' : St → T → Prop} (h : Triple P F st p Q)
    (hf : ∀ st r, Q st r → Triple P F st (f r) Q') : Triple P F st (p >>= f) Q' := by
  refine wp_bind.mpr (wp_mono (fun st r hr => ?_) h)
  cases r with
  | ok r => exact hf st r hr
  | error e => exact hr

theorem Triple.map {g : R → T} {Q' : St → T → Prop} (h : Triple P F st p Q) (hQ : ∀ st r, Q st r → Q' st (g r)) :
    Triple P F st (g <$> p) Q' :=
  h.bind hQ

theorem Triple.wrap {g : E → E} (h : Triple P F st p Q) (hF : ∀ st e, F st e → F st (g e)) :
    Triple P F st (p.wrap g) Q := by
  refine wp_wrap.mpr (wp_mono (fun st r hr => ?_) h)
  cases r with
  | ok r => exact hr
  | error e => exact hF st e hr

theorem Triple.under {G : St → Prop} {g : E → E} (h : Triple P (fun st _ => G st) st p Q) :
    Triple P (fun st _ => G st) st (p.wrap g) Q :=
  h.wrap (fun _ _ hG => hG)

theorem triple_call {o : Op} (ha : P.allowed st o) (hF : ∀ e st', P.trans st o (.error e) st' → F st' e) :
    Triple P F st (call o) (fun st' x => P.trans st o (.ok x) st') := by
  refine wp_call.mpr ⟨ha, fun a st' ht => ?_⟩
  cases a with
  | ok x => exact ht
  | error e => exact hF e st' ht

/-- A triple that says nothing of failures. -/
abbrev Returns (P : Proto Op Res E St) (st : St) (p : Prog Op Res E R) (Q : St → R → Prop) : Prop :=
  Triple P (fun _ _ => True) st p Q

theorem returns_call {o : Op} (ha : P.allowed st o) :
    Returns P st (call o) (fun st' x => P.trans st o (.ok x) st') :=
  triple_call ha (fun _ _ _ => trivial)

theorem Returns.wp {W : St → Except E R → Prop} (h : Returns P st p Q) (herr : ∀ st e, W st (.error e))
    (hok : ∀ st r, Q st r → W st (.ok r)) : wp P p W st := by
  refine wp_mono (fun st r hr => ?_) h
  cases r with
  | ok r => exact hok st r hr
  | error e => exact herr st e

theorem wp_map_returns {T : Type} {g : R → T} {W : St → Except E T → Prop} (herr : ∀ st e, W st (.error e))
    (h : Returns P st p (fun st r => W st (.ok (g r)))) : wp P (g <$> p) W st :=
  wp_map.mpr (h.wp herr (fun _ _ hr => hr))

theorem triple_ofExcept {x : Except E R} (hF : ∀ e, x = .error e → F st e) :
    Triple P F st (ofExcept x) (fun st' r => st' = st ∧ x = .ok r) := by
  cases x with
  | ok r => exact ⟨rfl, rfl⟩
  | error e => exact hF e rfl

/-- Where statements of one kind are permitted and keep `I` of the stage, so does a program of
    them. -/
theorem Only.triple {A : Op → Prop} {I : St → Prop} (hp : p.Only A) (hI : I st)
    (hA : ∀ o st, A o → I st → P.allowed st o ∧ ∀ x st', P.trans st o (.ok x) st' → I st') (hF : ∀ st e, F st e) :
    Triple P F st p (fun st' _ => I st') :=
  wp_only I hp hA hF (fun _ _ h => h) hI

end

end Prog
