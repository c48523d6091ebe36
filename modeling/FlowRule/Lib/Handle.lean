import FlowRule.Lib.Prog

/- A program whose statements are answered by one handler, with a state of the handler's
   own. Nothing else happens between two statements, so the run has one result, and the
   result of a composed program is computed from those of its parts. -/
namespace Prog

variable {Op : Type} {Res : Op → Type} {E R T S : Type}

def handle (h : (o : Op) → S → Except E (Res o) × S) : Prog Op Res E R → S → Except E R × S
  | .ret r, s => (.ok r, s)
  | .throw e, s => (.error e, s)
  | .stmt o k, s => handle h (k (h o s).1) (h o s).2

section
variable {h : (o : Op) → S → Except E (Res o) × S}
variable {r : R} {s s' : S} {e : E} {p : Prog Op Res E R} {f : R → Prog Op Res E T} {g : E → E}

@[simp] theorem handle_ret : handle h (.ret r) s = (.ok r, s) := rfl

@[simp] theorem handle_pure : handle h (pure r) s = (.ok r, s) := rfl

@[simp] theorem handle_throw : handle h (.throw e : Prog Op Res E R) s = (.error e, s) := rfl

theorem handle_call {o : Op} : handle h (call o) s = h o s := by
  show handle h _ (h o s).2 = h o s
  generalize h o s = a
  obtain ⟨a, s'⟩ := a
  cases a <;> rfl

@[simp] theorem handle_ofExcept {x : Except E R} : handle h (ofExcept x) s = (x, s) := by
  cases x <;> rfl

theorem handle_bind : ∀ {s : S},
    handle h (p >>= f) s = match handle h p s with
      | (.ok r, s') => handle h (f r) s'
      | (.error e, s') => (.error e, s') := by
  change ∀ {s : S}, handle h (p.bind f) s = _
  induction p with
  | ret r => intro s; rfl
  | throw e => intro s; rfl
  | stmt o k ih => exact fun {s} => ih (h o s).1

theorem handle_bind_ok {t : S} (hp : handle h p s = (.ok r, t)) : handle h (p >>= f) s = handle h (f r) t := by
  rw [handle_bind, hp]

theorem handle_bind_error (hp : handle h p s = (.error e, s')) : handle h (p >>= f) s = (.error e, s') := by
  rw [handle_bind, hp]

theorem handle_wrap : ∀ {s : S}, handle h (p.wrap g) s = ((handle h p s).1.mapError g, (handle h p s).2) := by
  induction p with
  | ret r => intro s; rfl
  | throw e => intro s; rfl
  | stmt o k ih => exact fun {s} => ih (h o s).1

theorem handle_wrap_ok (hp : handle h p s = (.ok r, s')) : handle h (p.wrap g) s = (.ok r, s') := by
  rw [handle_wrap, hp]
  rfl

theorem handle_wrap_error (hp : handle h p s = (.error e, s')) : handle h (p.wrap g) s = (.error (g e), s') := by
  rw [handle_wrap, hp]
  rfl

theorem handle_call_ok {o : Op} {f : Res o → Prog Op Res E T} {r : Res o}
    (ho : h o s = (.ok r, s')) : handle h ((call o).wrap g >>= f) s = handle h (f r) s' :=
  handle_bind_ok (handle_wrap_ok (handle_call.trans ho))

theorem handle_caught : ∀ {s : S}, handle h p.caught s = (.ok (handle h p s).1, (handle h p s).2) := by
  induction p with
  | ret r => intro s; rfl
  | throw e => intro s; rfl
  | stmt o k ih => exact fun {s} => ih (h o s).1

theorem handle_map {g : R → T} : handle h (g <$> p) s = ((handle h p s).1.map g, (handle h p s).2) := by
  change handle h (p >>= fun r => pure (g r)) s = _
  rw [handle_bind]
  generalize handle h p s = a
  obtain ⟨a, s'⟩ := a
  cases a <;> rfl

/-- A handler that answers within a protocol, with `I` between the stage and its state, leads
    a program to an end the protocol has. -/
theorem handle_sound {St : Type} {P : Proto Op Res E St} (I : St → S → Prop)
    (hstep : ∀ st s o, I st s → P.allowed st o → ∃ st', P.trans st o (h o s).1 st' ∧ I st' (h o s).2)
    {Q : St → Except E R → Prop} :
    ∀ {st : St} {s : S}, wp P p Q st → I st s → ∃ st', I st' (handle h p s).2 ∧ Q st' (handle h p s).1 := by
  induction p with
  | ret r | throw e => exact fun {st s} hw hI => ⟨st, hI, hw⟩
  | stmt o k ih =>
    intro st s hw hI
    obtain ⟨st', htrans, hI'⟩ := hstep st s o hI hw.1
    exact ih (h o s).1 (hw.2 _ st' htrans) hI'

/-- The protocol of a handler: any statement, answered as the handler does. -/
def handler (h : (o : Op) → S → Except E (Res o) × S) : Proto Op Res E S where
  allowed _ _ := True
  trans s o a s' := h o s = (a, s')

theorem handle_of_wp {Q : S → Except E R → Prop} (hw : wp (handler h) p Q s) :
    Q (handle h p s).2 (handle h p s).1 := by
  obtain ⟨s', rfl, hQ⟩ := handle_sound Eq (fun st s o hs _ => ⟨(h o s).2, by rw [hs]; rfl, rfl⟩) hw rfl
  exact hQ

end

end Prog
