import Mathlib.Logic.Function.Basic

/- Client programs that issue statements to a server. A program returns, fails with an error, or
   issues one statement and goes on with the server's answer. Between two statements anything
   may happen on the server, so a program is reasoned about through a protocol (`Proto`):
   abstract stages of one client, which statements a stage permits, and which answers they can
   get there. `wp` is the weakest precondition of a program over a protocol.

   `Only` is a cheaper judgement for parts of a program that a protocol does not look at. -/

/-- A program over the statements `Op`, where `o : Op` is answered by a `Res o`. -/
inductive Prog (Op : Type) (Res : Op → Type) (E : Type) (R : Type) where
  | ret (r : R)
  | throw (e : E)
  | stmt (o : Op) (k : Except E (Res o) → Prog Op Res E R)

namespace Prog

variable {Op : Type} {Res : Op → Type} {E R T : Type}

/-- Runs `p`, then `f` on its result; an error of `p` ends both. -/
def bind : Prog Op Res E R → (R → Prog Op Res E T) → Prog Op Res E T
  | .ret r, f => f r
  | .throw e, _ => .throw e
  | .stmt o k, f => .stmt o (fun a => (k a).bind f)

instance : Monad (Prog Op Res E) where
  pure := .ret
  bind := .bind

def call (o : Op) : Prog Op Res E (Res o) :=
  .stmt o (fun a => match a with | .ok r => .ret r | .error e => .throw e)

/-- The program `p` with `f` applied to the error it throws. -/
def wrap (f : E → E) : Prog Op Res E R → Prog Op Res E R
  | .ret r => .ret r
  | .throw e => .throw (f e)
  | .stmt o k => .stmt o (fun a => (k a).wrap f)

def ofExcept : Except E R → Prog Op Res E R
  | .ok r => .ret r
  | .error e => .throw e

/-- The program `p` with the error it throws as its result. -/
def caught : Prog Op Res E R → Prog Op Res E (Except E R)
  | .ret r => .ret (.ok r)
  | .throw e => .ret (.error e)
  | .stmt o k => .stmt o (fun a => (k a).caught)

variable {p : Prog Op Res E R} {f : R → Prog Op Res E T}

theorem bind_assoc {U : Type} {g : T → Prog Op Res E U} : p >>= f >>= g = p >>= fun r => f r >>= g := by
  change (p.bind f).bind g = p.bind (fun r => (f r).bind g)
  induction p with
  | ret r => rfl
  | throw e => rfl
  | stmt o k ih =>
    simp only [Prog.bind]
    congr 1
    funext a
    exact ih a

/-! Protocols and weakest preconditions. -/

/-- The stages of one client: what each permits, and how an answer moves on. -/
structure Proto (Op : Type) (Res : Op → Type) (E St : Type) where
  allowed : St → Op → Prop
  trans : St → (o : Op) → Except E (Res o) → St → Prop

/-- What moves on with each answer, and ends with the first error. -/
def untilError {St : Type} (ended : St) (moves : St → (o : Op) → Res o → St → Prop) (st : St) (o : Op)
    (a : Except E (Res o)) (st' : St) : Prop :=
  match a with
  | .error _ => st' = ended
  | .ok r => moves st o r st'

variable {St : Type} (P : Proto Op Res E St)

/-- From the stage `st` the program only issues permitted statements, and whatever it
    is answered, it ends in a stage and with a result that satisfy `Q`. -/
def wp : Prog Op Res E R → (St → Except E R → Prop) → St → Prop
  | .ret r, Q, st => Q st (.ok r)
  | .throw e, Q, st => Q st (.error e)
  | .stmt o k, Q, st => P.allowed st o ∧ ∀ a st', P.trans st o a st' → (k a).wp Q st'

variable {P}
variable {Q : St → Except E R → Prop} {st : St} {o : Op}

@[simp] theorem wp_ret {r : R} :
    wp P (.ret r) Q st ↔ Q st (.ok r) := Iff.rfl

@[simp] theorem wp_pure {r : R} :
    wp P (pure r) Q st ↔ Q st (.ok r) := Iff.rfl

@[simp] theorem wp_throw {e : E} :
    wp P (.throw e) Q st ↔ Q st (.error e) := Iff.rfl

theorem wp_stmt {k : Except E (Res o) → Prog Op Res E R} :
    wp P (.stmt o k) Q st ↔ P.allowed st o ∧ ∀ a st', P.trans st o a st' → wp P (k a) Q st' :=
  Iff.rfl

theorem wp_mono {Q' : St → Except E R → Prop}
    (hQ : ∀ st r, Q st r → Q' st r) : ∀ {st}, wp P p Q st → wp P p Q' st := by
  induction p with
  | ret r | throw e => exact fun h => hQ _ _ h
  | stmt o k ih => exact fun h => ⟨h.1, fun a st' ht => ih a (h.2 a st' ht)⟩

theorem wp_bind {Q : St → Except E T → Prop} :
    ∀ {st}, wp P (p >>= f) Q st ↔
      wp P p (fun st' r => match r with
        | .ok v => wp P (f v) Q st'
        | .error e => Q st' (.error e)) st := by
  change ∀ {st}, wp P (p.bind f) Q st ↔ _
  induction p with
  | ret r | throw e => exact Iff.rfl
  | stmt o k ih =>
    intro st
    simp only [Prog.bind, wp_stmt]
    exact and_congr_right fun _ => forall_congr' fun a => forall_congr' fun st' =>
      imp_congr_right fun _ => ih a

theorem wp_wrap {g : E → E} : ∀ {st}, wp P (p.wrap g) Q st ↔ wp P p (fun st' r => Q st' (r.mapError g)) st := by
  induction p with
  | ret r | throw e => exact Iff.rfl
  | stmt o k ih =>
    intro st
    simp only [Prog.wrap, wp_stmt]
    exact and_congr_right fun _ => forall_congr' fun a => forall_congr' fun st' =>
      imp_congr_right fun _ => ih a

theorem wp_caught {Q : St → Except E (Except E R) → Prop} :
    ∀ {st}, wp P p.caught Q st ↔ wp P p (fun st' r => Q st' (.ok r)) st := by
  induction p with
  | ret r | throw e => exact Iff.rfl
  | stmt o k ih =>
    intro st
    simp only [Prog.caught, wp_stmt]
    exact and_congr_right fun _ => forall_congr' fun a => forall_congr' fun st' =>
      imp_congr_right fun _ => ih a

theorem wp_call {Q : St → Except E (Res o) → Prop} :
    wp P (call o) Q st ↔ P.allowed st o ∧ ∀ a st', P.trans st o a st' → Q st' a := by
  refine and_congr_right fun _ => forall_congr' fun a => forall_congr' fun st' =>
    imp_congr_right fun _ => ?_
  cases a <;> exact Iff.rfl

theorem wp_ofExcept {x : Except E R} : wp P (ofExcept x) Q st ↔ Q st x := by
  cases x <;> exact Iff.rfl

theorem wp_trivial (hP : ∀ st o, P.allowed st o) (hQ : ∀ st r, Q st r) : ∀ {st}, wp P p Q st := by
  induction p with
  | ret r => exact hQ _ _
  | throw e => exact hQ _ _
  | stmt o k ih => exact ⟨hP _ o, fun a _ _ => ih a⟩

theorem wp_map {g : R → T} {Q : St → Except E T → Prop} :
    wp P (g <$> p) Q st ↔ wp P p (fun st' r => Q st' (r.map g)) st := by
  change wp P (p >>= fun r => pure (g r)) Q st ↔ _
  rw [wp_bind]
  constructor <;> refine wp_mono fun st' r h => ?_ <;> cases r <;> exact h

/-! Programs whose statements are all permitted, with nothing to remember between them. -/

def Within (P : Proto Op Res E Unit) (p : Prog Op Res E R) : Prop := wp P p (fun _ _ => True) ()

section
variable {P : Proto Op Res E Unit}

theorem Within.bind (hp : Within P p) (hf : ∀ r, Within P (f r)) : Within P (p >>= f) := by
  refine wp_bind.mpr (wp_mono ?_ hp)
  rintro - (e | r) -
  · trivial
  · exact hf r

theorem Within.caught (hp : Within P p) : Within P p.caught := wp_caught.mpr hp

theorem Within.wrap {g : E → E} (hp : Within P p) : Within P (p.wrap g) := wp_wrap.mpr hp

theorem within_pure (r : R) : Within P (pure r) := trivial

theorem within_call (ho : P.allowed () o) : Within P (call o) := wp_call.mpr ⟨ho, fun _ _ _ => trivial⟩

end

/-! Programs of one kind of statement. -/

/-- Every statement is of the kind `A`, and an error is thrown on. -/
def Only (A : Op → Prop) : Prog Op Res E R → Prop
  | .ret _ => True
  | .throw _ => True
  | .stmt o k => A o ∧ (∀ x, (k (.ok x)).Only A) ∧ ∀ e, ∃ e', k (.error e) = .throw e'

variable {A : Op → Prop}

theorem Only.bind (hp : p.Only A) (hf : ∀ r, (f r).Only A) : (p >>= f).Only A := by
  change (p.bind f).Only A
  induction p with
  | ret r => exact hf r
  | throw e => trivial
  | stmt o k ih =>
    obtain ⟨ha, hok, herr⟩ := hp
    refine ⟨ha, fun x => ih _ (hok x), fun e => ?_⟩
    obtain ⟨e', he⟩ := herr e
    refine ⟨e', ?_⟩
    show (k (.error e)).bind f = .throw e'
    rw [he]
    rfl

theorem Only.wrap (g : E → E) (hp : p.Only A) : (p.wrap g).Only A := by
  induction p with
  | ret r => trivial
  | throw e => trivial
  | stmt o k ih =>
    obtain ⟨ha, hok, herr⟩ := hp
    refine ⟨ha, fun x => ih _ (hok x), fun e => ?_⟩
    obtain ⟨e', he⟩ := herr e
    refine ⟨g e', ?_⟩
    show (k (.error e)).wrap g = .throw (g e')
    rw [he]
    rfl

theorem only_call (h : A o) : (call o : Prog Op Res E (Res o)).Only A :=
  ⟨h, fun _ => trivial, fun e => ⟨e, rfl⟩⟩

theorem only_ofExcept (x : Except E R) : (ofExcept x : Prog Op Res E R).Only A := by
  cases x <;> trivial

theorem Only.map (g : R → T) (hp : p.Only A) : (g <$> p).Only A :=
  hp.bind (fun _ => trivial)

theorem Only.mono {B : Op → Prop} (hAB : ∀ o, A o → B o) (hp : p.Only A) : p.Only B := by
  induction p with
  | ret r => trivial
  | throw e => trivial
  | stmt o k ih =>
    obtain ⟨ha, hok, herr⟩ := hp
    exact ⟨hAB o ha, fun x => ih _ (hok x), herr⟩

/-- Where statements of the kind `A` are permitted and keep `I` of the stage, so does the
    whole program, up to an error. -/
theorem wp_only (I : St → Prop) (hp : p.Only A)
    (hA : ∀ o st, A o → I st → P.allowed st o ∧ ∀ x st', P.trans st o (.ok x) st' → I st')
    (herr : ∀ st' e, Q st' (.error e)) (hok : ∀ st' r, I st' → Q st' (.ok r)) : ∀ {st}, I st → wp P p Q st := by
  induction p with
  | ret r => exact fun hI => hok _ r hI
  | throw e => exact fun _ => herr _ e
  | stmt o k ih =>
    intro st hI
    obtain ⟨ha, hk, hthrow⟩ := hp
    refine ⟨(hA o st ha hI).1, fun a st' ht => ?_⟩
    cases a with
    | ok x => exact ih _ (hk x) ((hA o st ha hI).2 x st' ht)
    | error e =>
      obtain ⟨e', he⟩ := hthrow e
      rw [he]
      exact herr st' e'

end Prog
