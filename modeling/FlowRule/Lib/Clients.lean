import FlowRule.Lib.Machine
import FlowRule.Lib.Pool
import FlowRule.Lib.Prog

/- Any number of clients running programs against one shared server. A client is started
   with an input, runs its program one statement at a time, and ends by returning or by
   crashing at any point; the server keeps a session for each client next to the shared data.
   A statement may be refused for now (`exec` is `none`: it waits).

   `Sound` lists what has to be shown of a server once: how each kind of step moves a
   client's abstract stage and keeps the facts every other client relies on. `Holds` is
   then an invariant of every run (`holds_step`, `holds_run`). -/

/-- What a server does: how a client starts, what a statement of a session answers given
    the other open sessions, and what the world outside the clients may do. -/
structure Server (D Sess I V W Op : Type) (Res : Op → Type) (E R : Type) where
  start : D → I → Option (D × Sess × Prog Op Res E R)
  exec : D → List Sess → Sess → (o : Op) → W → Option (D × Sess × Except E (Res o))
  env : D → List Sess → V → Option D

namespace Clients

inductive Phase (Op : Type) (Res : Op → Type) (E R : Type) where
  | running (p : Prog Op Res E R)
  | returned (r : Except E R)
  | crashed

structure Client (Sess I Op : Type) (Res : Op → Type) (E R : Type) where
  input : I
  sess : Sess
  phase : Phase Op Res E R

structure World (D Sess I Op : Type) (Res : Op → Type) (E R : Type) where
  db : D
  clients : List (Client Sess I Op Res E R)

/-- One step: a client starts, runs its next statement, returns or crashes, or the
    outside moves. -/
inductive Act (I V W : Type) where
  | start (i : I)
  | exec (c : Nat) (w : W)
  | finish (c : Nat)
  | crash (c : Nat)
  | env (v : V)

variable {D Sess I V W Op : Type} {Res : Op → Type} {E R St : Type}

def sessions (cs : List (Client Sess I Op Res E R)) : List Sess :=
  cs.filterMap (fun cl => match cl.phase with | .running _ => some cl.sess | _ => none)

/-- The step function. A client that returns or crashes without having committed leaves
    nothing behind: its session is no longer counted as open. -/
def next (srv : Server D Sess I V W Op Res E R) (w : World D Sess I Op Res E R) :
    Act I V W → Option (World D Sess I Op Res E R)
  | .start i =>
    match srv.start w.db i with
    | some (d, s, p) => some ⟨d, w.clients ++ [⟨i, s, .running p⟩]⟩
    | none => none
  | .exec c x =>
    match w.clients[c]? with
    | some ⟨i, s, .running (.stmt o k)⟩ =>
      match srv.exec w.db (sessions (w.clients.eraseIdx c)) s o x with
      | some (d, s', a) => some ⟨d, w.clients.set c ⟨i, s', .running (k a)⟩⟩
      | none => none
    | _ => none
  | .finish c =>
    match w.clients[c]? with
    | some ⟨i, s, .running (.ret r)⟩ => some ⟨w.db, w.clients.set c ⟨i, s, .returned (.ok r)⟩⟩
    | some ⟨i, s, .running (.throw e)⟩ => some ⟨w.db, w.clients.set c ⟨i, s, .returned (.error e)⟩⟩
    | _ => none
  | .crash c =>
    match w.clients[c]? with
    | some ⟨i, s, .running _⟩ => some ⟨w.db, w.clients.set c ⟨i, s, .crashed⟩⟩
    | _ => none
  | .env v => (srv.env w.db (sessions w.clients) v).map (fun d => ⟨d, w.clients⟩)

variable {cs : List (Client Sess I Op Res E R)} {s : Sess} {c : Nat} {w w' : World D Sess I Op Res E R}
variable {a : Act I V W} {i : I} {d : D}

theorem mem_sessions : s ∈ sessions cs ↔ ∃ cl ∈ cs, (∃ p, cl.phase = .running p) ∧ cl.sess = s := by
  unfold sessions
  rw [List.mem_filterMap]
  constructor
  · rintro ⟨cl, hm, h⟩
    cases hp : cl.phase with
    | running p => rw [hp] at h; exact ⟨cl, hm, ⟨p, hp⟩, by simpa using h⟩
    | returned r | crashed => rw [hp] at h; cases h
  · rintro ⟨cl, hm, ⟨p, hp⟩, rfl⟩
    exact ⟨cl, hm, by rw [hp]⟩

theorem mem_others :
    s ∈ sessions (cs.eraseIdx c) ↔ ∃ j cl p, j ≠ c ∧ cs[j]? = some cl ∧ cl.phase = .running p ∧ cl.sess = s := by
  rw [mem_sessions]
  constructor
  · rintro ⟨cl, hm, ⟨p, hp⟩, rfl⟩
    obtain ⟨j, hj, hcl⟩ := List.mem_eraseIdx_iff_getElem?.mp hm
    exact ⟨j, cl, p, hj, hcl, hp, rfl⟩
  · rintro ⟨j, cl, p, hj, hcl, hp, rfl⟩
    exact ⟨cl, List.mem_eraseIdx_iff_getElem?.mpr ⟨j, hj, hcl⟩, ⟨p, hp⟩, rfl⟩

/-! What a step is. -/

/-- A client stops with what its program has come to, or crashes. -/
inductive Stops (c : Nat) : Act I V W → Prog Op Res E R → Phase Op Res E R → Prop
  | ret (r : R) : Stops c (.finish c) (.ret r) (.returned (.ok r))
  | throw (e : E) : Stops c (.finish c) (.throw e) (.returned (.error e))
  | crash (p : Prog Op Res E R) : Stops c (.crash c) p .crashed

theorem Stops.not_running {p : Prog Op Res E R} {ph : Phase Op Res E R} (h : Stops c a p ph)
    (p' : Prog Op Res E R) : ph ≠ .running p' := by
  cases h <;> exact nofun

/-- Every step of the world, with all it needed and all it changed. -/
inductive Step (srv : Server D Sess I V W Op Res E R) (w : World D Sess I Op Res E R) :
    Act I V W → World D Sess I Op Res E R → Prop
  | start {i d s p} (hst : srv.start w.db i = some (d, s, p)) :
    Step srv w (.start i) ⟨d, w.clients ++ [⟨i, s, .running p⟩]⟩
  | exec {c x i s o k d s' r} (hc : w.clients[c]? = some ⟨i, s, .running (.stmt o k)⟩)
    (he : srv.exec w.db (sessions (w.clients.eraseIdx c)) s o x = some (d, s', r)) :
    Step srv w (.exec c x) ⟨d, w.clients.set c ⟨i, s', .running (k r)⟩⟩
  | stop {c a i s p ph} (hc : w.clients[c]? = some ⟨i, s, .running p⟩) (hs : Stops c a p ph) :
    Step srv w a ⟨w.db, w.clients.set c ⟨i, s, ph⟩⟩
  | env {v d} (hv : srv.env w.db (sessions w.clients) v = some d) : Step srv w (.env v) ⟨d, w.clients⟩

theorem next_step {srv : Server D Sess I V W Op Res E R} (h : next srv w a = some w') : Step srv w a w' := by
  cases a with
  | start i =>
    simp only [next] at h
    split at h <;> cases h
    rename_i hs
    exact .start hs
  | exec c x =>
    simp only [next] at h
    split at h
    · rename_i hc
      split at h <;> cases h
      rename_i he
      exact .exec hc he
    · cases h
  | finish c =>
    simp only [next] at h
    split at h <;> cases h
    · rename_i r hc
      exact .stop hc (.ret r)
    · rename_i e hc
      exact .stop hc (.throw e)
  | crash c =>
    simp only [next] at h
    split at h <;> cases h
    rename_i p hc
    exact .stop hc (.crash p)
  | env v =>
    obtain ⟨d, hd, rfl⟩ := Option.map_eq_some_iff.mp h
    exact .env hd

theorem next_exec {srv : Server D Sess I V W Op Res E R} {x : W}
    {s' : Sess} {o : Op} {k : Except E (Res o) → Prog Op Res E R} {a : Except E (Res o)}
    (hc : w.clients[c]? = some ⟨i, s, .running (.stmt o k)⟩)
    (he : srv.exec w.db (sessions (w.clients.eraseIdx c)) s o x = some (d, s', a)) :
    next srv w (.exec c x) = some ⟨d, w.clients.set c ⟨i, s', .running (k a)⟩⟩ := by
  simp only [next, hc, he]

theorem mem_sessions_set {cl : Client Sess I Op Res E R}
    (h : s ∈ sessions (cs.set c cl)) : s ∈ sessions cs ∨ (∃ p, cl.phase = .running p) ∧ cl.sess = s := by
  obtain ⟨cl', hm, hp, hs⟩ := mem_sessions.mp h
  rcases List.mem_or_eq_of_mem_set hm with hm | rfl
  · exact .inl (mem_sessions.mpr ⟨cl', hm, hp, hs⟩)
  · exact .inr ⟨hp, hs⟩

/-- An open session after a step was open before, or its client has started or run a
    statement in this step. -/
theorem sessions_step {srv : Server D Sess I V W Op Res E R}
    {s' : Sess} (h : next srv w a = some w') (hs : s' ∈ sessions w'.clients) :
    s' ∈ sessions w.clients ∨ (∃ i p, srv.start w.db i = some (w'.db, s', p)) ∨
      ∃ (c : Nat) (x : W) (i : I) (s : Sess) (o : Op) (k : Except E (Res o) → Prog Op Res E R) (r : Except E (Res o)),
        w.clients[c]? = some ⟨i, s, .running (.stmt o k)⟩ ∧
          srv.exec w.db (sessions (w.clients.eraseIdx c)) s o x = some (w'.db, s', r) := by
  cases next_step h with
  | @start i d s p hst =>
    obtain ⟨cl, hm, hp, hcl⟩ := mem_sessions.mp hs
    rcases List.mem_append.mp hm with hm | hm
    · exact .inl (mem_sessions.mpr ⟨cl, hm, hp, hcl⟩)
    cases List.mem_singleton.mp hm
    cases hcl
    exact .inr (.inl ⟨i, p, hst⟩)
  | exec hc he =>
    rcases mem_sessions_set hs with hs | ⟨-, rfl⟩
    · exact .inl hs
    · exact .inr (.inr ⟨_, _, _, _, _, _, _, hc, he⟩)
  | stop hc hstop =>
    rcases mem_sessions_set hs with hs | ⟨⟨p, hp⟩, -⟩
    · exact .inl hs
    · exact absurd hp (hstop.not_running p)
  | env hv => exact .inl hs

/-! The invariant of all clients. -/

/-- The facts a proof keeps about the shared data and about each session: `glob` of the
    data, `rep` of a session in a stage, `excl` between two open sessions, `post` of a
    returned result, and `fin`, what a program's end has to establish. -/
structure View (D Sess I E R St : Type) where
  glob : D → Prop
  rep : I → D → Sess → St → Prop
  excl : Sess → Sess → Prop
  post : I → D → Except E R → Prop
  fin : I → St → Except E R → Prop

variable (srv : Server D Sess I V W Op Res E R) (P : I → Prog.Proto Op Res E St)
  (Φ : View D Sess I E R St)

/-- The other sessions keep their stage and the results stay right when the data goes
    from `d` to `d'`. -/
def Keeps (d d' : D) (os : List Sess) : Prop :=
  (∀ i st, ∀ s ∈ os, Φ.rep i d s st → Φ.rep i d' s st) ∧ ∀ i r, Φ.post i d r → Φ.post i d' r

structure Sound : Prop where
  start : ∀ {d i d' s p} (os : List Sess), Φ.glob d → (∀ s' ∈ os, ∃ i st, Φ.rep i d s' st) →
    srv.start d i = some (d', s, p) →
    Φ.glob d' ∧ (∃ st, Φ.rep i d' s st ∧ Prog.wp (P i) p (Φ.fin i) st) ∧
      (∀ s' ∈ os, Φ.excl s s' ∧ Φ.excl s' s) ∧ Keeps Φ d d' os
  exec : ∀ {i d os s st o x d' s' a}, Φ.glob d → Φ.rep i d s st → (P i).allowed st o →
    (∀ s₂ ∈ os, Φ.excl s s₂ ∧ Φ.excl s₂ s) → srv.exec d os s o x = some (d', s', a) →
    Φ.glob d' ∧ (∃ st', (P i).trans st o a st' ∧ Φ.rep i d' s' st') ∧
      (∀ s₂ ∈ os, Φ.excl s' s₂ ∧ Φ.excl s₂ s') ∧ Keeps Φ d d' os
  fin : ∀ {i d s st r}, Φ.glob d → Φ.rep i d s st → Φ.fin i st r → Φ.post i d r
  env : ∀ {d os v d'}, Φ.glob d → srv.env d os v = some d' → Φ.glob d' ∧ Keeps Φ d d' os

/-- The invariant: every running client is in a stage from which its remaining program
    is safe, every result that was returned is right, and open sessions exclude each
    other. -/
structure Holds (w : World D Sess I Op Res E R) : Prop where
  glob : Φ.glob w.db
  running : ∀ (j : Nat) i s p, w.clients[j]? = some ⟨i, s, .running p⟩ →
    ∃ st, Φ.rep i w.db s st ∧ Prog.wp (P i) p (Φ.fin i) st
  returned : ∀ (j : Nat) i s r, w.clients[j]? = some ⟨i, s, .returned r⟩ → Φ.post i w.db r
  excl : ∀ (j j' : Nat) i i' s s' p p', j ≠ j' → w.clients[j]? = some ⟨i, s, .running p⟩ →
    w.clients[j']? = some ⟨i', s', .running p'⟩ → Φ.excl s s'

variable {srv P Φ}
variable {p : Prog Op Res E R} {ph : Phase Op Res E R}

theorem mem_sessions_of {j : Nat} (h : w.clients[j]? = some ⟨i, s, .running p⟩) : s ∈ sessions w.clients :=
  mem_sessions.mpr ⟨_, List.mem_of_getElem? h, ⟨p, rfl⟩, rfl⟩

theorem mem_others_of {j : Nat} (hj : j ≠ c) (h : w.clients[j]? = some ⟨i, s, .running p⟩) :
    s ∈ sessions (w.clients.eraseIdx c) :=
  mem_others.mpr ⟨j, _, p, hj, h, rfl, rfl⟩

theorem holds_stop (h : Holds P Φ w) (hph : ∀ p, ph ≠ .running p) (hret : ∀ r, ph = .returned r → Φ.post i w.db r) :
    Holds P Φ ⟨w.db, w.clients.set c ⟨i, s, ph⟩⟩ := by
  refine ⟨h.glob, ?_, ?_, ?_⟩
  · intro j i' s' p hj
    rcases Pool.get_step hj with ⟨-, he⟩ | ⟨-, hj⟩
    · cases he
      exact absurd rfl (hph p)
    · exact h.running j i' s' p hj
  · intro j i' s' r hj
    rcases Pool.get_step hj with ⟨-, he⟩ | ⟨-, hj⟩
    · cases he
      exact hret r rfl
    · exact h.returned j i' s' r hj
  · intro j j' i₁ i₂ s₁ s₂ p₁ p₂ hne h₁ h₂
    rcases Pool.get_step h₁ with ⟨-, he⟩ | ⟨-, h₁⟩
    · cases he
      exact absurd rfl (hph p₁)
    rcases Pool.get_step h₂ with ⟨-, he⟩ | ⟨-, h₂⟩
    · cases he
      exact absurd rfl (hph p₂)
    · exact h.excl j j' i₁ i₂ s₁ s₂ p₁ p₂ hne h₁ h₂

/-- Every step keeps the invariant. -/
theorem holds_step (hs : Sound srv P Φ) (h : Holds P Φ w) (hn : next srv w a = some w') : Holds P Φ w' := by
  cases next_step hn with
  | start hst =>
    -- the new session is the last one
    have hopen : ∀ s' ∈ sessions w.clients, ∃ i st, Φ.rep i w.db s' st := by
      intro s' hs'
      obtain ⟨⟨i', s'', ph⟩, hm, ⟨p', rfl⟩, rfl⟩ := mem_sessions.mp hs'
      obtain ⟨j, hj⟩ := List.mem_iff_getElem?.mp hm
      obtain ⟨st, hr, -⟩ := h.running j i' s'' p' hj
      exact ⟨i', st, hr⟩
    obtain ⟨hg, hnew, hex, hk⟩ := hs.start (sessions w.clients) h.glob hopen hst
    refine ⟨hg, ?_, ?_, ?_⟩
    · intro j i' s' p' hj
      rcases Pool.get_concat hj with ⟨-, he⟩ | ⟨-, hj⟩
      · cases he
        exact hnew
      · obtain ⟨st, hr, hw⟩ := h.running j i' s' p' hj
        exact ⟨st, hk.1 i' st s' (mem_sessions_of hj) hr, hw⟩
    · intro j i' s' r hj
      rcases Pool.get_concat hj with ⟨-, he⟩ | ⟨-, hj⟩
      · cases he
      · exact hk.2 i' r (h.returned j i' s' r hj)
    · intro j j' i₁ i₂ s₁ s₂ p₁ p₂ hne h₁ h₂
      rcases Pool.get_concat h₁ with ⟨hj, he⟩ | ⟨-, h₁⟩
      · cases he
        rcases Pool.get_concat h₂ with ⟨hj', -⟩ | ⟨-, h₂⟩
        · exact absurd (hj.trans hj'.symm) hne
        · exact (hex s₂ (mem_sessions_of h₂)).1
      · rcases Pool.get_concat h₂ with ⟨-, he⟩ | ⟨-, h₂⟩
        · cases he
          exact (hex s₁ (mem_sessions_of h₁)).2
        · exact h.excl j j' i₁ i₂ s₁ s₂ p₁ p₂ hne h₁ h₂
  | @exec c x i s o k d s' r hc he =>
    obtain ⟨st, hrep, hwp⟩ := h.running c i s _ hc
    have hexc : ∀ s₂ ∈ sessions (w.clients.eraseIdx c), Φ.excl s s₂ ∧ Φ.excl s₂ s := by
      intro s₂ hm
      obtain ⟨j, ⟨i₂, s₂', ph⟩, p, hj, hcl, hph, rfl⟩ := mem_others.mp hm
      simp only at hph; subst hph
      exact ⟨h.excl c j _ _ _ _ _ _ (Ne.symm hj) hc hcl, h.excl j c _ _ _ _ _ _ hj hcl hc⟩
    obtain ⟨hg, ⟨st', htr, hrep'⟩, hex', hk⟩ := hs.exec h.glob hrep hwp.1 hexc he
    refine ⟨hg, ?_, ?_, ?_⟩
    · intro j i' s₂ p' hj
      rcases Pool.get_step hj with ⟨-, he⟩ | ⟨hne, hj⟩
      · cases he
        exact ⟨st', hrep', hwp.2 r st' htr⟩
      · obtain ⟨st₂, hr, hw⟩ := h.running j i' s₂ p' hj
        exact ⟨st₂, hk.1 i' st₂ s₂ (mem_others_of hne hj) hr, hw⟩
    · intro j i' s₂ r' hj
      rcases Pool.get_step hj with ⟨-, he⟩ | ⟨-, hj⟩
      · cases he
      · exact hk.2 i' r' (h.returned j i' s₂ r' hj)
    · intro j j' i₁ i₂ s₁ s₂ p₁ p₂ hne h₁ h₂
      rcases Pool.get_step h₁ with ⟨hj, he⟩ | ⟨hj, h₁⟩
      · cases he
        rcases Pool.get_step h₂ with ⟨hj', -⟩ | ⟨hj', h₂⟩
        · exact absurd (hj.trans hj'.symm) hne
        · exact (hex' s₂ (mem_others_of hj' h₂)).1
      · rcases Pool.get_step h₂ with ⟨-, he⟩ | ⟨-, h₂⟩
        · cases he
          exact (hex' s₁ (mem_others_of hj h₁)).2
        · exact h.excl j j' i₁ i₂ s₁ s₂ p₁ p₂ hne h₁ h₂
  | @stop c _ i s p ph hc hstop =>
    refine holds_stop h hstop.not_running ?_
    intro r hr
    obtain ⟨st, hrep, hwp⟩ := h.running c i s _ hc
    cases hstop with
    | ret | throw =>
      cases hr
      exact hs.fin h.glob hrep hwp
    | crash => cases hr
  | env hv =>
    obtain ⟨hg, hk⟩ := hs.env h.glob hv
    refine ⟨hg, ?_, fun j i s r hj => hk.2 i r (h.returned j i s r hj), h.excl⟩
    intro j i s p hj
    obtain ⟨st, hr, hw⟩ := h.running j i s p hj
    exact ⟨st, hk.1 i st s (mem_sessions_of hj) hr, hw⟩

def empty (d : D) : World D Sess I Op Res E R := ⟨d, []⟩

theorem holds_empty (h : Φ.glob d) : Holds P Φ (empty d : World D Sess I Op Res E R) :=
  ⟨h, by simp [empty], by simp [empty], by simp [empty]⟩

theorem holds_reachable (hs : Sound srv P Φ) (hd : Φ.glob d) (h : Machine.Reachable (next srv) (empty d) w) :
    Holds P Φ w :=
  h.invariant (Holds P Φ) (holds_empty hd) (fun _ _ _ ha hn => holds_step hs ha hn)

/-! One client alone. -/

/-- A program run with nobody else there, for as many statements as there are outside
    choices; without a result if it was lost before its end. -/
def alone (srv : Server D Sess I V W Op Res E R) : Prog Op Res E R → D → Sess → List W → D × Option (Except E R)
  | .ret r, d, _, _ => (d, some (.ok r))
  | .throw e, d, _, _ => (d, some (.error e))
  | .stmt _ _, d, _, [] => (d, none)
  | .stmt o k, d, s, x :: xs =>
    match srv.exec d [] s o x with
    | some (d', s', a) => alone srv (k a) d' s' xs
    | none => (d, none)

/-- The protocol that says exactly what the server does with one client alone, given the
    outside choices there are. -/
def aloneProto (srv : Server D Sess I V W Op Res E R) (ws : List W) : Prog.Proto Op Res E (D × Sess) where
  allowed _ _ := True
  trans st o a st' := ∃ x ∈ ws, srv.exec st.1 [] st.2 o x = some (st'.1, st'.2, a)

theorem alone_wp {ws : List W} {Q : D × Sess → Except E R → Prop} : ∀ {d d' : D} {s : Sess}
    {xs : List W} {r : Except E R}, xs ⊆ ws → Prog.wp (aloneProto srv ws) p Q (d, s) →
    alone srv p d s xs = (d', some r) → ∃ s', Q (d', s') r := by
  induction p with
  | ret r | throw e =>
    intro d d' s xs r' _ hw h
    cases h
    exact ⟨s, hw⟩
  | stmt o k ih =>
    intro d d' s xs r hxs hw h
    cases xs with
    | nil => cases h
    | cons x xs =>
      simp only [alone] at h
      split at h
      · rename_i d₁ s₁ a he
        have hx : x ∈ ws := hxs List.mem_cons_self
        exact ih a (fun y hy => hxs (List.mem_cons_of_mem x hy)) (hw.2 a (d₁, s₁) ⟨x, hx, he⟩) h
      · cases h

/-- A client alone keeps the invariant, wherever it ends. -/
theorem alone_sound (hs : Sound srv P Φ) : ∀ {d d' : D} {s : Sess} {st : St}
    {xs : List W} {r : Option (Except E R)}, Φ.glob d → Φ.rep i d s st → Prog.wp (P i) p (Φ.fin i) st →
    alone srv p d s xs = (d', r) → Φ.glob d' ∧ ∀ res, r = some res → Φ.post i d' res := by
  induction p with
  | ret r | throw e =>
    rintro d d' s st xs r' hg hr hw h
    cases h
    exact ⟨hg, fun res hres => by cases hres; exact hs.fin hg hr hw⟩
  | stmt o k ih =>
    rintro d d' s st xs r hg hr hw h
    have hlost : ∀ {d₁ : D} {r₁ : Option (Except E R)}, Φ.glob d₁ → r₁ = none →
        Φ.glob d₁ ∧ ∀ res, r₁ = some res → Φ.post i d₁ res := by
      rintro d₁ r₁ hg₁ rfl
      exact ⟨hg₁, fun _ h => nomatch h⟩
    cases xs with
    | nil =>
      cases h
      exact hlost hg rfl
    | cons x xs =>
      simp only [alone] at h
      split at h
      · rename_i d₁ s₁ a he
        obtain ⟨hg₁, ⟨st', htr, hr₁⟩, -, -⟩ := hs.exec hg hr hw.1 (by simp) he
        exact ih a hg₁ hr₁ (hw.2 a st' htr) h
      · cases h
        exact hlost hg rfl

/-! A client's own history. -/

/-- A client keeps its input, and once only its result is left it can only return that
    result or crash. -/
def Later (ph ph' : Phase Op Res E R) : Prop :=
  match ph with
  | .running (.ret r) => ph' = .running (.ret r) ∨ ph' = .returned (.ok r) ∨ ph' = .crashed
  | .running (.throw e) => ph' = .running (.throw e) ∨ ph' = .returned (.error e) ∨ ph' = .crashed
  | .running (.stmt _ _) => True
  | ph => ph' = ph

theorem later_refl (ph : Phase Op Res E R) : Later ph ph := by
  rcases ph with (_ | _ | _) | _ | _ <;> simp [Later]

theorem later_trans {a b c : Phase Op Res E R} (h₁ : Later a b) (h₂ : Later b c) : Later a c := by
  rcases a with (r | e | ⟨o, k⟩) | r | _
  · rcases h₁ with rfl | rfl | rfl
    · exact h₂
    · exact .inr (.inl h₂)
    · exact .inr (.inr h₂)
  · rcases h₁ with rfl | rfl | rfl
    · exact h₂
    · exact .inr (.inl h₂)
    · exact .inr (.inr h₂)
  · trivial
  · cases h₁; exact h₂
  · cases h₁; exact h₂

/-- Clients are never forgotten, and each moves on from where it was. -/
theorem client_later (hn : next srv w a = some w') (hc : w.clients[c]? = some ⟨i, s, ph⟩) :
    ∃ s' ph', w'.clients[c]? = some ⟨i, s', ph'⟩ ∧ Later ph ph' := by
  -- a step that only replaces client `c'`
  have hset : ∀ (c' : Nat) (i' : I) (s₀ s' : Sess) (p ph' : Phase Op Res E R),
      w.clients[c']? = some ⟨i', s₀, p⟩ → Later p ph' →
      ∃ s₁ ph₁, (w.clients.set c' ⟨i', s', ph'⟩)[c]? = some ⟨i, s₁, ph₁⟩ ∧ Later ph ph₁ := by
    intro c' i' s₀ s' p ph' hc' hl
    by_cases hcc : c = c'
    · subst hcc
      cases hc.symm.trans hc'
      exact ⟨s', ph', Pool.get_self hc, hl⟩
    · exact ⟨s, ph, (Pool.get_other hcc).trans hc, later_refl ph⟩
  cases next_step hn with
  | start hst => exact ⟨s, ph, Pool.get_append_of hc, later_refl ph⟩
  | exec hc' he => exact hset _ _ _ _ _ _ hc' trivial
  | @stop c' _ i' s' p _ hc' hstop =>
    refine hset c' i' s' s' _ _ hc' ?_
    cases hstop with
    | ret | throw => exact .inr (.inl rfl)
    | crash => rcases p with _ | _ | _ <;> simp [Later]
  | env hv => exact ⟨s, ph, hc, later_refl ph⟩

theorem client_run {ls : List (Act I V W)} (hr : Machine.run (next srv) w ls = some w')
    (hc : w.clients[c]? = some ⟨i, s, ph⟩) : ∃ s' ph', w'.clients[c]? = some ⟨i, s', ph'⟩ ∧ Later ph ph' := by
  refine Machine.run_invariant
    (fun u => ∃ s' ph', u.clients[c]? = some ⟨i, s', ph'⟩ ∧ Later ph ph')
    ⟨s, ph, hc, later_refl ph⟩ ?_ hr
  rintro a l b ⟨s₁, ph₁, h₁, hl₁⟩ hb
  obtain ⟨s₂, ph₂, h₂, hl₂⟩ := client_later hb h₁
  exact ⟨s₂, ph₂, h₂, later_trans hl₁ hl₂⟩

end Clients
