import FlowRule.Lib.Clients
import FlowRule.Workflow.Service

/- Concurrent transitions of workflows on PostgreSQL. A call reads the instance with one statement and
   writes it with another, interleaved in any order; a statement may fail without effect. The version
   of a row goes up with every change (`exec_cases`), so a row that still has the version a call has
   read also has the state it has read (`Behind`). `Seen` is looked at by no statement. -/
namespace FlowRule.Workflow

open Clients WorkflowInstance

inductive Call where
  | transition (tenantID workflowID fromState toState : String) (clocks : Clocks)
  | updateState (tenantID workflowID newState : String) (revision : Int) (clocks : Clocks)
  deriving DecidableEq, Repr

def Call.workflowID : Call → String
  | .transition _ workflowID _ _ _ => workflowID
  | .updateState _ workflowID _ _ _ => workflowID

def Call.program : Call → P Unit
  | .transition tenantID workflowID fromState toState clocks =>
    Workflow.transition tenantID workflowID fromState toState none clocks
  | .updateState tenantID workflowID newState revision clocks =>
    Workflow.updateState tenantID workflowID newState revision clocks

structure Seen where
  read : Option WorkflowInstance
  wrote : Bool
  deriving DecidableEq, Repr

def Seen.note (s : Seen) : (o : Op) → o.Res → Seen
  | .get _ _, r => { s with read := r }
  | .update _ _, n => { s with wrote := n != 0 }
  | .insert _, _ => s
  | .identity _, _ => s

/-- The database: a statement runs as a whole or fails with the given error. -/
def server (jsonb : RawMessage → RawMessage) :
    Server WorkflowTable Seen Call Empty (Option Err) Op Op.Res Err Unit where
  start t i := some (t, ⟨none, false⟩, i.program)
  exec t _ s o fail :=
    match fail with
    | some e => some (t, s, .error e)
    | none => some ((perform jsonb t o).1, s.note o (perform jsonb t o).2, .ok (perform jsonb t o).2)
  env _ _ v := nomatch v

abbrev Calls := World WorkflowTable Seen Call Op Op.Res Err Unit

inductive Turn where
  | call (i : Call)
  | exec (c : Nat) (fail : Option Err)
  | answer (c : Nat)
  deriving DecidableEq, Repr

def Turn.act : Turn → Act Call Empty (Option Err)
  | .call i => .start i
  | .exec c fail => .exec c fail
  | .answer c => .finish c

def step (jsonb : RawMessage → RawMessage) (w : Calls) (l : Turn) : Option Calls := next (server jsonb) w l.act

/-- The call has returned success, or has nothing left to do but to return it. -/
def succeeded : Phase Op Op.Res Err Unit → Bool
  | .running (.ret _) => true
  | .returned (.ok _) => true
  | _ => false

@[simp] theorem succeeded_stmt {o : Op} {k : Except Err o.Res → P Unit} :
    succeeded (.running (.stmt o k)) = false := rfl

def succeededOn (workflowID : String) (cl : Client Seen Call Op Op.Res Err Unit) : Bool :=
  cl.input.workflowID == workflowID && succeeded cl.phase

/-! The stages of a call. -/

inductive Stage where
  | ready
  | holds (r : WorkflowInstance)
  | won
  | lost
  deriving DecidableEq, Repr

/-- A call reads its workflow, and writes an allowed successor of what it has read. -/
def proto (i : Call) : Prog.Proto Op Op.Res Err Stage where
  allowed st o := match st, o with
    | .ready, .get _ workflowID => workflowID = i.workflowID
    | .holds r, .update w _ => w.tenantID = r.tenantID ∧ w.workflowID = r.workflowID ∧
        w.version = r.version + 1 ∧ canTransition r.state w.state = true
    | _, _ => False
  trans st o a st' := match st, o, a with
    | .ready, .get _ _, .ok (some r) => st' = .holds r
    | .holds _, .update _ _, .ok n => st' = if n = 0 then .lost else .won
    | _, _, _ => st' = .lost

def fin (_ : Call) (st : Stage) (r : Except Err Unit) : Prop := r = .ok () ↔ st = .won

variable {i : Call} {jsonb : RawMessage → RawMessage} {t t' : WorkflowTable} {s : Seen} {r cur : WorkflowInstance}
variable {u : Time} {w w' : Calls} {workflowID : String} {l : Turn}

theorem transition_wp {tenantID expectedFrom toState : String} {revision : Option Int} {clocks : Clocks} :
    Prog.wp (proto i) (Workflow.transition tenantID i.workflowID expectedFrom toState revision clocks) (fin i)
      .ready := by
  unfold Workflow.transition
  split
  · simp [fin]
  rw [Prog.wp_bind, Prog.wp_wrap, getWorkflow, query, Prog.wp_wrap, Prog.wp_call]
  refine ⟨rfl, ?_⟩
  intro a st hst
  match a, hst with
  | .error e, hst | .ok none, hst =>
    cases hst
    simp [fin, Except.mapError]
  | .ok (some r), hst =>
    cases hst
    show Prog.wp _ (_ >>= _) _ _
    rw [Prog.wp_bind, Prog.wp_ofExcept]
    cases hm : moved r expectedFrom toState revision clocks with
    | error e => simp [fin]
    | ok w =>
      obtain ⟨hcan, hstate, hversion, htenant, hid, -⟩ := moved_ok hm
      show Prog.wp _ (updateWorkflow w clocks.second) _ _
      rw [updateWorkflow, Prog.wp_bind, query, Prog.wp_wrap, Prog.wp_call]
      refine ⟨⟨htenant, hid, hversion, hstate ▸ hcan⟩, ?_⟩
      intro a st' hst'
      match a, hst' with
      | .error e, hst' =>
        cases hst'
        simp [fin, Except.mapError]
      | .ok n, hst' =>
        cases hst'
        show Prog.wp _ (if n = 0 then _ else _) _ _
        by_cases hn : n = 0 <;> simp [hn, fin]

theorem program_wp (i : Call) : Prog.wp (proto i) i.program (fin i) .ready := by
  cases i with
  | transition tenantID workflowID fromState toState clocks => exact transition_wp
  | updateState tenantID workflowID newState revision clocks => exact transition_wp

/-! What a statement does to the table. -/

/-- The row of the instance that was read: it has moved on, or it has the state that was
    read. -/
def Behind (t : WorkflowTable) (r : WorkflowInstance) : Prop :=
  ∃ cur ∈ t.rows, cur.workflowID = r.workflowID ∧ r.version ≤ cur.version ∧
    (cur.version = r.version → cur.state = r.state)

def rep (i : Call) (t : WorkflowTable) (s : Seen) : Stage → Prop
  | .ready => s = ⟨none, false⟩
  | .holds r => s = ⟨some r, false⟩ ∧ r.workflowID = i.workflowID ∧ Behind t r
  | .won => s.wrote = true
  | .lost => s.wrote = false

/-- The update of a call that has read `r` and still finds its row with the version of `r`:
    that row takes an allowed edge and the next version. -/
structure Wins (jsonb : RawMessage → RawMessage) (t t' : WorkflowTable) (r cur w : WorkflowInstance) (u : Time) :
    Prop where
  mem : cur ∈ t.rows
  same : cur.workflowID = r.workflowID ∧ cur.version = r.version ∧ cur.state = r.state
  next : w.version = r.version + 1 ∧ canTransition r.state w.state = true
  only : ∀ v ∈ t.rows, expected w v = true ↔ v = cur
  table : t' = (t.update (expected w) (overwrite jsonb w u) (overwrite_workflowID jsonb w u)).2

/-- A statement changes nothing in the table, or it is the update of a call that wins. -/
theorem exec_cases {os : List Seen} {s' : Seen} {st : Stage} {o : Op} {x : Option Err} {a : Except Err o.Res}
    (hrep : rep i t s st) (hall : (proto i).allowed st o) (he : (server jsonb).exec t os s o x = some (t', s', a)) :
    s.wrote = false ∧
    ((t' = t ∧ s'.wrote = false ∧ ∃ st', (proto i).trans st o a st' ∧ rep i t' s' st') ∨
      ∃ r cur w u, s' = ⟨some r, true⟩ ∧ r.workflowID = i.workflowID ∧ (proto i).trans st o a .won ∧
        Wins jsonb t t' r cur w u) := by
  match st, o, hall with
  | .ready, .get tenantID workflowID, hall =>
    subst hall
    cases hrep
    refine ⟨rfl, .inl ?_⟩
    cases x with
    | some e =>
      cases he
      exact ⟨rfl, rfl, .lost, rfl, rfl⟩
    | none =>
      cases he
      refine ⟨rfl, rfl, ?_⟩
      cases hf : t.rows.find? (fun r => r.tenantID == tenantID && r.workflowID == i.workflowID) with
      | none => exact ⟨.lost, by simp only [perform, hf]; rfl, rfl⟩
      | some r =>
        have hid := List.find?_some hf
        simp only [Bool.and_eq_true, beq_iff_eq] at hid
        refine ⟨.holds r, by simp only [perform, hf]; rfl, ?_, hid.2, ?_⟩
        · simp [Seen.note, perform, hf]
        · exact ⟨r, List.mem_of_find?_eq_some hf, rfl, le_refl _, fun _ => rfl⟩
  | .holds r, .update w u, hall =>
    obtain ⟨htenant, hid, hversion, hcan⟩ := hall
    obtain ⟨rfl, hri, cur, hcur, hcid, hle, hstate⟩ := hrep
    refine ⟨rfl, ?_⟩
    cases x with
    | some e =>
      cases he
      exact .inl ⟨rfl, rfl, .lost, rfl, rfl⟩
    | none =>
      cases he
      by_cases hn : (t.update (expected w) (overwrite jsonb w u) (overwrite_workflowID jsonb w u)).1 = 0
      · -- the version has moved on
        refine .inl ⟨Rows.update_of_none hn, ?_, .lost, ?_, ?_⟩
        · simp [Seen.note, perform, hn]
        · simp [proto, perform, hn]
        · simp [rep, Seen.note, perform, hn]
      · obtain ⟨v, hv, hexp⟩ := Rows.exists_of_update hn
        simp only [expected, Bool.and_eq_true, beq_iff_eq] at hexp
        have hvcur : v = cur := Rows.eq_of_key hv hcur (by rw [hexp.1.2, hid, hcid])
        subst hvcur
        have hsame : v.version = r.version := by
          rw [hexp.2, hversion]
          omega
        refine .inr ⟨r, v, w, u, ?_, hri, ?_, hv, ⟨hcid, hsame, hstate hsame⟩, ⟨hversion, hcan⟩, ?_, rfl⟩
        · simp [Seen.note, perform, hn]
        · simp [proto, perform, hn]
        · intro v' hv'
          constructor
          · intro h
            simp only [expected, Bool.and_eq_true, beq_iff_eq] at h
            exact Rows.eq_of_key hv' hv (by rw [h.1.2, hexp.1.2])
          · rintro rfl
            simp [expected, hexp]

/-- The rows after a call has won: its own has moved, and the others are as they were. -/
theorem Wins.mem_iff {w : WorkflowInstance} (h : Wins jsonb t t' r cur w u) {v : WorkflowInstance} :
    v ∈ t'.rows ↔ v = overwrite jsonb w u cur ∨ (v ∈ t.rows ∧ v ≠ cur) := by
  rw [h.table, Rows.mem_update]
  constructor
  · rintro ⟨v', hv', rfl⟩
    by_cases hc : v' = cur
    · subst hc
      exact .inl (by rw [if_pos ((h.only v' hv').mpr rfl)])
    · have hne : ¬ expected w v' = true := fun he => hc ((h.only v' hv').mp he)
      rw [if_neg hne]
      exact .inr ⟨hv', hc⟩
  · rintro (rfl | ⟨hv, hc⟩)
    · exact ⟨cur, h.mem, by rw [if_pos ((h.only cur h.mem).mpr rfl)]⟩
    · have hne : ¬ expected w v = true := fun he => hc ((h.only v hv).mp he)
      exact ⟨v, hv, by rw [if_neg hne]⟩

/-- What another call has read falls behind, or is still what its row holds. -/
theorem Wins.behind {w : WorkflowInstance}
    (h : Wins jsonb t t' r cur w u) {r' : WorkflowInstance} (hb : Behind t r') : Behind t' r' := by
  obtain ⟨c, hc, hid, hle, hstate⟩ := hb
  by_cases hcc : c = cur
  · subst hcc
    have hup : (overwrite jsonb w u c).version = c.version + 1 := by
      rw [h.same.2.1, ← h.next.1]
      rfl
    refine ⟨overwrite jsonb w u c, h.mem_iff.mpr (.inl rfl), hid, by omega, ?_⟩
    intro heq
    omega
  · exact ⟨c, h.mem_iff.mpr (.inr ⟨hc, hcc⟩), hid, hle, hstate⟩

/-! Every call keeps to its stages. -/

def view : View WorkflowTable Seen Call Err Unit Stage where
  glob _ := True
  rep := rep
  excl _ _ := True
  post _ _ _ := True
  fin := fin

theorem rep_keeps (h : ∀ r, Behind t r → Behind t' r) {st : Stage} (hr : rep i t s st) : rep i t' s st := by
  cases st with
  | holds r => exact ⟨hr.1, hr.2.1, h r hr.2.2⟩
  | ready | won | lost => exact hr

theorem server_sound (jsonb : RawMessage → RawMessage) : Sound (server jsonb) proto view where
  start := by
    rintro t i t' s p os - - h
    cases h
    exact ⟨trivial, ⟨.ready, rfl, program_wp i⟩, fun _ _ => ⟨trivial, trivial⟩,
      fun _ _ _ _ hr => hr, fun _ _ hp => hp⟩
  exec := by
    rintro i t os s st o x t' s' a - hrep hall - he
    obtain ⟨-, ⟨rfl, -, st', htr, hrep'⟩ | ⟨r, cur, w, u, rfl, -, htr, hwins⟩⟩ := exec_cases hrep hall he
    · exact ⟨trivial, ⟨st', htr, hrep'⟩, fun _ _ => ⟨trivial, trivial⟩, fun _ _ _ _ hr => hr, fun _ _ hp => hp⟩
    refine ⟨trivial, ⟨.won, htr, rfl⟩, fun _ _ => ⟨trivial, trivial⟩, ?_, fun _ _ hp => hp⟩
    intro i' st' s₂ _ hr
    exact rep_keeps (fun r' => hwins.behind) hr
  fin _ _ _ := trivial
  env {_ _ v _} _ _ := nomatch v

/-- A running call has changed its row exactly when it has only its success to return. -/
theorem wrote_of_running (h : Holds proto view w) {j : Nat} {p : P Unit}
    (hj : w.clients[j]? = some ⟨i, s, .running p⟩) : s.wrote = succeeded (.running p) := by
  obtain ⟨st, hrep, hwp⟩ := h.running j i s p hj
  cases p with
  | ret r =>
    obtain rfl : st = .won := hwp.mp rfl
    exact hrep
  | throw e =>
    have hne : st ≠ .won := fun hst => nomatch hwp.mpr hst
    cases st with
    | won => exact absurd rfl hne
    | ready =>
      cases hrep
      rfl
    | holds r =>
      obtain ⟨rfl, -⟩ := hrep
      rfl
    | lost => exact hrep
  | stmt o k =>
    have hall := hwp.1
    cases st with
    | ready =>
      cases hrep
      rfl
    | holds r =>
      obtain ⟨rfl, -⟩ := hrep
      rfl
    | won | lost => exact absurd hall (by simp [proto])

/-! One workflow through a run. -/

/-- The row of the workflow with all that is known of the calls: who has changed a row knows
    it, the version counts the successes, and no two of these have read one version. -/
structure Line (workflowID : String) (w : Calls) (cur : WorkflowInstance) : Prop where
  mem : cur ∈ w.db.rows
  id : cur.workflowID = workflowID
  told : ∀ (j : Nat) cl, w.clients[j]? = some cl → cl.sess.wrote = succeeded cl.phase
  count : cur.version = 1 + (w.clients.countP (succeededOn workflowID) : Int)
  read : ∀ (j : Nat) cl, w.clients[j]? = some cl → succeededOn workflowID cl = true →
    ∃ r, cl.sess.read = some r ∧ r.version < cur.version
  apart : ∀ (j j' : Nat) cl cl' r r', w.clients[j]? = some cl → w.clients[j']? = some cl' →
    succeededOn workflowID cl = true → succeededOn workflowID cl' = true →
    cl.sess.read = some r → cl'.sess.read = some r' → r.version = r'.version → j = j'

/-- Every success of `w'` is one of `w`, with what it has read. -/
def NoNew (workflowID : String) (w w' : Calls) : Prop :=
  ∀ (j : Nat) cl', w'.clients[j]? = some cl' → succeededOn workflowID cl' = true →
    ∃ cl, w.clients[j]? = some cl ∧ succeededOn workflowID cl = true ∧ cl'.sess.read = cl.sess.read

theorem NoNew.trans {u v : Calls} (h₁ : NoNew workflowID u v) (h₂ : NoNew workflowID v w) : NoNew workflowID u w := by
  intro j cl hj hs
  obtain ⟨cl₁, hj₁, hs₁, hr₁⟩ := h₂ j cl hj hs
  obtain ⟨cl₀, hj₀, hs₀, hr₀⟩ := h₁ j cl₁ hj₁ hs₁
  exact ⟨cl₀, hj₀, hs₀, hr₁.trans hr₀⟩

theorem Line.keep (h : Line workflowID w cur)
    (hmem : cur ∈ w'.db.rows) (htold : ∀ (j : Nat) cl, w'.clients[j]? = some cl → cl.sess.wrote = succeeded cl.phase)
    (hcount : w'.clients.countP (succeededOn workflowID) = w.clients.countP (succeededOn workflowID))
    (hno : NoNew workflowID w w') : Line workflowID w' cur where
  mem := hmem
  id := h.id
  told := htold
  count := by rw [hcount, h.count]
  read := by
    intro j cl' hj hs
    obtain ⟨cl, hcl, hs₀, hread⟩ := hno j cl' hj hs
    rw [hread]
    exact h.read j cl hcl hs₀
  apart := by
    intro j j' cl cl' r r' hj hj' hs hs' hr hr' hv
    obtain ⟨cl₀, h₀, hs₀, hread⟩ := hno j cl hj hs
    obtain ⟨cl₁, h₁, hs₁, hread'⟩ := hno j' cl' hj' hs'
    exact h.apart j j' cl₀ cl₁ r r' h₀ h₁ hs₀ hs₁ (hread ▸ hr) (hread' ▸ hr') hv

theorem noNew_set {c : Nat} {s' : Seen} {ph ph' : Phase Op Op.Res Err Unit} (hc : w.clients[c]? = some ⟨i, s, ph⟩)
    (hs : succeededOn workflowID ⟨i, s', ph'⟩ = succeededOn workflowID ⟨i, s, ph⟩)
    (hread : succeededOn workflowID ⟨i, s, ph⟩ = true → s'.read = s.read) :
    NoNew workflowID w ⟨t, w.clients.set c ⟨i, s', ph'⟩⟩ := by
  intro j cl' hj hsucc
  rcases Pool.get_step hj with ⟨rfl, rfl⟩ | ⟨-, hj⟩
  · exact ⟨_, hc, hs ▸ hsucc, hread (hs ▸ hsucc)⟩
  · exact ⟨cl', hj, hsucc, rfl⟩

theorem step_cases (hn : step jsonb w l = some w') :
    (∃ i, w' = ⟨w.db, w.clients ++ [⟨i, ⟨none, false⟩, .running i.program⟩]⟩) ∨
    (∃ c x i s o k os t s' a, w.clients[c]? = some ⟨i, s, .running (.stmt o k)⟩ ∧
      (server jsonb).exec w.db os s o x = some (t, s', a) ∧
      w' = ⟨t, w.clients.set c ⟨i, s', .running (k a)⟩⟩) ∨
    (∃ c i s p r, w.clients[c]? = some ⟨i, s, .running p⟩ ∧ succeeded (.returned r) = succeeded (.running p) ∧
      w' = ⟨w.db, w.clients.set c ⟨i, s, .returned r⟩⟩) := by
  unfold step at hn
  generalize hl : l.act = a at hn
  cases next_step hn with
  | start hst =>
    cases hst
    exact .inl ⟨_, rfl⟩
  | exec hc he => exact .inr (.inl ⟨_, _, _, _, _, _, _, _, _, _, hc, he, rfl⟩)
  | stop hc hstop =>
    cases hstop with
    | ret r => exact .inr (.inr ⟨_, _, _, _, .ok r, hc, rfl, rfl⟩)
    | throw e => exact .inr (.inr ⟨_, _, _, _, .error e, hc, rfl, rfl⟩)
    | crash =>
      -- no turn is a crash
      cases l <;> cases hl
  | @env v => exact nomatch v

theorem told_step (hh : Holds proto view w) (hn : step jsonb w l = some w')
    (h : ∀ (j : Nat) cl, w.clients[j]? = some cl → cl.sess.wrote = succeeded cl.phase) :
    ∀ (j : Nat) cl, w'.clients[j]? = some cl → cl.sess.wrote = succeeded cl.phase := by
  have hh' : Holds proto view w' := holds_step (server_sound jsonb) hh hn
  intro j cl hj
  rcases step_cases hn with ⟨i, rfl⟩ | ⟨c, x, i, s, o, k, os, t, s', a, hc, -, rfl⟩ | ⟨c, i, s, p, r, hc, hp, rfl⟩
  · have hcl := hj
    rcases Pool.get_append hj with hj | hj
    · exact h j cl hj
    rw [List.mem_singleton] at hj
    subst hj
    exact wrote_of_running hh' hcl
  · have hcl := hj
    rcases Pool.get_step hj with ⟨rfl, rfl⟩ | ⟨-, hj⟩
    · exact wrote_of_running hh' hcl
    · exact h j cl hj
  · rcases Pool.get_step hj with ⟨rfl, rfl⟩ | ⟨-, hj⟩
    · exact (h j _ hc).trans hp.symm
    · exact h j cl hj

/-- A call that wins on the workflow is one success more, and the only one to have read the
    version it replaces. -/
theorem Line.win {n : WorkflowInstance} {c : Nat} {p p' : P Unit} (h : Line i.workflowID w cur)
    (hc : w.clients[c]? = some ⟨i, s, .running p⟩) (hp : succeeded (.running p) = false)
    (hp' : succeeded (.running p') = true) (hwins : Wins jsonb w.db t r cur n u)
    (htold : ∀ (j : Nat) cl, (w.clients.set c ⟨i, ⟨some r, true⟩, .running p'⟩)[j]? = some cl →
      cl.sess.wrote = succeeded cl.phase) :
    Line i.workflowID ⟨t, w.clients.set c ⟨i, ⟨some r, true⟩, .running p'⟩⟩ (overwrite jsonb n u cur) := by
  have hup : (overwrite jsonb n u cur).version = cur.version + 1 := by
    rw [hwins.same.2.1, ← hwins.next.1]
    rfl
  have hrv : r.version = cur.version := hwins.same.2.1.symm
  have hcount := Pool.count_enter (p := succeededOn i.workflowID) (b := ⟨i, ⟨some r, true⟩, .running p'⟩) hc
    (by simp [succeededOn, hp]) (by simp [succeededOn, hp'])
  refine ⟨hwins.mem_iff.mpr (.inl rfl), h.id, htold, ?_, ?_, ?_⟩
  · rw [hup, h.count, hcount]
    push_cast
    ring
  · intro j cl hj hs
    rw [hup]
    rcases Pool.get_step hj with ⟨rfl, rfl⟩ | ⟨-, hj⟩
    · exact ⟨r, rfl, by omega⟩
    · obtain ⟨r', hr', hlt⟩ := h.read j cl hj hs
      exact ⟨r', hr', by omega⟩
  · -- the earlier successes have read earlier versions
    intro j j' cl cl' r₁ r₂ hj hj' hs hs' hr₁ hr₂ hv
    rcases Pool.get_step hj with ⟨hjc, rfl⟩ | ⟨-, hj₀⟩
    · rcases Pool.get_step hj' with ⟨hjc', rfl⟩ | ⟨-, hj₁⟩
      · rw [hjc, hjc']
      · obtain ⟨r', hr', hlt⟩ := h.read j' cl' hj₁ hs'
        rw [hr₂] at hr'
        cases hr'
        cases hr₁
        omega
    · rcases Pool.get_step hj' with ⟨-, rfl⟩ | ⟨-, hj₁⟩
      · obtain ⟨r', hr', hlt⟩ := h.read j cl hj₀ hs
        rw [hr₁] at hr'
        cases hr'
        cases hr₂
        omega
      · exact h.apart j j' cl cl' r₁ r₂ hj₀ hj₁ hs hs' hr₁ hr₂ hv

/-- Every step leaves the row and the successes, or moves the row along an allowed edge. -/
theorem step_line (hh : Holds proto view w) (h : Line workflowID w cur) (hn : step jsonb w l = some w') :
    (Line workflowID w' cur ∧ NoNew workflowID w w') ∨
      ∃ cur', Line workflowID w' cur' ∧ canTransition cur.state cur'.state = true ∧
        cur'.version = cur.version + 1 := by
  have htold := told_step hh hn h.told
  rcases step_cases hn with ⟨i, rfl⟩ | ⟨c, x, i, s, o, k, os, t, s', a, hc, he, rfl⟩ | ⟨c, i, s, p, r, hc, hp, rfl⟩
  · -- a new call has not written
    have hnot : succeeded (.running i.program) = false :=
      (htold w.clients.length ⟨i, ⟨none, false⟩, .running i.program⟩ (by simp)).symm
    have hno : NoNew workflowID w ⟨w.db, w.clients ++ [⟨i, ⟨none, false⟩, .running i.program⟩]⟩ := by
      intro j cl hj hs
      rcases Pool.get_append hj with hj | hj
      · exact ⟨cl, hj, hs, rfl⟩
      rw [List.mem_singleton] at hj
      subst hj
      simp [succeededOn, hnot] at hs
    exact .inl ⟨h.keep h.mem htold (by simp [succeededOn, hnot]) hno, hno⟩
  · obtain ⟨st, hrep, hwp⟩ := hh.running c i s _ hc
    obtain ⟨-, ⟨rfl, hwrote, -⟩ | ⟨r, v, n, u, rfl, hri, -, hwins⟩⟩ := exec_cases hrep hwp.1 he
    · -- the table is as before, and the call has not written
      have hnot : succeeded (.running (k a)) = false :=
        (htold c _ (Pool.get_self hc)).symm.trans hwrote
      have hsame : succeededOn workflowID ⟨i, s', .running (k a)⟩ =
          succeededOn workflowID ⟨i, s, .running (.stmt o k)⟩ := by
        simp [succeededOn, hnot]
      have hno : NoNew workflowID w ⟨w.db, w.clients.set c ⟨i, s', .running (k a)⟩⟩ :=
        noNew_set hc hsame (by simp [succeededOn])
      exact .inl ⟨h.keep h.mem htold (Pool.count_keep hc hsame) hno, hno⟩
    · have hwon : succeeded (.running (k a)) = true := (htold c _ (Pool.get_self hc)).symm
      by_cases hid : i.workflowID = workflowID
      · subst hid
        have hcur : v = cur := Rows.eq_of_key hwins.mem h.mem (by rw [hwins.same.1, hri, h.id])
        subst hcur
        refine .inr ⟨overwrite jsonb n u v, h.win hc rfl hwon hwins htold, ?_, ?_⟩
        · rw [hwins.same.2.2]
          exact hwins.next.2
        · rw [hwins.same.2.1, ← hwins.next.1]
          rfl
      · -- another workflow has moved
        have hsame : succeededOn workflowID ⟨i, ⟨some r, true⟩, .running (k a)⟩ =
            succeededOn workflowID ⟨i, s, .running (.stmt o k)⟩ := by
          simp [succeededOn, hid]
        have hno : NoNew workflowID w ⟨t, w.clients.set c ⟨i, ⟨some r, true⟩, .running (k a)⟩⟩ :=
          noNew_set hc hsame (by simp [succeededOn])
        have hne : cur ≠ v := by
          rintro rfl
          exact hid (by rw [← hri, ← hwins.same.1, h.id])
        exact .inl ⟨h.keep (hwins.mem_iff.mpr (.inr ⟨h.mem, hne⟩)) htold (Pool.count_keep hc hsame) hno, hno⟩
  · have hsame : succeededOn workflowID ⟨i, s, .returned r⟩ = succeededOn workflowID ⟨i, s, .running p⟩ := by
      simp [succeededOn, hp]
    have hno : NoNew workflowID w ⟨w.db, w.clients.set c ⟨i, s, .returned r⟩⟩ :=
      noNew_set hc hsame (fun _ => rfl)
    exact .inl ⟨h.keep h.mem htold (Pool.count_keep hc hsame) hno, hno⟩

/-- The line of a workflow and the stages of the calls, in every state of a run. -/
theorem run_line {ls : List Turn} (hh : Holds proto view w) (h : Line workflowID w cur)
    (hr : Machine.run (step jsonb) w ls = some w') :
    Holds proto view w' ∧ ∃ cur', Line workflowID w' cur' ∧
      (ended cur.state = true → cur' = cur ∧ NoNew workflowID w w') := by
  refine Machine.run_invariant (fun u => Holds proto view u ∧ ∃ cur', Line workflowID u cur' ∧
    (ended cur.state = true → cur' = cur ∧ NoNew workflowID w u)) ?_ ?_ hr
  · exact ⟨hh, cur, h, fun _ => ⟨rfl, fun j cl hj hs => ⟨cl, hj, hs, rfl⟩⟩⟩
  rintro a l b ⟨ha, cur₁, h₁, hend₁⟩ hb
  refine ⟨holds_step (server_sound jsonb) ha hb, ?_⟩
  rcases step_line ha h₁ hb with ⟨h₂, hno⟩ | ⟨cur₂, h₂, hcan, -⟩
  · exact ⟨cur₁, h₂, fun hend => ⟨(hend₁ hend).1, (hend₁ hend).2.trans hno⟩⟩
  -- no edge leaves an ended workflow
  refine ⟨cur₂, h₂, fun hend => ?_⟩
  rw [(hend₁ hend).1, not_canTransition_of_ended hend] at hcan
  cases hcan

theorem line_empty {row : WorkflowInstance} (hrow : row ∈ t.rows) (hv : row.version = 1) :
    Line row.workflowID (empty t) row :=
  ⟨hrow, rfl, by simp [empty], by simp [empty, hv], by simp [empty], by simp [empty]⟩

/-- Through every run of calls on the workflows of the table, each stored workflow that
    started from version 1 moves by allowed edges only, one version at a time; the version
    counts the successful calls; of the calls that have read one version at most one
    succeeds; and after an end no other call does. -/
theorem transitions_linear (jsonb : RawMessage → RawMessage) {t : WorkflowTable} {row : WorkflowInstance}
    (hrow : row ∈ t.rows) (hv : row.version = 1) {ls : List Turn} {w : Calls}
    (hr : Machine.run (step jsonb) (empty t) ls = some w) :
    ∃ cur ∈ w.db.rows, cur.workflowID = row.workflowID ∧
      (∀ l w', step jsonb w l = some w' → ∃ cur' ∈ w'.db.rows, cur'.workflowID = row.workflowID ∧
        (cur' = cur ∨ (canTransition cur.state cur'.state = true ∧ cur'.version = cur.version + 1))) ∧
      cur.version = 1 + (w.clients.countP (succeededOn row.workflowID) : Int) ∧
      (∀ (c c' : Nat) cl cl' r r', w.clients[c]? = some cl → w.clients[c']? = some cl' →
        succeededOn row.workflowID cl = true → succeededOn row.workflowID cl' = true →
        cl.sess.read = some r → cl'.sess.read = some r' → r.version = r'.version → c = c') ∧
      (∀ (c : Nat) cl, w.clients[c]? = some cl → succeededOn row.workflowID cl = true →
        ∃ r, cl.sess.read = some r ∧ r.version < cur.version) ∧
      (ended cur.state = true → ∀ ms w', Machine.run (step jsonb) w ms = some w' → cur ∈ w'.db.rows ∧
        ∀ (c : Nat) cl', w'.clients[c]? = some cl' → succeededOn row.workflowID cl' = true →
          ∃ cl, w.clients[c]? = some cl ∧ succeededOn row.workflowID cl = true) := by
  obtain ⟨hh, cur, h, -⟩ := run_line (holds_empty trivial) (line_empty hrow hv) hr
  refine ⟨cur, h.mem, h.id, ?_, h.count, h.apart, h.read, ?_⟩
  · intro l w' hn
    rcases step_line hh h hn with ⟨h', -⟩ | ⟨cur', h', hcan, hup⟩
    · exact ⟨cur, h'.mem, h'.id, .inl rfl⟩
    · exact ⟨cur', h'.mem, h'.id, .inr ⟨hcan, hup⟩⟩
  · intro hend ms w' hms
    obtain ⟨-, cur', h', hkeep⟩ := run_line hh h hms
    obtain ⟨rfl, hno⟩ := hkeep hend
    refine ⟨h'.mem, ?_⟩
    intro c cl' hc hs
    obtain ⟨cl, hcl, hs', -⟩ := hno c cl' hc hs
    exact ⟨cl, hcl, hs'⟩

/-! Two calls that read one version of an order's workflow. -/

namespace Race

def order : WorkflowInstance :=
  ⟨"w-1", "acme", "order", workflowStatusPending, 1, 0, none, 63902822400000000, 63902822400000000, none⟩

def table : WorkflowTable := ⟨[order], List.nodup_singleton _⟩

def clocks : Clocks := ⟨63902822500000000, 63902822500000000, 63902822500000000⟩

def turns : List Turn :=
  [.call (.transition "acme" "w-1" "" workflowStatusRunning clocks),
   .call (.updateState "acme" "w-1" workflowStatusFailed 7 clocks),
   .exec 0 none, .exec 1 none, .exec 0 none, .exec 1 none, .answer 1, .answer 0]

end Race

theorem race_linear :
    ∃ w : Calls, Machine.run (step id) (empty Race.table) Race.turns = some w ∧
      w.clients.map (fun cl => succeeded cl.phase) = [true, false] ∧
      ∃ cur ∈ w.db.rows, cur.workflowID = "w-1" ∧
        cur.version = 1 + (w.clients.countP (succeededOn "w-1") : Int) := by
  refine ⟨_, rfl, rfl, ?_⟩
  obtain ⟨cur, hmem, hid, -, hcount, -⟩ :=
    @transitions_linear id Race.table Race.order (by simp [Race.table]) rfl Race.turns _ rfl
  exact ⟨cur, hmem, hid, hcount⟩

end FlowRule.Workflow
