import FlowRule.Events.RustEngine
import FlowRule.Lib.Handle
import FlowRule.Lib.Keyed

/- A transaction with nobody else there. Every statement is answered at once, with the
   failure and the clock the outside chose for it, so that a call has one result.

   The lemmas say what the statements of an open transaction answer when they do not
   fail, and what the loops of inserts leave behind. -/
namespace FlowRule

open Prog Keyed

def statement (w : Op → Oracle) (o : Op) (st : DB × Session) : Except Err o.Res × (DB × Session) :=
  match exec st.1 [] st.2 o (w o) with
  | some (d, s, a) => (a, (d, s))
  | none => (.error (.msg "waiting for a lock"), st)

def calm (clock : Time) : Op → Oracle := fun _ => ⟨none, clock⟩

section
variable {w : Op → Oracle} {d : DB} {s : Session}

@[simp] theorem handle_clockNow : handle (statement w) clockNow (d, s) = (.ok (w .clock).clock, (d, s)) := rfl

theorem handle_begin (hw : (w .begin).fail = none) :
    handle (statement w) (sql .begin) (d, s) = (.ok d.now, (d, { s with state := .active, now := d.now })) := by
  rw [sql, handle_call]
  unfold statement
  simp only [exec, hw]

theorem handle_sql {o : Op} {d' : DB} {s' : Session} {a : Except Err o.Res} (hw : (w o).fail = none)
    (hs : s.state = .active) (hp : perform d [] s o = some (d', s', a)) :
    handle (statement w) (sql o) (d, s) = (a, (d', s')) := by
  rw [sql, handle_call]
  cases o with
  | clock | begin => cases hp
  | _ =>
    unfold statement
    simp only [exec, hw, hs, if_true, hp]

theorem handle_sql_wrap {o : Op} {d' : DB} {s' : Session} {x : o.Res} {g : Err → Err} (hw : (w o).fail = none)
    (hs : s.state = .active) (hp : perform d [] s o = some (d', s', .ok x)) :
    handle (statement w) ((sql o).wrap g) (d, s) = (.ok x, (d', s')) :=
  handle_wrap_ok (handle_sql hw hs hp)

theorem handle_sql_fail {o : Op} {e : Err} (st : DB × Session) (hc : o ≠ .clock) (hw : (w o).fail = some e) :
    ∃ st', handle (statement w) (sql o) st = (.error e, st') := by
  rw [sql, handle_call]
  cases o with
  | clock => exact absurd rfl hc
  | _ =>
    unfold statement
    simp only [exec, hw]
    exact ⟨_, rfl⟩

end

/-! The loops of inserts. -/

/-- The session has written nothing but rows of the outbox since, and sees `t` there. -/
structure OutboxWrote (d : DB) (s s' : Session) (t : String → Option OutboxRow) : Prop where
  state : s'.state = s.state
  now : s'.now = s.now
  inbox : s'.own.inbox = s.own.inbox
  outbox : (s'.sees d).outbox = t

section
variable {w : Op → Oracle} {d : DB}

theorem outboxInsert_wrote {s : Session} (hw : ∀ id row, (w (.outboxInsert id row)).fail = none)
    (hs : s.state = .active) (id : String) (row : OutboxRow) (g : Err → Err) :
    ∃ s', handle (statement w) ((sql (.outboxInsert id row)).wrap g) (d, s) = (.ok (), (d, s')) ∧
      OutboxWrote d s s' (insertNew (s.sees d).outbox id row) := by
  unfold insertNew
  by_cases hthere : ((s.sees d).outbox id).isSome
  · refine ⟨s, handle_sql_wrap (hw id row) hs ?_, rfl, rfl, rfl, ?_⟩
    · simp only [perform, hthere, if_true]
    · rw [if_pos hthere]
  · refine ⟨s.putOutbox id row, handle_sql_wrap (hw id row) hs ?_, rfl, rfl, rfl, ?_⟩
    · simp [perform, hthere]
    · rw [if_neg hthere]
      funext k
      by_cases hk : k = id
      · subst hk
        simp [Session.sees, Session.putOutbox, Tables.onto]
      · simp [Session.sees, Session.putOutbox, Tables.onto, hk]

theorem goOutboxInsert_wrote (hw : ∀ id row, (w (.outboxInsert id row)).fail = none)
    (effects : List Go.OutboxEffect) (htenant : ∀ ef ∈ effects, ef.row.tenantID ≠ "") :
    ∀ {s : Session}, s.state = .active →
    ∃ s', handle (statement w) (Go.outboxInsert effects) (d, s) = (.ok (), (d, s')) ∧
      OutboxWrote d s s' (insertAll Go.OutboxEffect.id Go.OutboxEffect.row (s.sees d).outbox effects) := by
  induction effects with
  | nil => exact fun {s} _ => ⟨s, rfl, rfl, rfl, rfl, rfl⟩
  | cons ef rest ih =>
    intro s hs
    obtain ⟨s₁, h₁, w₁⟩ := outboxInsert_wrote (d := d) hw hs ef.id ef.row (Err.wrap "insert outbox")
    obtain ⟨s₂, h₂, w₂⟩ := ih (fun x hx => htenant x (List.mem_cons_of_mem ef hx)) (w₁.state.trans hs)
    refine ⟨s₂, ?_, w₂.state.trans w₁.state, w₂.now.trans w₁.now, w₂.inbox.trans w₁.inbox, ?_⟩
    · unfold Go.outboxInsert
      rw [if_neg (htenant ef List.mem_cons_self)]
      exact (handle_bind_ok h₁).trans h₂
    · rw [w₂.outbox, w₁.outbox]
      rfl

theorem rustOutboxInsert_wrote (hw : ∀ id row, (w (.outboxInsert id row)).fail = none)
    (executionID tenantID : String) (now : Time) (effects : List Effect) :
    ∀ {s : Session}, s.state = .active →
    ∃ s', handle (statement w) (Rust.persistOutboxEffects executionID tenantID now effects) (d, s) =
        (.ok (), (d, s')) ∧
      OutboxWrote d s s' (insertAll Effect.id (fun ef =>
        pendingRow executionID tenantID ef.destination ef.name ef.payload
        ef.effectType now none) (s.sees d).outbox effects) := by
  induction effects with
  | nil => exact fun {s} _ => ⟨s, rfl, rfl, rfl, rfl, rfl⟩
  | cons ef rest ih =>
    intro s hs
    obtain ⟨s₁, h₁, w₁⟩ := outboxInsert_wrote (d := d) hw hs ef.id (pendingRow executionID tenantID
      ef.destination ef.name ef.payload ef.effectType now none) (Err.wrap "persist outbox effect")
    obtain ⟨s₂, h₂, w₂⟩ := ih (w₁.state.trans hs)
    refine ⟨s₂, ?_, w₂.state.trans w₁.state, w₂.now.trans w₁.now, w₂.inbox.trans w₁.inbox, ?_⟩
    · exact (handle_bind_ok h₁).trans h₂
    · rw [w₂.outbox, w₁.outbox]
      rfl

end

end FlowRule
