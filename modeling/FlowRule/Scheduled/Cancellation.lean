import FlowRule.Scheduled.StateMachine

/- What is published after a cancellation.

   A claim that expires is taken over by another scheduler, and when that one fails to publish, the
   event is pending again while the first scheduler still has it in its batch: it publishes without
   another look at the row. After a successful cancellation the event can still be published exactly
   if a running scheduler has it in its batch (`cancelled_silent_iff`). -/
namespace FlowRule.Scheduled

open Clients

def Cancelled (t : ScheduledTable) (eventID : String) : Prop :=
  ∃ r ∈ t.rows, r.eventID = eventID ∧ r.status = .cancelled

def Underway (w : World) (eventID : String) : Prop :=
  ∃ s ∈ sessions w.clients, eventID ∈ s.batch

instance (w : World) (eventID : String) : Decidable (Underway w eventID) :=
  inferInstanceAs (Decidable (∃ s ∈ sessions w.clients, _))

def Silent (jsonb : RawMessage → Option RawMessage) (w : World) (eventID : String) : Prop :=
  ∀ as w', Machine.run (next (server jsonb)) w as = some w' →
    ∀ notes, w'.db.log = w.db.log ++ notes → ∀ env, Note.published env ∈ notes → env.id ≠ eventID

/-! A cancellation that has succeeded. -/

section
variable {jsonb : RawMessage → Option RawMessage} {d d' : Shared} {os : List Session} {s s' : Session}
  {o : Op} {v : Oracle} {a : Except Err o.Res} {t t' : ScheduledTable} {eventID : String}

def Tidy (t : ScheduledTable) : Prop :=
  ∀ r ∈ t.rows, ∀ claimant, r.claimant = some claimant → r.status = .claimed

theorem Changes.tidy (hc : Changes o v t t') (h : Tidy t) : Tidy t' := by
  intro r' hr' claimant hclaimant
  rcases hc.2 r' hr' with ⟨r, hr, hchange⟩ | ⟨e, payload, -, rfl⟩
  · cases hchange with
    | same => exact h r' hr claimant hclaimant
    | claimed _ _ _ _ hstatus _ _ _ => exact hstatus
    | settled _ _ _ _ _ hnone _ => cases hnone.symm.trans hclaimant
    | cancelled _ hpending => cases hpending.symm.trans (h r hr claimant hclaimant)
  · cases hclaimant

/-- Nobody has a claim on a cancelled event, and nobody gets one. -/
theorem Changes.cancelled (hc : Changes o v t t') (h : Tidy t) (hcan : Cancelled t eventID) : Cancelled t' eventID := by
  obtain ⟨r, hr, hid, hstatus⟩ := hcan
  obtain ⟨r', hr', hchange⟩ := hc.1 r hr
  refine ⟨r', hr', hchange.eventID.trans hid, ?_⟩
  cases hchange with
  | same => exact hstatus
  | claimed _ _ _ hdue _ _ _ _ =>
    rcases hdue with hpending | ⟨hclaimed, -⟩
    · cases hstatus.symm.trans hpending
    · cases hstatus.symm.trans hclaimed
  | settled claimant _ hheld _ _ _ _ => cases hstatus.symm.trans (h r hr claimant hheld)
  | cancelled _ hpending => rfl

def cancelProto (_ : Input) : Prog.Proto Op Op.Res Err (Option String) where
  allowed _ _ := True
  trans st o a st' := match o, a with
    | .cancel _ eventID, .ok _ => st' = some eventID
    | _, _ => st' = st

def cancelView : View Shared Session Input Err Unit (Option String) where
  glob d := Tidy d.table
  rep _ d _ st := ∀ eventID, st = some eventID → Cancelled d.table eventID
  excl _ _ := True
  post i d r := ∀ tenantID eventID, i = .cancel tenantID eventID → r = .ok () → Cancelled d.table eventID
  fin i st r := ∀ tenantID eventID, i = .cancel tenantID eventID → r = .ok () → st = some eventID

theorem cancel_wp (i : Input) : Prog.wp (cancelProto i) i.program (cancelView.fin i) none := by
  cases i with
  | cancel tenantID eventID =>
    refine Prog.wp_call.mpr ⟨trivial, ?_⟩
    rintro (e | _) st hst tenantID' eventID' hi hr
    · cases hr
    · cases hi
      exact hst
  | _ => exact Prog.wp_trivial (fun _ _ => trivial) (fun _ _ _ _ hi => nomatch hi)

theorem cancel_sound (jsonb : RawMessage → Option RawMessage) : Sound (server jsonb) cancelProto cancelView where
  start := by
    intro d i d' s p os hg _ h
    change start d i = some (d', s, p) at h
    obtain ⟨htable, -, -, rfl⟩ := start_shared h
    refine ⟨?_, ⟨none, nofun, cancel_wp i⟩, fun _ _ => ⟨trivial, trivial⟩, ?_, ?_⟩
    · show Tidy d'.table
      rw [htable]
      exact hg
    · intro i' st s' _ hrep eventID hst
      exact htable ▸ hrep eventID hst
    · intro i' r hpost tenantID eventID hi hr
      exact htable ▸ hpost tenantID eventID hi hr
  exec := by
    rintro i d os s st o v d' s' a hg hrep - - he
    change exec jsonb d os s o v = some (d', s', a) at he
    obtain ⟨-, -, hchanges, -⟩ := exec_changes he
    refine ⟨hchanges.tidy hg, ?_, fun _ _ => ⟨trivial, trivial⟩, ?_, ?_⟩
    · -- only a cancellation that succeeds goes to another stage
      have hkept : ∀ eventID, st = some eventID → Cancelled d'.table eventID := fun eventID hst =>
        hchanges.cancelled hg (hrep eventID hst)
      cases o with
      | cancel tenantID eventID =>
        cases a with
        | error e => exact ⟨st, rfl, hkept⟩
        | ok x =>
          obtain ⟨r, -, hid, -, -, hafter⟩ := cancel_ok he
          refine ⟨some eventID, rfl, ?_⟩
          rintro _ ⟨⟩
          exact ⟨_, hafter, hid, rfl⟩
      | _ => exact ⟨st, rfl, hkept⟩
    · intro i' st' s₂ _ hrep' eventID hst
      exact hchanges.cancelled hg (hrep' eventID hst)
    · intro i' r hpost tenantID eventID hi hr
      exact hchanges.cancelled hg (hpost tenantID eventID hi hr)
  fin := by
    intro i d s st r hg hrep hfin tenantID eventID hi hr
    exact hrep eventID (hfin tenantID eventID hi hr)
  env {_ _ v _} _ _ := nomatch v

theorem exec_log (h : exec jsonb d os s o v = some (d', s', a)) :
    ∃ notes, d'.log = d.log ++ notes ∧ ∀ env, Note.published env ∈ notes → o = .publish env := by
  have hnote : ∀ x env, Note.published env ∈ note o x → o = .publish env := by
    intro x env hmem
    cases o with
    | publish env' =>
      cases List.mem_singleton.mp hmem
      rfl
    | cancel tenantID eventID =>
      cases x with
      | error e => cases hmem
      | ok y => cases List.mem_singleton.mp hmem
    | _ => cases hmem
  unfold exec at h
  simp only at h
  split at h
  · cases h
    exact ⟨_, rfl, hnote _⟩
  · split at h
    · cases h
      exact ⟨_, rfl, hnote _⟩
    · cases h
      exact ⟨[], (List.append_nil _).symm, nofun⟩

theorem exec_batch (h : exec jsonb d os s o v = some (d', s', a)) :
    ∀ eventID ∈ s'.batch, eventID ∈ s.batch ∨ ∃ r ∈ d'.table.rows, r.eventID = eventID ∧ r.status = .claimed := by
  obtain ⟨rfl, -, -, hanswer⟩ := exec_changes h
  intro eventID hmem
  cases o with
  | claim eventIDs claimant leaseTTL now =>
    cases a with
    | error e => exact .inl hmem
    | ok events =>
      obtain ⟨event, hevent, rfl⟩ := List.mem_map.mp hmem
      obtain ⟨r, hr, hid, -, hclaimed⟩ := (Go.claimScheduled_from (hanswer events rfl) hevent).1
      exact .inr ⟨r, hr, hid, hclaimed⟩
  | claimDue claimant batchSize =>
    cases a with
    | error e => exact .inl hmem
    | ok rows =>
      obtain ⟨row, hrow, rfl⟩ := List.mem_map.mp hmem
      obtain ⟨htable, hrows⟩ := Prod.mk.inj (hanswer rows rfl)
      cases hrows
      rw [← htable]
      obtain ⟨hr, hclaimed⟩ := claimDue_rows _ _ _ _ _ row hrow
      exact .inr ⟨row, hr, rfl, hclaimed⟩
  | publish env => exact .inl (List.mem_of_mem_erase hmem)
  | rustMarkReleased | rustScheduleRetry | rustMarkFailed =>
    cases a with
    | error e => cases hmem
    | ok x => exact .inl hmem
  | _ => exact .inl hmem

end

/-! Nobody has the event to publish. -/

section
variable {jsonb : RawMessage → Option RawMessage} {w w' : World} {a : Act} {eventID : String}

theorem cancelled_step (hall : Holds proto view w) (hcan : Cancelled w.db.table eventID)
    (hn : next (server jsonb) w a = some w') : Cancelled w'.db.table eventID := by
  obtain ⟨r, hr, hid, hstatus⟩ := hcan
  obtain ⟨r', hr', hid', hstep⟩ := next_rows hall hn r hr
  exact ⟨r', hr', hid'.trans hid, (hstep.final (by rw [hstatus]; rfl)).trans hstatus⟩

/-- Nobody gets a cancelled event to publish. -/
theorem underway_step (hall : Holds proto view w) (hcan : Cancelled w.db.table eventID) (hnot : ¬ Underway w eventID)
    (hn : next (server jsonb) w a = some w') : ¬ Underway w' eventID := by
  rintro ⟨s', hs', hmem⟩
  rcases sessions_step hn hs' with hs' | ⟨i, p, hst⟩ | ⟨c, v, i, s, o, k, x, hc, he⟩
  · exact hnot ⟨s', hs', hmem⟩
  · rw [(start_shared hst).2.2.1] at hmem
    cases hmem
  · change exec jsonb w.db (sessions (w.clients.eraseIdx c)) s o v = _ at he
    rcases exec_batch he eventID hmem with hmem | ⟨r, hr, hid, hclaimed⟩
    · exact hnot ⟨s, mem_sessions_of hc, hmem⟩
    -- the row cannot be claimed and cancelled
    obtain ⟨r', hr', hid', hstatus⟩ := cancelled_step hall hcan hn
    obtain rfl := Rows.eq_of_key hr hr' (hid.trans hid'.symm)
    cases hclaimed.symm.trans hstatus

theorem published_step (hall : Holds proto view w) (hn : next (server jsonb) w a = some w') :
    ∃ notes, w'.db.log = w.db.log ++ notes ∧ ∀ env, Note.published env ∈ notes → Underway w env.id := by
  have hquiet : w'.db.log = w.db.log →
      ∃ notes, w'.db.log = w.db.log ++ notes ∧ ∀ env, Note.published env ∈ notes → Underway w env.id :=
    fun hlog => ⟨[], by rw [hlog, List.append_nil], nofun⟩
  cases next_step hn with
  | start hst => exact hquiet (start_shared hst).2.1
  | @exec c v i s o k d s' x hc he =>
    obtain ⟨st, ⟨rfl, -⟩, hallowed, -⟩ := hall.running c i s _ hc
    change exec jsonb w.db (sessions (w.clients.eraseIdx c)) _ o v = _ at he
    obtain ⟨notes, hlog, hpublish⟩ := exec_log he
    refine ⟨notes, hlog, ?_⟩
    intro env hmem
    obtain rfl := hpublish env hmem
    exact ⟨_, mem_sessions_of hc, hallowed⟩
  | stop => exact hquiet rfl
  | @env v => exact nomatch v

/-- So a cancelled event that nobody has to publish is not published any more. -/
theorem silent_of_not_underway (hall : Holds proto view w) (hcan : Cancelled w.db.table eventID)
    (hnot : ¬ Underway w eventID) : Silent jsonb w eventID := by
  intro as w' hrun notes hlog
  have key := Machine.run_invariant (fun u : World => Holds proto view u ∧ Cancelled u.db.table eventID ∧
      ¬ Underway u eventID ∧
      ∃ notes, u.db.log = w.db.log ++ notes ∧ ∀ env, Note.published env ∈ notes → env.id ≠ eventID)
    ⟨hall, hcan, hnot, [], (List.append_nil _).symm, nofun⟩ ?_ hrun
  · obtain ⟨-, -, -, notes', hlog', hnone⟩ := key
    rw [hlog] at hlog'
    exact List.append_cancel_left hlog' ▸ hnone
  · rintro u a u' ⟨hu, hc, hn, notes, hlog, hnone⟩ hstep
    obtain ⟨more, hmore, hdue⟩ := published_step hu hstep
    refine ⟨holds_step (server_sound jsonb) hu hstep, cancelled_step hu hc hstep, underway_step hu hc hn hstep,
      notes ++ more, by rw [hmore, hlog, List.append_assoc], ?_⟩
    intro env hmem
    rcases List.mem_append.mp hmem with hmem | hmem
    · exact hnone env hmem
    · rintro rfl
      exact hn (hdue env hmem)

/-! A scheduler that has the event goes on to publish it. -/

theorem exec_answers (jsonb : RawMessage → Option RawMessage) (d : Shared) (os : List Session) (s : Session) (o : Op)
    (v : Oracle) : ∃ d' s' x, exec jsonb d os s o v = some (d', s', x) := by
  unfold exec
  simp only
  split
  · exact ⟨_, _, _, rfl⟩
  split <;> exact ⟨_, _, _, rfl⟩

/-- A scheduler that has the event to publish does so with its next statement, or still has it
    after that. -/
theorem exec_fine {i : Input} {st : Stage} {d d' : Shared} {os : List Session} {s' : Session} {o : Op}
    {x : Except Err o.Res} (hall : (proto i).allowed st o) (hmem : eventID ∈ st.todo)
    (he : exec jsonb d os (session i st) o (fine 0) = some (d', s', x)) :
    (∃ env, env.id = eventID ∧ d'.log = d.log ++ [.published env]) ∨ eventID ∈ s'.batch := by
  cases o with
  | claim | claimDue => cases hall.2 ▸ hmem
  | publish env =>
    cases he
    by_cases henv : env.id = eventID
    · exact .inl ⟨env, henv, rfl⟩
    · exact .inr ((List.mem_erase_of_ne (Ne.symm henv)).mpr hmem)
  | rustMarkReleased | rustScheduleRetry | rustMarkFailed =>
    cases he
    exact .inr hmem
  | _ =>
    obtain ⟨rfl, -⟩ := exec_changes he
    exact .inr hmem

/-- The statements of the scheduler up to the publish. The induction is on its program, which
    cannot end before. -/
theorem publishes (p : P Unit) : ∀ {w : World} {c : Nat} {i : Input} {s : Session}, Holds proto view w →
    w.clients[c]? = some ⟨i, s, .running p⟩ → eventID ∈ s.batch →
      ∃ as w' notes env, Machine.run (next (server jsonb)) w as = some w' ∧ w'.db.log = w.db.log ++ notes ∧
        Note.published env ∈ notes ∧ env.id = eventID := by
  induction p with
  | ret r | throw e =>
    intro w c i s hall hc hmem
    obtain ⟨st, ⟨rfl, -⟩, (hdone : st.todo = [])⟩ := hall.running c i s _ hc
    rw [session, hdone] at hmem
    cases hmem
  | stmt o k ih =>
    intro w c i s hall hc hmem
    obtain ⟨st, ⟨rfl, -⟩, hallowed, -⟩ := hall.running c i s _ hc
    obtain ⟨d', s', x, he⟩ := exec_answers jsonb w.db (sessions (w.clients.eraseIdx c)) (session i st) o (fine 0)
    have hn := @next_exec _ _ _ _ _ _ _ _ _ _ _ _ _ _ (server jsonb) (fine 0) _ _ k _ hc he
    rcases exec_fine hallowed hmem he with ⟨env, henv, hlog⟩ | hmem'
    · refine ⟨[.exec c (fine 0)], ⟨d', w.clients.set c ⟨i, s', .running (k x)⟩⟩, [.published env], env, ?_, hlog,
        List.mem_singleton_self _, henv⟩
      rw [Machine.run, hn]
      rfl
    · have hc' : (w.clients.set c ⟨i, s', .running (k x)⟩)[c]? = some ⟨i, s', .running (k x)⟩ :=
        List.getElem?_set_self (List.getElem?_eq_some_iff.mp hc).1
      obtain ⟨as, w', notes, env, hrun, hlog, hnote, henv⟩ := ih x (holds_step (server_sound jsonb) hall hn) hc' hmem'
      obtain ⟨more, hmore, -⟩ := exec_log he
      refine ⟨.exec c (fine 0) :: as, w', more ++ notes, env, ?_, ?_, List.mem_append_right _ hnote, henv⟩
      · rw [Machine.run, hn]
        exact hrun
      · rw [hlog, hmore, List.append_assoc]

end

/-- In every reachable state in which a call to cancel an event has returned without an
    error: nothing that may follow publishes the event exactly if no running scheduler has it
    in its batch. -/
theorem cancelled_silent_iff {jsonb : RawMessage → Option RawMessage} {w : World} {c : Nat} {tenantID eventID : String}
    {s : Session} (hw : Machine.Reachable (next (server jsonb)) init w)
    (hc : w.clients[c]? = some ⟨.cancel tenantID eventID, s, .returned (.ok ())⟩) :
    Silent jsonb w eventID ↔ ¬ Underway w eventID := by
  have hall := holds_init hw
  have hcan : Cancelled w.db.table eventID := by
    have hcancels : Holds cancelProto cancelView w := by
      refine holds_reachable (cancel_sound jsonb) ?_ hw
      intro r hr
      cases hr
    exact hcancels.returned c _ s _ hc tenantID eventID rfl rfl
  refine ⟨?_, silent_of_not_underway hall hcan⟩
  rintro hsilent ⟨s', hs', hmem⟩
  obtain ⟨⟨i, _, ph⟩, hcl, ⟨p, rfl⟩, rfl⟩ := mem_sessions.mp hs'
  obtain ⟨j, hj⟩ := List.mem_iff_getElem?.mp hcl
  obtain ⟨as, w', notes, env, hrun, hlog, hnote, henv⟩ := publishes p hall hj hmem
  exact hsilent as w' hrun notes hlog env hnote henv

/-! An event is cancelled before anybody claims it. -/

namespace Cancelled

def inTime : List Act :=
  [.start (.save Takeover.reminder), .exec 0 (fine 63902822400000000), .start (.cancel "acme" "e-1"),
    .exec 1 (fine 63902822400000000), .finish 1]

end Cancelled

open Cancelled in
theorem cancelled_in_time :
    ∃ w : World, Machine.run (next (server some)) init inTime = some w ∧ Silent some w "e-1" := by
  refine ⟨_, rfl, ?_⟩
  exact (@cancelled_silent_iff some _ 1 "acme" "e-1" ⟨none, []⟩ ⟨inTime, rfl⟩ rfl).mpr (by decide +kernel)

/-! An event is cancelled after its claim was taken over and given back. -/

namespace Overtaken

def later : Oracle := fine 63902826000000000

def refused : Oracle := { later with fail := some (.msg "no responders") }

/-- One round claims the event and pauses. An hour later another takes it over and cannot
    publish it, and the event is cancelled. -/
def turns : List Act :=
  Takeover.turns ++ [Takeover.turn, .exec 2 later, .exec 2 refused, .exec 2 later, .finish 2,
    .start (.cancel "acme" "e-1"), .exec 3 later, .finish 3]

def rest : List Act := [.exec 1 later, .exec 1 later]

def message : EventEnvelope := Rust.scheduledEnvelope (Go.scheduledRow Takeover.reminder "null") later.clock

end Overtaken

theorem published_after_cancel :
    ∃ w w' : World, Machine.run (next (server some)) init Overtaken.turns = some w ∧
      w.clients[3]? = some ⟨.cancel "acme" "e-1", ⟨none, []⟩, .returned (.ok ())⟩ ∧
      Machine.run (next (server some)) w Overtaken.rest = some w' ∧
      w'.db.log = w.db.log ++ [.published Overtaken.message] ∧ ¬ Silent some w "e-1" := by
  refine ⟨_, _, rfl, rfl, rfl, rfl, ?_⟩
  intro hsilent
  exact hsilent Overtaken.rest _ rfl [.published Overtaken.message] rfl _ (List.mem_singleton_self _) rfl

end FlowRule.Scheduled
