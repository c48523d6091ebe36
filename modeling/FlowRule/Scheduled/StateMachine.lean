import FlowRule.Scheduled.Schedulers

/- The states of a scheduled event, under any number of schedulers of both kinds and of calls that
   save and cancel. `Change` is all that a statement does to a row. The Go scheduler counts retries
   by an increment and the Rust one by writing the number it has read, plus one; the counts agree
   because nobody else changes the count of a row as long as it has its claimant (`holding`). -/
namespace FlowRule.Scheduled

open Clients

/-! What a statement does to a row. -/

/-- The claimant of a claiming statement and the instant it compares expiries with. -/
def Op.claims (v : Oracle) : Op → Option (String × Time)
  | .claim _ claimant _ now => some (claimant, now)
  | .claimDue claimant _ => some (claimant, v.now)
  | _ => none

def Op.settles : Op → Option (String × String)
  | .markReleased eventID claimant _ => some (eventID, claimant)
  | .scheduleRetry eventID claimant _ _ => some (eventID, claimant)
  | .markFailed eventID claimant _ => some (eventID, claimant)
  | .rustMarkReleased eventID claimant => some (eventID, claimant)
  | .rustScheduleRetry eventID claimant _ _ => some (eventID, claimant)
  | .rustMarkFailed eventID claimant _ _ => some (eventID, claimant)
  | _ => none

/-- The status and the number of retries with which a settling statement leaves the row. -/
def Op.outcome (r : ScheduledRow) : Op → ScheduledStatus × Nat
  | .scheduleRetry _ _ _ _ => (.pending, r.retryCount + 1)
  | .markFailed _ _ _ => (.failed, r.retryCount + 1)
  | .rustScheduleRetry _ _ attempt _ => (.pending, attempt)
  | .rustMarkFailed _ _ attempt _ => (.failed, attempt)
  | _ => (.released, r.retryCount)

inductive Change (o : Op) (v : Oracle) (r : ScheduledRow) : ScheduledRow → Prop where
  | same : Change o v r r
  | claimed {r' : ScheduledRow} (claimant : String) (t : Time) (ho : o.claims v = some (claimant, t))
      (hdue : r.status = .pending ∨ r.status = .claimed ∧ ∃ x, r.claimExpiresAt = some x ∧ x ≤ t)
      (hstatus : r'.status = .claimed) (hclaimant : r'.claimant = some claimant) (hid : r'.eventID = r.eventID)
      (hcount : r'.retryCount = r.retryCount) : Change o v r r'
  | settled {r' : ScheduledRow} (claimant : String) (ho : o.settles = some (r.eventID, claimant))
      (hheld : r.claimant = some claimant) (hlive : ∃ x, r.claimExpiresAt = some x ∧ v.now < x)
      (hout : (r'.status, r'.retryCount) = o.outcome r) (hclaimant : r'.claimant = none)
      (hid : r'.eventID = r.eventID) : Change o v r r'
  | cancelled (ho : o = .cancel r.tenantID r.eventID) (hpending : r.status = .pending) :
      Change o v r { r with status := .cancelled }

variable {o : Op} {v : Oracle} {w : World}

theorem Change.eventID {r r' : ScheduledRow} (h : Change o v r r') : r'.eventID = r.eventID := by
  cases h with
  | same => rfl
  | claimed _ _ _ _ _ _ hid _ => exact hid
  | settled _ _ _ _ _ _ hid => exact hid
  | cancelled => rfl

/-- Every row stays, changed or not, and a new one is one that was saved. -/
def Changes (o : Op) (v : Oracle) (t t' : ScheduledTable) : Prop :=
  (∀ r ∈ t.rows, ∃ r' ∈ t'.rows, Change o v r r') ∧
    ∀ r' ∈ t'.rows, (∃ r ∈ t.rows, Change o v r r') ∨ ∃ e payload, o = .save e ∧ r' = Go.scheduledRow e payload

section
variable {o : Op} {v : Oracle} {t : ScheduledTable}

theorem changes_refl : Changes o v t t := ⟨fun r hr => ⟨r, hr, .same⟩, fun r hr => .inl ⟨r, hr, .same⟩⟩

variable {f : ScheduledRow → ScheduledRow} {claimant eventID : String}

theorem changes_update {p : ScheduledRow → Bool} (hf : ∀ r, (f r).eventID = r.eventID)
    (h : ∀ r ∈ t.rows, p r = true → Change o v r (f r)) : Changes o v t (t.update p f hf).2 := by
  have hrow : ∀ r ∈ t.rows, Change o v r (if p r then f r else r) := by
    intro r hr
    split
    · exact h r hr ‹_›
    · exact .same
  refine ⟨?_, ?_⟩
  · intro r hr
    exact ⟨_, Rows.mem_update.mpr ⟨r, hr, rfl⟩, hrow r hr⟩
  · intro r' hr'
    obtain ⟨r, hr, rfl⟩ := Rows.mem_update.mp hr'
    exact .inl ⟨r, hr, hrow r hr⟩

theorem heldBy_iff {r : ScheduledRow} {now : Time} :
    r.heldBy claimant now = true ↔ r.claimant = some claimant ∧ ∃ x, r.claimExpiresAt = some x ∧ now < x := by
  simp [ScheduledRow.heldBy, Option.any_eq_true]

theorem changes_goSettle {action : String}
    (hf : ∀ r, (f r).eventID = r.eventID) (ho : o.settles = some (eventID, claimant))
    (hf' : ∀ r, ((f r).status, (f r).retryCount) = o.outcome r ∧ (f r).claimant = none) :
    Changes o v t (Go.settleScheduled t action eventID claimant v.now f hf).1 := by
  have htable : (Go.settleScheduled t action eventID claimant v.now f hf).1 = (t.update (fun r =>
      r.eventID == eventID && r.status == .claimed && r.heldBy claimant v.now) f hf).2 := by
    show Prod.fst (ite _ _ _) = _
    split <;> rfl
  rw [htable]
  refine changes_update (by assumption) ?_
  intro r _ hp
  simp only [Bool.and_eq_true, beq_iff_eq] at hp
  obtain ⟨⟨rfl, -⟩, hheld⟩ := hp
  obtain ⟨hclaimant, hlive⟩ := heldBy_iff.mp hheld
  exact .settled claimant ho hclaimant hlive (hf' r).1 (hf' r).2 (hf r)

theorem changes_rustSettle (hf : ∀ r, (f r).eventID = r.eventID) (ho : o.settles = some (eventID, claimant))
    (hf' : ∀ r, ((f r).status, (f r).retryCount) = o.outcome r ∧ (f r).claimant = none) :
    Changes o v t (Rust.settleScheduled t eventID claimant v.now f hf) := by
  refine changes_update (by assumption) ?_
  intro r _ hp
  simp only [Bool.and_eq_true, beq_iff_eq] at hp
  obtain ⟨rfl, hheld⟩ := hp
  obtain ⟨hclaimant, hlive⟩ := heldBy_iff.mp hheld
  exact .settled claimant ho hclaimant hlive (hf' r).1 (hf' r).2 (hf r)

theorem changes_goClaim {eventIDs : List String} {leaseTTL : Int} {now : Time} :
    Changes (.claim eventIDs claimant leaseTTL now) v t (Go.claimScheduled t eventIDs claimant leaseTTL now).1 := by
  unfold Go.claimScheduled
  split
  · exact changes_refl
  split
  · exact changes_refl
  split
  · exact changes_refl
  refine changes_update (by exact fun _ => rfl) ?_
  intro r _ hp
  refine .claimed claimant now rfl ?_ rfl rfl rfl rfl
  simp only [ScheduledRow.due, ScheduledRow.claimExpiredBy, Bool.and_eq_true, Bool.or_eq_true, beq_iff_eq,
    Option.any_eq_true, decide_eq_true_eq] at hp
  rcases hp.2 with ⟨hpending, -⟩ | ⟨hclaimed, x, hx, hle⟩
  · exact .inl hpending
  · exact .inr ⟨hclaimed, x, hx, hle⟩

theorem changes_rustClaim {batchSize : Nat} :
    Changes (.claimDue claimant batchSize) v t (Rust.claimDueEvents t claimant batchSize v.locked v.now).1 := by
  refine changes_update (by exact fun _ => rfl) ?_
  intro r hr hp
  refine .claimed claimant v.now rfl ?_ rfl rfl rfl rfl
  -- the row with the identity of a due one is that row
  simp only [List.contains_eq_mem, decide_eq_true_eq, List.mem_map] at hp
  obtain ⟨due, hdue, hid⟩ := hp
  have hmem := List.mem_of_mem_take hdue
  rw [List.mem_insertionSort, List.mem_filter] at hmem
  obtain rfl := Rows.eq_of_key hmem.1 hr hid
  simp only [Rust.dueForClaim, Bool.and_eq_true, Bool.or_eq_true, beq_iff_eq, Option.any_eq_true,
    decide_eq_true_eq] at hmem
  rcases hmem.2.1 with ⟨hpending, -⟩ | ⟨hclaimed, x, hx, hlt⟩
  · exact .inl hpending
  · exact .inr ⟨hclaimed, x, hx, hlt.le⟩

theorem changes_cancel {tenantID : String} :
    Changes (.cancel tenantID eventID) v t (Go.cancelScheduled t tenantID eventID).1 := by
  have htable : (Go.cancelScheduled t tenantID eventID).1 = (t.update (fun r =>
      r.tenantID == tenantID && r.eventID == eventID && r.status == .pending)
        (fun r => { r with status := .cancelled }) (fun _ => rfl)).2 := by
    show Prod.fst (ite _ _ _) = _
    split <;> rfl
  rw [htable]
  refine changes_update (by exact fun _ => rfl) ?_
  intro r _ hp
  simp only [Bool.and_eq_true, beq_iff_eq] at hp
  obtain ⟨⟨rfl, rfl⟩, hpending⟩ := hp
  exact .cancelled rfl hpending

theorem changes_save {jsonb : RawMessage → Option RawMessage} {e : ScheduledEvent} {t' : ScheduledTable}
    (h : Go.saveScheduled jsonb t e = .ok t') : Changes (.save e) v t t' := by
  unfold Go.saveScheduled at h
  split at h
  · cases h
  rename_i payload _
  cases h
  refine ⟨?_, ?_⟩
  · intro r hr
    exact ⟨r, Rows.mem_insert.mpr (.inl hr), .same⟩
  · intro r' hr'
    rcases Rows.mem_insert.mp hr' with hr | ⟨-, rfl⟩
    · exact .inl ⟨r', hr, .same⟩
    · exact .inr ⟨e, payload, rfl, rfl⟩

theorem perform_changes (jsonb : RawMessage → Option RawMessage) (t : ScheduledTable) (v : Oracle) (o : Op) :
    Changes o v t (perform jsonb t v o).1 := by
  cases o with
  | clock | getDue | publish => exact changes_refl
  | claim => exact changes_goClaim
  | claimDue => exact changes_rustClaim
  | markReleased | scheduleRetry | markFailed =>
    exact changes_goSettle (by exact fun _ => rfl) rfl (fun _ => ⟨rfl, rfl⟩)
  | rustMarkReleased | rustScheduleRetry | rustMarkFailed =>
    exact changes_rustSettle (by exact fun _ => rfl) rfl (fun _ => ⟨rfl, rfl⟩)
  | cancel => exact changes_cancel
  | save e =>
    simp only [perform]
    split
    · rename_i t' hsave
      exact changes_save hsave
    · exact changes_refl

end

section
variable {jsonb : RawMessage → Option RawMessage} {d d' : Shared} {os : List Session} {s s' : Session}
  {o : Op} {v : Oracle} {a : Except Err o.Res}

theorem exec_changes (h : exec jsonb d os s o v = some (d', s', a)) :
    s' = s.after o a ∧ d'.used = d.used ∧ Changes o v d.table d'.table ∧
      ∀ x, a = .ok x → perform jsonb d.table v o = (d'.table, .ok x) := by
  unfold exec at h
  cases hp : perform jsonb d.table v o with
  | mk t' a' =>
    have hchanges := perform_changes jsonb d.table v o
    rw [hp] at h hchanges
    simp only at h
    split at h
    · cases h
      refine ⟨rfl, rfl, hchanges, ?_⟩
      rintro x rfl
      rfl
    · split at h
      · cases h
        exact ⟨rfl, rfl, hchanges, nofun⟩
      · cases h
        exact ⟨rfl, rfl, changes_refl, nofun⟩

theorem claimDue_rows (t : ScheduledTable) (claimant : String) (batchSize : Nat) (locked : List String) (now : Time) :
    ∀ r ∈ (Rust.claimDueEvents t claimant batchSize locked now).2,
      r ∈ (Rust.claimDueEvents t claimant batchSize locked now).1.rows ∧ r.status = .claimed := by
  dsimp only [Rust.claimDueEvents]
  intro r hr
  obtain ⟨old, hold, rfl⟩ := List.mem_map.mp hr
  obtain ⟨hmem, hp⟩ := List.mem_filter.mp hold
  exact ⟨Rows.mem_update.mpr ⟨old, hmem, if_pos hp⟩, rfl⟩

end

/-! The stages of a scheduler. -/

/-- Before its claim, with the events it has claimed and their retries and those it has yet to
    publish, or after a failure that ends it. -/
inductive Stage where
  | waiting
  | holding (batch : List (String × Nat)) (todo : List String)
  | lost
  deriving DecidableEq, Repr

namespace Stage

def has (st : Stage) (eventID : String) (retries : Nat) : Prop :=
  ∃ batch todo, st = holding batch todo ∧ (eventID, retries) ∈ batch

def todo : Stage → List String
  | holding _ todo => todo
  | _ => []

def published (eventID : String) : Stage → Stage
  | holding batch todo => holding batch (todo.erase eventID)
  | st => st

end Stage

/-- A scheduler claims once, publishes every event of its batch once, settles events of its
    batch in its own name, and writes the number of retries after the one it has read. -/
def proto (i : Input) : Prog.Proto Op Op.Res Err Stage where
  allowed st o := match o with
    | .claim _ claimant _ _ => i.claimant = some claimant ∧ st = .waiting
    | .claimDue claimant _ => i.claimant = some claimant ∧ st = .waiting
    | .publish env => env.id ∈ st.todo
    | .markReleased _ claimant _ => i.claimant = some claimant
    | .scheduleRetry eventID claimant _ _ => i.claimant = some claimant ∧ ∃ n, st.has eventID n ∧ n + 1 < 8
    | .markFailed _ claimant _ => i.claimant = some claimant
    | .rustMarkReleased _ claimant => i.claimant = some claimant
    | .rustScheduleRetry eventID claimant attempt _ =>
      i.claimant = some claimant ∧ ∃ n, st.has eventID n ∧ attempt = n + 1 ∧ attempt < 8
    | .rustMarkFailed eventID claimant attempt _ => i.claimant = some claimant ∧ ∃ n, st.has eventID n ∧ attempt = n + 1
    | _ => True
  trans st o a st' := match o, a with
    | .clock, .error _ => False
    | .claim _ _ _ _, .ok events =>
      st' = .holding (events.map (fun e => (e.eventID, e.retryCount))) (events.map ScheduledEvent.eventID)
    | .claimDue _ _, .ok rows =>
      st' = .holding (rows.map (fun r => (r.eventID, r.retryCount))) (rows.map ScheduledRow.eventID)
    | .claim _ _ _ _, .error _ => st' = .lost
    | .claimDue _ _, .error _ => st' = .lost
    | .publish env, _ => st' = st.published env.id
    | .rustMarkReleased _ _, .error _ => st' = .lost
    | .rustScheduleRetry _ _ _ _, .error _ => st' = .lost
    | .rustMarkFailed _ _ _ _, .error _ => st' = .lost
    | _, _ => st' = st

section
variable {i : Input} {claimant : String} {st : Stage} {batch : List (String × Nat)}

open Prog

/-- The program goes from a stage to another, or fails with nothing left to publish. -/
def Leads (i : Input) {R : Type} (p : P R) (st st' : Stage) : Prop :=
  wp (proto i) p (fun s a => match a with
    | .ok _ => s = st'
    | .error _ => s.todo = []) st

variable {R : Type} {todo : List String} {event : ScheduledEvent}

theorem Leads.bind {T : Type} {p : P R} {f : R → P T} {st' st'' : Stage} (hp : Leads i p st st')
    (hf : ∀ r, Leads i (f r) st' st'') : Leads i (p >>= f) st st'' := by
  unfold Leads
  rw [wp_bind]
  refine wp_mono ?_ hp
  rintro s (e | r) hs
  · exact hs
  · cases hs
    exact hf r

theorem Leads.done {p : P R} {st' : Stage} (h : Leads i p st st') (hst' : st'.todo = []) :
    wp (proto i) p (fun s _ => s.todo = []) st := by
  refine wp_mono ?_ h
  rintro s (e | r) hs
  · exact hs
  · cases hs
    exact hst'

theorem leads_pure (r : R) : Leads i (pure r) st st := rfl

theorem wp_clock {k : Time → P R} {Q : Stage → Except Err R → Prop}
    (h : ∀ now, wp (proto i) (k now) Q st) : wp (proto i) (sql .clock >>= k) Q st := by
  refine wp_bind.mpr (wp_call.mpr ⟨trivial, ?_⟩)
  rintro (e | now) st' hst
  · cases hst
  · cases hst
    exact h now

theorem leads_caught {o : Op} (hall : (proto i).allowed st o) (hstay : ∀ a st', (proto i).trans st o a st' → st' = st) :
    Leads i (sql o).caught st st := by
  refine wp_caught.mpr (wp_call.mpr ⟨hall, ?_⟩)
  intro a st' hst
  exact hstay a st' hst

theorem leads_settle {o : Op} (hall : (proto i).allowed st o)
    (hstay : ∀ x st', (proto i).trans st o (.ok x) st' → st' = st)
    (hlost : ∀ e st', (proto i).trans st o (.error e) st' → st' = .lost) : Leads i (sql o) st st := by
  refine wp_call.mpr ⟨hall, ?_⟩
  rintro (e | x) st' hst
  · rw [hlost e st' hst]
    rfl
  · exact hstay x st' hst

theorem wp_publish {env : EventEnvelope} {Q : Stage → Except Err Unit → Prop} (hQ : ∀ a, Q (.holding batch todo) a) :
    wp (proto i) (sql (.publish env)) Q (.holding batch (env.id :: todo)) := by
  refine wp_call.mpr ⟨List.mem_cons_self, ?_⟩
  intro a st' hst
  change st' = .holding batch ((env.id :: todo).erase env.id) at hst
  rw [hst, List.erase_cons_head]
  exact hQ a

variable (hi : i.claimant = some claimant)
include hi

theorem leads_handleReleaseFailure (hmem : (event.eventID, event.retryCount) ∈ batch) (e : Err) :
    Leads i (Go.handleReleaseFailure event claimant e) (.holding batch todo) (.holding batch todo) := by
  unfold Go.handleReleaseFailure
  split
  · exact Leads.bind (leads_caught (by exact hi) (by exact fun _ _ h => h)) (fun _ => leads_pure ())
  rename_i hless
  refine wp_clock ?_
  intro now
  refine Leads.bind (leads_caught ?_ (by exact fun _ _ h => h)) (fun _ => leads_pure ())
  have hless' : ¬ 8 ≤ event.retryCount + 1 := hless
  exact ⟨hi, event.retryCount, ⟨batch, todo, rfl, hmem⟩, by omega⟩

theorem leads_markEventReleased : Leads i (Go.markEventReleased event claimant) st st := by
  refine wp_clock ?_
  intro now
  exact Leads.bind (leads_caught (by exact hi) (by exact fun _ _ h => h)) (fun _ => leads_pure ())

theorem leads_processClaimedEvent (hmem : (event.eventID, event.retryCount) ∈ batch) :
    Leads i (Go.processClaimedEvent claimant event) (.holding batch (event.eventID :: todo)) (.holding batch todo) := by
  have hpublish : Leads i (Go.releaseEvent event).caught (.holding batch (event.eventID :: todo))
      (.holding batch todo) := by
    refine wp_caught.mpr (wp_clock ?_)
    intro now
    exact @wp_publish i batch todo (Go.releasedEnvelope event now) _ (fun _ => rfl)
  refine hpublish.bind ?_
  rintro (e | _)
  · exact leads_handleReleaseFailure hi hmem e
  · exact leads_markEventReleased hi

theorem leads_recordPublishFailure {row : ScheduledRow} (hmem : (row.eventID, row.retryCount) ∈ batch)
    (error : String) :
    Leads i (Rust.recordPublishFailure claimant row.eventID row.retryCount error) (.holding batch todo)
      (.holding batch todo) := by
  unfold Rust.recordPublishFailure
  split
  · exact leads_settle ⟨hi, row.retryCount, ⟨batch, todo, rfl, hmem⟩, rfl⟩ (fun _ _ h => h) (fun _ _ h => h)
  · rename_i hless
    exact leads_settle ⟨hi, row.retryCount, ⟨batch, todo, rfl, hmem⟩, rfl, by omega⟩ (fun _ _ h => h) (fun _ _ h => h)

theorem leads_processScheduledEvent {row : ScheduledRow} (hmem : (row.eventID, row.retryCount) ∈ batch) :
    Leads i (Rust.processScheduledEvent claimant row) (.holding batch (row.eventID :: todo)) (.holding batch todo) := by
  refine wp_clock ?_
  intro now
  have hpublish : Leads i ((sql (.publish (Rust.scheduledEnvelope row now))).wrap
      (Err.wrap "publish scheduled event to JetStream")).caught (.holding batch (row.eventID :: todo))
      (.holding batch todo) := by
    refine wp_caught.mpr (wp_wrap.mpr ?_)
    exact @wp_publish i batch todo (Rust.scheduledEnvelope row now) _ (fun _ => rfl)
  refine hpublish.bind ?_
  rintro (e | _)
  · exact leads_recordPublishFailure hi hmem _
  · exact leads_settle (by exact hi) (by exact fun _ _ h => h) (by exact fun _ _ h => h)

theorem leads_processClaimedEvents :
    ∀ events : List ScheduledEvent, (∀ e ∈ events, (e.eventID, e.retryCount) ∈ batch) →
      Leads i (Go.processClaimedEvents claimant events) (.holding batch (events.map ScheduledEvent.eventID))
        (.holding batch []) := by
  intro events
  induction events with
  | nil => exact fun _ => leads_pure ()
  | cons event rest ih =>
    intro hbatch
    exact (leads_processClaimedEvent hi (hbatch event List.mem_cons_self)).bind
      (fun _ => ih (fun e he => hbatch e (List.mem_cons_of_mem _ he)))

theorem leads_processScheduledEvents :
    ∀ rows : List ScheduledRow, (∀ r ∈ rows, (r.eventID, r.retryCount) ∈ batch) →
      Leads i (Rust.processScheduledEvents claimant rows) (.holding batch (rows.map ScheduledRow.eventID))
        (.holding batch []) := by
  intro rows
  induction rows with
  | nil => exact fun _ => leads_pure ()
  | cons row rest ih =>
    intro hbatch
    exact (leads_processScheduledEvent hi (hbatch row List.mem_cons_self)).bind
      (fun _ => ih (fun r hr => hbatch r (List.mem_cons_of_mem _ hr)))

theorem tick_wp (batchSize : Int) :
    wp (proto i) (Go.tick claimant batchSize) (fun st _ => st.todo = []) .waiting := by
  refine wp_clock ?_
  intro now
  refine wp_bind.mpr (wp_caught.mpr (wp_call.mpr ⟨trivial, ?_⟩))
  rintro (e | _ | ⟨event, rest⟩) st rfl
  · rfl
  · rfl
  · refine wp_bind.mpr (wp_caught.mpr (wp_clock (fun now' => wp_call.mpr ⟨⟨hi, rfl⟩, ?_⟩)))
    rintro (e | claimed) st hst
    · cases hst
      rfl
    · cases hst
      refine (leads_processClaimedEvents hi claimed ?_).done rfl
      intro e he
      exact List.mem_map_of_mem he

theorem round_wp (batchSize : Nat) :
    wp (proto i) (Rust.round claimant batchSize) (fun st _ => st.todo = []) .waiting := by
  unfold Rust.round
  refine wp_bind.mpr (wp_call.mpr ⟨⟨hi, rfl⟩, ?_⟩)
  rintro (e | rows) st hst
  · cases hst
    rfl
  · cases hst
    refine (leads_processScheduledEvents hi rows ?_).done rfl
    intro r hr
    exact List.mem_map_of_mem hr

omit hi in
theorem program_wp (i : Input) : wp (proto i) i.program (fun st _ => st.todo = []) .waiting := by
  cases i with
  | goTick id batchSize => exact tick_wp rfl batchSize
  | rustRound id batchSize => exact round_wp rfl batchSize
  | save event | cancel tenantID eventID =>
    refine wp_call.mpr ⟨trivial, ?_⟩
    rintro a st rfl
    rfl

end

/-! What all of them keep. -/

/-- A claimant stands in claimed rows only, and the retries are in their bounds. -/
structure RowOk (used : List String) (r : ScheduledRow) : Prop where
  claimant : ∀ claimant, r.claimant = some claimant → claimant ∈ used ∧ r.status = .claimed
  most : r.retryCount ≤ 8
  unlessFailed : r.status ≠ .failed → r.retryCount ≤ 7

/-- What a claimant knows of the rows: before its claim none is its own, and after it those
    that still are have the retries they had then. -/
def Knows (t : ScheduledTable) (claimant : String) : Stage → Prop
  | .waiting => ∀ r ∈ t.rows, r.claimant ≠ some claimant
  | .holding batch _ => ∀ r ∈ t.rows, r.claimant = some claimant → ∀ n, (r.eventID, n) ∈ batch → r.retryCount = n
  | .lost => True

def session (i : Input) (st : Stage) : Session := ⟨i.claimant, st.todo⟩

def view : View Shared Session Input Err Unit Stage where
  glob d := ∀ r ∈ d.table.rows, RowOk d.used r
  rep i d s st := s = session i st ∧
    ∀ claimant, i.claimant = some claimant → claimant ∈ d.used ∧ Knows d.table claimant st
  excl s s' := ∀ claimant, s.claimant = some claimant → s'.claimant ≠ some claimant
  post _ _ _ := True
  fin _ st _ := st.todo = []

section
variable {i : Input} {st : Stage} {o : Op} {v : Oracle} {claimant : String} {t t' : ScheduledTable}

/-- A scheduler claims in its own name, before anything else. -/
theorem claims_own (hall : (proto i).allowed st o) {now : Time} (h : o.claims v = some (claimant, now)) :
    i.claimant = some claimant ∧ st = .waiting := by
  cases o with
  | claim | claimDue =>
    cases h
    exact hall
  | _ => cases h

theorem settles_own (hall : (proto i).allowed st o) {eventID : String} (h : o.settles = some (eventID, claimant)) :
    i.claimant = some claimant := by
  cases o with
  | markReleased | markFailed | rustMarkReleased =>
    cases h
    exact hall
  | scheduleRetry | rustScheduleRetry | rustMarkFailed =>
    cases h
    exact hall.1
  | _ => cases h

/-- A claimant that settles its own row has read the retries of the row. -/
theorem Knows.retries {r : ScheduledRow} {n : Nat} (hk : Knows t claimant st) (hr : r ∈ t.rows)
    (hheld : r.claimant = some claimant) (hhas : st.has r.eventID n) : r.retryCount = n := by
  obtain ⟨batch, todo, rfl, hmem⟩ := hhas
  exact hk r hr hheld n hmem

/-- A settlement by the claimant does not lower the retries, and keeps them in bounds. -/
theorem outcome_ok {used : List String} {r : ScheduledRow} (hall : (proto i).allowed st o)
    (hk : Knows t claimant st) (hr : r ∈ t.rows) (hok : RowOk used r) (ho : o.settles = some (r.eventID, claimant))
    (hheld : r.claimant = some claimant) :
    r.retryCount ≤ (o.outcome r).2 ∧ (o.outcome r).2 ≤ 8 ∧ ((o.outcome r).1 ≠ .failed → (o.outcome r).2 ≤ 7) := by
  have hle : r.retryCount ≤ 7 := by
    refine hok.unlessFailed ?_
    rw [(hok.claimant claimant hheld).2]
    decide
  cases o with
  | markReleased | rustMarkReleased => exact ⟨le_rfl, by simp only [Op.outcome]; omega, fun _ => hle⟩
  | markFailed =>
    simp only [Op.outcome]
    exact ⟨by omega, by omega, fun hne => absurd rfl hne⟩
  | scheduleRetry =>
    cases ho
    obtain ⟨-, n, hhas, hless⟩ := hall
    have := hk.retries hr hheld hhas
    simp only [Op.outcome]
    omega
  | rustScheduleRetry =>
    cases ho
    obtain ⟨-, n, hhas, rfl, hless⟩ := hall
    have := hk.retries hr hheld hhas
    simp only [Op.outcome]
    omega
  | rustMarkFailed =>
    cases ho
    obtain ⟨-, n, hhas, rfl⟩ := hall
    have := hk.retries hr hheld hhas
    simp only [Op.outcome]
    exact ⟨by omega, by omega, fun hne => absurd rfl hne⟩
  | _ => cases ho

/-- A statement that does not claim in the name of a claimant leaves what that one knows. -/
theorem Changes.knows (hc : Changes o v t t') (hother : ∀ c now, o.claims v = some (c, now) → c ≠ claimant)
    (hk : Knows t claimant st) : Knows t' claimant st := by
  -- a row of the claimant after the statement was its row before, with the same retries
  have hrow : ∀ r' ∈ t'.rows, r'.claimant = some claimant →
      ∃ r ∈ t.rows, r.claimant = some claimant ∧ r.eventID = r'.eventID ∧ r.retryCount = r'.retryCount := by
    intro r' hr' hown
    rcases hc.2 r' hr' with ⟨r, hr, hchange⟩ | ⟨e, payload, -, rfl⟩
    · cases hchange with
      | same => exact ⟨r', hr, hown, rfl, rfl⟩
      | claimed c now ho _ _ hclaimant _ _ =>
        cases hclaimant.symm.trans hown
        exact absurd rfl (hother _ now ho)
      | settled c _ _ _ _ hclaimant _ =>
        cases hclaimant.symm.trans hown
      | cancelled => exact ⟨r, hr, hown, rfl, rfl⟩
    · cases hown
  cases st with
  | lost => trivial
  | waiting =>
    intro r' hr' hown
    obtain ⟨r, hr, hold, -⟩ := hrow r' hr' hown
    exact hk r hr hold
  | holding batch todo =>
    intro r' hr' hown n hn
    obtain ⟨r, hr, hold, hid, hcount⟩ := hrow r' hr' hown
    rw [← hid] at hn
    rw [← hcount]
    exact hk r hr hold n hn

theorem Changes.rowOk {used : List String} (hc : Changes o v t t') (hall : (proto i).allowed st o)
    (hused : ∀ c, i.claimant = some c → c ∈ used ∧ Knows t c st) (hok : ∀ r ∈ t.rows, RowOk used r) :
    ∀ r' ∈ t'.rows, RowOk used r' := by
  intro r' hr'
  rcases hc.2 r' hr' with ⟨r, hr, hchange⟩ | ⟨e, payload, -, rfl⟩
  · have hrow := hok r hr
    cases hchange with
    | same => exact hrow
    | claimed c now ho hdue hstatus hclaimant _ hcount =>
      have hle : r'.retryCount ≤ 7 := by
        rw [hcount]
        refine hrow.unlessFailed ?_
        rcases hdue with hpending | ⟨hclaimed, -⟩
        · rw [hpending]
          decide
        · rw [hclaimed]
          decide
      refine ⟨?_, by omega, fun _ => hle⟩
      intro c' hc'
      cases hclaimant.symm.trans hc'
      exact ⟨(hused _ (claims_own hall ho).1).1, hstatus⟩
    | settled c ho hheld _ hout hclaimant _ =>
      have hown := settles_own hall ho
      obtain ⟨-, hmost, hless⟩ := outcome_ok hall (hused c hown).2 hr hrow ho hheld
      rw [← hout] at hmost hless
      refine ⟨?_, hmost, hless⟩
      intro c' hc'
      cases hclaimant.symm.trans hc'
    | cancelled _ hpending =>
      refine ⟨?_, hrow.most, fun _ => hrow.unlessFailed (by rw [hpending]; decide)⟩
      intro c' hc'
      rw [(hrow.claimant c' hc').2] at hpending
      cases hpending
  · exact ⟨nofun, by simp [Go.scheduledRow], fun _ => by simp [Go.scheduledRow]⟩

end

variable {jsonb : RawMessage → Option RawMessage} {d d' : Shared} {os : List Session} {s s' : Session}

theorem clock_ok {e : Err} : exec jsonb d os s .clock v ≠ some (d', s', .error e) := by
  intro h
  cases h

/-- The stage after a statement, and what the scheduler knows then. -/
theorem exec_knows {i : Input} {st : Stage} {a : Except Err o.Res} (hall : (proto i).allowed st o)
    (hk : ∀ claimant, i.claimant = some claimant → Knows d.table claimant st)
    (he : exec jsonb d os (session i st) o v = some (d', s', a)) :
    ∃ st', (proto i).trans st o a st' ∧ s' = session i st' ∧
      ∀ claimant, i.claimant = some claimant → Knows d'.table claimant st' := by
  obtain ⟨rfl, -, hchanges, hanswer⟩ := exec_changes he
  -- a batch of rows of the table has their retries
  have hbatch : ∀ (batch : List (String × Nat)) (todo : List String),
      (∀ e ∈ batch, ∃ r ∈ d'.table.rows, r.eventID = e.1 ∧ r.retryCount = e.2) →
      ∀ claimant, i.claimant = some claimant → Knows d'.table claimant (.holding batch todo) := by
    intro batch todo hrows claimant _ r hr _ n hn
    obtain ⟨r', hr', hid, hcount⟩ := hrows _ hn
    obtain rfl := Rows.eq_of_key hr' hr hid
    exact hcount
  have hkeep : o.claims v = none → ∀ claimant, i.claimant = some claimant → Knows d'.table claimant st := by
    intro hnone claimant hi
    refine hchanges.knows ?_ (hk claimant hi)
    intro c now hc
    rw [hnone] at hc
    cases hc
  cases o with
  | clock =>
    cases a with
    | error e => exact absurd he clock_ok
    | ok now => exact ⟨st, rfl, rfl, hkeep rfl⟩
  | claim eventIDs claimant leaseTTL now =>
    cases a with
    | error e =>
      obtain rfl := hall.2
      exact ⟨.lost, rfl, rfl, fun _ _ => trivial⟩
    | ok events =>
      refine ⟨_, rfl, rfl, hbatch _ _ ?_⟩
      intro e he
      obtain ⟨event, hevent, rfl⟩ := List.mem_map.mp he
      obtain ⟨r, hr, hid, hcount, -⟩ := (Go.claimScheduled_from (hanswer events rfl) hevent).1
      exact ⟨r, hr, hid, hcount⟩
  | claimDue claimant batchSize =>
    cases a with
    | error e =>
      obtain rfl := hall.2
      exact ⟨.lost, rfl, rfl, fun _ _ => trivial⟩
    | ok rows =>
      refine ⟨_, rfl, rfl, hbatch _ _ ?_⟩
      intro e he
      obtain ⟨row, hrow, rfl⟩ := List.mem_map.mp he
      obtain ⟨htable, hrows⟩ := Prod.mk.inj (hanswer rows rfl)
      cases hrows
      rw [← htable]
      exact ⟨row, (claimDue_rows _ _ _ _ _ row hrow).1, rfl, rfl⟩
  | publish env =>
    -- only a scheduler with a batch publishes
    cases st with
    | waiting => cases hall
    | lost => cases hall
    | holding batch todo => exact ⟨_, rfl, rfl, hkeep rfl⟩
  | rustMarkReleased | rustScheduleRetry | rustMarkFailed =>
    cases a with
    | error e => exact ⟨.lost, rfl, rfl, fun _ _ => trivial⟩
    | ok x => exact ⟨st, rfl, rfl, hkeep rfl⟩
  | _ => exact ⟨st, rfl, rfl, hkeep rfl⟩

theorem server_sound (jsonb : RawMessage → Option RawMessage) : Sound (server jsonb) proto view where
  start := by
    intro d i d' s p os hg hopen h
    change start d i = some (d', s, p) at h
    unfold start at h
    cases hi : i.claimant with
    | none =>
      rw [hi] at h
      cases h
      refine ⟨hg, ⟨.waiting, ⟨by rw [session, hi]; rfl, ?_⟩, program_wp i⟩, ?_, fun _ _ _ _ hr => hr, fun _ _ hp => hp⟩
      · intro claimant hc
        cases hi.symm.trans hc
      · intro s' _
        exact ⟨nofun, fun _ _ => nofun⟩
    | some claimant =>
      rw [hi] at h
      simp only at h
      split at h
      · cases h
      rename_i hfresh
      cases h
      refine ⟨?_, ⟨.waiting, ⟨by rw [session, hi]; rfl, ?_⟩, program_wp i⟩, ?_, ?_, fun _ _ hp => hp⟩
      · intro r hr
        have hrow := hg r hr
        refine ⟨fun c hc => ⟨List.mem_cons_of_mem _ (hrow.claimant c hc).1, (hrow.claimant c hc).2⟩, hrow.most,
          hrow.unlessFailed⟩
      · intro c hc
        cases hi.symm.trans hc
        refine ⟨List.mem_cons_self, ?_⟩
        intro r hr hown
        exact hfresh ((hg r hr).claimant _ hown).1
      · -- the claimants of the open sessions are used ones
        intro s' hs'
        obtain ⟨i', st', rfl, hused⟩ := hopen s' hs'
        have hne : i'.claimant ≠ some claimant := fun hsame => hfresh (hused claimant hsame).1
        refine ⟨?_, ?_⟩
        · intro c hc
          cases hc
          exact hne
        · rintro c hc hc'
          cases hc'
          exact hne hc
      · intro i' st' s' _ hr
        exact ⟨hr.1, fun c hc => ⟨List.mem_cons_of_mem _ (hr.2 c hc).1, (hr.2 c hc).2⟩⟩
  exec := by
    rintro i d os s st o v d' s' a hg ⟨rfl, hrep⟩ hall hexcl he
    change exec jsonb d os (session i st) o v = some (d', s', a) at he
    obtain ⟨-, hused, hchanges, -⟩ := exec_changes he
    obtain ⟨st', htrans, rfl, hknows⟩ := exec_knows hall (fun c hc => (hrep c hc).2) he
    refine ⟨?_, ⟨st', htrans, rfl, ?_⟩, hexcl, ?_, fun _ _ hp => hp⟩
    · intro r hr
      rw [hused]
      exact hchanges.rowOk hall hrep hg r hr
    · intro c hc
      rw [hused]
      exact ⟨(hrep c hc).1, hknows c hc⟩
    · rintro i' st₂ s₂ hs₂ ⟨rfl, hrep₂⟩
      refine ⟨rfl, ?_⟩
      intro c hc
      rw [hused]
      refine ⟨(hrep₂ c hc).1, hchanges.knows ?_ (hrep₂ c hc).2⟩
      rintro c' now hclaims rfl
      exact (hexcl _ hs₂).1 c' (claims_own hall hclaims).1 hc
  fin _ _ _ := trivial
  env {_ _ v _} _ _ := nomatch v

/-! Every step of every run. -/

/-- The step is the statement `o` of some client, with its outside choices. -/
def Runs (w : World) (a : Act) (o : Op) (v : Oracle) : Prop :=
  ∃ (c : Nat) (i : Input) (s : Session) (k : Except Err o.Res → P Unit),
    a = .exec c v ∧ w.clients[c]? = some ⟨i, s, .running (.stmt o k)⟩

def isFinal : ScheduledStatus → Bool
  | .released | .failed | .cancelled => true
  | _ => false

structure StepOk (w : World) (a : Act) (r r' : ScheduledRow) : Prop where
  final : isFinal r.status = true → r'.status = r.status
  replaced : r.status = .claimed → r'.status = .claimed → r'.claimant ≠ r.claimant →
    ∃ o v claimant now expires, Runs w a o v ∧ o.claims v = some (claimant, now) ∧ r'.claimant = some claimant ∧
      r.claimExpiresAt = some expires ∧ expires ≤ now
  left : r.status = .claimed → r'.status ≠ .claimed →
    ∃ o v claimant expires, Runs w a o v ∧ o.settles = some (r.eventID, claimant) ∧ r.claimant = some claimant ∧
      r.claimExpiresAt = some expires ∧ v.now < expires
  retries : r.retryCount ≤ r'.retryCount

theorem stepOk_refl (w : World) (a : Act) (r : ScheduledRow) : StepOk w a r r :=
  ⟨fun _ => rfl, fun _ _ hne => absurd rfl hne, fun h hne => absurd h hne, le_rfl⟩

theorem Change.stepOk {a : Act} {r r' : ScheduledRow} {used : List String}
    (h : Change o v r r') (hruns : Runs w a o v) (hok : RowOk used r)
    (hout : ∀ claimant, o.settles = some (r.eventID, claimant) → r.claimant = some claimant →
      r.retryCount ≤ (o.outcome r).2) : StepOk w a r r' := by
  cases h with
  | same => exact stepOk_refl w a r
  | claimed claimant now ho hdue hstatus hclaimant _ hcount =>
    refine ⟨?_, ?_, fun _ hne => absurd hstatus hne, hcount.ge⟩
    · intro hfinal
      rcases hdue with hpending | ⟨hclaimed, -⟩
      · rw [hpending] at hfinal
        cases hfinal
      · rw [hclaimed] at hfinal
        cases hfinal
    · intro hclaimed _ _
      rcases hdue with hpending | ⟨-, expires, hexp, hle⟩
      · cases hclaimed.symm.trans hpending
      · exact ⟨o, v, claimant, now, expires, hruns, ho, hclaimant, hexp, hle⟩
  | settled claimant ho hheld hlive hstatus hclaimant _ =>
    obtain ⟨expires, hexp, hlt⟩ := hlive
    have hclaimed := (hok.claimant claimant hheld).2
    have hcount : r'.retryCount = (o.outcome r).2 := congrArg Prod.snd hstatus
    refine ⟨?_, ?_, fun _ _ => ⟨o, v, claimant, expires, hruns, ho, hheld, hexp, hlt⟩, ?_⟩
    · intro hfinal
      rw [hclaimed] at hfinal
      cases hfinal
    · -- a settlement leaves the claimed rows
      intro _ hstill _
      have hleaves : (o.outcome r).1 ≠ .claimed := by
        cases o <;> simp [Op.outcome]
      exact absurd ((congrArg Prod.fst hstatus).symm.trans hstill) hleaves
    · rw [hcount]
      exact hout claimant ho hheld
  | cancelled _ hpending =>
    refine ⟨?_, ?_, ?_, le_rfl⟩
    · intro hfinal
      rw [hpending] at hfinal
      cases hfinal
    · intro hclaimed
      cases hclaimed.symm.trans hpending
    · intro hclaimed
      cases hclaimed.symm.trans hpending

theorem cancel_ok {tenantID eventID : String}
    (h : exec jsonb d os s (.cancel tenantID eventID) v = some (d', s', .ok ())) :
    ∃ r ∈ d.table.rows, r.eventID = eventID ∧ r.tenantID = tenantID ∧ r.status = .pending ∧
      { r with status := .cancelled } ∈ d'.table.rows := by
  obtain ⟨-, -, -, hanswer⟩ := exec_changes h
  obtain ⟨r, hr, htenant, hid, hpending, hafter⟩ := Go.cancelScheduled_ok (hanswer () rfl)
  exact ⟨r, hr, hid, htenant, hpending, hafter⟩

theorem start_shared {i : Input} {p : P Unit} (h : start d i = some (d', s, p)) :
    d'.table = d.table ∧ d'.log = d.log ∧ s.batch = [] ∧ p = i.program := by
  unfold start at h
  split at h
  · cases h
    exact ⟨rfl, rfl, rfl, rfl⟩
  · split at h <;> cases h
    exact ⟨rfl, rfl, rfl, rfl⟩

/-- Every row stays in every step, changed as above or not at all. -/
theorem next_rows {w' : World} {a : Act} (hall : Holds proto view w) (hn : next (server jsonb) w a = some w') :
    ∀ r ∈ w.db.table.rows, ∃ r' ∈ w'.db.table.rows, r'.eventID = r.eventID ∧ StepOk w a r r' := by
  intro r hr
  have hsame : w'.db.table = w.db.table → ∃ r' ∈ w'.db.table.rows, r'.eventID = r.eventID ∧ StepOk w a r r' := by
    intro htable
    rw [htable]
    exact ⟨r, hr, rfl, stepOk_refl w a r⟩
  cases next_step hn with
  | start hst => exact hsame (start_shared hst).1
  | @exec c v i s o k d s' x hc he =>
    obtain ⟨st, ⟨rfl, hrep⟩, hallowed, -⟩ := hall.running c i s _ hc
    change exec jsonb w.db (sessions (w.clients.eraseIdx c)) _ o v = _ at he
    obtain ⟨-, -, hchanges, -⟩ := exec_changes he
    obtain ⟨r', hr', hchange⟩ := hchanges.1 r hr
    refine ⟨r', hr', hchange.eventID, hchange.stepOk ⟨c, i, _, k, rfl, hc⟩ (hall.glob r hr) ?_⟩
    intro claimant ho hheld
    exact (outcome_ok hallowed (hrep claimant (settles_own hallowed ho)).2 hr (hall.glob r hr) ho hheld).1
  | stop => exact hsame rfl
  | @env v => exact nomatch v

theorem holds_init (hw : Machine.Reachable (next (server jsonb)) init w) : Holds proto view w := by
  refine holds_reachable (server_sound jsonb) ?_ hw
  intro r hr
  cases hr

/-- In every reachable state and for every step from it: every row stays, and changes as
    above; the retries are within their bounds; and a cancellation only succeeds on a
    pending row of its tenant. -/
theorem scheduled_states {jsonb : RawMessage → Option RawMessage} {w w' : World} {a : Act}
    (hw : Machine.Reachable (next (server jsonb)) init w) (hn : next (server jsonb) w a = some w') :
    (∀ r ∈ w.db.table.rows, ∃ r' ∈ w'.db.table.rows, r'.eventID = r.eventID ∧ StepOk w a r r') ∧
    (∀ r ∈ w.db.table.rows, r.retryCount ≤ 8 ∧ (r.status ≠ .failed → r.retryCount ≤ 7)) ∧
    ∀ (c : Nat) i s tenantID eventID k v d' s', a = .exec c v →
      w.clients[c]? = some ⟨i, s, .running (.stmt (.cancel tenantID eventID) k)⟩ →
      (server jsonb).exec w.db (sessions (w.clients.eraseIdx c)) s (.cancel tenantID eventID) v =
        some (d', s', .ok ()) →
      ∃ r ∈ w.db.table.rows, r.eventID = eventID ∧ r.tenantID = tenantID ∧ r.status = .pending := by
  have hall := holds_init hw
  refine ⟨next_rows hall hn, ?_, ?_⟩
  · intro r hr
    exact ⟨(hall.glob r hr).most, (hall.glob r hr).unlessFailed⟩
  · intro c _ s tenantID eventID _ v d' s' _ _ h
    change exec jsonb w.db (sessions (w.clients.eraseIdx c)) s _ v = _ at h
    obtain ⟨r, hr, hid, htenant, hpending, -⟩ := cancel_ok h
    exact ⟨r, hr, hid, htenant, hpending⟩

/-! A claim that expires is taken over. -/

namespace Takeover

def reminder : ScheduledEvent :=
  ⟨"e-1", "acme", "reminder", "k-1", "", "null", [], 63902822400000000, .pending, none, 0, "", 63902822400000000, none⟩

def turns : List Act :=
  [.start (.save reminder), .exec 0 (fine 63902822400000000), .start (.rustRound "a" 100),
   .exec 1 (fine 63902822400000000), .start (.rustRound "b" 100)]

def turn : Act := .exec 2 (fine 63902826000000000)

end Takeover

theorem taken_over :
    ∃ w w' : World, Machine.run (next (server some)) init Takeover.turns = some w ∧
      next (server some) w Takeover.turn = some w' ∧
      w.db.table.rows.map ScheduledRow.claimant = [some "scheduler-a"] ∧
      w'.db.table.rows.map ScheduledRow.claimant = [some "scheduler-b"] ∧
      ∀ r ∈ w.db.table.rows, ∃ r' ∈ w'.db.table.rows, r'.eventID = r.eventID ∧ StepOk w Takeover.turn r r' := by
  refine ⟨_, _, rfl, rfl, by decide +kernel, by decide +kernel, ?_⟩
  exact (@scheduled_states some _ _ Takeover.turn ⟨Takeover.turns, rfl⟩ rfl).1

end FlowRule.Scheduled
