import FlowRule.Http.Responses
import FlowRule.Lib.Handle
import FlowRule.Scheduled.Mongo

/- The requests of the scheduling API (internal/adapters/http/handlers/scheduled.go) and the turns
   of the schedulers, one after another, on either store.

   The client may choose the identity of its event, and both stores have one row for an identity,
   whoever the tenant is: Save answers that it has stored the event when another tenant's event is
   there already. On PostgreSQL Get cannot read the event either way (`getScheduled_saved`).
   `isolated_iff` says that what is left is the case that the store is MongoDB and the identity is
   free. Entries are the data of an event that a message carries; only Save adds one. -/
namespace FlowRule.Scheduled

open Prog

structure Entry where
  eventID : String
  tenantID : String
  eventType : String
  partitionKey : String
  payload : RawMessage
  deriving DecidableEq, Repr

def eventEntry (e : ScheduledEvent) : Entry := ⟨e.eventID, e.tenantID, e.eventType, e.partitionKey, e.payload⟩

def rowEntry (r : ScheduledRow) : Entry := ⟨r.eventID, r.tenantID, r.eventType, r.partitionKey, r.payload⟩

def docEntry (d : ScheduledDoc) : Entry := ⟨d.eventID, d.tenantID, d.eventType, d.partitionKey, d.payload⟩

def messageEntry (env : EventEnvelope) : Entry := ⟨env.id, env.tenantID, env.type, env.partitionKey, env.data⟩

/-! The two stores. -/

inductive Backend where
  | postgres
  | mongo
  deriving DecidableEq, Repr

namespace Backend

abbrev Store : Backend → Type
  | postgres => ScheduledTable
  | mongo => ScheduledCollection

def empty : (b : Backend) → b.Store
  | postgres => Rows.empty
  | mongo => Rows.empty

def entries : (b : Backend) → b.Store → List Entry
  | postgres, t => t.rows.map rowEntry
  | mongo, c => c.rows.map docEntry

def perform (jsonb : RawMessage → Option RawMessage) : (b : Backend) → b.Store → Oracle → (o : Op) →
    b.Store × Except Err o.Res
  | postgres, t, v, o => Scheduled.perform jsonb t v o
  | mongo, c, v, o => Mongo.perform c v o

def failure : Backend → Oracle → Op → Option Err
  | postgres => Scheduled.failure
  | mongo => Mongo.failure

/-- One call: it is performed and answered, or its answer is lost, or it fails without
    effect. -/
def call (jsonb : RawMessage → Option RawMessage) (b : Backend) (t : b.Store) (v : Oracle) (o : Op) :
    b.Store × Except Err o.Res :=
  match b.failure v o with
  | none => b.perform jsonb t v o
  | some e => (if v.lost then (b.perform jsonb t v o).1 else t, .error (context o e))

def get : (b : Backend) → b.Store → String → String → Except Err (Option ScheduledEvent)
  | postgres, t, tenantID, eventID => Go.getScheduled t tenantID eventID
  | mongo, c, tenantID, eventID => .ok (Mongo.getScheduled c tenantID eventID)

end Backend

/-! The handlers. -/

def scheduled (tenantID newID : String) (now : Time) (evt : ScheduledEvent) : ScheduledEvent :=
  { evt with
    tenantID := tenantID, eventID := if evt.eventID = "" then newID else evt.eventID, status := .pending,
    createdAt := now }

section
variable (jsonb : RawMessage → Option RawMessage) (b : Backend)

def scheduleEvent (t : b.Store) (tenantID : String) (body : Except Err ScheduledEvent) (newID : String) (now : Time)
    (v : Oracle) : b.Store × Response ScheduledEvent :=
  match body with
  | .error e => (t, .error 400 (messageInvalidBodyPrefix ++ e.text) "INVALID_JSON")
  | .ok evt =>
    if evt.tenantID ≠ "" ∧ evt.tenantID ≠ tenantID then (t, .error 403 messageTenantMismatch "FORBIDDEN")
    else if evt.eventType = "" ∨ evt.partitionKey = "" then
      (t, .error 400 "event_type and partition_key are required" "VALIDATION_FAILED")
    else if evt.scheduledAt = 0 then (t, .error 400 "scheduled_at is required" "VALIDATION_FAILED")
    else
      match b.call jsonb t v (.save (scheduled tenantID newID now evt)) with
      | (t', .error e) => (t', .error 500 e.text "INTERNAL_ERROR")
      | (t', .ok _) => (t', .created (scheduled tenantID newID now evt))

def getScheduledEvent (t : b.Store) (tenantID eventID : String) : Response ScheduledEvent :=
  if eventID = "" then .error 400 "eventID is required" "BAD_REQUEST"
  else
    match b.get t tenantID eventID with
    | .error e => .error 500 e.text "INTERNAL_ERROR"
    | .ok none => .error 404 messageNotFound "NOT_FOUND"
    | .ok (some evt) => .ok evt

def cancelScheduledEvent (t : b.Store) (tenantID eventID : String) (v : Oracle) : b.Store × Response Unit :=
  if eventID = "" then (t, .error 400 "eventID is required" "BAD_REQUEST")
  else
    match b.call jsonb t v (.cancel tenantID eventID) with
    | (t', .error _) => (t', .error 409 "event was not found for this tenant or is no longer pending" "CONFLICT")
    | (t', .ok _) => (t', .success 204 ())

end

/-! Requests and schedulers, one after another. -/

structure Site (b : Backend) where
  store : b.Store
  sent : List EventEnvelope

/-- A request with its outside, or a turn of a scheduler with the outside of each of its
    calls. -/
inductive Turn where
  | schedule (tenantID : String) (body : Except Err ScheduledEvent) (newID : String) (now : Time) (v : Oracle)
  | cancel (tenantID eventID : String) (v : Oracle)
  | goTick (id : String) (batchSize : Int) (vs : Nat → Oracle)
  | rustRound (id : String) (batchSize : Nat) (vs : Nat → Oracle)

def Turn.tenant : Turn → Option String
  | .schedule tenantID _ _ _ _ => some tenantID
  | .cancel tenantID _ _ => some tenantID
  | _ => none

def sentBy (v : Oracle) : Op → List EventEnvelope
  | .publish env => if v.fail.isNone || v.lost then [env] else []
  | _ => []

def answer (jsonb : RawMessage → Option RawMessage) (b : Backend) (vs : Nat → Oracle) (o : Op) (st : Site b × Nat) :
    Except Err o.Res × (Site b × Nat) :=
  ((b.call jsonb st.1.store (vs st.2) o).2,
    (⟨(b.call jsonb st.1.store (vs st.2) o).1, st.1.sent ++ sentBy (vs st.2) o⟩, st.2 + 1))

/-- A turn; there are Rust workers on PostgreSQL only. -/
def step (jsonb : RawMessage → Option RawMessage) (b : Backend) (u : Site b) : Turn → Option (Site b)
  | .schedule tenantID body newID now v =>
    some { u with store := (scheduleEvent jsonb b u.store tenantID body newID now v).1 }
  | .cancel tenantID eventID v => some { u with store := (cancelScheduledEvent jsonb b u.store tenantID eventID v).1 }
  | .goTick id batchSize vs =>
    some (handle (answer jsonb b vs) (Go.tick ("scheduler-" ++ id) batchSize) (u, 0)).2.1
  | .rustRound id batchSize vs =>
    if b = .postgres then
      some (handle (answer jsonb b vs) (Rust.round ("scheduler-" ++ id) batchSize) (u, 0)).2.1
    else none

/-! What a tenant sees of its event. -/

/-- Whatever others do from now on, the event is read back, messages with its identity carry
    its data, and such a message can still be sent. -/
structure Isolated (jsonb : RawMessage → Option RawMessage) (b : Backend) (u : Site b) (evt : ScheduledEvent) :
    Prop where
  read : ∀ turns u', (∀ a ∈ turns, a.tenant ≠ some evt.tenantID) → Machine.run (step jsonb b) u turns = some u' →
    ∃ e, getScheduledEvent b u'.store evt.tenantID evt.eventID = .ok e ∧ eventEntry e = eventEntry evt
  sent : ∀ turns u', (∀ a ∈ turns, a.tenant ≠ some evt.tenantID) → Machine.run (step jsonb b) u turns = some u' →
    ∀ envs, u'.sent = u.sent ++ envs → ∀ env ∈ envs, env.id = evt.eventID → messageEntry env = eventEntry evt
  published : ∃ turns u' envs, (∀ a ∈ turns, a.tenant ≠ some evt.tenantID) ∧
    Machine.run (step jsonb b) u turns = some u' ∧ u'.sent = u.sent ++ envs ∧
    ∃ env ∈ envs, messageEntry env = eventEntry evt

/-! No call changes an entry. -/

namespace Mongo

theorem claimScheduledEvent_entries (c : ScheduledCollection) (eventID claimant : String) (now expiresAt : Time) :
    (claimScheduledEvent c eventID claimant now expiresAt).1.rows.map docEntry = c.rows.map docEntry :=
  Rows.map_update (by exact fun _ => rfl) (by exact fun _ => rfl)

theorem claimScheduledEvents_entries (v : Oracle) (claimant : String) (now expiresAt : Time) (eventIDs : List String) :
    ∀ c : ScheduledCollection,
      (claimScheduledEvents v claimant now expiresAt eventIDs c).1.rows.map docEntry = c.rows.map docEntry ∧
        ∀ events, (claimScheduledEvents v claimant now expiresAt eventIDs c).2 = .ok events →
          ∀ e ∈ events, eventEntry e ∈ c.rows.map docEntry := by
  induction eventIDs with
  | nil =>
    intro c
    refine ⟨rfl, ?_⟩
    intro events h
    cases h
    exact nofun
  | cons eventID rest ih =>
    intro c
    have hkept := claimScheduledEvent_entries c eventID claimant now expiresAt
    obtain ⟨hrest, hevents⟩ := ih (claimScheduledEvent c eventID claimant now expiresAt).1
    simp only [claimScheduledEvents]
    split
    · refine ⟨?_, nofun⟩
      split
      · exact hkept
      · rfl
    · refine ⟨hrest.trans hkept, ?_⟩
      intro events h e he
      obtain ⟨others, hothers, rfl⟩ := Checks.map_ok.mp h
      rcases List.mem_append.mp he with he | he
      · obtain ⟨d, hd, rfl⟩ := Option.map_eq_some_iff.mp (Option.mem_toList.mp he)
        exact List.mem_map.mpr ⟨d, List.mem_of_find?_eq_some hd, rfl⟩
      · rw [← hkept]
        exact hevents others hothers e he

theorem settleScheduled_entries {c : ScheduledCollection} {action eventID claimant : String} {t : Time}
    {f : ScheduledDoc → ScheduledDoc} (hf : ∀ d, (f d).eventID = d.eventID) (hkept : ∀ d, docEntry (f d) = docEntry d) :
    (settleScheduled c action eventID claimant t f hf).1.rows.map docEntry = c.rows.map docEntry := by
  dsimp only [settleScheduled]
  split <;> exact Rows.map_update hf hkept

theorem perform_entries (c : ScheduledCollection) (v : Oracle) (o : Op) (ho : ∀ e, o ≠ .save e) :
    (perform c v o).1.rows.map docEntry = c.rows.map docEntry := by
  cases o with
  | claim eventIDs claimant leaseTTL now =>
    simp only [perform, claimScheduled]
    split
    · rfl
    split
    · rfl
    split
    · rfl
    · exact (claimScheduledEvents_entries v claimant now _ eventIDs c).1
  | markReleased | scheduleRetry | markFailed =>
    exact settleScheduled_entries (by exact fun _ => rfl) (by exact fun _ => rfl)
  | save e => exact absurd rfl (ho e)
  | cancel tenantID eventID =>
    dsimp only [perform, cancelScheduled]
    split <;> exact Rows.map_update (by exact fun _ => rfl) (by exact fun _ => rfl)
  | _ => rfl

theorem claim_entries {c : ScheduledCollection} {v : Oracle} {eventIDs : List String} {claimant : String}
    {leaseTTL : Int} {now : Time} {events : List ScheduledEvent}
    (h : (claimScheduled v c eventIDs claimant leaseTTL now).2 = .ok events) :
    ∀ e ∈ events, eventEntry e ∈ c.rows.map docEntry := by
  unfold claimScheduled at h
  split at h
  · cases h
    exact nofun
  · split at h
    · cases h
    · split at h
      · cases h
      · exact (claimScheduledEvents_entries v claimant now _ eventIDs c).2 events h

end Mongo

theorem goSettle_entries {t : ScheduledTable} {action eventID claimant : String} {now : Time}
    {f : ScheduledRow → ScheduledRow} (hf : ∀ r, (f r).eventID = r.eventID) (hkept : ∀ r, rowEntry (f r) = rowEntry r) :
    (Go.settleScheduled t action eventID claimant now f hf).1.rows.map rowEntry = t.rows.map rowEntry := by
  dsimp only [Go.settleScheduled]
  split <;> exact Rows.map_update hf hkept

theorem rustClaim_entries (t : ScheduledTable) (claimant : String) (batchSize : Nat) (locked : List String)
    (now : Time) :
    (Rust.claimDueEvents t claimant batchSize locked now).1.rows.map rowEntry = t.rows.map rowEntry ∧
      ∀ r ∈ (Rust.claimDueEvents t claimant batchSize locked now).2, rowEntry r ∈ t.rows.map rowEntry := by
  dsimp only [Rust.claimDueEvents]
  refine ⟨Rows.map_update (by exact fun _ => rfl) (by exact fun _ => rfl), ?_⟩
  intro r hr
  obtain ⟨old, hold, rfl⟩ := List.mem_map.mp hr
  exact List.mem_map.mpr ⟨old, (List.mem_filter.mp hold).1, rfl⟩

theorem perform_entries (jsonb : RawMessage → Option RawMessage) (t : ScheduledTable) (v : Oracle) (o : Op)
    (ho : ∀ e, o ≠ .save e) : (perform jsonb t v o).1.rows.map rowEntry = t.rows.map rowEntry := by
  cases o with
  | claim eventIDs claimant leaseTTL now =>
    simp only [perform, Go.claimScheduled]
    split
    · rfl
    split
    · rfl
    split
    · rfl
    · exact Rows.map_update (by exact fun _ => rfl) (by exact fun _ => rfl)
  | claimDue claimant batchSize => exact (rustClaim_entries t claimant batchSize v.locked v.now).1
  | markReleased | scheduleRetry | markFailed => exact goSettle_entries (by exact fun _ => rfl) (by exact fun _ => rfl)
  | rustMarkReleased | rustScheduleRetry | rustMarkFailed =>
    exact Rows.map_update (by exact fun _ => rfl) (by exact fun _ => rfl)
  | save e => exact absurd rfl (ho e)
  | cancel tenantID eventID =>
    dsimp only [perform, Go.cancelScheduled]
    split <;> exact Rows.map_update (by exact fun _ => rfl) (by exact fun _ => rfl)
  | _ => rfl

section
variable {jsonb : RawMessage → Option RawMessage} {b : Backend} {t : b.Store} {v : Oracle}

theorem call_entries {o : Op} (ho : ∀ e, o ≠ .save e) : b.entries (b.call jsonb t v o).1 = b.entries t := by
  have hperform : b.entries (b.perform jsonb t v o).1 = b.entries t := by
    cases b with
    | postgres => exact perform_entries jsonb t v o ho
    | mongo => exact Mongo.perform_entries t v o ho
  unfold Backend.call
  split
  · exact hperform
  split
  · exact hperform
  · rfl

theorem call_ok {o : Op} {x : o.Res} {t' : b.Store} (h : b.call jsonb t v o = (t', .ok x)) :
    b.perform jsonb t v o = (t', .ok x) := by
  unfold Backend.call at h
  split at h
  · exact h
  · cases h

theorem call_claim {eventIDs : List String} {claimant : String} {leaseTTL : Int} {now : Time}
    {events : List ScheduledEvent} (h : (b.call jsonb t v (.claim eventIDs claimant leaseTTL now)).2 = .ok events) :
    ∀ e ∈ events, eventEntry e ∈ b.entries t := by
  have hperform := call_ok (Prod.ext rfl h)
  cases b with
  | postgres =>
    intro e he
    obtain ⟨-, old, hold, hkept⟩ := Go.claimScheduled_from hperform he
    exact List.mem_map.mpr ⟨old, hold, by simp only [rowEntry, eventEntry, hkept]⟩
  | mongo => exact Mongo.claim_entries (congrArg Prod.snd hperform)

theorem call_claimDue {claimant : String} {batchSize : Nat} {rows : List ScheduledRow}
    (h : (b.call jsonb t v (.claimDue claimant batchSize)).2 = .ok rows) : ∀ r ∈ rows, rowEntry r ∈ b.entries t := by
  have hperform := congrArg Prod.snd (call_ok (Prod.ext rfl h))
  cases b with
  | postgres =>
    cases hperform
    exact (rustClaim_entries t claimant batchSize v.locked v.now).2
  | mongo => cases hperform

theorem call_save (e : ScheduledEvent) : b.entries (b.call jsonb t v (.save e)).1 = b.entries t ∨
    ∃ entry, entry.eventID = e.eventID ∧ entry.tenantID = e.tenantID ∧
      b.entries (b.call jsonb t v (.save e)).1 = b.entries t ++ [entry] := by
  have hperform : b.entries (b.perform jsonb t v (.save e)).1 = b.entries t ∨
      ∃ entry, entry.eventID = e.eventID ∧ entry.tenantID = e.tenantID ∧
        b.entries (b.perform jsonb t v (.save e)).1 = b.entries t ++ [entry] := by
    cases b with
    | postgres =>
      simp only [Backend.perform, perform, Go.saveScheduled]
      cases jsonb e.payload with
      | none => exact .inl rfl
      | some payload =>
        rcases @Rows.map_insert _ _ _ t (Go.scheduledRow e payload) _ _ rowEntry with h | ⟨-, h⟩
        · exact .inl h
        · exact .inr ⟨_, rfl, rfl, h⟩
    | mongo =>
      rcases @Rows.map_insert _ _ _ t (.fromDomain e) _ _ docEntry with h | ⟨-, h⟩
      · exact .inl h
      · exact .inr ⟨_, rfl, rfl, h⟩
  unfold Backend.call
  split
  · exact hperform
  split
  · exact hperform
  · exact .inl rfl

end

/-! What the schedulers send. -/

/-- A scheduler saves nothing, and publishes entries that a claim has given it. -/
def entryProto (E : List Entry) : Proto Op Op.Res Err Unit where
  allowed _ o := match o with
    | .save _ => False
    | .publish env => messageEntry env ∈ E
    | _ => True
  trans _ o a _ := match o, a with
    | .claim _ _ _ _, .ok events => ∀ e ∈ events, eventEntry e ∈ E
    | .claimDue _ _, .ok rows => ∀ r ∈ rows, rowEntry r ∈ E
    | _, _ => True

section
variable {E : List Entry} {claimant : String}

open Prog

theorem carries_processClaimedEvents : ∀ events : List ScheduledEvent, (∀ e ∈ events, eventEntry e ∈ E) →
    Within (entryProto E) (Go.processClaimedEvents claimant events) := by
  intro events
  induction events with
  | nil => exact fun _ => within_pure ()
  | cons event rest ih =>
    intro hE
    refine Within.bind ?_ (fun _ => ih (fun e he => hE e (List.mem_cons_of_mem _ he)))
    have hpublish : Within (entryProto E) (Go.releaseEvent event) :=
      Within.bind (within_call trivial) (fun _ => within_call (hE event List.mem_cons_self))
    refine hpublish.caught.bind ?_
    rintro (e | _)
    · show Within (entryProto E) (Go.handleReleaseFailure event claimant e)
      unfold Go.handleReleaseFailure
      split
      · exact Within.bind (Within.caught (within_call trivial)) (fun _ => within_pure ())
      · exact Within.bind (within_call trivial)
          (fun _ => Within.bind (Within.caught (within_call trivial)) (fun _ => within_pure ()))
    · exact Within.bind (within_call trivial)
        (fun _ => Within.bind (Within.caught (within_call trivial)) (fun _ => within_pure ()))

theorem carries_tick (batchSize : Int) : Within (entryProto E) (Go.tick claimant batchSize) := by
  refine Within.bind (within_call trivial) (fun now => Within.bind (Within.caught (within_call trivial)) ?_)
  rintro (e | _ | ⟨event, rest⟩)
  · exact within_pure ()
  · exact within_pure ()
  · refine wp_bind.mpr (wp_caught.mpr (wp_bind.mpr (wp_call.mpr ⟨trivial, ?_⟩)))
    rintro (e | now') - -
    · exact within_pure ()
    refine wp_call.mpr ⟨trivial, ?_⟩
    rintro (e | claimed) ⟨⟩ htrans
    · exact within_pure ()
    · exact carries_processClaimedEvents claimed htrans

theorem carries_processScheduledEvents : ∀ rows : List ScheduledRow, (∀ r ∈ rows, rowEntry r ∈ E) →
    Within (entryProto E) (Rust.processScheduledEvents claimant rows) := by
  intro rows
  induction rows with
  | nil => exact fun _ => within_pure ()
  | cons row rest ih =>
    intro hE
    refine Within.bind ?_ (fun _ => ih (fun r hr => hE r (List.mem_cons_of_mem _ hr)))
    refine Within.bind (within_call trivial) ?_
    intro now
    refine Within.bind (Within.caught (Within.wrap (within_call (hE row List.mem_cons_self)))) ?_
    rintro (e | _)
    · show Within (entryProto E) (Rust.recordPublishFailure claimant row.eventID row.retryCount e.display)
      unfold Rust.recordPublishFailure
      split <;> exact within_call trivial
    · exact within_call trivial

theorem carries_round (batchSize : Nat) : Within (entryProto E) (Rust.round claimant batchSize) := by
  refine wp_bind.mpr (wp_call.mpr ⟨trivial, ?_⟩)
  rintro (e | rows) ⟨⟩ htrans
  · trivial
  · exact carries_processScheduledEvents rows htrans

end

section
variable {jsonb : RawMessage → Option RawMessage} {b : Backend} {u u' : Site b}

/-- Since `u` the entries have not changed, and only such were sent. -/
def Sends (b : Backend) (u : Site b) (st : Site b × Nat) : Prop :=
  b.entries st.1.store = b.entries u.store ∧
    ∃ envs, st.1.sent = u.sent ++ envs ∧ ∀ env ∈ envs, messageEntry env ∈ b.entries u.store

/-- A call of a scheduler is answered within its protocol. -/
theorem answer_sends (jsonb : RawMessage → Option RawMessage) (vs : Nat → Oracle) {st : Site b × Nat} {o : Op}
    (hs : Sends b u st) (hallowed : (entryProto (b.entries u.store)).allowed () o) :
    (entryProto (b.entries u.store)).trans () o (answer jsonb b vs o st).1 () ∧
      Sends b u (answer jsonb b vs o st).2 := by
  obtain ⟨⟨store, sent⟩, n⟩ := st
  obtain ⟨hentries, envs, hsent, henvs⟩ := hs
  have ho : ∀ e, o ≠ .save e := by
    rintro e rfl
    exact hallowed
  refine ⟨?_, (call_entries ho).trans hentries, envs ++ sentBy (vs n) o, ?_, ?_⟩
  · rw [← hentries]
    cases o with
    | claim eventIDs claimant leaseTTL now =>
      show (entryProto _).trans () _ (b.call jsonb store (vs n) _).2 ()
      cases ha : (b.call jsonb store (vs n) (.claim eventIDs claimant leaseTTL now)).2 with
      | error e => trivial
      | ok events => exact call_claim ha
    | claimDue claimant batchSize =>
      show (entryProto _).trans () _ (b.call jsonb store (vs n) _).2 ()
      cases ha : (b.call jsonb store (vs n) (.claimDue claimant batchSize)).2 with
      | error e => trivial
      | ok rows => exact call_claimDue ha
    | _ => trivial
  · show sent ++ sentBy (vs n) o = _
    rw [show sent = _ from hsent, List.append_assoc]
  · intro env hmem
    rcases List.mem_append.mp hmem with hmem | hmem
    · exact henvs env hmem
    cases o with
    | publish env' =>
      simp only [sentBy] at hmem
      split at hmem
      · cases List.mem_singleton.mp hmem
        exact hallowed
      · cases hmem
    | _ => cases hmem

theorem handle_sends (jsonb : RawMessage → Option RawMessage) (vs : Nat → Oracle) {p : P Unit}
    (hp : Within (entryProto (b.entries u.store)) p) : Sends b u (handle (answer jsonb b vs) p (u, 0)).2 := by
  have hu : Sends b u (u, 0) := ⟨rfl, [], (List.append_nil _).symm, nofun⟩
  obtain ⟨-, hs, -⟩ := handle_sound (fun _ => Sends b u)
    (fun _ st o hs hallowed => ⟨(), answer_sends jsonb vs hs hallowed⟩) hp hu
  exact hs

theorem scheduleEvent_entries (t : b.Store) (tenantID : String) (body : Except Err ScheduledEvent) (newID : String)
    (now : Time) (v : Oracle) :
    ∃ more, b.entries (scheduleEvent jsonb b t tenantID body newID now v).1 = b.entries t ++ more ∧
      ∀ entry ∈ more, entry.tenantID = tenantID := by
  have hsame : b.entries t = b.entries t ++ [] := (List.append_nil _).symm
  unfold scheduleEvent
  split
  · exact ⟨[], hsame, nofun⟩
  rename_i evt
  have hstore : ∃ more, b.entries (b.call jsonb t v (.save (scheduled tenantID newID now evt))).1 =
      b.entries t ++ more ∧ ∀ entry ∈ more, entry.tenantID = tenantID := by
    rcases @call_save jsonb b t v (scheduled tenantID newID now evt) with h | ⟨entry, -, htenant, h⟩
    · exact ⟨[], by rw [h, List.append_nil], nofun⟩
    refine ⟨[entry], h, ?_⟩
    intro entry' hmem
    rw [List.mem_singleton.mp hmem]
    exact htenant
  split
  · exact ⟨[], hsame, nofun⟩
  split
  · exact ⟨[], hsame, nofun⟩
  split
  · exact ⟨[], hsame, nofun⟩
  · split <;> rename_i heq <;> rw [heq] at hstore <;> exact hstore

theorem cancelScheduledEvent_entries (t : b.Store) (tenantID eventID : String) (v : Oracle) :
    b.entries (cancelScheduledEvent jsonb b t tenantID eventID v).1 = b.entries t := by
  have hstore := @call_entries jsonb b t v (.cancel tenantID eventID) (fun _ => nofun)
  unfold cancelScheduledEvent
  split
  · rfl
  · split <;> rename_i heq <;> rw [heq] at hstore <;> exact hstore

/-- Every turn: new entries are of the tenant of the request, and only what is stored is
    sent. -/
theorem step_entries {a : Turn} (h : step jsonb b u a = some u') :
    ∃ more envs, b.entries u'.store = b.entries u.store ++ more ∧ (∀ entry ∈ more, a.tenant = some entry.tenantID) ∧
      u'.sent = u.sent ++ envs ∧ ∀ env ∈ envs, messageEntry env ∈ b.entries u.store := by
  have hscheduler : ∀ {st : Site b × Nat}, Sends b u st → st.1 = u' →
      ∃ more envs, b.entries u'.store = b.entries u.store ++ more ∧ (∀ entry ∈ more, a.tenant = some entry.tenantID) ∧
        u'.sent = u.sent ++ envs ∧ ∀ env ∈ envs, messageEntry env ∈ b.entries u.store := by
    rintro st ⟨hentries, envs, hsent, henvs⟩ rfl
    exact ⟨[], envs, by rw [hentries, List.append_nil], nofun, hsent, henvs⟩
  cases a with
  | schedule tenantID body newID now v =>
    cases h
    obtain ⟨more, hmore, htenant⟩ := @scheduleEvent_entries jsonb b u.store tenantID body newID now v
    exact ⟨more, [], hmore, fun entry he => by rw [htenant entry he]; rfl, (List.append_nil _).symm, nofun⟩
  | cancel tenantID eventID v =>
    cases h
    refine ⟨[], [], ?_, nofun, (List.append_nil _).symm, nofun⟩
    rw [List.append_nil]
    exact cancelScheduledEvent_entries u.store tenantID eventID v
  | goTick id batchSize vs =>
    cases h
    exact hscheduler (handle_sends jsonb vs (carries_tick batchSize)) rfl
  | rustRound id batchSize vs =>
    simp only [step] at h
    split at h <;> cases h
    exact hscheduler (handle_sends jsonb vs (carries_round batchSize)) rfl

/-- Turns of others add entries of others, and send what is stored in the end. -/
theorem run_entries {tenantID : String} {turns : List Turn} (hothers : ∀ a ∈ turns, a.tenant ≠ some tenantID)
    (h : Machine.run (step jsonb b) u turns = some u') :
    ∃ more envs, b.entries u'.store = b.entries u.store ++ more ∧ (∀ entry ∈ more, entry.tenantID ≠ tenantID) ∧
      u'.sent = u.sent ++ envs ∧ ∀ env ∈ envs, messageEntry env ∈ b.entries u'.store := by
  induction turns generalizing u with
  | nil =>
    cases h
    exact ⟨[], [], (List.append_nil _).symm, nofun, (List.append_nil _).symm, nofun⟩
  | cons a turns ih =>
    obtain ⟨w, hw, hrest⟩ := Option.bind_eq_some_iff.mp h
    obtain ⟨more, envs, hentries, htenant, hsent, henvs⟩ := step_entries hw
    obtain ⟨more', envs', hentries', htenant', hsent', henvs'⟩ :=
      ih (fun a ha => hothers a (List.mem_cons_of_mem _ ha)) hrest
    refine ⟨more ++ more', envs ++ envs', ?_, ?_, ?_, ?_⟩
    · rw [hentries', hentries, List.append_assoc]
    · intro entry hmem
      rcases List.mem_append.mp hmem with hmem | hmem
      · rintro rfl
        exact hothers a List.mem_cons_self (htenant entry hmem)
      · exact htenant' entry hmem
    · rw [hsent', hsent, List.append_assoc]
    · intro env hmem
      rcases List.mem_append.mp hmem with hmem | hmem
      · rw [hentries', hentries, List.append_assoc]
        exact List.mem_append_left _ (henvs env hmem)
      · exact henvs' env hmem

end

/-! A pending document is published. -/

namespace Mongo

section
variable {c : ScheduledCollection} {d : ScheduledDoc} {claimant : String} {now expiresAt : Time}

theorem claimScheduledEvent_due (hd : d ∈ c.rows) (hdue : d.due now = true) :
    (claimScheduledEvent c d.eventID claimant now expiresAt).2 = some (claimed claimant now expiresAt d).toDomain := by
  have hfind : c.rows.find? (fun d' => d'.eventID == d.eventID && d'.due now) = some d := by
    cases h : c.rows.find? (fun d' => d'.eventID == d.eventID && d'.due now) with
    | none =>
      have hnot := List.find?_eq_none.mp h d hd
      simp [hdue] at hnot
    | some d' =>
      have hp := List.find?_some h
      simp only [Bool.and_eq_true, beq_iff_eq] at hp
      rw [Rows.eq_of_key (List.mem_of_find?_eq_some h) hd hp.1]
  simp only [claimScheduledEvent, hfind, Option.map_some]

theorem claimScheduledEvent_other {eventID : String} (hd : d ∈ c.rows) (hne : eventID ≠ d.eventID) :
    d ∈ (claimScheduledEvent c eventID claimant now expiresAt).1.rows := by
  dsimp only [claimScheduledEvent]
  refine Rows.mem_update.mpr ⟨d, hd, ?_⟩
  rw [if_neg]
  simp [Ne.symm hne]

/-- Without a failure, a claim has an answer, with every event that is due. -/
theorem claimScheduledEvents_ok {v : Oracle} (hv : v.fail = none) (eventIDs : List String) :
    ∀ c : ScheduledCollection, ∃ events, (claimScheduledEvents v claimant now expiresAt eventIDs c).2 = .ok events ∧
      ∀ d ∈ c.rows, d.due now = true → d.eventID ∈ eventIDs → ∃ e ∈ events, eventEntry e = docEntry d := by
  induction eventIDs with
  | nil => exact fun c => ⟨[], rfl, fun _ _ _ => nofun⟩
  | cons eventID rest ih =>
    intro c
    obtain ⟨events, hevents, hall⟩ := ih (claimScheduledEvent c eventID claimant now expiresAt).1
    refine ⟨(claimScheduledEvent c eventID claimant now expiresAt).2.toList ++ events, ?_, ?_⟩
    · simp only [claimScheduledEvents, hv, ite_self, hevents]
      rfl
    · intro d hd hdue hmem
      by_cases heq : eventID = d.eventID
      · refine ⟨(claimed claimant now expiresAt d).toDomain, List.mem_append_left _ ?_, rfl⟩
        rw [heq, claimScheduledEvent_due hd hdue]
        exact List.mem_singleton_self _
      · obtain ⟨e, he, hentry⟩ := hall d (claimScheduledEvent_other hd heq) hdue
          ((List.mem_cons.mp hmem).resolve_left (Ne.symm heq))
        exact ⟨e, List.mem_append_right _ he, hentry⟩

theorem mem_getDue (hd : d ∈ c.rows) (hdue : d.due now = true) : d.toDomain ∈ getDue c now c.rows.length := by
  have hpos : ¬ (c.rows.length : Int) ≤ 0 := by
    have := List.length_pos_of_mem hd
    omega
  simp only [getDue, if_neg hpos, Int.toNat_natCast]
  refine List.mem_map.mpr ⟨d, ?_, rfl⟩
  rw [List.take_of_length_le]
  · exact (List.mem_insertionSort _).mpr (List.mem_filter.mpr ⟨hd, hdue⟩)
  · rw [List.length_insertionSort]
    exact List.length_filter_le _ _

end

end Mongo

section
variable {jsonb : RawMessage → Option RawMessage} {claimant : String}

theorem handle_markEventReleased (now : Time) (event : ScheduledEvent) (st : Site .mongo × Nat) :
    ∃ st', handle (answer jsonb .mongo (fun _ => fine now)) (Go.markEventReleased event claimant) st =
      (.ok (), st') ∧ st'.1.sent = st.1.sent := by
  obtain ⟨⟨store, sent⟩, n⟩ := st
  have hclock : handle (answer jsonb .mongo (fun _ => fine now)) (sql .clock) (⟨store, sent⟩, n) =
      (.ok now, (⟨store, sent ++ []⟩, n + 1)) := rfl
  refine ⟨(answer jsonb .mongo (fun _ => fine now) (.markReleased event.eventID claimant now)
    (⟨store, sent ++ []⟩, n + 1)).2, ?_, ?_⟩
  · rw [Go.markEventReleased, handle_bind_ok hclock, handle_bind, handle_caught, sql, handle_call]
    rfl
  · show sent ++ [] ++ [] = sent
    simp

theorem handle_processClaimedEvent (now : Time) (event : ScheduledEvent) (st : Site .mongo × Nat) :
    ∃ st', handle (answer jsonb .mongo (fun _ => fine now)) (Go.processClaimedEvent claimant event) st =
      (.ok (), st') ∧ st'.1.sent = st.1.sent ++ [Go.releasedEnvelope event now] := by
  obtain ⟨⟨store, sent⟩, n⟩ := st
  have hrelease : handle (answer jsonb .mongo (fun _ => fine now)) (Go.releaseEvent event) (⟨store, sent⟩, n) =
      (.ok (), (⟨store, sent ++ [] ++ [Go.releasedEnvelope event now]⟩, n + 2)) := rfl
  rw [List.append_nil] at hrelease
  obtain ⟨st', hst', hsent⟩ := @handle_markEventReleased jsonb claimant now event
    (⟨store, sent ++ [Go.releasedEnvelope event now]⟩, n + 2)
  refine ⟨st', ?_, hsent⟩
  rw [Go.processClaimedEvent, handle_bind, handle_caught, hrelease]
  exact hst'

theorem handle_processClaimedEvents (now : Time) (events : List ScheduledEvent) : ∀ st : Site .mongo × Nat,
    (handle (answer jsonb .mongo (fun _ => fine now)) (Go.processClaimedEvents claimant events) st).2.1.sent =
      st.1.sent ++ events.map (fun e => Go.releasedEnvelope e now) := by
  induction events with
  | nil => exact fun st => (List.append_nil _).symm
  | cons event rest ih =>
    intro st
    obtain ⟨st', hst', hsent⟩ := @handle_processClaimedEvent jsonb claimant now event st
    rw [Go.processClaimedEvents, handle_bind_ok hst', ih st', hsent, List.append_assoc]
    rfl

theorem handle_claimDueEvents (hclaimant : claimant ≠ "") (now : Time) {events : List ScheduledEvent}
    (hne : events ≠ []) (c : ScheduledCollection) (sent : List EventEnvelope) (n : Nat) :
    ∃ claimed st', handle (answer jsonb .mongo (fun _ => fine now)) (Go.claimDueEvents events claimant)
        (⟨c, sent⟩, n) = (.ok claimed, st') ∧ st'.1.sent = sent ∧
      ∀ d ∈ c.rows, d.due now = true → d.toDomain ∈ events → ∃ e ∈ claimed, eventEntry e = docEntry d := by
  obtain ⟨claimed, hclaimed, hall⟩ := @Mongo.claimScheduledEvents_ok claimant now (now + 300000000) (fine now) rfl
    (events.map ScheduledEvent.eventID) c
  have hclaim : (Mongo.claimScheduled (fine now) c (events.map ScheduledEvent.eventID) claimant 300000000 now).2 =
      .ok claimed := by
    have hnonempty : ¬ (events.map ScheduledEvent.eventID).isEmpty = true := by simpa using hne
    rw [Mongo.claimScheduled, if_neg hnonempty, if_neg hclaimant, if_neg (by decide), hclaimed]
  have hclock : handle (answer jsonb .mongo (fun _ => fine now)) (sql .clock) (⟨c, sent⟩, n) =
      (.ok now, (⟨c, sent ++ []⟩, n + 1)) := rfl
  refine ⟨claimed, (answer jsonb .mongo (fun _ => fine now)
    (.claim (events.map ScheduledEvent.eventID) claimant 300000000 now) (⟨c, sent ++ []⟩, n + 1)).2, ?_, ?_, ?_⟩
  · rw [Go.claimDueEvents, handle_bind_ok hclock, sql, handle_call]
    exact Prod.ext hclaim rfl
  · show sent ++ [] ++ [] = sent
    simp
  · intro d hd hdue hmem
    exact hall d hd hdue (List.mem_map.mpr ⟨_, hmem, rfl⟩)

/-- A tick with room for all documents sends every one that is due. -/
theorem tick_sends (hclaimant : claimant ≠ "") {c : ScheduledCollection} {d : ScheduledDoc} {now : Time}
    (hd : d ∈ c.rows) (hdue : d.due now = true) (sent : List EventEnvelope) :
    ∃ envs, (handle (answer jsonb .mongo (fun _ => fine now)) (Go.tick claimant c.rows.length)
      (⟨c, sent⟩, 0)).2.1.sent = sent ++ envs ∧ ∃ env ∈ envs, messageEntry env = docEntry d := by
  have hmem := Mongo.mem_getDue hd hdue
  have hclock : handle (answer jsonb .mongo (fun _ => fine now)) (sql .clock) (⟨c, sent⟩, 0) =
      (.ok now, (⟨c, sent ++ []⟩, 1)) := rfl
  have hget : handle (answer jsonb .mongo (fun _ => fine now)) (sql (.getDue now c.rows.length))
      (⟨c, sent ++ []⟩, 1) = (.ok (Mongo.getDue c now c.rows.length), (⟨c, sent ++ [] ++ []⟩, 2)) := rfl
  cases hevents : Mongo.getDue c now c.rows.length with
  | nil => cases hevents ▸ hmem
  | cons event rest =>
    rw [hevents] at hmem hget
    obtain ⟨claimed, st', hclaim, hsent, hall⟩ := @handle_claimDueEvents jsonb claimant hclaimant now (event :: rest)
      (List.cons_ne_nil _ _) c (sent ++ [] ++ []) 2
    obtain ⟨e, he, hentry⟩ := hall d hd hdue hmem
    refine ⟨claimed.map (fun e => Go.releasedEnvelope e now), ?_, Go.releasedEnvelope e now,
      List.mem_map.mpr ⟨e, he, rfl⟩, hentry⟩
    rw [Go.tick, handle_bind_ok hclock, handle_bind, handle_caught, hget]
    dsimp only
    rw [handle_bind, handle_caught, hclaim]
    dsimp only
    rw [handle_processClaimedEvents, hsent, List.append_nil, List.append_nil]

end

/-! Reading. -/

section
variable {jsonb : RawMessage → Option RawMessage} {b : Backend}
variable {t : b.Store} {tenantID eventID : String} {c : ScheduledCollection} {evt : ScheduledEvent} {v : Oracle}

theorem get_foreign (h : ∀ entry ∈ b.entries t, entry.eventID = eventID → entry.tenantID ≠ tenantID) :
    b.get t tenantID eventID = .ok none := by
  cases b with
  | postgres =>
    have hfind : t.rows.find? (fun r => r.tenantID == tenantID && r.eventID == eventID) = none := by
      rw [List.find?_eq_none]
      intro r hr hp
      simp only [Bool.and_eq_true, beq_iff_eq] at hp
      exact h (rowEntry r) (List.mem_map.mpr ⟨r, hr, rfl⟩) hp.2 hp.1
    simp only [Backend.get, Go.getScheduled, hfind]
  | mongo =>
    have hfind : t.rows.find? (fun d => d.tenantID == tenantID && d.eventID == eventID) = none := by
      rw [List.find?_eq_none]
      intro d hd hp
      simp only [Bool.and_eq_true, beq_iff_eq] at hp
      exact h (docEntry d) (List.mem_map.mpr ⟨d, hd, rfl⟩) hp.2 hp.1
    simp only [Backend.get, Mongo.getScheduled, hfind, Option.map_none]

theorem get_own (h : eventEntry evt ∈ Backend.mongo.entries c) :
    ∃ e, Backend.mongo.get c evt.tenantID evt.eventID = .ok (some e) ∧ eventEntry e = eventEntry evt := by
  obtain ⟨d, hd, hentry⟩ := List.mem_map.mp h
  have htenant : d.tenantID = evt.tenantID := congrArg Entry.tenantID hentry
  have hid : d.eventID = evt.eventID := congrArg Entry.eventID hentry
  cases hfind : c.rows.find? (fun d => d.tenantID == evt.tenantID && d.eventID == evt.eventID) with
  | none =>
    have hnot := List.find?_eq_none.mp hfind d hd
    simp [htenant, hid] at hnot
  | some d' =>
    have hp := List.find?_some hfind
    simp only [Bool.and_eq_true, beq_iff_eq] at hp
    obtain rfl := Rows.eq_of_key (List.mem_of_find?_eq_some hfind) hd (hp.2.trans hid.symm)
    exact ⟨d'.toDomain, by simp only [Backend.get, Mongo.getScheduled, hfind, Option.map_some], hentry⟩

theorem entry_unique {e e' : Entry} (he : e ∈ Backend.mongo.entries c)
    (he' : e' ∈ Backend.mongo.entries c) (h : e.eventID = e'.eventID) : e = e' := by
  obtain ⟨d, hd, rfl⟩ := List.mem_map.mp he
  obtain ⟨d', hd', rfl⟩ := List.mem_map.mp he'
  rw [Rows.eq_of_key hd hd' h]

theorem getScheduledEvent_ok {e : ScheduledEvent} :
    getScheduledEvent b t tenantID eventID = .ok e ↔ eventID ≠ "" ∧ b.get t tenantID eventID = .ok (some e) := by
  unfold getScheduledEvent
  split
  · rename_i hempty
    exact ⟨nofun, fun h => absurd hempty h.1⟩
  · rename_i hne
    cases hget : b.get t tenantID eventID with
    | error e' => exact ⟨nofun, nofun⟩
    | ok found =>
      cases found with
      | none => exact ⟨nofun, nofun⟩
      | some e' =>
        constructor
        · intro h
          cases h
          exact ⟨hne, rfl⟩
        · rintro ⟨-, h⟩
          cases h
          rfl

/-- A request that was answered with a success has saved the event in the answer. -/
theorem scheduleEvent_created {t' : b.Store} {newID : String} {body : Except Err ScheduledEvent} {now : Time}
    (hnew : newID ≠ "") (h : scheduleEvent jsonb b t tenantID body newID now v = (t', .created evt)) :
    evt.tenantID = tenantID ∧ evt.eventID ≠ "" ∧ evt.status = .pending ∧
      b.perform jsonb t v (.save evt) = (t', .ok ()) := by
  unfold scheduleEvent at h
  split at h
  · cases h
  split at h
  · cases h
  split at h
  · cases h
  split at h
  · cases h
  split at h
  · cases h
  rename_i t₁ x hcall
  cases h
  refine ⟨rfl, ?_, rfl, call_ok hcall⟩
  simp only [scheduled]
  split
  · exact hnew
  · assumption

def Stored (b : Backend) (t : b.Store) (eventID : String) : Prop := ∃ entry ∈ b.entries t, entry.eventID = eventID

theorem stored_postgres {t : ScheduledTable} : Stored .postgres t eventID ↔ t.Taken eventID := by
  simp [Stored, Backend.entries, Rows.Taken, rowEntry]

theorem stored_mongo : Stored .mongo c eventID ↔ c.Taken eventID := by
  simp [Stored, Backend.entries, Rows.Taken, docEntry]

theorem save_stored {t' : b.Store} (hstored : Stored b t evt.eventID)
    (h : b.perform jsonb t v (.save evt) = (t', .ok ())) : t' = t := by
  cases b with
  | postgres =>
    simp only [Backend.perform, perform, Go.saveScheduled] at h
    cases hpayload : jsonb evt.payload with
    | none =>
      rw [hpayload] at h
      cases h
    | some payload =>
      rw [hpayload] at h
      cases h
      exact dif_pos (stored_postgres.mp hstored)
  | mongo =>
    cases h
    exact dif_pos (stored_mongo.mp hstored)

/-- On MongoDB an event under a free identity is isolated. -/
theorem isolated_of_free {c' : ScheduledCollection} {sent : List EventEnvelope}
    (hfree : ¬ Stored .mongo c evt.eventID) (hid : evt.eventID ≠ "") (hpending : evt.status = .pending)
    (hsave : Backend.mongo.perform jsonb c v (.save evt) = (c', .ok ())) : Isolated jsonb .mongo ⟨c', sent⟩ evt := by
  obtain rfl : Mongo.saveScheduled c evt = c' := congrArg Prod.fst hsave
  have hdoc : ScheduledDoc.fromDomain evt ∈ (Mongo.saveScheduled c evt).rows :=
    Rows.mem_insert.mpr (.inr ⟨fun h => hfree (stored_mongo.mpr h), rfl⟩)
  have hentry : eventEntry evt ∈ Backend.mongo.entries (Mongo.saveScheduled c evt) :=
    List.mem_map.mpr ⟨_, hdoc, rfl⟩
  refine ⟨?_, ?_, ?_⟩
  · intro turns u' hothers hrun
    obtain ⟨more, envs, hentries, -⟩ := run_entries hothers hrun
    obtain ⟨e, he, hsame⟩ := get_own (hentries ▸ List.mem_append_left more hentry)
    exact ⟨e, getScheduledEvent_ok.mpr ⟨hid, he⟩, hsame⟩
  · intro turns u' hothers hrun envs hsent env hmem henv
    obtain ⟨more, envs', hentries, -, hsent', henvs⟩ := run_entries hothers hrun
    obtain rfl : envs = envs' := List.append_cancel_left (hsent.symm.trans hsent')
    exact entry_unique (henvs env hmem) (hentries ▸ List.mem_append_left more hentry) henv
  · have hdue : (ScheduledDoc.fromDomain evt).due (ScheduledDoc.fromDomain evt).dueAt = true := by
      simp [ScheduledDoc.due, ScheduledDoc.fromDomain, hpending]
    obtain ⟨envs, hsent, henv⟩ := @tick_sends jsonb "scheduler-1" (by decide) _ _ _ hdoc hdue sent
    exact ⟨[.goTick "1" (Mongo.saveScheduled c evt).rows.length (fun _ => fine (ScheduledDoc.fromDomain evt).dueAt)], _,
      envs, by simp [Turn.tenant], rfl, hsent, henv⟩

end

/-- After any history of other tenants' requests and of the schedulers: an event that a tenant
    schedules with success is read back and published as its own exactly if the store is
    MongoDB and nobody has an event with its identity. -/
theorem isolated_iff (jsonb : RawMessage → Option RawMessage) (b : Backend) {history : List Turn} {u : Site b}
    {tenantID newID : String} {body : Except Err ScheduledEvent} {now : Time} {v : Oracle} {t : b.Store}
    {evt : ScheduledEvent} (hothers : ∀ a ∈ history, a.tenant ≠ some tenantID)
    (hu : Machine.run (step jsonb b) ⟨b.empty, []⟩ history = some u) (hnew : newID ≠ "")
    (hcreated : scheduleEvent jsonb b u.store tenantID body newID now v = (t, .created evt)) :
    Isolated jsonb b ⟨t, u.sent⟩ evt ↔ b = .mongo ∧ ¬ Stored b u.store evt.eventID := by
  obtain ⟨rfl, hid, hpending, hsave⟩ := scheduleEvent_created hnew hcreated
  constructor
  · intro hisolated
    obtain ⟨e, hread, -⟩ := hisolated.read [] ⟨t, u.sent⟩ (List.forall_mem_nil _) rfl
    have hget := (getScheduledEvent_ok.mp hread).2
    have hfree : ¬ Stored b u.store evt.eventID := by
      intro hstored
      obtain rfl := save_stored hstored hsave
      -- what the others have stored is theirs
      obtain ⟨more, envs, hentries, htenant, -⟩ := run_entries hothers hu
      have hempty : b.entries b.empty = [] := by cases b <;> rfl
      rw [hempty, List.nil_append] at hentries
      rw [get_foreign (fun entry hentry _ => htenant entry (hentries ▸ hentry))] at hget
      cases hget
    refine ⟨?_, hfree⟩
    cases b with
    | mongo => rfl
    | postgres =>
      simp only [Backend.perform, perform] at hsave
      split at hsave
      · rename_i t' hgo
        cases hsave
        have herror := getScheduled_saved (fun h => hfree (stored_postgres.mpr h)) hgo
        cases herror.symm.trans hget
      · cases hsave
  · rintro ⟨rfl, hfree⟩
    exact isolated_of_free hfree hid hpending hsave

/-! Two tenants that choose the identities of their events. -/

namespace Clash

def request (eventID eventType : String) : ScheduledEvent :=
  ⟨eventID, "", eventType, "k-1", "", "null", [], 63902826000000000, .pending, none, 0, "", 0, none⟩

def earlier : List Turn :=
  [.schedule "acme" (.ok (request "e-1" "reminder")) "f-0" 63902822300000000 (fine 63902822300000000)]

def post (b : Backend) (t : b.Store) (eventID : String) : b.Store × Response ScheduledEvent :=
  scheduleEvent some b t "globex" (.ok (request eventID "invoice")) "f-1" 63902822400000000 (fine 63902822400000000)

def invoice (eventID : String) : ScheduledEvent :=
    scheduled "globex" "f-1" 63902822400000000 (request eventID "invoice")

end Clash

/-- Different identities. -/
theorem isolated_apart :
    ∃ (u : Site .mongo) (t : ScheduledCollection),
      Machine.run (step some .mongo) ⟨Backend.mongo.empty, []⟩ Clash.earlier = some u ∧
      Clash.post .mongo u.store "e-2" = (t, .created (Clash.invoice "e-2")) ∧
      Isolated some .mongo ⟨t, u.sent⟩ (Clash.invoice "e-2") := by
  refine ⟨_, _, rfl, rfl, ?_⟩
  refine (@isolated_iff some .mongo Clash.earlier _ "globex" "f-1" (.ok (Clash.request "e-2" "invoice"))
    63902822400000000 (fine 63902822400000000) _ _ ?_ rfl (by decide) rfl).mpr ⟨rfl, ?_⟩
  · intro a ha
    cases List.mem_singleton.mp ha
    decide
  · rw [stored_mongo]
    decide +kernel

/-- One identity: the second request is answered with a success and its event is not found.
    On PostgreSQL even the first cannot be read. -/
theorem not_isolated :
    (∃ (u : Site .mongo) (t : ScheduledCollection),
      Machine.run (step some .mongo) ⟨Backend.mongo.empty, []⟩ Clash.earlier = some u ∧
      Clash.post .mongo u.store "e-1" = (t, .created (Clash.invoice "e-1")) ∧
      getScheduledEvent .mongo t "globex" "e-1" = .error 404 "not found" "NOT_FOUND" ∧
      ¬ Isolated some .mongo ⟨t, u.sent⟩ (Clash.invoice "e-1")) ∧
    ∃ t : ScheduledTable, Clash.post .postgres Backend.postgres.empty "e-1" = (t, .created (Clash.invoice "e-1")) ∧
      getScheduledEvent .postgres t "globex" "e-1" =
        .error 500
          "get scheduled event: can't scan into dest[13] (col: last_error): cannot scan NULL into *string"
          "INTERNAL_ERROR" ∧
      ¬ Isolated some .postgres ⟨t, []⟩ (Clash.invoice "e-1") := by
  refine ⟨⟨_, _, rfl, rfl, rfl, ?_⟩, _, rfl, ?_, ?_⟩
  · intro h
    obtain ⟨e, he, -⟩ := h.read [] _ (List.forall_mem_nil _) rfl
    cases he
  · decide +kernel
  · intro h
    obtain ⟨e, he, -⟩ := h.read [] _ (List.forall_mem_nil _) rfl
    cases he

end FlowRule.Scheduled
