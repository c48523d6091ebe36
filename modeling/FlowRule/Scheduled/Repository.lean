import FlowRule.Events.Service
import FlowRule.Lib.Checks
import FlowRule.Lib.Rows
import Mathlib.Data.List.Sort

/- The scheduled events of PostgreSQL (internal/adapters/postgres/scheduled.go and the migrations
   011, 015, 016), and the statements of the Rust scheduler on the same table
   (rust-worker/src/runtime/scheduler.rs).

   Save leaves out last_error, and reading NULL into a Go string is an error, so that no event it
   stores can be read back before a retry or a failure has written that column (`saved_not_read`).
   `jsonb` is the text JSONB gives back, none for a text that is not JSON. -/
namespace FlowRule

inductive ScheduledStatus where
  | pending | claimed | released | failed | cancelled
  deriving DecidableEq, Repr

structure ScheduledEvent where
  eventID : String
  tenantID : String
  eventType : String
  partitionKey : String
  workflowID : String
  payload : RawMessage
  headers : List (String × String)
  scheduledAt : Time
  status : ScheduledStatus
  retryAt : Option Time
  retryCount : Nat
  lastError : String
  createdAt : Time
  releasedAt : Option Time
  deriving DecidableEq, Repr

/-- A row of scheduled_events after all migrations; what may be NULL is an `Option`. -/
structure ScheduledRow where
  eventID : String
  tenantID : String
  eventType : String
  partitionKey : String
  workflowID : Option String
  payload : RawMessage
  headers : Option (List (String × String))
  scheduledAt : Time
  status : ScheduledStatus
  createdAt : Time
  releasedAt : Option Time
  claimant : Option String
  claimedAt : Option Time
  claimExpiresAt : Option Time
  lastError : Option String
  retryAt : Option Time
  retryCount : Nat
  deriving DecidableEq, Repr

abbrev ScheduledTable := Rows ScheduledRow ScheduledRow.eventID

namespace ScheduledRow

/-- COALESCE(retry_at, scheduled_at). -/
def dueAt (r : ScheduledRow) : Time := r.retryAt.getD r.scheduledAt

/-- A comparison with NULL is not true. -/
def claimExpiredBy (r : ScheduledRow) (t : Time) : Bool := r.claimExpiresAt.any (fun x => x ≤ t)

/-- Pending and due, or claimed with a claim that has expired, at `t`. -/
def due (r : ScheduledRow) (t : Time) : Bool :=
  (r.status == .pending && decide (r.dueAt ≤ t)) || (r.status == .claimed && r.claimExpiredBy t)

/-- The claim is this claimant's and has not expired at `now`. -/
def heldBy (r : ScheduledRow) (claimant : String) (now : Time) : Bool :=
  r.claimant == some claimant && r.claimExpiresAt.any (fun x => now < x)

def unclaimed (r : ScheduledRow) : ScheduledRow :=
  { r with claimant := none, claimedAt := none, claimExpiresAt := none }

end ScheduledRow

/-! The Go repository. -/

namespace Go

/-- The row Save inserts; the columns it does not name get their defaults. An empty map of
    headers reads the same whether it is stored as NULL or as an empty object. -/
def scheduledRow (e : ScheduledEvent) (payload : RawMessage) : ScheduledRow where
  eventID := e.eventID
  tenantID := e.tenantID
  eventType := e.eventType
  partitionKey := e.partitionKey
  workflowID := some e.workflowID
  payload := payload
  headers := if e.headers.isEmpty then none else some e.headers
  scheduledAt := e.scheduledAt
  status := e.status
  createdAt := e.createdAt
  releasedAt := none
  claimant := none
  claimedAt := none
  claimExpiresAt := none
  lastError := none
  retryAt := none
  retryCount := 0

def saveScheduled (jsonb : RawMessage → Option RawMessage) (t : ScheduledTable) (e : ScheduledEvent) :
    Except Err ScheduledTable :=
  match jsonb e.payload with
  | none => .error (.wrap "save scheduled event" (.msg "invalid input syntax for type json"))
  | some payload => .ok (t.insert (scheduledRow e payload))

/-- A row read into an event; NULL cannot be read into a string. -/
def scanScheduled (r : ScheduledRow) : Except Err ScheduledEvent :=
  match r.workflowID, r.lastError with
  | none, _ => .error (scanNull 4 "workflow_id")
  | some _, none => .error (scanNull 13 "last_error")
  | some workflowID, some lastError => .ok
    { eventID := r.eventID, tenantID := r.tenantID, eventType := r.eventType, partitionKey := r.partitionKey,
      workflowID := workflowID, payload := r.payload, headers := r.headers.getD [], scheduledAt := r.scheduledAt,
      status := r.status, retryAt := r.retryAt, retryCount := r.retryCount, lastError := lastError,
      createdAt := r.createdAt, releasedAt := r.releasedAt }

/-- The rows of a result, in order; the first that cannot be read ends the call. -/
def scanScheduledEvents (rows : List ScheduledRow) : Except Err (List ScheduledEvent) :=
  (rows.mapM scanScheduled).mapError (Err.wrap "scan scheduled event")

def getDue (t : ScheduledTable) (before : Time) (limit : Int) : Except Err (List ScheduledEvent) :=
  let limit := if limit ≤ 0 then 100 else limit.toNat
  scanScheduledEvents
    (((t.rows.filter (fun r => r.due before)).insertionSort (fun a b => a.dueAt ≤ b.dueAt)).take limit)

/-- The claim of a scheduler at its own clock's `now`. -/
def claimScheduled (t : ScheduledTable) (eventIDs : List String) (claimant : String) (leaseTTL : Int) (now : Time) :
    ScheduledTable × Except Err (List ScheduledEvent) :=
  if eventIDs.isEmpty then (t, .ok [])
  else if Text.trimSpace claimant = "" then (t, .error (.msg "claim scheduled events: claimant is required"))
  else if leaseTTL ≤ 0 then (t, .error (.msg "claim scheduled events: lease TTL must be positive"))
  else
    let p := fun (r : ScheduledRow) => eventIDs.contains r.eventID && r.due now
    let f := fun (r : ScheduledRow) => { r with
      status := .claimed, claimant := some claimant, claimExpiresAt := some (now + leaseTTL), claimedAt := some now }
    -- the update stays also when a row of its result cannot be read
    ((t.update p f (fun _ => rfl)).2, scanScheduledEvents ((t.rows.filter p).map f))

/-- An update of a row whose claim is still held, which has to be there. -/
def settleScheduled (t : ScheduledTable) (action eventID claimant : String) (now : Time)
    (f : ScheduledRow → ScheduledRow) (hf : ∀ r, (f r).eventID = r.eventID) : ScheduledTable × Except Err Unit :=
  let (n, t') := t.update (fun r => r.eventID == eventID && r.status == .claimed && r.heldBy claimant now) f hf
  if n ≠ 1 then (t', .error (.msg (action ++ ": claim for event " ++ quoted eventID ++ " is no longer owned by " ++
    quoted claimant)))
  else (t', .ok ())

def markReleased (t : ScheduledTable) (eventID claimant : String) (releasedAt now : Time) :
    ScheduledTable × Except Err Unit :=
  settleScheduled t "mark scheduled event released" eventID claimant now
    (fun r => { r.unclaimed with status := .released, releasedAt := some releasedAt, retryAt := none }) (fun _ => rfl)

def scheduleScheduledRetry (t : ScheduledTable) (eventID claimant : String) (retryAt : Time) (errMsg : String)
    (now : Time) : ScheduledTable × Except Err Unit :=
  settleScheduled t "schedule scheduled event retry" eventID claimant now
    (fun r => { r.unclaimed with
      status := .pending, retryAt := some retryAt, retryCount := r.retryCount + 1, lastError := some errMsg })
    (fun _ => rfl)

def markFailed (t : ScheduledTable) (eventID claimant errMsg : String) (now : Time) :
    ScheduledTable × Except Err Unit :=
  settleScheduled t "mark scheduled event failed" eventID claimant now
    (fun r => { r.unclaimed with status := .failed, retryCount := r.retryCount + 1, lastError := some errMsg })
    (fun _ => rfl)

def getScheduled (t : ScheduledTable) (tenantID eventID : String) : Except Err (Option ScheduledEvent) :=
  match t.rows.find? (fun r => r.tenantID == tenantID && r.eventID == eventID) with
  | none => .ok none
  | some r => ((scanScheduled r).map some).mapError (Err.wrap "get scheduled event")

def cancelScheduled (t : ScheduledTable) (tenantID eventID : String) : ScheduledTable × Except Err Unit :=
  let (n, t') := t.update (fun r => r.tenantID == tenantID && r.eventID == eventID && r.status == .pending)
    (fun r => { r with status := .cancelled }) (fun _ => rfl)
  if n ≠ 1 then (t', .error (.msg ("cancel scheduled event: event " ++ quoted eventID ++
    " not found or not pending for tenant " ++ quoted tenantID)))
  else (t', .ok ())

theorem cancelScheduled_ok {t t' : ScheduledTable} {tenantID eventID : String}
    (h : cancelScheduled t tenantID eventID = (t', .ok ())) :
    ∃ r ∈ t.rows, r.tenantID = tenantID ∧ r.eventID = eventID ∧ r.status = .pending ∧
      { r with status := .cancelled } ∈ t'.rows := by
  dsimp only [cancelScheduled] at h
  split at h
  · cases h
  rename_i hone
  cases h
  obtain ⟨r, hr, hp⟩ := Rows.exists_of_update (by rw [not_not.mp hone]; decide)
  have hrow := hp
  simp only [Bool.and_eq_true, beq_iff_eq] at hp
  exact ⟨r, hr, hp.1.1, hp.1.2, hp.2, Rows.mem_update.mpr ⟨r, hr, if_pos hrow⟩⟩

end Go

/-! The Rust scheduler. -/

namespace Rust

/-- Pending and due, or claimed with a claim that has expired before `now`. -/
def dueForClaim (r : ScheduledRow) (now : Time) : Bool :=
  (r.status == .pending && decide (r.dueAt ≤ now)) || (r.status == .claimed && r.claimExpiresAt.any (fun x => x < now))

/-- The claim of a scheduler at NOW(). Rows that others have locked at that moment are left
    out. -/
def claimDueEvents (t : ScheduledTable) (claimant : String) (batchSize : Nat) (locked : List String) (now : Time) :
    ScheduledTable × List ScheduledRow :=
  let due := ((t.rows.filter (fun r => dueForClaim r now && !locked.contains r.eventID)).insertionSort
    (fun a b => a.scheduledAt ≤ b.scheduledAt)).take batchSize
  let p := fun (r : ScheduledRow) => (due.map ScheduledRow.eventID).contains r.eventID
  let f := fun (r : ScheduledRow) => { r with
    status := .claimed, claimant := some claimant, claimedAt := some now, claimExpiresAt := some (now + 300000000) }
  ((t.update p f (fun _ => rfl)).2, (t.rows.filter p).map f)

/-- An update of a row whose claim is still held; that it is there is not checked. -/
def settleScheduled (t : ScheduledTable) (eventID claimant : String) (now : Time) (f : ScheduledRow → ScheduledRow)
    (hf : ∀ r, (f r).eventID = r.eventID) : ScheduledTable :=
  (t.update (fun r => r.eventID == eventID && r.heldBy claimant now) f hf).2

def markReleased (t : ScheduledTable) (claimant eventID : String) (now : Time) : ScheduledTable :=
  settleScheduled t eventID claimant now
    (fun r => { r.unclaimed with status := .released, releasedAt := some now }) (fun _ => rfl)

def markFailed (t : ScheduledTable) (claimant eventID : String) (attempt : Nat) (error : String) (now : Time) :
    ScheduledTable :=
  settleScheduled t eventID claimant now
    (fun r => { r.unclaimed with status := .failed, retryCount := attempt, lastError := some error }) (fun _ => rfl)

def scheduleRetry (t : ScheduledTable) (claimant eventID : String) (attempt : Nat) (error : String) (now : Time) :
    ScheduledTable :=
  let delay : Int := min (2 ^ min (attempt - 1) 5) 60
  settleScheduled t eventID claimant now
    (fun r => { r.unclaimed with
      status := .pending, retryCount := attempt, retryAt := some (now + delay * 1000000), lastError := some error })
    (fun _ => rfl)

end Rust

/-! Reading back. -/

def SameData (jsonb : RawMessage → Option RawMessage) (e e' : ScheduledEvent) : Prop :=
  e'.eventType = e.eventType ∧ e'.partitionKey = e.partitionKey ∧ e'.workflowID = e.workflowID ∧
    jsonb e'.payload = jsonb e.payload ∧ e'.headers = e.headers ∧ e'.status = e.status ∧
    e'.scheduledAt = e.scheduledAt

def ReadsBack (jsonb : RawMessage → Option RawMessage) (t : ScheduledTable) (e : ScheduledEvent) : Prop :=
  ∃ e', Go.getScheduled t e.tenantID e.eventID = .ok (some e') ∧ SameData jsonb e e'

/-- From its time on, GetDue gives the event as long as the limit leaves no row out. -/
def BecomesDue (t : ScheduledTable) (e : ScheduledEvent) : Prop :=
  ∀ before limit, e.scheduledAt ≤ before → (t.rows.length : Int) ≤ limit →
    ∃ events, Go.getDue t before limit = .ok events ∧ ∃ e' ∈ events, e'.eventID = e.eventID

namespace Go

/-- A row can be read exactly when neither of the two columns is NULL. -/
theorem scanScheduled_ok_iff (r : ScheduledRow) :
    (∃ e, scanScheduled r = .ok e) ↔ r.workflowID.isSome ∧ r.lastError.isSome := by
  unfold scanScheduled
  split <;> simp_all

theorem scanScheduled_id {r : ScheduledRow} {e : ScheduledEvent} (h : scanScheduled r = .ok e) :
    e.eventID = r.eventID := by
  unfold scanScheduled at h
  split at h <;> cases h
  rfl

theorem getDue_from {t : ScheduledTable} {before : Time} {limit : Int} {events : List ScheduledEvent}
    (h : getDue t before limit = .ok events) {e : ScheduledEvent} (he : e ∈ events) :
    ∃ r ∈ t.rows, scanScheduled r = .ok e := by
  obtain ⟨r, hr, hscan⟩ := (Checks.mapM_ok (Checks.mapError_ok.mp h)).1 e he
  refine ⟨r, ?_, hscan⟩
  have hsorted := List.mem_of_mem_take hr
  rw [List.mem_insertionSort] at hsorted
  exact (List.mem_filter.mp hsorted).1

theorem claimScheduled_from {t t' : ScheduledTable} {eventIDs : List String} {claimant : String} {leaseTTL : Int}
    {now : Time} {events : List ScheduledEvent} (h : claimScheduled t eventIDs claimant leaseTTL now = (t', .ok events))
    {e : ScheduledEvent} (he : e ∈ events) :
    (∃ r ∈ t'.rows, r.eventID = e.eventID ∧ r.retryCount = e.retryCount ∧ r.status = .claimed) ∧
      ∃ old ∈ t.rows, old.eventID = e.eventID ∧ old.tenantID = e.tenantID ∧ old.eventType = e.eventType ∧
        old.partitionKey = e.partitionKey ∧ old.payload = e.payload := by
  unfold claimScheduled at h
  split_ifs at h
  · cases h
    cases he
  · cases h
  · cases h
  · obtain ⟨rfl, hscan⟩ := Prod.mk.inj h
    obtain ⟨r, hr, hread⟩ := (Checks.mapM_ok (Checks.mapError_ok.mp hscan)).1 e he
    obtain ⟨old, hold, rfl⟩ := List.mem_map.mp hr
    obtain ⟨hmem, hp⟩ := List.mem_filter.mp hold
    unfold scanScheduled at hread
    split at hread <;> cases hread
    exact ⟨⟨_, Rows.mem_update.mpr ⟨old, hmem, if_pos hp⟩, rfl, rfl, rfl⟩, old, hmem, rfl, rfl, rfl, rfl, rfl⟩

end Go

theorem saved_row {jsonb : RawMessage → Option RawMessage} {t t' : ScheduledTable} {e : ScheduledEvent}
    (hfresh : ¬ t.Taken e.eventID) (hsave : Go.saveScheduled jsonb t e = .ok t') :
    ∃ payload, Go.scheduledRow e payload ∈ t'.rows ∧
      ∀ r ∈ t'.rows, r.eventID = e.eventID → r = Go.scheduledRow e payload := by
  obtain ⟨payload, hrows⟩ : ∃ payload, t'.rows = t.rows ++ [Go.scheduledRow e payload] := by
    unfold Go.saveScheduled at hsave
    split at hsave <;> cases hsave
    rename_i payload _
    exact ⟨payload, Rows.insert_of_free hfresh⟩
  have hmem : Go.scheduledRow e payload ∈ t'.rows := by simp [hrows]
  exact ⟨payload, hmem, fun r hr hid => Rows.eq_of_key hr hmem hid⟩

/-- Its last error is NULL, which Get cannot read. -/
theorem getScheduled_saved {jsonb : RawMessage → Option RawMessage} {t t' : ScheduledTable} {e : ScheduledEvent}
    (hfresh : ¬ t.Taken e.eventID) (hsave : Go.saveScheduled jsonb t e = .ok t') :
    Go.getScheduled t' e.tenantID e.eventID = .error (.wrap "get scheduled event" (scanNull 13 "last_error")) := by
  obtain ⟨payload, hmem, honly⟩ := saved_row hfresh hsave
  unfold Go.getScheduled
  cases hfind : t'.rows.find? (fun r => r.tenantID == e.tenantID && r.eventID == e.eventID) with
  | none =>
    have hnot := List.find?_eq_none.mp hfind _ hmem
    simp [Go.scheduledRow] at hnot
  | some r =>
    have hid := List.find?_some hfind
    simp only [Bool.and_eq_true, beq_iff_eq] at hid
    rw [honly r (List.mem_of_find?_eq_some hfind) hid.2]
    rfl

/-- Whatever is stored, Save leaves a row that neither Get nor GetDue can read: the last
    error is NULL. -/
theorem saved_not_read {jsonb : RawMessage → Option RawMessage} {t t' : ScheduledTable} {e : ScheduledEvent}
    (hfresh : ¬ t.Taken e.eventID) (hsave : Go.saveScheduled jsonb t e = .ok t') :
    Go.getScheduled t' e.tenantID e.eventID = .error (.wrap "get scheduled event" (scanNull 13 "last_error")) ∧
      ¬ ReadsBack jsonb t' e ∧ ¬ BecomesDue t' e := by
  have hget := getScheduled_saved hfresh hsave
  refine ⟨hget, ?_, ?_⟩
  · rintro ⟨e', he', -⟩
    rw [hget] at he'
    cases he'
  · intro hdue
    obtain ⟨payload, -, honly⟩ := saved_row hfresh hsave
    obtain ⟨events, hevents, e', he', hid⟩ := hdue e.scheduledAt t'.rows.length (le_refl _) (le_refl _)
    obtain ⟨r, hr, hscan⟩ := Go.getDue_from hevents he'
    have hrow := honly r hr ((Go.scanScheduled_id hscan).symm.trans hid)
    have hread := ((Go.scanScheduled_ok_iff r).mp ⟨e', hscan⟩).2
    rw [hrow] at hread
    cases hread

/-! An order to be shipped in an hour. -/

namespace ScheduledSample

def event : ScheduledEvent where
  eventID := "s-1"
  tenantID := "acme"
  eventType := "order.ship"
  partitionKey := "k"
  workflowID := ""
  payload := "\x7b\"order\": 5\x7d"
  headers := []
  scheduledAt := 63902826000000000
  status := .pending
  retryAt := none
  retryCount := 0
  lastError := ""
  createdAt := 63902822400000000
  releasedAt := none

/-- The one document of the sample, as JSONB prints it. -/
def jsonb (s : RawMessage) : Option RawMessage := if s = event.payload then some event.payload else none

end ScheduledSample

open ScheduledSample

theorem saved_not_read_order :
    ∃ t', Go.saveScheduled jsonb .empty event = .ok t' ∧
      ¬ ReadsBack jsonb t' event ∧ ¬ BecomesDue t' event := by
  refine ⟨_, rfl, ?_⟩
  exact (saved_not_read (by decide) rfl).2

/-- The event is stored, and both calls fail on it. -/
theorem saved_order_unreadable :
    (Go.saveScheduled jsonb .empty event).map (fun t =>
      (t.rows.length, Go.getScheduled t "acme" "s-1", Go.getDue t 63902826000000000 1)) =
    .ok (1, .error (.wrap "get scheduled event" (scanNull 13 "last_error")),
      .error (.wrap "scan scheduled event" (scanNull 13 "last_error"))) := by
  decide

end FlowRule
