import FlowRule.Scheduled.Schedulers

/- The scheduled events of MongoDB (internal/adapters/mongo/scheduled.go, with the unique index on
   event_id of db.go). A missing field meets no comparison and reads as the empty text. Claim is a
   statement of its own for each of its events. No Rust worker runs on MongoDB. -/
namespace FlowRule

structure ScheduledDoc where
  eventID : String
  tenantID : String
  eventType : String
  partitionKey : String
  workflowID : String
  payload : RawMessage
  headers : List (String × String)
  scheduledAt : Time
  status : ScheduledStatus
  createdAt : Time
  releasedAt : Option Time
  claimant : Option String
  claimedAt : Option Time
  claimExpiresAt : Option Time
  lastError : String
  retryAt : Option Time
  retryCount : Nat
  deriving DecidableEq, Repr

abbrev ScheduledCollection := Rows ScheduledDoc ScheduledDoc.eventID

namespace ScheduledDoc

def fromDomain (e : ScheduledEvent) : ScheduledDoc where
  eventID := e.eventID
  tenantID := e.tenantID
  eventType := e.eventType
  partitionKey := e.partitionKey
  workflowID := e.workflowID
  payload := e.payload
  headers := e.headers
  scheduledAt := e.scheduledAt
  status := e.status
  createdAt := e.createdAt
  releasedAt := e.releasedAt
  claimant := none
  claimedAt := none
  claimExpiresAt := none
  lastError := e.lastError
  retryAt := e.retryAt
  retryCount := e.retryCount

def toDomain (d : ScheduledDoc) : ScheduledEvent where
  eventID := d.eventID
  tenantID := d.tenantID
  eventType := d.eventType
  partitionKey := d.partitionKey
  workflowID := d.workflowID
  payload := d.payload
  headers := d.headers
  scheduledAt := d.scheduledAt
  status := d.status
  retryAt := d.retryAt
  retryCount := d.retryCount
  lastError := d.lastError
  createdAt := d.createdAt
  releasedAt := d.releasedAt

/-- The time of the retry if there is one, or else the scheduled time. -/
def dueAt (d : ScheduledDoc) : Time := d.retryAt.getD d.scheduledAt

/-- Pending and due, or claimed with a claim that has expired, at `t`. -/
def due (d : ScheduledDoc) (t : Time) : Bool :=
  (d.status == .pending && decide (d.dueAt ≤ t)) || (d.status == .claimed && d.claimExpiresAt.any (fun x => x ≤ t))

/-- The claim is this claimant's and has not expired at `t`. -/
def heldBy (d : ScheduledDoc) (claimant : String) (t : Time) : Bool :=
  d.claimant == some claimant && d.claimExpiresAt.any (fun x => t < x)

def unclaimed (d : ScheduledDoc) : ScheduledDoc :=
  { d with claimant := none, claimedAt := none, claimExpiresAt := none }

end ScheduledDoc

namespace Scheduled

namespace Mongo

def saveScheduled (c : ScheduledCollection) (e : ScheduledEvent) : ScheduledCollection := c.insert (.fromDomain e)

def getDue (c : ScheduledCollection) (before : Time) (limit : Int) : List ScheduledEvent :=
  let limit := if limit ≤ 0 then 100 else limit.toNat
  (((c.rows.filter (fun d => d.due before)).insertionSort (fun a b => a.scheduledAt ≤ b.scheduledAt)).take limit).map
    ScheduledDoc.toDomain

def claimed (claimant : String) (now expiresAt : Time) (d : ScheduledDoc) : ScheduledDoc :=
  { d with status := .claimed, claimant := some claimant, claimedAt := some now, claimExpiresAt := some expiresAt }

def claimScheduledEvent (c : ScheduledCollection) (eventID claimant : String) (now expiresAt : Time) :
    ScheduledCollection × Option ScheduledEvent :=
  let p := fun (d : ScheduledDoc) => d.eventID == eventID && d.due now
  ((c.update p (claimed claimant now expiresAt) (fun _ => rfl)).2,
    (c.rows.find? p).map (fun d => (claimed claimant now expiresAt d).toDomain))

/-- The events one after another. The locked ones are those whose statement fails. -/
def claimScheduledEvents (v : Oracle) (claimant : String) (now expiresAt : Time) :
    List String → ScheduledCollection → ScheduledCollection × Except Err (List ScheduledEvent)
  | [], c => (c, .ok [])
  | eventID :: rest, c =>
    let (c', event) := claimScheduledEvent c eventID claimant now expiresAt
    match if v.locked.contains eventID then v.fail else none with
    | some e => (if v.lost then c' else c, .error (.wrap "claim scheduled event" e))
    | none =>
      let (c'', events) := claimScheduledEvents v claimant now expiresAt rest c'
      (c'', events.map (fun events => event.toList ++ events))

def claimScheduled (v : Oracle) (c : ScheduledCollection) (eventIDs : List String) (claimant : String) (leaseTTL : Int)
    (now : Time) : ScheduledCollection × Except Err (List ScheduledEvent) :=
  if eventIDs.isEmpty then (c, .ok [])
  else if claimant = "" then (c, .error (.msg "claim scheduled events: claimant is required"))
  else if leaseTTL ≤ 0 then (c, .error (.msg "claim scheduled events: lease TTL must be positive"))
  else claimScheduledEvents v claimant now (now + leaseTTL) eventIDs c

/-- An update of a document whose claim is still held, which has to be there. -/
def settleScheduled (c : ScheduledCollection) (action eventID claimant : String) (t : Time)
    (f : ScheduledDoc → ScheduledDoc) (hf : ∀ d, (f d).eventID = d.eventID) : ScheduledCollection × Except Err Unit :=
  let (n, c') := c.update (fun d => d.eventID == eventID && d.status == .claimed && d.heldBy claimant t) f hf
  if n ≠ 1 then (c', .error (.msg (action ++ ": claim for event " ++ quoted eventID ++ " is no longer owned by " ++
    quoted claimant)))
  else (c', .ok ())

def markReleased (c : ScheduledCollection) (eventID claimant : String) (releasedAt : Time) :
    ScheduledCollection × Except Err Unit :=
  settleScheduled c "mark scheduled event released" eventID claimant releasedAt
    (fun d => { d.unclaimed with status := .released, releasedAt := some releasedAt, retryAt := none }) (fun _ => rfl)

def scheduleScheduledRetry (c : ScheduledCollection) (eventID claimant : String) (retryAt : Time) (errMsg : String)
    (now : Time) : ScheduledCollection × Except Err Unit :=
  settleScheduled c "schedule scheduled event retry" eventID claimant now
    (fun d => { d.unclaimed with
      status := .pending, retryAt := some retryAt, retryCount := d.retryCount + 1, lastError := errMsg })
    (fun _ => rfl)

def markFailed (c : ScheduledCollection) (eventID claimant errMsg : String) (now : Time) :
    ScheduledCollection × Except Err Unit :=
  settleScheduled c "mark scheduled event failed" eventID claimant now
    (fun d => { d.unclaimed with status := .failed, retryCount := d.retryCount + 1, lastError := errMsg })
    (fun _ => rfl)

def getScheduled (c : ScheduledCollection) (tenantID eventID : String) : Option ScheduledEvent :=
  (c.rows.find? (fun d => d.tenantID == tenantID && d.eventID == eventID)).map ScheduledDoc.toDomain

def cancelScheduled (c : ScheduledCollection) (tenantID eventID : String) : ScheduledCollection × Except Err Unit :=
  let (n, c') := c.update (fun d => d.tenantID == tenantID && d.eventID == eventID && d.status == .pending)
    (fun d => { d with status := .cancelled }) (fun _ => rfl)
  if n ≠ 1 then (c', .error (.msg ("cancel scheduled event: event " ++ quoted eventID ++
    " not found or not pending for tenant " ++ quoted tenantID)))
  else (c', .ok ())

/-- One call of the repository that does not fail from outside, or for a claim, as far as the
    oracle has it. -/
def perform (c : ScheduledCollection) (v : Oracle) : (o : Op) → ScheduledCollection × Except Err o.Res
  | .clock => (c, .ok v.clock)
  | .getDue before limit => (c, .ok (getDue c before limit))
  | .claim eventIDs claimant leaseTTL now => claimScheduled v c eventIDs claimant leaseTTL now
  | .publish _ => (c, .ok ())
  | .markReleased eventID claimant releasedAt => markReleased c eventID claimant releasedAt
  | .scheduleRetry eventID claimant retryAt errMsg => scheduleScheduledRetry c eventID claimant retryAt errMsg v.clock
  | .markFailed eventID claimant errMsg => markFailed c eventID claimant errMsg v.clock
  | .save event => (saveScheduled c event, .ok ())
  | .cancel tenantID eventID => cancelScheduled c tenantID eventID
  -- the statements of the Rust scheduler
  | .claimDue _ _ | .rustMarkReleased _ _ | .rustScheduleRetry _ _ _ _ | .rustMarkFailed _ _ _ _ =>
    (c, .error (.msg "not a statement of MongoDB"))

def failure (v : Oracle) : Op → Option Err
  | .clock | .claim _ _ _ _ => none
  | _ => v.fail

end Mongo

end Scheduled

end FlowRule
