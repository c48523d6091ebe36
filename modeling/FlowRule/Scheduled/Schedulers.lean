import FlowRule.Scheduled.Repository

/- The schedulers that publish due events (internal/runtime/scheduler/scheduler.go and
   rust-worker/src/runtime/scheduler.rs), with the calls that save and cancel events, as clients of
   one table. A tick of the Go scheduler and a round of the Rust scheduler are programs of
   statements, and a scheduler may stop for good at any point.

   Every statement comes with its NOW(), which is any instant. A statement may fail without effect,
   or take effect while its answer is lost, and so may a publish. Every tick and every round has a
   claimant of its own (`used`). `log` and what a session still has to publish are read by no
   statement. Subject and shard of a published message are left out. -/
namespace FlowRule.Scheduled

inductive Note where
  | published (env : EventEnvelope)
  | cancelled (eventID : String)
  deriving DecidableEq, Repr

structure Shared where
  table : ScheduledTable
  used : List String
  log : List Note

inductive Op where
  | clock
  | getDue (before : Time) (limit : Int)
  | claim (eventIDs : List String) (claimant : String) (leaseTTL : Int) (now : Time)
  | claimDue (claimant : String) (batchSize : Nat)
  | publish (env : EventEnvelope)
  | markReleased (eventID claimant : String) (releasedAt : Time)
  | scheduleRetry (eventID claimant : String) (retryAt : Time) (errMsg : String)
  | markFailed (eventID claimant errMsg : String)
  | rustMarkReleased (eventID claimant : String)
  | rustScheduleRetry (eventID claimant : String) (attempt : Nat) (error : String)
  | rustMarkFailed (eventID claimant : String) (attempt : Nat) (error : String)
  | save (event : ScheduledEvent)
  | cancel (tenantID eventID : String)

abbrev Op.Res : Op → Type
  | .clock => Time
  | .getDue _ _ => List ScheduledEvent
  | .claim _ _ _ _ => List ScheduledEvent
  | .claimDue _ _ => List ScheduledRow
  | _ => Unit

/-- What is decided outside the table: whether and how the statement fails, its NOW(), the
    worker's clock, and the rows that others have locked. -/
structure Oracle where
  fail : Option Err
  lost : Bool
  now : Time
  clock : Time
  locked : List String

def fine (now : Time) : Oracle := ⟨none, false, now, now, []⟩

abbrev P (R : Type) := Prog Op Op.Res Err R

def sql (o : Op) : P o.Res := Prog.call o

section
variable (jsonb : RawMessage → Option RawMessage)

def perform (t : ScheduledTable) (v : Oracle) : (o : Op) → ScheduledTable × Except Err o.Res
  | .clock => (t, .ok v.clock)
  | .getDue before limit => (t, Go.getDue t before limit)
  | .claim eventIDs claimant leaseTTL now => Go.claimScheduled t eventIDs claimant leaseTTL now
  | .claimDue claimant batchSize =>
    let (t', rows) := Rust.claimDueEvents t claimant batchSize v.locked v.now
    (t', .ok rows)
  | .publish _ => (t, .ok ())
  | .markReleased eventID claimant releasedAt => Go.markReleased t eventID claimant releasedAt v.now
  | .scheduleRetry eventID claimant retryAt errMsg => Go.scheduleScheduledRetry t eventID claimant retryAt errMsg v.now
  | .markFailed eventID claimant errMsg => Go.markFailed t eventID claimant errMsg v.now
  | .rustMarkReleased eventID claimant => (Rust.markReleased t claimant eventID v.now, .ok ())
  | .rustScheduleRetry eventID claimant attempt error =>
    (Rust.scheduleRetry t claimant eventID attempt error v.now, .ok ())
  | .rustMarkFailed eventID claimant attempt error =>
    (Rust.markFailed t claimant eventID attempt error v.now, .ok ())
  | .save event =>
    match Go.saveScheduled jsonb t event with
    | .ok t' => (t', .ok ())
    | .error e => (t, .error e)
  | .cancel tenantID eventID => Go.cancelScheduled t tenantID eventID

def context : Op → Err → Err
  | .clock => id
  | .getDue _ _ => .wrap "get due scheduled events"
  | .claim _ _ _ _ => .wrap "claim scheduled events"
  | .claimDue _ _ => .wrap "claim due scheduled events"
  | .publish _ => id
  | .markReleased _ _ _ => .wrap "mark scheduled event released"
  | .scheduleRetry _ _ _ _ => .wrap "schedule scheduled event retry"
  | .markFailed _ _ _ => .wrap "mark scheduled event failed"
  | .rustMarkReleased _ _ => .wrap "mark scheduled event released"
  | .rustScheduleRetry _ _ _ _ => .wrap "schedule scheduled-event retry"
  | .rustMarkFailed _ _ _ _ => .wrap "mark scheduled event permanently failed"
  | .save _ => .wrap "save scheduled event"
  | .cancel _ _ => .wrap "cancel scheduled event"

def note : (o : Op) → Except Err o.Res → List Note
  | .publish env, _ => [.published env]
  | .cancel _ eventID, .ok _ => [.cancelled eventID]
  | _, _ => []

/-- The error with which the statement fails, if it does; the clock does not. -/
def failure (v : Oracle) : Op → Option Err
  | .clock => none
  | _ => v.fail

/-- A session has the claimant of its client and, of the events that it claimed, those it has
    yet to publish. -/
structure Session where
  claimant : Option String
  batch : List String
  deriving DecidableEq, Repr

/-- The session after the answer to a statement. The Rust scheduler stops when it cannot
    settle an event. -/
def Session.after (s : Session) : (o : Op) → Except Err o.Res → Session
  | .claim _ _ _ _, .ok events => { s with batch := events.map ScheduledEvent.eventID }
  | .claimDue _ _, .ok rows => { s with batch := rows.map ScheduledRow.eventID }
  | .publish env, _ => { s with batch := s.batch.erase env.id }
  | .rustMarkReleased _ _, .error _ => { s with batch := [] }
  | .rustScheduleRetry _ _ _ _, .error _ => { s with batch := [] }
  | .rustMarkFailed _ _ _ _, .error _ => { s with batch := [] }
  | _, _ => s

/-- A statement: it is performed and answered, or its answer is lost, or it fails without
    effect. -/
def exec (d : Shared) (_ : List Session) (s : Session) (o : Op) (v : Oracle) :
    Option (Shared × Session × Except Err o.Res) :=
  let (t', a) := perform jsonb d.table v o
  match failure v o with
  | none => some ({ d with table := t', log := d.log ++ note o a }, s.after o a, a)
  | some e =>
    let a : Except Err o.Res := .error (context o e)
    if v.lost then some ({ d with table := t', log := d.log ++ note o a }, s.after o a, a)
    else some (d, s.after o a, a)

end

/-! The Go scheduler. -/

namespace Go

def maxScheduledEventAttempts : Nat := 8

def scheduledRetryDelay (attempt : Nat) : Int :=
  let attempt := if attempt < 1 then 1 else attempt
  let attempt := if 7 < attempt then 7 else attempt
  let delay : Int := 2 ^ (attempt - 1) * 1000000
  if 60000000 < delay then 60000000 else delay

def releasedEnvelope (event : ScheduledEvent) (now : Time) : EventEnvelope where
  id := event.eventID
  type := event.eventType
  tenantID := event.tenantID
  partitionKey := event.partitionKey
  workflowID := event.workflowID
  occurredAt := now
  data := event.payload
  headers := Assoc.put "Idempotency-Key" ("sched-" ++ event.eventID) event.headers

def releaseEvent (event : ScheduledEvent) : P Unit := do
  let now ← sql .clock
  sql (.publish (releasedEnvelope event now))

def handleReleaseFailure (event : ScheduledEvent) (claimant : String) (releaseErr : Err) : P Unit :=
  if maxScheduledEventAttempts ≤ event.retryCount + 1 then do
    let _ ← (sql (.markFailed event.eventID claimant releaseErr.text)).caught
  else do
    let now ← sql .clock
    let _ ← (sql (.scheduleRetry event.eventID claimant (now + scheduledRetryDelay (event.retryCount + 1))
      releaseErr.text)).caught

def markEventReleased (event : ScheduledEvent) (claimant : String) : P Unit := do
  let now ← sql .clock
  let _ ← (sql (.markReleased event.eventID claimant now)).caught

def processClaimedEvent (claimant : String) (event : ScheduledEvent) : P Unit := do
  match ← (releaseEvent event).caught with
  | .error e => handleReleaseFailure event claimant e
  | .ok _ => markEventReleased event claimant

def processClaimedEvents (claimant : String) : List ScheduledEvent → P Unit
  | [] => pure ()
  | event :: rest => do
    processClaimedEvent claimant event
    processClaimedEvents claimant rest

def claimDueEvents (events : List ScheduledEvent) (claimant : String) : P (List ScheduledEvent) := do
  let now ← sql .clock
  sql (.claim (events.map ScheduledEvent.eventID) claimant 300000000 now)

def tick (claimant : String) (batchSize : Int) : P Unit := do
  let now ← sql .clock
  match ← (sql (.getDue now batchSize)).caught with
  | .error _ => pure ()
  | .ok [] => pure ()
  | .ok events =>
    match ← (claimDueEvents events claimant).caught with
    | .error _ => pure ()
    | .ok claimed => processClaimedEvents claimant claimed

end Go

/-! The Rust scheduler. -/

namespace Rust

def scheduledEnvelope (row : ScheduledRow) (now : Time) : EventEnvelope where
  id := row.eventID
  type := row.eventType
  tenantID := row.tenantID
  partitionKey := row.partitionKey
  workflowID := row.workflowID.getD ""
  occurredAt := now
  data := row.payload
  headers := Assoc.put "Idempotency-Key" ("sched-" ++ row.eventID) (row.headers.getD [])

def recordPublishFailure (claimant eventID : String) (retryCount : Nat) (error : String) : P Unit :=
  if 8 ≤ retryCount + 1 then sql (.rustMarkFailed eventID claimant (retryCount + 1) error)
  else sql (.rustScheduleRetry eventID claimant (retryCount + 1) error)

def processScheduledEvent (claimant : String) (row : ScheduledRow) : P Unit := do
  let now ← sql .clock
  match ← ((sql (.publish (scheduledEnvelope row now))).wrap
      (Err.wrap "publish scheduled event to JetStream")).caught with
  | .ok _ => sql (.rustMarkReleased row.eventID claimant)
  | .error e => recordPublishFailure claimant row.eventID row.retryCount e.display

def processScheduledEvents (claimant : String) : List ScheduledRow → P Unit
  | [] => pure ()
  | row :: rest => do
    processScheduledEvent claimant row
    processScheduledEvents claimant rest

def round (claimant : String) (batchSize : Nat) : P Unit := do
  let rows ← sql (.claimDue claimant batchSize)
  processScheduledEvents claimant rows

end Rust

/-! The clients. -/

/-- A tick or a round with the identity that was generated for it, or a call of the API. -/
inductive Input where
  | goTick (id : String) (batchSize : Int)
  | rustRound (id : String) (batchSize : Nat)
  | save (event : ScheduledEvent)
  | cancel (tenantID eventID : String)
  deriving DecidableEq, Repr

namespace Input

def claimant : Input → Option String
  | goTick id _ => some ("scheduler-" ++ id)
  | rustRound id _ => some ("scheduler-" ++ id)
  | _ => none

def program : Input → P Unit
  | goTick id batchSize => Go.tick ("scheduler-" ++ id) batchSize
  | rustRound id batchSize => Rust.round ("scheduler-" ++ id) batchSize
  | save event => sql (.save event)
  | cancel tenantID eventID => sql (.cancel tenantID eventID)

end Input

def start (d : Shared) (i : Input) : Option (Shared × Session × P Unit) :=
  match i.claimant with
  | none => some (d, ⟨none, []⟩, i.program)
  | some claimant =>
    if claimant ∈ d.used then none
    else some ({ d with used := claimant :: d.used }, ⟨some claimant, []⟩, i.program)

def server (jsonb : RawMessage → Option RawMessage) :
    Server Shared Session Input Empty Oracle Op Op.Res Err Unit where
  start := start
  exec := exec jsonb
  env _ _ v := nomatch v

abbrev World := Clients.World Shared Session Input Op Op.Res Err Unit

abbrev Act := Clients.Act Input Empty Oracle

def init : World := Clients.empty ⟨.empty, [], []⟩

end FlowRule.Scheduled
