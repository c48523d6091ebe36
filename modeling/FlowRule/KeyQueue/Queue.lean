import FlowRule.Lib.Machine
import FlowRule.Domain.Types

/- The per-key queue of the worker (internal/runtime/keyqueue/queue.go).

   A Submit call and a worker goroutine are programs with a program counter each; a step of
   the system is one step of one of them. What is done under the mutex is one step where it
   reads at most one channel length; the scan of nextEvent, which reads many, holds the mutex
   over several steps. A receive and the call of the processor that follows it are one step.
   Which case a select takes and in which order the map is gone through is in the label.

   A queue object is a number, its address. `QueuedItem.id` is the Submit call that allocated
   the item. `sent` and `entered` are not in the source: the items in the order in which they
   were put into channels, and given to the processor. -/
namespace FlowRule.KeyQueue

structure QueueItem (Delivery : Type) where
  event : Option EventEnvelope
  delivery : Delivery
  fencingToken : Int
  shard : UInt32
  workerID : String

structure QueuedItem (Delivery : Type) where
  id : Nat
  env : EventEnvelope
  delivery : Delivery
  fencingToken : Int
  vshard : UInt32
  workerID : String
  deriving DecidableEq

variable {Delivery : Type}

def QueuedItem.key (q : QueuedItem Delivery) : String := q.env.partitionKey

structure Limits where
  maxGlobalInFlight : Nat
  maxPerKey : Nat
  workerCount : Nat

def newKeyQueue (maxGlobalInFlight maxPerKeyQueue workerCount : Int) : Limits where
  maxGlobalInFlight := if maxGlobalInFlight ≤ 0 then 100 else maxGlobalInFlight.toNat
  maxPerKey := if maxPerKeyQueue ≤ 0 then 100 else maxPerKeyQueue.toNat
  workerCount := if workerCount ≤ 0 then 1 else workerCount.toNat

/-- A caller's context; `done` has what ctx.Err returns. -/
inductive Ctx where
  | missing
  | live
  | done (err : Err)
  deriving DecidableEq

inductive SubmitPc where
  | validating
  | beginning
  | acquiring
  | registering
  | enqueuing (queue : Nat)
  | givingBack (queue : Nat) (err : Err)
  | finishing (queue : Nat) (err : Option Err)
  | leaving (err : Option Err)
  | returned (err : Option Err)
  deriving DecidableEq

structure Submission (Delivery : Type) where
  item : QueueItem Delivery
  ctx : Ctx
  pc : SubmitPc

/-- Where a worker goroutine is. A selected queue comes with the key it was found under. -/
inductive WorkerPc (Delivery : Type) where
  | ready
  | polling
  | scanning (rest : List String)
  | selected (key : String) (queue : Nat)
  | inside (item : QueuedItem Delivery)
  | finishing (item : QueuedItem Delivery)
  | releasing
  | waiting
  | gone

structure Obj (Delivery : Type) where
  ch : List (QueuedItem Delivery)
  partitionKey : String
  processing : Bool
  submitters : Int

structure Core (Delivery : Type) where
  queues : List (String × Nat)
  objs : Nat → Obj Delivery
  fresh : Nat
  submits : List (Submission Delivery)
  workers : List (WorkerPc Delivery)
  sent : List (QueuedItem Delivery)
  entered : List (QueuedItem Delivery)

/-- `mu` is the worker that scans under the mutex; `stopped` stands for stopSubmitting too,
    which is closed in the same critical section. -/
structure State (Delivery : Type) extends Core Delivery where
  mu : Option Nat
  started : Bool
  stopped : Bool
  submitWG : Nat
  globalSem : Nat
  stopWorkers : Bool
  ctxDone : Bool

def init : State Delivery where
  queues := []
  objs := fun _ => ⟨[], "", false, 0⟩
  fresh := 0
  submits := []
  workers := []
  sent := []
  entered := []
  mu := none
  started := false
  stopped := false
  submitWG := 0
  globalSem := 0
  stopWorkers := false
  ctxDone := false

namespace Core

def setObj (c : Core Delivery) (o : Nat) (q : Obj Delivery) : Core Delivery :=
  { c with objs := Function.update c.objs o q }

def setSubmit (c : Core Delivery) (i : Nat) (sub : Submission Delivery) (pc : SubmitPc) : Core Delivery :=
  { c with submits := c.submits.set i { sub with pc := pc } }

def setWorker (c : Core Delivery) (w : Nat) (pc : WorkerPc Delivery) : Core Delivery :=
  { c with workers := c.workers.set w pc }

def queueFor (c : Core Delivery) (partitionKey : String) : Core Delivery × Nat :=
  match c.queues.lookup partitionKey with
  | some o => (c, o)
  | none =>
    let c' := { c with queues := Assoc.put partitionKey c.fresh c.queues, fresh := c.fresh + 1 }
    (c'.setObj c.fresh ⟨[], partitionKey, false, 0⟩, c.fresh)

def registerQueueSubmitter (c : Core Delivery) (partitionKey : String) : Core Delivery × Nat :=
  let (c', o) := c.queueFor partitionKey
  let queue := c'.objs o
  (c'.setObj o { queue with submitters := queue.submitters + 1 }, o)

def put (c : Core Delivery) (o : Nat) (item : QueuedItem Delivery) : Core Delivery :=
  let queue := c.objs o
  { c.setObj o { queue with ch := queue.ch ++ [item] } with sent := c.sent ++ [item] }

def finishSubmit (c : Core Delivery) (o : Nat) : Core Delivery :=
  let q := c.objs o
  let less := q.submitters - 1
  let submitters := if less < 0 then 0 else less
  let c' := c.setObj o { q with submitters := submitters }
  if c.queues.lookup q.partitionKey = some o ∧ q.processing = false ∧ submitters = 0 ∧ q.ch.length = 0 then
    { c' with queues := Assoc.drop q.partitionKey c.queues }
  else c'

def selectable (c : Core Delivery) (o : Nat) : Bool := !(c.objs o).processing && decide (0 < (c.objs o).ch.length)

def startProcessing (c : Core Delivery) (o : Nat) : Core Delivery :=
  c.setObj o { c.objs o with processing := true }

def receive (c : Core Delivery) (o : Nat) (item : QueuedItem Delivery) (rest : List (QueuedItem Delivery)) :
    Core Delivery :=
  { c.setObj o { c.objs o with ch := rest } with entered := c.entered ++ [item] }

def finishEvent (c : Core Delivery) (partitionKey : String) : Core Delivery :=
  match c.queues.lookup partitionKey with
  | none => c
  | some o =>
    let q := c.objs o
    let c' := c.setObj o { q with processing := false }
    if q.submitters = 0 ∧ q.ch.length = 0 then { c' with queues := Assoc.drop partitionKey c.queues } else c'

end Core

/-! Submit. -/

inductive Case where
  | proceed
  | cancelled
  | stopping
  deriving DecidableEq

def validateQueueSubmission (ctx : Ctx) (item : QueueItem Delivery) : Option Err :=
  if ctx = .missing then some (.msg "submit event: context is nil")
  else if item.event.isNone then some (.msg "submit event: envelope is nil")
  else none

def notRunning : Err := .msg "submit event: key queue is not running"

def queueStopping : Err := .msg "submit event: key queue is stopping"

def queued (i : Nat) (item : QueueItem Delivery) (env : EventEnvelope) : QueuedItem Delivery :=
  ⟨i, env, item.delivery, item.fencingToken, item.shard, item.workerID⟩

namespace State

def goSubmit (s : State Delivery) (i : Nat) (sub : Submission Delivery) (pc : SubmitPc) : State Delivery :=
  { s with toCore := s.toCore.setSubmit i sub pc }

def goWorker (s : State Delivery) (w : Nat) (pc : WorkerPc Delivery) : State Delivery :=
  { s with toCore := s.toCore.setWorker w pc }

end State

def interrupted (s : State Delivery) (ctx : Ctx) : Case → Option Err
  | .proceed => none
  | .cancelled => match ctx with
    | .done err => some err
    | _ => none
  | .stopping => if s.stopped then some queueStopping else none

def beginSubmission (s : State Delivery) (i : Nat) (sub : Submission Delivery) : State Delivery :=
  if s.started = false ∨ s.stopped = true then s.goSubmit i sub (.returned (some notRunning))
  else { s with submitWG := s.submitWG + 1 }.goSubmit i sub .acquiring

def acquireGlobalSlot (limits : Limits) (s : State Delivery) (i : Nat) (sub : Submission Delivery) :
    Case → Option (State Delivery)
  | .proceed =>
    if s.globalSem < limits.maxGlobalInFlight then
      some ({ s with globalSem := s.globalSem + 1 }.goSubmit i sub .registering)
    else none
  | case => (interrupted s sub.ctx case).map (fun err => s.goSubmit i sub (.leaving (some err)))

def enqueueItem (limits : Limits) (s : State Delivery) (i : Nat) (sub : Submission Delivery) (env : EventEnvelope)
    (queue : Nat) : Case → Option (State Delivery)
  | .proceed =>
    if (s.objs queue).ch.length < limits.maxPerKey then
      some ({ s with toCore := s.toCore.put queue (queued i sub.item env) }.goSubmit i sub (.finishing queue none))
    else none
  | case => (interrupted s sub.ctx case).map (fun err => s.goSubmit i sub (.givingBack queue err))

/-- One step of the Submit call `i`. -/
def submitStep (limits : Limits) (s : State Delivery) (i : Nat) (sub : Submission Delivery) (case : Case) :
    Option (State Delivery) :=
  match sub.pc, sub.item.event with
  | .validating, _ =>
    match validateQueueSubmission sub.ctx sub.item with
    | some err => some (s.goSubmit i sub (.returned (some err)))
    | none => some (s.goSubmit i sub .beginning)
  | .beginning, _ => some (beginSubmission s i sub)
  | .acquiring, _ => acquireGlobalSlot limits s i sub case
  | .registering, some env =>
    if s.mu.isSome then none
    else
      let (core, queue) := s.toCore.registerQueueSubmitter env.partitionKey
      some ({ s with toCore := core }.goSubmit i sub (.enqueuing queue))
  | .enqueuing queue, some env => enqueueItem limits s i sub env queue case
  | .givingBack queue err, _ =>
    if 0 < s.globalSem then
      some ({ s with globalSem := s.globalSem - 1 }.goSubmit i sub (.finishing queue (some err)))
    else none
  | .finishing queue result, _ =>
    if s.mu.isSome then none
    else some ({ s with toCore := s.toCore.finishSubmit queue }.goSubmit i sub (.leaving result))
  | .leaving result, _ => some ({ s with submitWG := s.submitWG - 1 }.goSubmit i sub (.returned result))
  | _, _ => none

/-! The workers. -/

def workerShouldContinue (s : State Delivery) : Bool := !s.ctxDone && !s.stopWorkers

/-- nextEvent looks at the queue of one key; with none left it returns nil. -/
def scanStep (s : State Delivery) (w : Nat) : List String → State Delivery
  | [] => { s with mu := none }.goWorker w .waiting
  | key :: rest =>
    match s.queues.lookup key with
    | none => s.goWorker w (.scanning rest)
    | some o =>
      if s.toCore.selectable o then
        { s with mu := none, toCore := s.toCore.startProcessing o }.goWorker w (.selected key o)
      else s.goWorker w (.scanning rest)

def waitForQueueWork (s : State Delivery) (w : Nat) : Case → Option (State Delivery)
  | .proceed => some (s.goWorker w .ready)
  | .cancelled => if s.ctxDone then some (s.goWorker w .gone) else none
  | .stopping => if s.stopWorkers then some (s.goWorker w .gone) else none

/-- One step of the worker `w`; `order` is the order of the map in a scan that begins. -/
def workerStep (s : State Delivery) (w : Nat) (pc : WorkerPc Delivery) (order : List String) (case : Case) :
    Option (State Delivery) :=
  match pc with
  | .ready => some (s.goWorker w (if workerShouldContinue s then .polling else .gone))
  | .polling =>
    if s.mu = none ∧ order.Perm (s.queues.map Prod.fst) then some ({ s with mu := some w }.goWorker w (.scanning order))
    else none
  | .scanning rest => some (scanStep s w rest)
  | .selected _ queue =>
    match (s.objs queue).ch with
    | [] => none
    | item :: rest => some ({ s with toCore := s.toCore.receive queue item rest }.goWorker w (.inside item))
  | .inside item => some (s.goWorker w (.finishing item))
  | .finishing item =>
    if s.mu.isSome then none
    else some ({ s with toCore := s.toCore.finishEvent item.key }.goWorker w .releasing)
  | .releasing => if 0 < s.globalSem then some ({ s with globalSem := s.globalSem - 1 }.goWorker w .ready) else none
  | .waiting => waitForQueueWork s w case
  | .gone => none

/-! The queue as a whole. -/

inductive Act (Delivery : Type) where
  | start
  | stop
  | closeWorkers
  | cancelWorkers
  | submit (item : QueueItem Delivery) (ctx : Ctx)
  | cancelSubmit (i : Nat) (err : Err)
  | submission (i : Nat) (case : Case)
  | worker (w : Nat) (order : List String) (case : Case)

def start (limits : Limits) (s : State Delivery) : State Delivery :=
  if s.started = true ∨ s.stopped = true then s
  else { s with started := true, workers := s.workers ++ List.replicate limits.workerCount .ready }

def next (limits : Limits) (s : State Delivery) : Act Delivery → Option (State Delivery)
  | .start => some (start limits s)
  | .stop => some { s with stopped := true }
  | .closeWorkers => if s.stopped = true ∧ s.submitWG = 0 then some { s with stopWorkers := true } else none
  | .cancelWorkers => some { s with ctxDone := true }
  | .submit item ctx => some { s with submits := s.submits ++ [⟨item, ctx, .validating⟩] }
  | .cancelSubmit i err =>
    match s.submits[i]? with
    | some sub => if sub.ctx = .live then some
        { s with submits := s.submits.set i { sub with ctx := .done err } } else none
    | none => none
  | .submission i case =>
    match s.submits[i]? with
    | some sub => submitStep limits s i sub case
    | none => none
  | .worker w order case =>
    match s.workers[w]? with
    | some pc => workerStep s w pc order case
    | none => none

end FlowRule.KeyQueue
