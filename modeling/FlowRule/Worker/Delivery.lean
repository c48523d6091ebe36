import FlowRule.Lib.Workers
import FlowRule.KeyQueue.Queue
import FlowRule.Events.Calls

/- What a Go worker does with a fetched delivery (internal/application/worker_delivery.go, with
   QuarantineEvent of internal/services/events/service.go). Submit and Process take many steps of
   the queue and of the database, so each is two statements here, the call and its return. What the
   broker, the quarantine repository, the lease manager and the clock answer is a choice of the
   outside. A delivery is a number, and `Message` is what it carries, with its decoded envelope. -/
namespace FlowRule.Worker

open KeyQueue

/-- A fetched delivery: its bytes, its event or why there is none, and how often the broker
    says it has been delivered, where the adapter knows. -/
structure Message where
  raw : String
  event : Except Err (Option EventEnvelope)
  attempt : Option Nat

/-- What of a worker's configuration the handling of deliveries depends on. -/
structure Settings where
  numShards : UInt32
  retryDelay : Int
  workerID : String
  limits : Limits

inductive HandleOp where
  | isOwner (vshard : UInt32)
  | getFencingToken (vshard : UInt32)
  | submit (item : QueueItem Nat)
  | submitted (call : Nat)
  | process (env : EventEnvelope) (fencingToken : Int) (vshard : UInt32) (workerID : String)
  | processed (call : Nat)
  | clockNow
  | random (bound : Int)
  | save (entry : QuarantineEntry)
  | ack (delivery : Nat)
  | nak (delivery : Nat)
  | retry (delivery : Nat) (delay : Int)

def HandleOp.Res : HandleOp → Type
  | isOwner _ => Bool
  | getFencingToken _ => Option Int
  | submit _ => Nat
  | submitted _ => Option Err
  | process _ _ _ _ => Nat
  | processed _ => Option Execution
  | clockNow => Time
  | random _ => Int
  | save _ => Unit
  | ack _ => Unit
  | nak _ => Unit
  | retry _ _ => Unit

abbrev Handle := Prog HandleOp HandleOp.Res Err

namespace Handle

def stmt (o : HandleOp) : Handle o.Res := Prog.call o

/-! Retries. Durations are nanoseconds. -/

def maxDeliveryRetryDelay : Int := 300 * 1000000000

/-- The loop over the attempts after the first; it ends early once the ceiling is reached. -/
def doubled : Nat → Int → Int
  | 0, ceiling => ceiling
  | n + 1, ceiling =>
    if ceiling < maxDeliveryRetryDelay then
      if maxDeliveryRetryDelay / 2 < ceiling then maxDeliveryRetryDelay else doubled n (ceiling * 2)
    else ceiling

def retryCeiling (base : Int) (attempt : Option Nat) : Int :=
  let base := if base ≤ 0 then 5 * 1000000000 else base
  let attempt := match attempt with
    | some n => if 0 < n then n else 1
    | none => 1
  min (doubled (attempt - 1) base) maxDeliveryRetryDelay

def retryDelayForDelivery (base : Int) (attempt : Option Nat) : Handle Int := do
  let ceiling := retryCeiling base attempt
  let lower := ceiling / 2
  let jitterRange := ceiling - lower
  if jitterRange ≤ 0 then pure ceiling
  else
    let draw : Int ← stmt (.random (jitterRange + 1))
    pure (lower + draw)

section
variable (sha256Hex : String → String) (cfg : Settings) (delivery : Nat) (message : Message)

def throwJoined (errs : List Err) : Handle Unit :=
  match joinErrors errs with
  | some err => Prog.throw err
  | none => pure ()

def retry : Handle Unit := do
  let delay ← retryDelayForDelivery cfg.retryDelay message.attempt
  stmt (.retry delivery delay)

def quarantineEvent (sourceID eventID tenantID : String) (errClass : ErrorClass) (errMsg : String) : Handle Unit := do
  let rawID := "event-quarantine|" ++ Text.prefixed tenantID ++ "|" ++ Text.prefixed sourceID ++ "|" ++
    Text.prefixed eventID ++ "|" ++ errClass.text
  let now : Time ← stmt .clockNow
  stmt (.save ⟨sha256Hex rawID, "event", sourceID, errClass.text, "jetstream:flowrule", eventID, tenantID, errMsg, now⟩)

/-! The processor. -/

def quarantinePermanentEvent (env : EventEnvelope) (processErr : Err) : Handle Unit := do
  let saved ← (quarantineEvent sha256Hex env.id env.id env.tenantID (classifyError processErr) processErr.text).caught
  match saved with
  | .error err =>
    let retried ← (retry cfg delivery message).caught
    let first := err.wrap ("quarantine permanent event " ++ env.id)
    match retried with
    | .error retryErr => throwJoined [first, retryErr]
    | .ok _ => throwJoined [first]
  | .ok _ => (stmt (.ack delivery)).wrap (Err.wrap ("ack quarantined event " ++ env.id))

def handleEventProcessingFailure (env : EventEnvelope) (processErr : Err) : Handle Unit := do
  if isPermanent processErr then quarantinePermanentEvent sha256Hex cfg delivery message env processErr
  else
    let retried ← (retry cfg delivery message).caught
    match retried with
    | .error retryErr =>
      throwJoined [processErr.wrap ("process event " ++ env.id), retryErr.wrap ("retry event " ++ env.id)]
    | .ok _ => Prog.throw processErr

def settleEventResult (env : EventEnvelope) (result : Except Err Execution) : Handle Unit :=
  match result with
  | .error processErr => handleEventProcessingFailure sha256Hex cfg delivery message env processErr
  | .ok _ => (stmt (.ack delivery)).wrap (Err.wrap ("ack event " ++ env.id))

def processResult : Except Err (Option Execution) → Except Err Execution
  | .ok (some execution) => .ok execution
  | .ok none => .error (.msg "event processor returned a nil execution without an error")
  | .error err => .error err

def processDelivery (env : Option EventEnvelope) (fencingToken : Int) (vshard : UInt32) (workerID : String) :
    Handle Unit :=
  match env with
  | none => Prog.throw (.msg "process delivery: event envelope is nil")
  | some env => do
    let call : Nat ← stmt (.process env fencingToken vshard workerID)
    let result : Except Err (Option Execution) ← (stmt (.processed call)).caught
    settleEventResult sha256Hex cfg delivery message env (processResult result)

/-! The fetch loop. -/

def quarantineInvalidDelivery : Handle Unit := do
  let sourceID := sha256Hex message.raw
  let saved ← (quarantineEvent sha256Hex sourceID "" "" .validation "invalid event envelope JSON").caught
  match saved with
  | .error _ =>
    let _ ← (retry cfg delivery message).caught
    pure ()
  | .ok _ =>
    let _ ← (stmt (.ack delivery)).caught
    pure ()

def settleNak : Handle Unit := do
  let _ ← (stmt (.nak delivery)).caught
  pure ()

def submitOwnedDelivery (env : EventEnvelope) (vshard : UInt32) : Handle Unit := do
  let token : Option Int ← stmt (.getFencingToken vshard)
  let call : Nat ← stmt (.submit ⟨some env, delivery, token.getD 0, vshard, cfg.workerID⟩)
  let result : Option Err ← stmt (.submitted call)
  match result with
  | some err =>
    settleNak delivery
    Prog.throw err
  | none => pure ()

def processSingleDelivery : Handle Unit :=
  match message.event with
  | .ok (some env) => do
    let vshard := env.virtualShard cfg.numShards
    let owner : Bool ← stmt (.isOwner vshard)
    if owner then submitOwnedDelivery cfg delivery env vshard else settleNak delivery
  | _ => quarantineInvalidDelivery sha256Hex cfg delivery message

end

end Handle

/-! The worker. -/

inductive SettleKind where
  | ack
  | nak
  | retry
  deriving DecidableEq

/-- The database, the key queue, the entries whose save succeeded, every call that settles a
    delivery, and the deliveries that were passed to processSingleDelivery. -/
structure Plant where
  store : Store
  queue : KeyQueue.State Nat
  quarantine : List QuarantineEntry
  settles : List (Nat × SettleKind)
  begun : List Nat

/-- The fetch loop with one delivery, or the processor in one worker of the queue. -/
inductive Task where
  | single (delivery : Nat)
  | processor (worker : Nat)
  deriving DecidableEq

structure Choice where
  fail : Option Err
  owner : Bool
  token : Option Int
  now : Time
  draw : Nat

def Choice.answer (x : Choice) : Except Err Unit :=
  match x.fail with
  | none => .ok ()
  | some err => .error err

def Plant.settle (d : Plant) (delivery : Nat) (kind : SettleKind) : Plant :=
  { d with settles := d.settles ++ [(delivery, kind)] }

def processReturned (s : Store) (call : Nat) : Option (Except Err (Option Execution)) :=
  match s.clients[call]? with
  | some ⟨_, _, .returned (.ok (.execution execution))⟩ => some (.ok (some execution))
  | some ⟨_, _, .returned (.error err)⟩ => some (.error err)
  | _ => none

def submitReturned (q : KeyQueue.State Nat) (call : Nat) : Option (Option Err) :=
  match q.submits[call]? with
  | some sub =>
    match sub.pc with
    | .returned result => some result
    | _ => none
  | none => none

def execHandle (eng : Engine) (cfg : Settings) (d : Plant) : (o : HandleOp) → Choice → Option (Plant × Except Err o.Res)
  | .isOwner _, x => some (d, .ok x.owner)
  | .getFencingToken _, x => some (d, .ok x.token)
  | .submit item, _ =>
    (KeyQueue.next cfg.limits d.queue (.submit item .live)).map
      (fun q => ({ d with queue := q }, .ok d.queue.submits.length))
  | .submitted call, _ => (submitReturned d.queue call).map (fun r => (d, .ok r))
  | .process env fencingToken vshard workerID, _ =>
    (storeNext eng d.store (.start (.goProcess env fencingToken vshard.toNat workerID))).map
      (fun s => ({ d with store := s }, .ok d.store.clients.length))
  | .processed call, _ => (processReturned d.store call).map (fun r => (d, r))
  | .clockNow, x => some (d, .ok x.now)
  | .random bound, x => some (d, .ok ((x.draw : Int) % bound : Int))
  | .save entry, x =>
    match x.fail with
    | none => some ({ d with quarantine := d.quarantine ++ [entry] }, .ok ())
    | some err => some (d, .error err)
  | .ack delivery, x => some (d.settle delivery .ack, x.answer)
  | .nak delivery, x => some (d.settle delivery .nak, x.answer)
  | .retry delivery _, x => some (d.settle delivery .retry, x.answer)

/-- Steps of the queue and of the database that the worker's code does not take. -/
inductive PlantStep where
  | queue (a : KeyQueue.Act Nat)
  | store (a : StoreAct)

/-- A Submit call is made by the fetch loop, and a processor returns when its program ends. -/
def byHandler (q : KeyQueue.State Nat) : KeyQueue.Act Nat → Bool
  | .submit _ _ => true
  | .worker w _ _ =>
    match q.workers[w]? with
    | some (.inside _) => true
    | _ => false
  | _ => false

def plantEnv (eng : Engine) (cfg : Settings) (d : Plant) : PlantStep → Option Plant
  | .queue a =>
    if byHandler d.queue a then none
    else (KeyQueue.next cfg.limits d.queue a).map (fun q => { d with queue := q })
  | .store a => (storeNext eng d.store a).map (fun s => { d with store := s })

def plantStart (eng : Engine) (cfg : Settings) (messages : Nat → Message) (d : Plant) :
    Task → Option (Plant × Handle Unit)
  | .single n =>
    if n ∈ d.begun then none
    else some ({ d with begun := n :: d.begun }, Handle.processSingleDelivery eng.sha256Hex cfg n (messages n))
  | .processor w =>
    match d.queue.workers[w]? with
    | some (.inside item) =>
      some (d, Handle.processDelivery eng.sha256Hex cfg item.delivery (messages item.delivery) (some item.env)
        item.fencingToken item.vshard item.workerID)
    | _ => none

def plantFinish (cfg : Settings) (d : Plant) : Task → Plant
  | .single _ => d
  | .processor w =>
    match KeyQueue.next cfg.limits d.queue (.worker w [] .proceed) with
    | some q => { d with queue := q }
    | none => d

def plant (eng : Engine) (cfg : Settings) (messages : Nat → Message) :
    Shop Plant Task PlantStep Choice HandleOp HandleOp.Res Err Unit where
  start := plantStart eng cfg messages
  exec d _ o x := execHandle eng cfg d o x
  finish d t _ := plantFinish cfg d t
  env := plantEnv eng cfg

end FlowRule.Worker
