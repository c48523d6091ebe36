import FlowRule.Outbox.Repository

/- The publishers of the outbox (internal/services/effects/service.go, the publish loop of
   internal/application/worker_lifecycle.go; rust-worker/src/runtime/effects.rs).

   A pass claims a batch, sends each effect and settles it by what became of the send. The Go
   worker goes on after whatever fails; in the Rust worker every error but that of a send ends
   the pass, and the loop with it. `waits` is whether the sender waits for the broker to
   acknowledge, which the Rust worker does not. A loop is run for a number of ticks. -/
namespace FlowRule

namespace Outbox

/-- A second and two minutes, in the unit of `Time`. -/
def second : Int := 1000000

def claimTTL : Int := 120 * second

end Outbox

/-! The Go worker. -/

namespace Go

open Outbox (second claimTTL)

/-- What of a Service is configured, and the identity it claims under. -/
structure EffectsService where
  outbox : Bool
  effectSender : Bool
  quarantine : Bool
  claimant : String

def newService (outbox effectSender quarantine : Bool) (claimant : String) : EffectsService :=
  ⟨outbox, effectSender, quarantine, if claimant = "" then "publisher" else claimant⟩

/-- The service of the worker (cmd/worker/main.go), which has all of its parts. -/
def workerService (workerID : String) : EffectsService := newService true true true workerID

def backoffDuration (attempts : Int) : Int :=
  let attempts := if attempts < 1 then 1 else attempts
  let attempts := if 30 < attempts then 30 else attempts
  let delay := 2 ^ (attempts - 1).toNat * second
  if 60 * second < delay then 60 * second else delay

def quarantineMissing (id : String) (sendErr : Err) : Err :=
  let text := "quarantine effect " ++ id ++ ": quarantine repository is not configured (send error: " ++
    sendErr.text ++ ")"
  ⟨sendErr.sentinels, text, text⟩

/-- The record and then the row; where the row is not to be had, the record is removed. -/
def quarantineEffect (claimToken : String) (ef : String × OutboxRow) (sendErr : Err) : Outbox.Tx (List Err) := do
  let uuid : String ← Outbox.sql .newID
  let quarantineID := "effect-" ++ ef.1 ++ "-" ++ uuid
  let now : Time ← Outbox.sql .clock
  let saved ← (quarantineSave ⟨quarantineID, "effect", ef.1, (classifyError sendErr).text, "", "", ef.2.tenantID,
    sendErr.text, now⟩).caught
  match saved with
  | .error qErr => pure [.wrap ("persist quarantine for effect " ++ ef.1) qErr]
  | .ok _ =>
    let marked ← (quarantineOutbox ef.1 claimToken sendErr.text).caught
    match marked with
    | .ok _ => pure []
    | .error qErr =>
      let failure := Err.wrap ("mark effect " ++ ef.1 ++ " quarantined") qErr
      let deleted ← (quarantineDelete ef.2.tenantID quarantineID).caught
      match deleted with
      | .ok _ => pure [failure]
      | .error deleteErr => pure [failure, .wrap ("remove orphan quarantine for effect " ++ ef.1) deleteErr]

def publishEffect (svc : EffectsService) (claimToken : String) (ef : String × OutboxRow) : Outbox.Tx (List Err) := do
  let result : Except Err Unit ← (Outbox.sql (.send true ef.1 ef.2)).caught
  match result with
  | .error sendErr =>
    let attempts := ef.2.attempts + 1
    if ef.2.maxAttempts ≤ attempts then
      if svc.quarantine then quarantineEffect claimToken ef sendErr else pure [quarantineMissing ef.1 sendErr]
    else
      let retried ← (scheduleRetry ef.1 claimToken (backoffDuration attempts) attempts sendErr.text).caught
      match retried with
      | .ok _ => pure []
      | .error retryErr => pure [.wrap ("schedule retry for effect " ++ ef.1) retryErr]
  | .ok _ =>
    let settled ← (markDelivered [ef.1] claimToken).caught
    match settled with
    | .ok _ => pure []
    | .error settleErr => pure [.wrap ("mark effect " ++ ef.1 ++ " delivered") settleErr]

def publishEffects (svc : EffectsService) (claimToken : String) : List (String × OutboxRow) → Outbox.Tx (List Err)
  | [] => pure []
  | ef :: rest => do
    let failures ← publishEffect svc claimToken ef
    let more ← publishEffects svc claimToken rest
    pure (failures ++ more)

def publishBatch (svc : EffectsService) (batchSize : Int) : Outbox.Tx Unit := do
  if svc.outbox = false then Prog.throw (.msg "publish effects: outbox repository is not configured")
  else if svc.effectSender = false then Prog.throw (.msg "publish effects: effect sender is not configured")
  else if batchSize ≤ 0 then pure ()
  else
    let uuid : String ← Outbox.sql .newID
    let claimToken := svc.claimant ++ "-" ++ uuid
    let effects ← (claimPending batchSize claimToken claimTTL).wrap (Err.wrap "claim pending")
    let failures ← publishEffects svc claimToken effects
    match joinErrors failures with
    | none => pure ()
    | some err => Prog.throw err

/-- publishLoop, which logs the error of a pass and waits for the next tick. -/
def publishLoop (svc : EffectsService) (batchSize : Int) : Nat → Outbox.Tx Unit
  | 0 => pure ()
  | ticks + 1 => do
    let _ ← (publishBatch svc batchSize).caught
    publishLoop svc batchSize ticks

end Go

/-! The Rust worker. -/

namespace Rust

open Outbox (second claimTTL)

/-- What the publisher reads of the configuration, and what it gets from libraries: the hash,
    and the text of a payload as serde_json prints it. -/
structure Publisher where
  workerID : String
  fetchBatchSize : Nat
  sha256Hex : String → String
  payloadText : RawMessage → String

/-- A publish to JetStream is awaited once, which does not wait for the acknowledgement. -/
def sendWaits : EffectType → Bool
  | .emit => false
  | .emitEvent => false
  | _ => true

def claimLost (action effectID : String) : Err :=
  .msg ("outbox claim lost while " ++ action ++ " effect " ++ effectID)

def ensureClaimUpdate (rowsAffected : Nat) (action effectID : String) : Except Err Unit :=
  if rowsAffected ≠ 1 then .error (claimLost action effectID) else .ok ()

def markEffectDelivered (claim effectID : String) : Outbox.Tx Unit := do
  let _ : Nat ← (Outbox.sql (.settle [effectID] claim .delivered)).wrap (Err.wrap "mark outbox effect delivered")
  pure ()

def quarantineEffectAtomically (cfg : Publisher) (claim : String) (effect : String × OutboxRow) (attempt : Int)
    (error : String) : Outbox.Tx Unit := do
  let _ : Unit ← (Outbox.sql .begin).wrap (Err.wrap "begin exhausted effect quarantine")
  let raw := cfg.payloadText effect.2.payload
  let quarantineID := cfg.sha256Hex ("effect|" ++ effect.1 ++ "|" ++ cfg.sha256Hex raw)
  let _ : Unit ← (Outbox.sql (.quarantineSaveNow quarantineID (fun now => ⟨"effect", effect.1, "permanent",
    some "nats:flowrule", none, some effect.2.tenantID, some error, now⟩))).wrap
    (Err.wrap "persist exhausted effect quarantine")
  let affected : Nat ← (Outbox.sql (.settle [effect.1] claim (.quarantined (some attempt) error))).wrap
    (Err.wrap "quarantine exhausted outbox effect")
  Prog.ofExcept (ensureClaimUpdate affected "quarantining" effect.1)
  (Outbox.sql .commit).wrap (Err.wrap "commit exhausted effect quarantine")

def retryDelay (attempt : Int) : Int := min (2 ^ (max 0 (min (attempt - 1) 5)).toNat) 60 * second

def scheduleEffectRetry (claim effectID : String) (attempt : Int) (error : String) : Outbox.Tx Unit := do
  let affected : Nat ← (Outbox.sql (.settle [effectID] claim (.retry attempt (retryDelay attempt) error))).wrap
    (Err.wrap "schedule outbox effect retry")
  Prog.ofExcept (ensureClaimUpdate affected "scheduling retry for" effectID)

def recordEffectFailure (cfg : Publisher) (claim : String) (effect : String × OutboxRow) (error : String) :
    Outbox.Tx Unit :=
  let nextAttempt := effect.2.attempts + 1
  if effect.2.maxAttempts ≤ nextAttempt then quarantineEffectAtomically cfg claim effect nextAttempt error
  else scheduleEffectRetry claim effect.1 nextAttempt error

def processClaimedEffect (cfg : Publisher) (claim : String) (effect : String × OutboxRow) : Outbox.Tx Unit := do
  let result : Except Err Unit ← (Outbox.sql (.send (sendWaits effect.2.effectType) effect.1 effect.2)).caught
  match result with
  | .ok _ => markEffectDelivered claim effect.1
  | .error error => recordEffectFailure cfg claim effect error.display

def processClaimedRows (cfg : Publisher) (claim : String) : List (String × OutboxRow) → Outbox.Tx Unit
  | [] => pure ()
  | row :: rest => do
    processClaimedEffect cfg claim row
    processClaimedRows cfg claim rest

def processOutboxBatch (cfg : Publisher) : Outbox.Tx Unit := do
  let uuid : String ← Outbox.sql .newID
  let claim := cfg.workerID ++ "-" ++ uuid
  let rows : List (String × OutboxRow) ← (Outbox.sql (.claim cfg.fetchBatchSize claim claimTTL false)).wrap
    (Err.wrap "claim outbox effects")
  processClaimedRows cfg claim rows

/-- outbox_loop: an error of a pass ends it. -/
def outboxLoop (cfg : Publisher) : Nat → Outbox.Tx Unit
  | 0 => pure ()
  | ticks + 1 => do
    processOutboxBatch cfg
    outboxLoop cfg ticks

end Rust

end FlowRule
