import FlowRule.Events.RustVerdict
import FlowRule.Outbox.Repository
import FlowRule.Worker.Delivery

/- How the two workers settle a message: the Go worker (Worker/Delivery) and the Rust worker
   (handle_message and what it calls in rust-worker/src/runtime/consumer.rs, persist_quarantine of
   runtime/quarantine.rs). The message is on the shard of its event, and the queue takes it. The two
   decoders are parameters of the message. What is compared is whether a quarantine record was
   persisted, and the calls that settle the delivery. -/
namespace FlowRule.Worker

open Prog Handle

/-! The Rust consumer. -/

inductive ConsumeOp where
  | processEvent (env : EventEnvelope)
  | insertQuarantine (id sourceType sourceID : String) (tenantID : Option String) (error : String)
  | ack
  | nak (delay : Int)

def ConsumeOp.Res : ConsumeOp → Type
  | processEvent _ => Rust.ProcessOutcome
  | insertQuarantine _ _ _ _ _ => Unit
  | ack => Unit
  | nak _ => Unit

abbrev Consume := Prog ConsumeOp ConsumeOp.Res Err

/-- A message: what the Go worker reads of it, and the event serde_json decodes. -/
structure Arrival extends Message where
  rustEvent : Except Err EventEnvelope

namespace Consume

def stmt (o : ConsumeOp) : Consume o.Res := Prog.call o

section
variable (sha256Hex : String → String) (numShards : UInt32) (retryDelay : Int) (shard : UInt32) (message : Arrival)

def persistQuarantine (sourceType sourceID : String) (tenantID : Option String) (error : String) : Consume Unit :=
  let quarantineID := sha256Hex (sourceType ++ "|" ++ sourceID ++ "|" ++ sha256Hex message.raw)
  (stmt (.insertQuarantine quarantineID sourceType sourceID tenantID error)).wrap (Err.wrap "persist quarantine record")

def quarantineAndAck (eventID : String) (tenantID : Option String) (reason : String) : Consume Unit := do
  persistQuarantine sha256Hex message "event" eventID tenantID reason
  (stmt .ack).wrap (fun err => .msg ("ack quarantined event: " ++ err.text))

def acknowledgeMessage (context : String) : Consume Unit :=
  (stmt .ack).wrap (fun error => .msg (context ++ ": " ++ error.text))

def validateMessageRouting (envelope : EventEnvelope) : Except Err Unit := do
  let computedShard ← Rust.virtualShard envelope numShards
  if computedShard ≠ shard then
    .error (.msg ("message routed to shard " ++ toString shard.toNat ++ " but envelope hashes to " ++
      toString computedShard.toNat))
  else .ok ()

def processAndSettleEvent (envelope : EventEnvelope) : Consume Unit := do
  let outcome : Except Err Rust.ProcessOutcome ← (stmt (.processEvent envelope)).caught
  match outcome with
  | .ok (.processed _ _ _) => acknowledgeMessage "ack committed event"
  | .ok (.duplicate _) => acknowledgeMessage "ack confirmed duplicate"
  | .error error =>
    if Rust.isPermanentEventError error then
      quarantineAndAck sha256Hex message envelope.id (some envelope.tenantID) error.display
    else (stmt (.nak retryDelay)).wrap (fun error => .msg ("nak failed event for retry: " ++ error.text))

def handleMessage : Consume Unit :=
  match message.rustEvent with
  | .error error => quarantineAndAck sha256Hex message "unknown" none error.display
  | .ok envelope =>
    match Rust.validate envelope with
    | .error error => quarantineAndAck sha256Hex message envelope.id (some envelope.tenantID) error.display
    | .ok _ =>
      match validateMessageRouting numShards shard envelope with
      | .error error => quarantineAndAck sha256Hex message envelope.id (some envelope.tenantID) error.display
      | .ok _ => processAndSettleEvent sha256Hex retryDelay message envelope

end

end Consume

/-! What is compared. -/

/-- Whether a quarantine record was persisted, and the calls that settled the delivery. -/
structure Settled where
  recorded : Bool
  settles : List SettleKind
  deriving DecidableEq

section
variable (x : Setting) (cfg : Settings) (message : Arrival)

structure GoBench where
  returned : Except Err (Option Execution)
  entries : List QuarantineEntry
  settles : List SettleKind

/-- The answers the Go worker gets: the shard is its own, and the broker takes every call. -/
def goAnswer : (o : HandleOp) → GoBench → Except Err o.Res × GoBench
  | .isOwner _, b => (.ok true, b)
  | .getFencingToken _, b => (.ok (some x.fencingToken), b)
  | .submit _, b => (.ok (0 : Nat), b)
  | .submitted _, b => (.ok none, b)
  | .process env fencingToken vshard workerID, b =>
    (.ok (0 : Nat),
      { b with returned := (x.run (Go.process x.eng env fencingToken vshard.toNat workerID) .idle).1.map some })
  | .processed _, b => (b.returned, b)
  | .clockNow, b => (.ok x.clock, b)
  | .random _, b => (.ok (0 : Int), b)
  | .save entry, b =>
    match x.fails .quarantine with
    | none => (.ok (), { b with entries := b.entries ++ [entry] })
    | some err => (.error err, b)
  | .ack _, b => (.ok (), { b with settles := b.settles ++ [.ack] })
  | .nak _, b => (.ok (), { b with settles := b.settles ++ [.nak] })
  | .retry _ _, b => (.ok (), { b with settles := b.settles ++ [.retry] })

/-- The fetch loop with the message, and the processor with the item it has submitted. -/
def goHandle : Handle Unit := do
  processSingleDelivery x.eng.sha256Hex cfg 0 message.toMessage
  match message.event with
  | .ok (some env) =>
    processDelivery x.eng.sha256Hex cfg 0 message.toMessage (some env) x.fencingToken
      (env.virtualShard cfg.numShards) x.workerID
  | _ => pure ()

def goSettled : Settled :=
  let b := (handle (goAnswer x) (goHandle x cfg message) ⟨.ok none, [], []⟩).2
  ⟨!b.entries.isEmpty, b.settles⟩

structure RustBench where
  rows : List (String × Outbox.QuarantineRow)
  settles : List SettleKind

def rustAnswer : (o : ConsumeOp) → RustBench → Except Err o.Res × RustBench
  | .processEvent env, b => ((x.run (Rust.processEvent x.eng env x.workerID x.fencingToken cfg.numShards) .idle).1, b)
  | .insertQuarantine id sourceType sourceID tenantID error, b =>
    match x.fails .quarantine with
    | none =>
      (.ok (), { b with rows := b.rows ++ [(id, ⟨sourceType, sourceID, "permanent", some "nats:flowrule",
        if sourceType = "event" then some sourceID else none, tenantID, some error, x.db.now⟩)] })
    | some err => (.error err, b)
  | .ack, b => (.ok (), { b with settles := b.settles ++ [.ack] })
  | .nak _, b => (.ok (), { b with settles := b.settles ++ [.retry] })

def rustSettled : Settled :=
  let b := (handle (rustAnswer x cfg) (Consume.handleMessage x.eng.sha256Hex cfg.numShards cfg.retryDelay
    (UInt32.ofNat x.shard) message) ⟨[], []⟩).2
  ⟨!b.rows.isEmpty, b.settles⟩

end

/-! What the programs come to. -/

section
variable {x : Setting} {cfg : Settings} {message : Arrival}

/-- A message that is acknowledged, quarantined or retried by the Go worker. -/
def goSettlement (x : Setting) : Verdict → Settled
  | .done => ⟨false, [.ack]⟩
  | .permanent => if x.fails .quarantine = none then ⟨true, [.ack]⟩ else ⟨false, [.retry]⟩
  | .transient => ⟨false, [.retry]⟩

/-- The Rust worker leaves a message unsettled whose quarantine record it cannot persist. -/
def rustSettlement (x : Setting) : Verdict → Settled
  | .done => ⟨false, [.ack]⟩
  | .permanent => if x.fails .quarantine = none then ⟨true, [.ack]⟩ else ⟨false, []⟩
  | .transient => ⟨false, [.retry]⟩

theorem handle_retry (m : Message) (b : GoBench) :
    handle (goAnswer x) (retry cfg 0 m).caught b = (.ok (.ok ()), { b with settles := b.settles ++ [.retry] }) := by
  have hdelay : ∃ delay, handle (goAnswer x) (retryDelayForDelivery cfg.retryDelay m.attempt) b =
      (.ok delay, b) := by
    unfold retryDelayForDelivery
    dsimp only
    split
    · exact ⟨_, handle_pure⟩
    · exact ⟨_, (handle_bind_ok (t := b) (r := (0 : Int)) rfl).trans handle_pure⟩
  obtain ⟨delay, hdelay⟩ := hdelay
  rw [handle_caught, show handle (goAnswer x) (retry cfg 0 m) b = _ from handle_bind_ok hdelay]
  rfl

theorem handle_quarantineEvent (sourceID eventID tenantID : String) (c : ErrorClass) (msg : String) (b : GoBench) :
    ∃ entry, handle (goAnswer x) (quarantineEvent x.eng.sha256Hex sourceID eventID tenantID c msg).caught b =
      match x.fails .quarantine with
      | none => (.ok (.ok ()), { b with entries := b.entries ++ [entry] })
      | some e => (.ok (.error e), b) := by
  have hsave : handle (goAnswer x) (quarantineEvent x.eng.sha256Hex sourceID eventID tenantID c msg) b = _ :=
    (handle_bind_ok (t := b) (r := x.clock) rfl).trans handle_call
  rw [handle_caught, hsave]
  unfold goAnswer
  cases x.fails .quarantine with
  | none => exact ⟨_, rfl⟩
  | some e => exact ⟨⟨"", "", "", "", "", "", "", "", 0⟩, rfl⟩

theorem handle_permanent (m : Message) (env : EventEnvelope) (processErr : Err)
    (returned : Except Err (Option Execution)) :
    let b := (handle (goAnswer x) (quarantinePermanentEvent x.eng.sha256Hex cfg 0 m env processErr)
      ⟨returned, [], []⟩).2
    (⟨!b.entries.isEmpty, b.settles⟩ : Settled) = goSettlement x .permanent := by
  obtain ⟨entry, hsave⟩ := handle_quarantineEvent (x := x) env.id env.id env.tenantID (classifyError processErr)
    processErr.text ⟨returned, [], []⟩
  unfold quarantinePermanentEvent goSettlement
  cases hf : x.fails .quarantine with
  | none =>
    rw [hf] at hsave
    rw [handle_bind_ok hsave]
    rfl
  | some e =>
    rw [hf] at hsave
    rw [handle_bind_ok hsave]
    dsimp only
    rw [handle_bind_ok (handle_retry m _)]
    rfl

/-- A message without an event is quarantined. -/
theorem goSettled_invalid (h : ∀ env, message.event ≠ .ok (some env)) :
    goSettled x cfg message = goSettlement x .permanent := by
  have hrest : goHandle x cfg message =
      (do quarantineInvalidDelivery x.eng.sha256Hex cfg 0 message.toMessage; pure ()) := by
    unfold goHandle processSingleDelivery
    cases hevent : message.event with
    | error e => rfl
    | ok event =>
      cases event with
      | none => rfl
      | some env => exact absurd hevent (h env)
  obtain ⟨entry, hsave⟩ := handle_quarantineEvent (x := x) (x.eng.sha256Hex message.raw) "" "" .validation
    "invalid event envelope JSON" ⟨.ok none, [], []⟩
  unfold goSettled goSettlement
  rw [hrest]
  cases hf : x.fails .quarantine with
  | none =>
    rw [hf] at hsave
    have hinvalid : handle (goAnswer x) (quarantineInvalidDelivery x.eng.sha256Hex cfg 0 message.toMessage)
        ⟨.ok none, [], []⟩ = (.ok (), ⟨.ok none, [entry], [.ack]⟩) :=
      (handle_bind_ok hsave).trans rfl
    rw [handle_bind_ok hinvalid]
    rfl
  | some e =>
    rw [hf] at hsave
    have hinvalid : handle (goAnswer x) (quarantineInvalidDelivery x.eng.sha256Hex cfg 0 message.toMessage)
        ⟨.ok none, [], []⟩ = (.ok (), ⟨.ok none, [], [.retry]⟩) :=
      (handle_bind_ok hsave).trans ((handle_bind_ok (handle_retry message.toMessage _)).trans rfl)
    rw [handle_bind_ok hinvalid]
    rfl

/-- An event is settled by how its processing has ended. -/
theorem goSettled_event {env : EventEnvelope} (h : message.event = .ok (some env))
    (hshard : (env.virtualShard cfg.numShards).toNat = x.shard) :
    goSettled x cfg message = goSettlement x
      (verdict isPermanent (x.run (Go.process x.eng env x.fencingToken x.shard x.workerID) .idle).1) := by
  have hsingle : handle (goAnswer x) (processSingleDelivery x.eng.sha256Hex cfg 0 message.toMessage)
      ⟨.ok none, [], []⟩ = (.ok (), ⟨.ok none, [], []⟩) := by
    unfold processSingleDelivery
    rw [h]
    rfl
  unfold goSettled goHandle
  rw [handle_bind_ok hsingle, h]
  generalize hr : (x.run (Go.process x.eng env x.fencingToken x.shard x.workerID) .idle).1 = r
  have hprocess : handle (goAnswer x) (Handle.stmt
      (.process env x.fencingToken (env.virtualShard cfg.numShards) x.workerID))
      ⟨.ok none, [], []⟩ = (.ok (0 : Nat), ⟨r.map some, [], []⟩) := by
    rw [Handle.stmt, handle_call, ← hr, ← hshard]
    rfl
  have hprocessed : handle (goAnswer x) (Handle.stmt (.processed 0)).caught ⟨r.map some, [], []⟩ =
      (.ok (r.map some), ⟨r.map some, [], []⟩) := by
    rw [handle_caught, Handle.stmt, handle_call]
    rfl
  have hrun : handle (goAnswer x) (processDelivery x.eng.sha256Hex cfg 0 message.toMessage (some env)
      x.fencingToken (env.virtualShard cfg.numShards) x.workerID) ⟨.ok none, [], []⟩ = _ :=
    (handle_bind_ok hprocess).trans (handle_bind_ok hprocessed)
  dsimp only
  rw [hrun]
  cases r with
  | ok execution => rfl
  | error e =>
    simp only [Except.map, processResult, settleEventResult, handleEventProcessingFailure, verdict]
    cases hp : isPermanent e with
    | true => exact handle_permanent message.toMessage env e (.error e)
    | false =>
      rw [if_neg Bool.false_ne_true, if_neg Bool.false_ne_true, handle_bind_ok (handle_retry message.toMessage _)]
      rfl

def rustRecord (x : Setting) (message : Arrival) (eventID : String) (tenantID : Option String) (reason : String) :
    String × Outbox.QuarantineRow :=
  (x.eng.sha256Hex ("event" ++ "|" ++ eventID ++ "|" ++ x.eng.sha256Hex message.raw),
    ⟨"event", eventID, "permanent", some "nats:flowrule", some eventID, tenantID, some reason, x.db.now⟩)

theorem handle_quarantineAndAck (eventID : String) (tenantID : Option String) (reason : String) :
    let b := (handle (rustAnswer x cfg) (Consume.quarantineAndAck x.eng.sha256Hex message eventID tenantID reason)
      ⟨[], []⟩).2
    (⟨!b.rows.isEmpty, b.settles⟩ : Settled) = rustSettlement x .permanent := by
  unfold Consume.quarantineAndAck rustSettlement
  cases hf : x.fails .quarantine with
  | none =>
    have hinsert : handle (rustAnswer x cfg) (Consume.persistQuarantine x.eng.sha256Hex message "event" eventID
        tenantID reason) ⟨[], []⟩ = (.ok (), ⟨[rustRecord x message eventID tenantID reason], []⟩) := by
      refine handle_wrap_ok (handle_call.trans ?_)
      simp only [rustAnswer, hf]
      rfl
    rw [handle_bind_ok hinsert]
    rfl
  | some e =>
    have hinsert : handle (rustAnswer x cfg) (Consume.persistQuarantine x.eng.sha256Hex message "event" eventID
        tenantID reason) ⟨[], []⟩ = (.error (e.wrap "persist quarantine record"), ⟨[], []⟩) := by
      refine handle_wrap_error (handle_call.trans ?_)
      simp only [rustAnswer, hf]
      rfl
    rw [handle_bind_error hinsert]
    rfl

theorem rustSettled_invalid {e : Err} (h : message.rustEvent = .error e) :
    rustSettled x cfg message = rustSettlement x .permanent := by
  unfold rustSettled Consume.handleMessage
  rw [h]
  exact handle_quarantineAndAck "unknown" none e.display

theorem rustSettled_event {env : EventEnvelope} (h : message.rustEvent = .ok env) (hn : cfg.numShards ≠ 0)
    (hshard : (env.virtualShard cfg.numShards).toNat = x.shard) :
    rustSettled x cfg message = rustSettlement x (verdict Rust.isPermanentEventError
      (x.run (Rust.processEvent x.eng env x.workerID x.fencingToken cfg.numShards) .idle).1) := by
  unfold rustSettled Consume.handleMessage
  rw [h]
  dsimp only
  generalize hr : (x.run (Rust.processEvent x.eng env x.workerID x.fencingToken cfg.numShards) .idle).1 = r
  cases hv : Rust.validate env with
  | error e =>
    have hrun : (x.run (ofExcept (Rust.validate env)) .idle).1 = .error e := by
      rw [hv]
      rfl
    rw [show r = .error e from hr.symm.trans (Setting.run_bind_error hrun), verdict, Setting.rust_validate_permanent hv]
    exact handle_quarantineAndAck env.id (some env.tenantID) e.display
  | ok u =>
    have hrouted : Consume.validateMessageRouting cfg.numShards (UInt32.ofNat x.shard) env = .ok () := by
      unfold Consume.validateMessageRouting Rust.virtualShard
      rw [if_neg hn, ← hshard]
      exact Checks.bind_ok.mpr ⟨_, rfl, by simp⟩
    have hprocess : handle (rustAnswer x cfg) (Consume.stmt (.processEvent env)).caught ⟨[], []⟩ =
        (.ok r, ⟨[], []⟩) := by
      rw [handle_caught, Consume.stmt, handle_call, ← hr]
      rfl
    have hsettle : handle (rustAnswer x cfg) (Consume.processAndSettleEvent x.eng.sha256Hex cfg.retryDelay message env)
        ⟨[], []⟩ = _ := handle_bind_ok hprocess
    dsimp only
    rw [hrouted]
    dsimp only
    rw [hsettle]
    cases r with
    | ok outcome => cases outcome <;> rfl
    | error e =>
      simp only [verdict]
      cases hp : Rust.isPermanentEventError e with
      | true => exact handle_quarantineAndAck env.id (some env.tenantID) e.display
      | false => rfl

variable (x cfg message)

/-- The message is on the shard its event belongs to, as either worker reads it. -/
structure Routed : Prop where
  shards : cfg.numShards ≠ 0
  go : ∀ env, message.event = .ok (some env) → (env.virtualShard cfg.numShards).toNat = x.shard
  rust : ∀ env, message.rustEvent = .ok env → (env.virtualShard cfg.numShards).toNat = x.shard

/-- The conditions on the event that a worker decodes; what it cannot decode is
    quarantined. -/
def GoQuarantines : Prop := ∀ env, message.event = .ok (some env) → x.GoQuarantines env

def GoAcks : Prop := ∃ env, message.event = .ok (some env) ∧ x.GoAcks env

def RustQuarantines : Prop := ∀ env, message.rustEvent = .ok env → x.RustQuarantines env

def RustAcks : Prop := ∃ env, message.rustEvent = .ok env ∧ x.RustAcks env

variable {x cfg message}

theorem go_settlement (hd : x.PlainErrors) (hr : Routed x cfg message) :
    ∃ v, goSettled x cfg message = goSettlement x v ∧ (v = .permanent ↔ GoQuarantines x message) ∧
      (v = .done ↔ GoAcks x message) := by
  by_cases h : ∃ env, message.event = .ok (some env)
  · obtain ⟨env, henv⟩ := h
    obtain ⟨hq, ha⟩ := Setting.go_verdict hd env
    refine ⟨_, goSettled_event henv (hr.go env henv), ?_, ?_⟩
    · simp [hq, GoQuarantines, henv]
    · simp [ha, GoAcks, henv]
  · push Not at h
    refine ⟨_, goSettled_invalid h, ?_, ?_⟩
    · simp [GoQuarantines, h]
    · simp [GoAcks, h]

theorem rust_settlement (hd : x.PlainErrors) (hr : Routed x cfg message) :
    ∃ v, rustSettled x cfg message = rustSettlement x v ∧ (v = .permanent ↔ RustQuarantines x message) ∧
      (v = .done ↔ RustAcks x message) := by
  cases h : message.rustEvent with
  | ok env =>
    obtain ⟨hq, ha⟩ := Setting.rust_verdict hd env hr.shards (hr.rust env h)
    refine ⟨_, rustSettled_event h hr.shards (hr.rust env h), ?_, ?_⟩
    · simp [hq, RustQuarantines, h]
    · simp [ha, RustAcks, h]
  | error e =>
    refine ⟨_, rustSettled_invalid h, ?_, ?_⟩
    · simp [RustQuarantines, h]
    · simp [RustAcks, h]

/-- The two settlements are one when both are acknowledgements or neither is, and the event
    is quarantined by both or by neither; where no record can be persisted, the Rust worker
    must not want to quarantine it. -/
theorem settlement_eq_iff (v v' : Verdict) : goSettlement x v = rustSettlement x v' ↔
    (v = .done ↔ v' = .done) ∧
      (if x.fails .quarantine = none then (v = .permanent ↔ v' = .permanent) else v' ≠ .permanent) := by
  by_cases hf : x.fails .quarantine = none <;> cases v <;> cases v' <;> simp [goSettlement, rustSettlement, hf]

/-- Both workers settle a message alike exactly when both acknowledge its event or neither
    does, and both quarantine it or neither does. -/
theorem settled_alike_iff (hd : x.PlainErrors) (hr : Routed x cfg message) :
    goSettled x cfg message = rustSettled x cfg message ↔
      (GoAcks x message ↔ RustAcks x message) ∧
        (if x.fails .quarantine = none then (GoQuarantines x message ↔ RustQuarantines x message)
          else ¬ RustQuarantines x message) := by
  obtain ⟨v, hgo, hgq, hga⟩ := go_settlement hd hr
  obtain ⟨v', hrust, hrq, hra⟩ := rust_settlement hd hr
  rw [hgo, hrust, settlement_eq_iff, hga, hra, hgq, ne_eq, hrq]

end

/-! The event of `Sample` on its shard: new, and after the Rust worker has processed it. -/

namespace Redelivered

def cfg : Settings where
  numShards := 16
  retryDelay := 5000000000
  workerID := "w1"
  limits := KeyQueue.newKeyQueue 10 10 2

def message : Arrival where
  raw := "\x7b\"id\":\"o-1\",\"type\":\"order.placed\",\"tenant_id\":\"acme\",\"partition_key\":\"k\"," ++
    "\"occurred_at\":\"2026-01-01T00:00:00Z\",\"data\":\x7b\"amount\":5\x7d\x7d"
  event := .ok (some Sample.event)
  attempt := some 1
  rustEvent := .ok Sample.event

/-- No storage call fails, and the worker holds the lease of the shard. -/
def setting (tables : Tables) : Setting where
  eng := Sample.engine
  fails := fun _ => none
  clock := 63902822401000000
  db := ⟨63902822400000000, tables, fun shard => if shard = 12 then some ⟨"w1", 1, 63902822430000000, 0⟩ else none,
    Sample.refs⟩
  shard := 12
  workerID := "w1"
  fencingToken := 1

def executionID : String := "daadf629e1d919d7c22b64935efdc9b01ede5b202f660a3907c8dd8a5ddb5146"

/-- What the Rust worker's transaction leaves: an execution without an error and a trace. -/
def processed : Tables where
  inbox := fun key =>
    if key = ("acme", "o-1") then some ⟨.committed, some executionID, 63902822399000000, some 63902822399000000, "k",
      "order.placed", Sample.event.data, none⟩
    else none
  executions := fun id =>
    if id = executionID then some ⟨"o-1", "acme", "order.placed", 1,
      "9df0b13fc6681f52f5880ca3d2d85d9d2dbb564ff53dcbc3a0978c27cc7db2af", .completed, none, none, 63902822399000000,
      some 63902822399000000⟩
    else none
  outbox := fun _ => none

theorem plain (tables : Tables) : (setting tables).PlainErrors := ⟨nofun, nofun, nofun⟩

theorem event_shard : (Sample.event.virtualShard cfg.numShards).toNat = 12 := by
  decide +kernel

theorem routed (tables : Tables) : Routed (setting tables) cfg message where
  shards := by decide
  go := by
    intro env h
    cases h
    exact event_shard
  rust := by
    intro env h
    cases h
    exact event_shard

theorem held (tables : Tables) : (setting tables).Held :=
  ⟨rfl, rfl, show (0 : Int) < 1 by decide, ⟨"w1", 1, 63902822430000000, 0⟩, rfl, rfl,
    show (63902822400000000 : Int) < 63902822430000000 by decide, rfl⟩

theorem evaluated : ∃ decision, Sample.engine.evaluate 63902822401000000 Sample.revision Sample.event = .ok decision :=
  ⟨_, rfl⟩

theorem rustEvaluated : Sample.engine.rustEvaluate 63902822401000000 Sample.revision Sample.event = .ok ([], []) := rfl

theorem goAcks : (setting .empty).GoAcks Sample.event := by
  obtain ⟨decision, hd⟩ := evaluated
  refine ⟨by decide, held .empty, rfl, .inr ⟨rfl, rfl, Sample.revision, decision, rfl, hd, ?_, rfl⟩⟩
  exact ⟨rfl, rfl, by decide, ⟨_, rfl⟩, .inl rfl, rfl⟩

theorem rustAcks : (setting .empty).RustAcks Sample.event :=
  ⟨by decide, ⟨held .empty, by decide, by decide⟩, rfl, rfl, .inr ⟨rfl, rfl, Sample.revision, [], [], rfl,
    rustEvaluated, rfl, by decide, ⟨_, rfl⟩, rfl, rfl, .inl rfl, rfl⟩⟩

end Redelivered

/-- A new event is acknowledged by both. -/
theorem settled_alike_new :
    goSettled (Redelivered.setting .empty) Redelivered.cfg Redelivered.message =
      rustSettled (Redelivered.setting .empty) Redelivered.cfg Redelivered.message := by
  refine (settled_alike_iff (Redelivered.plain .empty) (Redelivered.routed .empty)).mpr ⟨?_, ?_⟩
  · exact iff_of_true ⟨_, rfl, Redelivered.goAcks⟩ ⟨_, rfl, Redelivered.rustAcks⟩
  have hgo := Setting.go_verdict (Redelivered.plain .empty) Sample.event
  have hrust := Setting.rust_verdict (Redelivered.plain .empty) Sample.event (Redelivered.routed .empty).shards
    Redelivered.event_shard
  -- what is done is not quarantined
  refine iff_of_false (fun h => ?_) (fun h => ?_)
  · have hboth := (hgo.1.mpr (h _ rfl)).symm.trans (hgo.2.mpr Redelivered.goAcks)
    cases hboth
  · have hboth := (hrust.1.mpr (h _ rfl)).symm.trans (hrust.2.mpr Redelivered.rustAcks)
    cases hboth

/-- An event that the Rust worker has processed is retried by the Go worker, which cannot
    read its execution, and acknowledged by the Rust worker. -/
theorem redelivered_apart :
    goSettled (Redelivered.setting Redelivered.processed) Redelivered.cfg Redelivered.message = ⟨false, [.retry]⟩ ∧
    rustSettled (Redelivered.setting Redelivered.processed) Redelivered.cfg Redelivered.message = ⟨false, [.ack]⟩ := by
  decide +kernel

end FlowRule.Worker
