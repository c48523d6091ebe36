import FlowRule.Lib.Handle
import FlowRule.Events.ExactlyOnce
import FlowRule.Worker.Delivery

/- What is left of a message that the Go worker has acknowledged through quarantine
   (internal/application/worker_delivery.go, QuarantineEvent of
   internal/services/events/service.go, Save of internal/adapters/postgres/quarantine.go).

   What stays is the record: for an event that fails permanently its identifier, its tenant and the
   error, for a message that cannot be read the hash of it. Two runs that differ in one message leave
   different states exactly if the records differ, and one of them at least is new
   (`message_recoverable_iff`). -/
namespace FlowRule.Worker

open Prog

/-- What the worker finds outside: the fencing token of the shard, the clock, the random
    numbers, and the database that Process runs on, with its answers. -/
structure Surroundings (S : Type) where
  eng : Engine
  token : Option Int
  now : Time
  draw : Int
  db : (o : FlowRule.Op) → S → Except Err o.Res × S
  store : S

def Surroundings.process {S : Type} (x : Surroundings S) (env : EventEnvelope) (fencingToken : Int) (vshard : UInt32)
    (workerID : String) : Except Err (Option Execution) :=
  (handle x.db (Go.process x.eng env fencingToken vshard.toNat workerID) x.store).1.map some

/-- The quarantine table, and the messages of the stream by their delivery. -/
structure Durable where
  quarantine : String → Option QuarantineEntry
  stream : List (Nat × String)

/-- Save: ON CONFLICT DO NOTHING. -/
def Durable.save (d : Durable) (entry : QuarantineEntry) : Durable :=
  if (d.quarantine entry.id).isSome then d
  else { d with quarantine := Function.update d.quarantine entry.id (some entry) }

def Durable.ack (d : Durable) (delivery : Nat) : Durable :=
  { d with stream := d.stream.filter (fun e => e.1 ≠ delivery) }

/-- The durable state, and the result of the call of Process that is under way. -/
structure Desk extends Durable where
  result : Except Err (Option Execution)

/-- The answers in a run in which no call to the broker or the database fails. -/
def Surroundings.step {S : Type} (x : Surroundings S) : (o : HandleOp) → Desk → Except Err o.Res × Desk
  | .isOwner _, d => (.ok true, d)
  | .getFencingToken _, d => (.ok x.token, d)
  | .submit _, d => (.ok (0 : Nat), d)
  | .submitted _, d => (.ok (none : Option Err), d)
  | .process env token vshard workerID, d => (.ok (0 : Nat), { d with result := x.process env token vshard workerID })
  | .processed _, d => (d.result, d)
  | .clockNow, d => (.ok x.now, d)
  | .random _, d => (.ok x.draw, d)
  | .save entry, d => (.ok (), { d with toDurable := d.toDurable.save entry })
  | .ack delivery, d => (.ok (), { d with toDurable := d.toDurable.ack delivery })
  | .nak _, d => (.ok (), d)
  | .retry _ _, d => (.ok (), d)

section
variable {S : Type} (cfg : Settings) (x : Surroundings S)

/-- A delivery, by the fetch loop and then by the processor of the queue. -/
def handleDelivery (delivery : Nat) (message : Message) : Handle Unit := do
  Handle.processSingleDelivery x.eng.sha256Hex cfg delivery message
  match message.event with
  | .ok (some env) =>
    Handle.processDelivery x.eng.sha256Hex cfg delivery message (some env) (x.token.getD 0)
      (env.virtualShard cfg.numShards) cfg.workerID
  | _ => pure ()

def leaves (kept : Durable) (delivery : Nat) (message : Message) : Durable :=
  (handle x.step (handleDelivery cfg x delivery message)
    ⟨{ kept with stream := (delivery, message.raw) :: kept.stream }, .ok none⟩).2.toDurable

def processed (env : EventEnvelope) : Except Err (Option Execution) :=
  x.process env (x.token.getD 0) (env.virtualShard cfg.numShards) cfg.workerID

def Failing (message : Message) : Prop :=
  match message.event with
  | .ok (some env) => ∃ err, processed cfg x env = .error err ∧ isPermanent err = true
  | _ => True

structure Evidence where
  sourceID : String
  eventID : String
  tenantID : String
  errorClass : ErrorClass
  error : String
  deriving DecidableEq

def evidence (message : Message) : Evidence :=
  match message.event with
  | .ok (some env) =>
    match processed cfg x env with
    | .error err => ⟨env.id, env.id, env.tenantID, classifyError err, err.text⟩
    | .ok _ => ⟨env.id, env.id, env.tenantID, .internal, ""⟩
  | _ => ⟨x.eng.sha256Hex message.raw, "", "", .validation, "invalid event envelope JSON"⟩

def Evidence.id (e : Evidence) : String :=
  x.eng.sha256Hex ("event-quarantine|" ++ Text.prefixed e.tenantID ++ "|" ++ Text.prefixed e.sourceID ++ "|" ++
    Text.prefixed e.eventID ++ "|" ++ e.errorClass.text)

def Evidence.entry (e : Evidence) : QuarantineEntry :=
  ⟨e.id x, "event", e.sourceID, e.errorClass.text, "jetstream:flowrule", e.eventID, e.tenantID, e.error, x.now⟩

end

/-! The state that one failing delivery leaves. -/

section
variable {S : Type} {cfg : Settings} {x : Surroundings S}
variable {delivery : Nat} {message : Message} {kept : Durable} {entry : QuarantineEntry}

theorem handle_handleEventProcessingFailure {env : EventEnvelope} {err : Err}
    {d : Desk} (hperm : isPermanent err = true) :
    (handle x.step (Handle.handleEventProcessingFailure x.eng.sha256Hex cfg delivery message env err) d).2.toDurable =
      (d.toDurable.save (Evidence.entry x ⟨env.id, env.id, env.tenantID, classifyError err, err.text⟩)).ack
        delivery := by
  rw [Handle.handleEventProcessingFailure, if_pos hperm]
  rfl

theorem handle_processDelivery {env : EventEnvelope} {err : Err} {d : Desk}
    (herr : processed cfg x env = .error err) (hperm : isPermanent err = true) :
    (handle x.step (Handle.processDelivery x.eng.sha256Hex cfg delivery message (some env) (x.token.getD 0)
      (env.virtualShard cfg.numShards) cfg.workerID) d).2.toDurable =
      (d.toDurable.save (Evidence.entry x ⟨env.id, env.id, env.tenantID, classifyError err, err.text⟩)).ack
        delivery := by
  change (handle x.step (Prog.bind _ _) { d with result := processed cfg x env }).2.toDurable = _
  rw [herr]
  exact handle_handleEventProcessingFailure hperm

theorem ack_save_delivered (raw : String) :
    ((({ kept with stream := (delivery, raw) :: kept.stream } : Durable).save entry).ack delivery) =
      (kept.save entry).ack delivery := by
  unfold Durable.save Durable.ack
  split <;> simp

/-- The record is written unless it is there, and the message is removed. -/
theorem leaves_eq (hfail : Failing cfg x message) :
    leaves cfg x kept delivery message = (kept.save ((evidence cfg x message).entry x)).ack delivery := by
  refine Eq.trans ?_ (ack_save_delivered message.raw)
  obtain ⟨raw, event, attempt⟩ := message
  match event with
  | .ok (some env) =>
    obtain ⟨err, herr, hperm⟩ := hfail
    have hrecord : evidence cfg x ⟨raw, .ok (some env), attempt⟩ =
        ⟨env.id, env.id, env.tenantID, classifyError err, err.text⟩ := by
      simp only [evidence, herr]
    rw [hrecord]
    exact handle_processDelivery herr hperm
  | .ok none => rfl
  | .error _ => rfl

/-! Two deliveries. -/

theorem entry_injective {e₁ e₂ : Evidence} (h : e₁.entry x = e₂.entry x) : e₁ = e₂ := by
  obtain ⟨source₁, event₁, tenant₁, class₁, error₁⟩ := e₁
  obtain ⟨source₂, event₂, tenant₂, class₂, error₂⟩ := e₂
  simp only [Evidence.entry, QuarantineEntry.mk.injEq] at h
  obtain ⟨-, -, hsource, hclass, -, hevent, htenant, herror, -⟩ := h
  rw [hsource, ErrorClass.text_injective hclass, hevent, htenant, herror]

theorem save_of_isSome (h : kept.quarantine entry.id ≠ none) : kept.save entry = kept := by
  rw [Durable.save, if_pos (Option.isSome_iff_ne_none.mpr h)]

theorem save_quarantine_of_none (h : kept.quarantine entry.id = none) :
    (kept.save entry).quarantine = Function.update kept.quarantine entry.id (some entry) := by
  rw [Durable.save, h]
  rfl

/-- A new record is found, and it is found after another one only if they are the same. -/
theorem eq_of_save_eq {a b : QuarantineEntry} (ha : kept.quarantine a.id = none)
    (h : (kept.save a).quarantine = (kept.save b).quarantine) : a = b := by
  have hfound : (kept.save b).quarantine a.id = some a := by
    rw [← h, save_quarantine_of_none ha, Function.update_self]
  by_cases hb : kept.quarantine b.id = none
  · rw [save_quarantine_of_none hb] at hfound
    by_cases hid : a.id = b.id
    · rw [hid, Function.update_self] at hfound
      exact (Option.some.inj hfound).symm
    · rw [Function.update_of_ne hid, ha] at hfound
      cases hfound
  · rw [save_of_isSome hb, ha] at hfound
    cases hfound

end

/-- Deliveries of two messages, each of which is acknowledged through quarantine, leave
    different states exactly if the two records differ and one of them is new. -/
theorem message_recoverable_iff {S : Type} (cfg : Settings) (x : Surroundings S) (kept : Durable) (delivery : Nat)
    (m₁ m₂ : Message) (h₁ : Failing cfg x m₁) (h₂ : Failing cfg x m₂) :
    leaves cfg x kept delivery m₁ ≠ leaves cfg x kept delivery m₂ ↔
      evidence cfg x m₁ ≠ evidence cfg x m₂ ∧
        (kept.quarantine ((evidence cfg x m₁).id x) = none ∨ kept.quarantine ((evidence cfg x m₂).id x) = none) := by
  rw [leaves_eq h₁, leaves_eq h₂]
  constructor
  · intro hne
    refine ⟨fun h => hne (by rw [h]), ?_⟩
    by_contra hboth
    obtain ⟨hold₁, hold₂⟩ := not_or.mp hboth
    exact hne (by rw [save_of_isSome hold₁, save_of_isSome hold₂])
  · rintro ⟨hne, hnew⟩ heq
    have htable := congrArg Durable.quarantine heq
    obtain hnew | hnew := hnew
    · exact hne (entry_injective (eq_of_save_eq hnew htable))
    · exact hne (entry_injective (eq_of_save_eq hnew htable.symm)).symm

namespace EvidenceSample

def cfg : Settings := ⟨16, 5 * 1000000000, "w1", KeyQueue.newKeyQueue 10 10 2⟩

def sha256Hex : String → String := Text.digest
  [("garbage", "795b6904e54f82411df4b0e27a373a55eea3f9d66dac5a9bce1dd92f7b401da5"),
   ("event-quarantine|4:acme|3:o-9|3:o-9|validation",
    "7dae0175eef43331358dcbfbdeb56d43f86360bfcec9e070fe27427c8852c847"),
   ("event-quarantine|0:|64:795b6904e54f82411df4b0e27a373a55eea3f9d66dac5a9bce1dd92f7b401da5|0:|validation",
    "5b0bd1464a4c19d34fd527b233df38741b25ce0d4710590633e4aa827122fc95")]

def surroundings : Surroundings Unit where
  eng := { FlowRule.Sample.engine with sha256Hex := sha256Hex }
  token := some 1
  now := 63902822401000000
  draw := 0
  db _ s := (.error (.sentinel .databaseError), s)
  store := ()

def kept : Durable := ⟨fun _ => none, []⟩

def untyped (data : RawMessage) : EventEnvelope := { FlowRule.Sample.event with id := "o-9", type := "", data := data }

def five : Message :=
  ⟨"\x7b\"id\":\"o-9\",\"tenant_id\":\"acme\",\"partition_key\":\"k\",\"data\":\x7b\"amount\":5\x7d\x7d",
    .ok (some (untyped "\x7b\"amount\":5\x7d")), none⟩

def nine : Message :=
  ⟨"\x7b\"id\":\"o-9\",\"tenant_id\":\"acme\",\"partition_key\":\"k\",\"data\":\x7b\"amount\":9\x7d\x7d",
    .ok (some (untyped "\x7b\"amount\":9\x7d")), none⟩

def garbage : Message := ⟨"garbage", .error (.msg "invalid character 'g' looking for beginning of value"), none⟩

theorem five_failing : Failing cfg surroundings five :=
  ⟨.sentinel .eventTypeRequired, rfl, by decide⟩

theorem nine_failing : Failing cfg surroundings nine :=
  ⟨.sentinel .eventTypeRequired, rfl, by decide⟩

end EvidenceSample

open EvidenceSample

theorem message_recoverable_garbage :
    leaves cfg surroundings kept 0 five ≠ leaves cfg surroundings kept 0 garbage :=
  (message_recoverable_iff cfg surroundings kept 0 five garbage five_failing trivial).mpr
    ⟨by decide +kernel, .inl rfl⟩

/-- Two events that differ in their data only, and are refused: nothing tells them apart
    afterwards. -/
theorem message_lost :
    Failing cfg surroundings five ∧
    Failing cfg surroundings nine ∧
    five.raw ≠ nine.raw ∧
    leaves cfg surroundings kept 0 five =
      leaves cfg surroundings kept 0 nine := by
  refine ⟨five_failing, nine_failing, by decide, ?_⟩
  rw [leaves_eq five_failing, leaves_eq nine_failing]
  rfl

/-! The identities. -/

theorem handle_quarantineEvent_record {S : Type} {h : (o : HandleOp) → S → Except Err o.Res × S}
    {sha256Hex : String → String}
    {sourceID eventID tenantID msg : String} {c : ErrorClass} {s s' : S} {now : Time}
      (hclock : h .clockNow s = (.ok now, s')) :
    handle h (Handle.quarantineEvent sha256Hex sourceID eventID tenantID c msg) s =
      h (.save ⟨sha256Hex (quarantineText tenantID sourceID eventID c.text), "event", sourceID, c.text,
        "jetstream:flowrule", eventID, tenantID, msg, now⟩) s' :=
  (handle_bind_ok (handle_call.trans hclock)).trans handle_call

/-- Equal identities come from equal fields only, of executions and of quarantine records; the
    latter are what QuarantineEvent saves its records under. -/
theorem identities_eq_iff {sha256Hex : String → String} (hsha : Function.Injective sha256Hex) :
    (∀ (t e r t' e' r' : String) (n n' : Int),
      computeExecutionID sha256Hex t e r n = computeExecutionID sha256Hex t' e' r' n' ↔
        (t, e, r, n) = (t', e', r', n')) ∧
    (∀ t s e c t' s' e' c' : String,
      sha256Hex (quarantineText t s e c) = sha256Hex (quarantineText t' s' e' c') ↔
        (t, s, e, c) = (t', s', e', c')) ∧
    (∀ (S : Type) (h : (o : HandleOp) → S → Except Err o.Res × S) (source event tenant msg : String) (c : ErrorClass)
      (s s' : S) (now : Time), h .clockNow s = (.ok now, s') →
        ∃ entry : QuarantineEntry, entry.id = sha256Hex (quarantineText tenant source event c.text) ∧
          handle h (Handle.quarantineEvent sha256Hex source event tenant c msg) s = h (.save entry) s') := by
  refine ⟨fun t e r t' e' r' n n' => ⟨fun h => ?_, fun h => ?_⟩, fun t s e c t' s' e' c' => ⟨fun h => ?_, fun h => ?_⟩,
    fun S h source event tenant msg c s s' now hclock => ⟨_, rfl, handle_quarantineEvent_record hclock⟩⟩
  · obtain ⟨rfl, rfl, rfl, rfl⟩ := computeExecutionID_inj hsha h
    rfl
  · obtain ⟨rfl, rfl, rfl, rfl⟩ := h
    rfl
  · obtain ⟨rfl, rfl, rfl, rfl⟩ := quarantineText_inj (hsha h)
    rfl
  · obtain ⟨rfl, rfl, rfl, rfl⟩ := h
    rfl

/-- Bars and digits that could stand for the lengths do not help. -/
theorem identities_eq_bars :
    computeExecutionID id "a|1:b" "c" "d" 1 ≠ computeExecutionID id "a" "b|1:c" "d" 1 ∧
    quarantineText "" "a|0:" "" "rule" ≠ quarantineText "" "a" "" "|rule" :=
  ⟨fun h => absurd (((identities_eq_iff Function.injective_id).1 _ _ _ _ _ _ _ _).mp h) (by decide),
    fun h => absurd (((identities_eq_iff Function.injective_id).2.1 _ _ _ _ _ _ _ _).mp h) (by decide)⟩

end FlowRule.Worker
