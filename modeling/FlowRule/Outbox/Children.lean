import FlowRule.Lib.Keyed
import FlowRule.Outbox.Routing
import FlowRule.Rules.Acting
import FlowRule.Rules.EmitEvent
import FlowRule.Rules.Logic
import FlowRule.Worker.Delivery

/- Child events from the rule that emits them to the worker that receives them
   (buildEmitEventEffect in internal/rules/evaluator.go, internal/services/effects/router.go,
   processSingleDelivery in internal/application/worker_delivery.go).

   A child always arrives (`child_deliverable`). It need not be processed there: two causes can
   give their children one identity (`child_keys_distinct_iff`), and the inbox takes the second
   for the first. -/
namespace FlowRule
open Checks

open Rules

/-! Delivery. -/

/-- What encoding/json writes of an envelope whose data it has written itself, it reads back:
    the same fields, and the same headers by their names. -/
def EnvelopeReadsBack (net : Routing.Network) (texts : Texts) : Prop :=
  ∀ (env : EventEnvelope) (data : Json) (payload : RawMessage), env.data = texts.goWrite data →
    texts.goMarshal env = .ok payload →
    ∃ headers, net.unmarshal payload = .ok { env with headers := headers } ∧
      ∀ name, headers.lookup name = env.headers.lookup name

section
variable {num : Numbers} {sha256Hex : String → String} {texts : Texts} {now : Time} {event : EventEnvelope}
  {ruleID : String} {index : Nat}

theorem emitEvent_payload {codec : Codec} {limits : Limits} {action : EmitEventAction}
    (ha : validateEmitEventAction codec limits action = .ok ()) {base effect : Effect}
    (h : buildEmitEventEffect sha256Hex (documentSemantics num texts) now base event ruleID index action =
      .ok effect) :
    let key := keyText action event (goPathText num action.partitionKeyPath (texts.read event.data))
    key ≠ "" ∧ ∃ data, texts.goMarshal ((childWith sha256Hex event ruleID index action key data).envelope
      texts.goWrite now) = .ok effect.payload := by
  obtain ⟨e, e', hchild⟩ := go_child num sha256Hex texts now event ruleID index (acceptedKey ha)
  rw [buildEmitEventEffect_eq] at h
  dsimp only at hchild ⊢
  obtain ⟨child, hc, h⟩ := bind_ok.mp h
  rw [hchild] at hc
  obtain ⟨hkey, hc⟩ := ite_ok.mp hc
  refine ⟨hkey, ?_⟩
  by_cases hr : Readable num (texts.read action.data)
  · rw [if_pos hr] at hc
    cases hc
    obtain ⟨payload, hp, rfl⟩ := map_ok.mp h
    exact ⟨_, mapError_ok.mp hp⟩
  · rw [if_neg hr] at hc
    cases hc

/-- A child event on its way: the payload decodes to an envelope that is valid and has the
    fields its cause gives it, the router publishes it to the shard of that envelope, and a
    worker with as many shards takes it for that shard. -/
structure Delivered (net : Routing.Network) (sha256Hex : String → String) (event : EventEnvelope) (ruleID : String)
    (index : Nat) (action : EmitEventAction) (key : String) (effect : Effect) (child : EventEnvelope) : Prop where
  decoded : net.unmarshal effect.payload = .ok child
  valid : child.validate = .ok ()
  tenant : child.tenantID = event.tenantID
  type : child.type = action.type
  key : child.partitionKey = key ∧ key ≠ ""
  id : child.id = computeChildEventID sha256Hex event.id ruleID index
  sent : ∀ cfg services tenantID, Routing.Go.send net sha256Hex cfg services
    ⟨tenantID, effect.destination, effect.name, effect.payload, "emit_event"⟩ =
      .ok (.subject (Routing.Rust.eventSubject sha256Hex cfg child.type
        (child.virtualShard (Routing.Go.shardCount cfg))))
  received : ∀ (cfg : Routing.Config) (settings : Worker.Settings) (delivery : Nat) (attempt : Option Nat),
    settings.numShards = Routing.Go.shardCount cfg →
    Worker.Handle.processSingleDelivery sha256Hex settings delivery
      ⟨effect.payload, (net.unmarshal effect.payload).map some, attempt⟩ = (do
        let shard := child.virtualShard (Routing.Go.shardCount cfg)
        let owner : Bool ← Worker.Handle.stmt (.isOwner shard)
        if owner then Worker.Handle.submitOwnedDelivery settings delivery child shard
        else Worker.Handle.settleNak delivery)

theorem delivered_of_decoded {net : Routing.Network} {action : EmitEventAction} {key : String} {effect : Effect}
    {data : RawMessage} {headers : List (String × String)}
    (hdecoded : net.unmarshal effect.payload = .ok
      ⟨computeChildEventID sha256Hex event.id ruleID index, action.type, event.tenantID, key, "", now, data, headers⟩)
    (hsha : ∀ s, sha256Hex s ≠ "") (hevent : event.validate = .ok ()) (hnow : now ≠ 0) (htype : action.type ≠ "")
    (hkey : key ≠ "") :
    ∃ child, Delivered net sha256Hex event ruleID index action key effect child := by
  have htenant : event.tenantID ≠ "" := by
    simp only [EventEnvelope.validate, ite_ok] at hevent
    exact hevent.2.2.1
  have hvalid : EventEnvelope.validate ⟨computeChildEventID sha256Hex event.id ruleID index, action.type,
      event.tenantID, key, "", now, data, headers⟩ = .ok () := by
    simp only [EventEnvelope.validate, ite_ok]
    exact ⟨hsha _, htype, htenant, hkey, hnow, trivial⟩
  refine ⟨_, hdecoded, hvalid, rfl, rfl, ⟨rfl, hkey⟩, rfl, ?_, ?_⟩
  · intro cfg services tenantID
    have hchild : Routing.Go.childEvent net effect.payload = .ok _ :=
      bind_ok.mpr ⟨_, mapError_ok.mpr hdecoded, bind_ok.mpr ⟨(), mapError_ok.mpr hvalid, rfl⟩⟩
    refine bind_ok.mpr ⟨_, hchild, ?_⟩
    exact congrArg (fun subject => Except.ok (Routing.Address.subject subject))
      (Routing.subjectForMessage_eq _ hdecoded htype)
  · intro cfg settings delivery attempt hshards
    rw [← hshards, Worker.Handle.processSingleDelivery, hdecoded]
    rfl

variable (num texts now event)

/-- Every emitted child event is deliverable. -/
theorem child_deliverable {net : Routing.Network} {codec : Codec} {limits : Limits} {source : RawMessage}
    {revision : RuleRevision} (hread : EnvelopeReadsBack net texts) (hsha : ∀ s, sha256Hex s ≠ "")
    (hcompile : compile codec limits sha256Hex source = .ok revision) (hevent : event.validate = .ok ())
    (hnow : now ≠ 0) (tenantScope setID : String) (facts : Facts) {decision : Decision}
    (hdecision : evaluate sha256Hex (factSemantics num texts facts) now
      { revision with tenantScope := tenantScope, ruleID := setID } event = .ok decision)
    {effect : Effect} (he : effect ∈ decision.effects) (htype : effect.effectType = .emitEvent) :
    ∃ rule ∈ revision.compiled, ∃ actions, (actions = rule.then_ ∨ actions = rule.otherwise) ∧
      ∃ i action, actions[i]?.bind Action.emitEvent = some action ∧
      ∃ child, Delivered net sha256Hex event rule.id i action
        (keyText action event (goPathText num action.partitionKeyPath (texts.read event.data))) effect child := by
  -- the effect is that of an action which acts
  obtain ⟨-, hbuilds, -⟩ := evaluate_acting hdecision
  obtain ⟨⟨ruleID, i, action⟩, hacting, hbuilt⟩ := Keyed.forall₂_mem hbuilds.flip effect he
  obtain ⟨rule, hr, rfl, actions, hactions, hi⟩ := mem_acting hacting
  refine ⟨rule, hr, actions, hactions, i, ?_⟩
  have haccepted := (compiled_accepted hcompile hr).2 action (mem_actions hactions hi)
  obtain ⟨emit, emitEvent, command⟩ := action
  -- effects of the other kinds are not emit_event
  cases emit with
  | some a =>
    cases hbuilt
    cases htype
  | none =>
    cases emitEvent with
    | none =>
      cases command with
      | some a =>
        cases hbuilt
        cases htype
      | none => cases haccepted
    | some a =>
      cases command with
      | some c => cases haccepted
      | none =>
        obtain ⟨hkey, data, hmarshal⟩ := emitEvent_payload haccepted hbuilt
        obtain ⟨headers, hdecoded, -⟩ := hread _ _ _ rfl hmarshal
        obtain ⟨-, -, htype, -⟩ := validateEmitEventAction_ok haccepted
        obtain ⟨child, hdelivered⟩ := delivered_of_decoded hdecoded hsha hevent hnow htype hkey
        exact ⟨a, by rw [hi]; rfl, child, hdelivered⟩

end

/-! An order and a rule that emits an audit event for it. -/

namespace Audited

def rulesText : RawMessage :=
  "[\x7b\"id\":\"audit\",\"priority\":1,\"when\":\x7b\"path\":\"$.x\",\"op\":\"not_exists\"\x7d," ++
  "\"then\":[\x7b\"emit_event\":\x7b\"type\":\"order.audit\",\"partition_key\":\"k\",\"data\":1\x7d\x7d]\x7d]"

def source : RawMessage :=
  "\x7b\"rule_set\":\"order.placed\",\"revision\":1,\"mode\":\"first_match\",\"rules\":" ++ rulesText ++ "\x7d"

def action : EmitEventAction := ⟨"order.audit", "k", .unset, "", "1"⟩

def rule : RawRule :=
  ⟨"audit", "", 1, .mk none none none "$.x" "not_exists" none, [⟨none, some action, none⟩], []⟩

def codec : Codec where
  ruleSet text := if text = source then .ok ⟨"order.placed", 1, "first_match", rulesText⟩ else .error (.msg "not read")
  rules text := if text = rulesText then .ok [rule] else .error (.msg "not read")
  valid _ := true
  payloadSize data := data.utf8ByteSize

def childID : String := "b1b8f9673b366077e1a94bd97ec38799e33a15a775632abf940d1801a56b3396"

def sha256Hex : String → String := Text.digest [("child|e1|audit|0", childID)]

theorem sha256Hex_ne (s : String) : sha256Hex s ≠ "" := by
  unfold sha256Hex Text.digest
  split
  next d hd =>
    have hmem := List.mem_singleton.mp (Assoc.mem_of_lookup hd)
    rw [(Prod.mk.inj hmem).2]
    decide
  next =>
    intro h
    simpa using congrArg String.toList h

def event : EventEnvelope := ⟨"e1", "order.placed", "t1", "p1", "", 1, "\x7b\x7d", []⟩

def child : EventEnvelope :=
  ⟨childID, "order.audit", "t1", "k", "", 7, "1",
    [("flowrule_parent_event_id", "e1"), ("flowrule_child_event_id", childID)]⟩

def childText : RawMessage :=
  "\x7b\"id\":\"" ++ childID ++ "\",\"type\":\"order.audit\",\"tenant_id\":\"t1\",\"partition_key\":\"k\"," ++
  "\"occurred_at\":\"0001-01-01T00:00:00.000007Z\",\"data\":1,\"headers\":\x7b\"flowrule_child_event_id\":\"" ++
  childID ++ "\",\"flowrule_parent_event_id\":\"e1\"\x7d\x7d"

/-- The documents in the messages, and the one envelope that is written. -/
def texts : Texts where
  read text := if text = "\x7b\x7d" then .obj [] else if text = "1" then .num "1" else .null
  goWrite v := v.render (Json.compact (Json.quote htmlEscape) id)
  goMarshal env := if env = child then .ok childText else .error (.msg "not written")
  rfc3339 _ := "0001-01-01T00:00:00Z"

def network : Routing.Network :=
  { Routing.Sample.network with
    unmarshal := fun text => if text = childText then .ok child else .error (.msg "invalid character") }

theorem readsBack : EnvelopeReadsBack network texts := by
  intro env data payload _ hmarshal
  by_cases henv : env = child
  · simp only [texts, henv, ↓reduceIte] at hmarshal
    cases hmarshal
    exact ⟨child.headers, by simp only [network, ↓reduceIte, henv], by simp [henv]⟩
  · simp only [texts, henv, ↓reduceIte] at hmarshal
    cases hmarshal

end Audited

open Audited

set_option maxRecDepth 4000 in
/-- The audit event of the order is decoded with the order's tenant. -/
theorem child_deliverable_audit :
    ∃ revision, compile codec defaultLimits sha256Hex source = .ok revision ∧
    ∃ decision, evaluate sha256Hex (factSemantics integers texts []) 7
      { revision with tenantScope := "t1", ruleID := "order.placed" } event = .ok decision ∧
    ∃ effect ∈ decision.effects, ∃ child, network.unmarshal effect.payload = .ok child ∧
      child.validate = .ok () ∧ child.tenantID = "t1" := by
  obtain ⟨revision, hcompile, decision, hdecision, effect, he, htype⟩ :
      ∃ revision, compile codec defaultLimits sha256Hex source = .ok revision ∧
      ∃ decision, evaluate sha256Hex (factSemantics integers texts []) 7
        { revision with tenantScope := "t1", ruleID := "order.placed" } event = .ok decision ∧
      ∃ effect ∈ decision.effects, effect.effectType = .emitEvent := ⟨_, rfl, _, rfl, _, List.mem_cons_self, rfl⟩
  obtain ⟨rule, -, actions, -, i, action, -, child, hd⟩ := child_deliverable integers texts 7 event
    readsBack sha256Hex_ne hcompile rfl (by decide) "t1" "order.placed" [] hdecision he htype
  exact ⟨revision, hcompile, decision, hdecision, effect, he, child, hd.decoded, hd.valid, hd.tenant⟩

/-! Identity. -/

/-- Children of different causes under one tenant have different identities, and so different
    keys in the inbox, unless their actions have one number and the event and the rule of one
    arise from those of the other by moving a part of the rule's identity, up to a bar, to
    the end of the event's. -/
theorem child_keys_distinct_iff {sha256Hex : String → String} (hsha : Function.Injective sha256Hex)
    {parent parent' : EventEnvelope} (htenant : parent.tenantID = parent'.tenantID) {ruleID ruleID' : String}
    {i i' : Nat} (hne : (parent.id, ruleID, i) ≠ (parent'.id, ruleID', i')) (action action' : EmitEventAction)
    (key key' : String) (data data' : RawMessage) (now now' : Time) :
    let id := computeChildEventID sha256Hex parent.id ruleID i
    let id' := computeChildEventID sha256Hex parent'.id ruleID' i'
    (id ≠ id' ∧ (buildChildEventEnvelope parent action id key data now).key ≠
        (buildChildEventEnvelope parent' action' id' key' data' now').key) ↔
      ¬ (i = i' ∧ (Text.Moved '|' parent.id ruleID parent'.id ruleID' ∨
        Text.Moved '|' parent'.id ruleID' parent.id ruleID)) := by
  intro id id'
  have hkey : (buildChildEventEnvelope parent action id key data now).key =
      (buildChildEventEnvelope parent' action' id' key' data' now').key ↔ id = id' := by
    simp only [EventEnvelope.key, buildChildEventEnvelope, Prod.mk.injEq, htenant, true_and]
  have hid : id = id' ↔ i = i' ∧ (Text.Moved '|' parent.id ruleID parent'.id ruleID' ∨
      Text.Moved '|' parent'.id ruleID' parent.id ruleID) := by
    rw [computeChildEventID_eq_iff hsha]
    refine and_congr_right (fun hi => or_iff_right ?_)
    rintro ⟨he, hr⟩
    exact hne (by rw [he, hr, hi])
  rw [ne_eq, ne_eq, hkey, and_self, hid]

namespace Barred

/-- Two orders of which one has a bar in its identity, and the actions of two rules. -/
def first : EventEnvelope := ⟨"a|b", "order.placed", "t1", "p1", "", 1, "\x7b\x7d", []⟩

def second : EventEnvelope := ⟨"a", "order.placed", "t1", "p2", "", 1, "\x7b\x7d", []⟩

def rulesText : RawMessage :=
  "[\x7b\"id\":\"c\",\"priority\":2,\"when\":\x7b\"path\":\"$.x\",\"op\":\"exists\"\x7d," ++
  "\"then\":[\x7b\"emit_event\":\x7b\"type\":\"order.audit\",\"partition_key\":\"k\",\"data\":1\x7d\x7d]\x7d," ++
  "\x7b\"id\":\"b|c\",\"priority\":1,\"when\":\x7b\"path\":\"$.x\",\"op\":\"not_exists\"\x7d," ++
  "\"then\":[\x7b\"emit_event\":\x7b\"type\":\"order.audit\",\"partition_key\":\"k\",\"data\":1\x7d\x7d]\x7d]"

def source : RawMessage :=
  "\x7b\"rule_set\":\"order.placed\",\"revision\":1,\"mode\":\"first_match\",\"rules\":" ++ rulesText ++ "\x7d"

def rules : List RawRule :=
  [⟨"c", "", 2, .mk none none none "$.x" "exists" none, [⟨none, some action, none⟩], []⟩,
   ⟨"b|c", "", 1, .mk none none none "$.x" "not_exists" none, [⟨none, some action, none⟩], []⟩]

def codec : Codec where
  ruleSet text := if text = source then .ok ⟨"order.placed", 1, "first_match", rulesText⟩ else .error (.msg "not read")
  rules text := if text = rulesText then .ok rules else .error (.msg "not read")
  valid _ := true
  payloadSize data := data.utf8ByteSize

def sha256Hex : String → String :=
  Text.digest [("child|a|b|c|0", "a99fe6da25bc1e4f6100fd528c8c9617b008df6e5c67c2f25257978b61badb62")]

theorem sha256Hex_injective : Function.Injective sha256Hex :=
  Text.digest_injective (by decide) (by decide)

end Barred

/-- With a rule that has no bar in its identity the two differ. -/
theorem child_keys_distinct_plain :
    computeChildEventID Barred.sha256Hex "a|b" "c" 0 ≠ computeChildEventID Barred.sha256Hex "a" "c" 0 := by
  have htenant : Barred.first.tenantID = Barred.second.tenantID := rfl
  have hne : (Barred.first.id, "c", 0) ≠ (Barred.second.id, "c", 0) := by decide
  have h := child_keys_distinct_iff Barred.sha256Hex_injective htenant hne action action "k" "k" "1"
    "1" 7 7
  refine (h.mpr ?_).1
  -- the text moved would have to be in the shorter identity, or in the rule's
  rintro ⟨-, ⟨u, hevent, -⟩ | ⟨u, -, hrule⟩⟩
  · have hlength := congrArg (fun s => s.toList.length) hevent
    simp [Barred.first, Barred.second] at hlength
  · have hlength := congrArg String.length hrule
    simp at hlength

set_option maxRecDepth 4000 in
/-- One rule set has a rule c and a rule b|c. The child of c for the event a|b and the child
    of b|c for the event a are one event. -/
theorem child_keys_shared :
    (compile Barred.codec defaultLimits Barred.sha256Hex Barred.source).map
      (fun revision => revision.compiled.map CompiledRule.id) = .ok ["c", "b|c"] ∧
    Barred.first.validate = .ok () ∧ Barred.second.validate = .ok () ∧
    computeChildEventID Barred.sha256Hex "a|b" "c" 0 = computeChildEventID Barred.sha256Hex "a" "b|c" 0 := by
  refine ⟨rfl, rfl, rfl, ?_⟩
  decide +kernel

end FlowRule
