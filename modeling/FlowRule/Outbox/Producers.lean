import FlowRule.Events.RustEngine
import FlowRule.Outbox.Routing

/- Where the producers of events publish (subjectForMessage of
   internal/adapters/nats/jetstream.go; Send of sdk/go/flowrule/transport_nats.go with
   computeShard of shard.go; publish_scheduled_event of rust-worker/src/runtime/scheduler.rs;
   the publisher of internal/codegen/generator.go with ComputeShard of
   sdk/go/runtime/envelope.go), and whether a consumer of the shard listens there.

   Each program has the list of rule sets it was configured with: the broker's publisher and
   consumers without the blanks around them, the SDK as they were given, the Rust worker as it
   has loaded them. The generated publisher knows none, and writes the shard as one character,
   the digit of its remainder by ten. The producers agree exactly if the lists agree on the
   type and that digit is the shard (`producers_agree_iff`). Assumed: a message decodes to the
   envelope it was made of, and sha256 is different for different configured rule sets. -/
namespace FlowRule.Routing

open Nats

/-! The producers. -/

namespace Sdk

def fnv32a (s : String) : UInt32 :=
  s.toUTF8.data.toList.foldl (fun h b => (h ^^^ b.toUInt32) * 16777619) 2166136261

def computeShard (tenantID partitionKey : String) (numShards : UInt32) : UInt32 :=
  fnv32a (tenantID ++ ":" ++ partitionKey) % numShards

def natsSubjectForEnvelope (sha256Hex : String → String) (baseSubject : String) (shard : UInt32)
    (eventType : String) : List String → String
  | [] => baseSubject ++ ".shard." ++ toString shard.toNat
  | ruleSet :: rest =>
    if ruleSet = eventType then
      baseSubject ++ ".ruleset." ++ sha256Hex eventType ++ ".shard." ++ toString shard.toNat
    else natsSubjectForEnvelope sha256Hex baseSubject shard eventType rest

def sendSubject (sha256Hex : String → String) (baseSubject : String) (numShards : UInt32)
    (natsRuleSets : List String) (env : EventEnvelope) : String :=
  let shard := computeShard env.tenantID env.partitionKey numShards
  natsSubjectForEnvelope sha256Hex baseSubject shard env.type natsRuleSets

end Sdk

/-- The publisher the code generator emits: it knows no rule sets, and writes the shard with
    string(rune('0'+shard%10)). -/
def Generated.publishSubject (numShards : UInt32) (env : EventEnvelope) : String :=
  let shard := Sdk.computeShard env.tenantID env.partitionKey numShards
  "events.shard." ++ String.singleton (Char.ofNat (48 + (shard % 10).toNat))

/-- The configuration of a publisher, without an effect destination. -/
def withRuleSets (ruleSets : List String) (numShards : UInt32) : Config := ⟨"", ruleSets, numShards⟩

/-- The scheduler of the Rust worker; its child publisher is `Rust.sendEffect`. -/
def Rust.publishScheduledEvent (sha256Hex : String → String) (cfg : Config) (env : EventEnvelope) :
    Except Err String := do
  let shard ← FlowRule.Rust.virtualShard env cfg.numShards
  .ok (Rust.eventSubject sha256Hex cfg env.type shard)

/-- PublishToShard of the Go publisher, called with the envelope's shard. -/
def Go.publishToShard (net : Network) (sha256Hex : String → String) (cfg : Nats.Config) (env : EventEnvelope)
    (data : RawMessage) : String :=
  Go.subjectForMessage net sha256Hex (withRuleSets cfg.ruleSets cfg.numShards) "events"
    (env.virtualShard cfg.numShards) data

/-! One subject. -/

theorem collectRuleSets_eq {values : List String} : ∀ {seen out : List String},
    collectRuleSets seen values = .ok out → out = seen ++ values.map Text.trimSpace := by
  induction values with
  | nil =>
    intro seen out h
    cases h
    simp
  | cons value rest ih =>
    intro seen out h
    simp only [collectRuleSets, Checks.ite_ok] at h
    rw [ih h.2.2.2]
    simp

/-- The rule sets are those that were given, without the blanks around them. -/
theorem normalizeConfig_spec {given : Settings} {cfg : Nats.Config} (h : normalizeConfig given = .ok cfg) :
    (∀ ruleSet, ruleSet ∈ cfg.ruleSets ↔ ruleSet ∈ given.ruleSets.map Text.trimSpace) ∧ cfg.numShards ≠ 0 := by
  unfold normalizeConfig at h
  dsimp only at h
  split at h
  · cases h
  split at h
  · cases h
  · cases h
  · rename_i hr
    cases h
    obtain ⟨collected, hc, rfl⟩ := Checks.map_ok.mp hr
    refine ⟨fun ruleSet => ?_, ?_⟩
    · rw [(List.perm_insertionSort (· ≤ ·) collected).mem_iff, collectRuleSets_eq hc]
      rfl
    · show (if given.numShards = 0 then (4096 : UInt32) else given.numShards) ≠ 0
      split
      · decide
      · assumption

def keyOf (cfg : Nats.Config) (env : EventEnvelope) : ConsumerKey :=
  ⟨"events", if env.type ∈ cfg.ruleSets then env.type else "", (env.virtualShard cfg.numShards).toNat⟩

section
variable {sha256Hex : String → String} {cfg : Nats.Config} {net : Network} {env : EventEnvelope} {data : RawMessage}

theorem computeShard_eq : Sdk.computeShard env.tenantID env.partitionKey cfg.numShards =
    env.virtualShard cfg.numShards :=
  rfl

theorem filterSubject_ruleSet {ruleSet : String} (h : ruleSet ≠ "") (n : Nat) :
    filterSubject sha256Hex ⟨"events", ruleSet, n⟩ =
      "events.ruleset." ++ sha256Hex ruleSet ++ ".shard" ++ String.singleton '.' ++ toString n := by
  unfold filterSubject
  rw [if_pos h]
  show "events" ++ ".ruleset." ++ sha256Hex ruleSet ++ ".shard." ++ toString n = _
  simp only [String.append_assoc]
  rfl

theorem filterSubject_base (n : Nat) :
    filterSubject sha256Hex ⟨"events", "", n⟩ = "events.shard" ++ String.singleton '.' ++ toString n := rfl

/-- The subject of the envelope under a list of rule sets. -/
def subjectUnder (sha256Hex : String → String) (numShards : UInt32) (env : EventEnvelope)
    (ruleSets : List String) : String :=
  Rust.eventSubject sha256Hex (withRuleSets ruleSets numShards) env.type (env.virtualShard numShards)

/-- Two lists give the same subject exactly if they agree on the type. -/
theorem subjectUnder_eq_iff {numShards : UInt32} {l l' : List String} :
    subjectUnder sha256Hex numShards env l = subjectUnder sha256Hex numShards env l' ↔
      (env.type ∈ l ↔ env.type ∈ l') := by
  unfold subjectUnder Rust.eventSubject withRuleSets
  by_cases h : env.type ∈ l <;> by_cases h' : env.type ∈ l'
  · simp only [h, h']
  · rw [if_pos h, if_neg h']
    exact iff_of_false (ruleSetSubject_ne _ _ _) (fun hiff => h' (hiff.mp h))
  · rw [if_neg h, if_pos h']
    exact iff_of_false (ruleSetSubject_ne _ _ _).symm (fun hiff => h (hiff.mpr h'))
  · simp only [h, h']

theorem filterSubject_keyOf : filterSubject sha256Hex (keyOf cfg env) =
    subjectUnder sha256Hex cfg.numShards env cfg.ruleSets := by
  unfold keyOf subjectUnder Rust.eventSubject withRuleSets
  by_cases h : env.type ∈ cfg.ruleSets
  · rw [if_pos h, if_pos h, filterSubject_ruleSet (cfg.ruleSets_ne _ h)]
    simp only [String.append_assoc]
    rfl
  · rw [if_neg h, if_neg h]
    rfl

theorem publishToShard_eq (hdata : net.unmarshal data = .ok env) (htype : env.type ≠ "") :
    Go.publishToShard net sha256Hex cfg env data = subjectUnder sha256Hex cfg.numShards env cfg.ruleSets :=
  subjectForMessage_eq (env.virtualShard cfg.numShards) hdata htype

/-- The loop finds the type exactly if it is in the list. -/
theorem sendSubject_eq (numShards : UInt32) (natsRuleSets : List String) :
    Sdk.sendSubject sha256Hex "events" numShards natsRuleSets env =
      subjectUnder sha256Hex numShards env natsRuleSets := by
  unfold Sdk.sendSubject subjectUnder Rust.eventSubject withRuleSets
  induction natsRuleSets with
  | nil => rfl
  | cons ruleSet rest ih =>
    dsimp only at ih ⊢
    unfold Sdk.natsSubjectForEnvelope
    by_cases h : ruleSet = env.type
    · rw [if_pos h, if_pos (by simp [h])]
      rfl
    · rw [if_neg h, ih]
      simp [Ne.symm h]

theorem publishScheduledEvent_eq {numShards : UInt32} (hshards : numShards ≠ 0) (ruleSets : List String) :
    Rust.publishScheduledEvent sha256Hex (withRuleSets ruleSets numShards) env =
      .ok (subjectUnder sha256Hex numShards env ruleSets) := by
  have hne : (withRuleSets ruleSets numShards).numShards ≠ 0 := hshards
  unfold Rust.publishScheduledEvent FlowRule.Rust.virtualShard
  rw [if_neg hne]
  rfl

theorem sendChild_eq {services : String → String → Option Service} {numShards : UInt32} (hshards : numShards ≠ 0)
    (ruleSets : List String) (hdata : net.fromValue data = .ok env) (tenantID destination name : String) :
    Rust.sendEffect net sha256Hex (withRuleSets ruleSets numShards) services
      ⟨tenantID, destination, name, data, "emit_event"⟩ =
      .ok (.subject (subjectUnder sha256Hex numShards env ruleSets)) := by
  have hchild : Rust.childEvent net (withRuleSets ruleSets numShards) data = .ok env :=
    rust_childEvent_ok.mpr ⟨hdata, hshards⟩
  show (do
    let event ← Rust.childEvent net (withRuleSets ruleSets numShards) data
    .ok (Address.subject (subjectUnder sha256Hex numShards event ruleSets))) = _
  rw [hchild]
  rfl

theorem digit_eq_iff (n : Nat) : String.singleton (Char.ofNat (48 + n % 10)) = toString n ↔ n < 10 := by
  have hdigit : ∀ m < 10, String.singleton (Char.ofNat (48 + m)) = toString m := by decide
  rw [hdigit (n % 10) (Nat.mod_lt n (by decide)), Nat.toString_eq_repr, Nat.toString_eq_repr, Nat.repr_inj]
  omega

theorem publishSubject_eq_iff (hruleSets : cfg.ruleSets = []) :
    Generated.publishSubject cfg.numShards env = subjectUnder sha256Hex cfg.numShards env cfg.ruleSets ↔
      (env.virtualShard cfg.numShards).toNat < 10 := by
  have hkey : subjectUnder sha256Hex cfg.numShards env cfg.ruleSets =
      "events.shard." ++ toString (env.virtualShard cfg.numShards).toNat :=
    if_neg (by simp [withRuleSets, hruleSets])
  have hrest : (env.virtualShard cfg.numShards % 10).toNat = (env.virtualShard cfg.numShards).toNat % 10 :=
    UInt32.toNat_mod ..
  unfold Generated.publishSubject
  simp only [computeShard_eq]
  rw [hkey, hrest, String.append_right_inj, digit_eq_iff]

/-- The filters of the consumers differ by shard and rule set. -/
theorem filterSubject_inj (hsha : ∀ r ∈ cfg.ruleSets, ∀ r' ∈ cfg.ruleSets, sha256Hex r = sha256Hex r' → r = r')
    {r r' : String} {n n' : Nat} (hr : r = "" ∨ r ∈ cfg.ruleSets) (hr' : r' = "" ∨ r' ∈ cfg.ruleSets)
    (h : filterSubject sha256Hex ⟨"events", r, n⟩ = filterSubject sha256Hex ⟨"events", r', n'⟩) :
    r = r' ∧ n = n' := by
  rcases hr with rfl | hr <;> rcases hr' with rfl | hr'
  · rw [filterSubject_base, filterSubject_base] at h
    exact ⟨rfl, (Text.number_after_inj (by decide) h).2⟩
  · rw [filterSubject_base, filterSubject_ruleSet (cfg.ruleSets_ne r' hr')] at h
    simp only [String.append_assoc] at h
    exact absurd h.symm (ruleset_ne_shard _ _)
  · rw [filterSubject_base, filterSubject_ruleSet (cfg.ruleSets_ne r hr)] at h
    simp only [String.append_assoc] at h
    exact absurd h (ruleset_ne_shard _ _)
  · rw [filterSubject_ruleSet (cfg.ruleSets_ne r hr), filterSubject_ruleSet (cfg.ruleSets_ne r' hr')] at h
    obtain ⟨hs, hn⟩ := Text.number_after_inj (by decide) h
    exact ⟨hsha r hr r' hr' ((String.append_right_inj _).mp ((String.append_left_inj _).mp hs)), hn⟩

theorem mem_shardKeys (hsubjects : cfg.subjects = ["events"]) {key : ConsumerKey} {shard : Nat} :
    key ∈ shardKeys cfg shard ↔
      ∃ ruleSet, (ruleSet = "" ∨ ruleSet ∈ cfg.ruleSets) ∧ key = ⟨"events", ruleSet, shard⟩ := by
  unfold shardKeys
  rw [hsubjects]
  simp only [List.flatMap_cons, List.flatMap_nil, List.append_nil, List.mem_cons, List.mem_map]
  constructor
  · rintro (rfl | ⟨ruleSet, hr, rfl⟩)
    · exact ⟨"", .inl rfl, rfl⟩
    · exact ⟨ruleSet, .inr hr, rfl⟩
  · rintro ⟨ruleSet, rfl | hr, rfl⟩
    · exact .inl rfl
    · exact .inr ⟨ruleSet, hr, rfl⟩

end

/-- All producers publish the envelope to one subject (the generated publisher where there are
    no rule sets), and of all consumers one of the envelope's shard listens there. The SDK and
    the Rust worker have lists of their own. -/
structure Routed (net : Network) (sha256Hex : String → String) (cfg : Nats.Config) (sdk rust : List String)
    (env : EventEnvelope) (data : RawMessage) : Prop where
  sdk : Sdk.sendSubject sha256Hex "events" cfg.numShards sdk env = Go.publishToShard net sha256Hex cfg env data
  scheduler : Rust.publishScheduledEvent sha256Hex (withRuleSets rust cfg.numShards) env =
    .ok (Go.publishToShard net sha256Hex cfg env data)
  child : ∀ services tenantID destination name,
    Rust.sendEffect net sha256Hex (withRuleSets rust cfg.numShards) services
      ⟨tenantID, destination, name, data, "emit_event"⟩ =
      .ok (.subject (Go.publishToShard net sha256Hex cfg env data))
  generated : cfg.ruleSets = [] →
    Generated.publishSubject cfg.numShards env = Go.publishToShard net sha256Hex cfg env data
  consumer : ∃! key, key ∈ shardKeys cfg (env.virtualShard cfg.numShards).toNat ∧
    filterSubject sha256Hex key = Go.publishToShard net sha256Hex cfg env data
  elsewhere : ∀ shard, shard ≠ (env.virtualShard cfg.numShards).toNat → ∀ key ∈ shardKeys cfg shard,
    filterSubject sha256Hex key ≠ Go.publishToShard net sha256Hex cfg env data

/-- The producers agree, on a subject of exactly one consumer, if and only if the lists of the SDK
    and of the Rust worker have the type when the broker's has it without blanks, and there are
    rule sets or the envelope's shard is a digit. -/
theorem producers_agree_iff {net : Network} {sha256Hex : String → String} {given : Settings} {cfg : Nats.Config}
    {env : EventEnvelope} {data : RawMessage} (hcfg : normalizeConfig given = .ok cfg)
    (hsha : ∀ r ∈ cfg.ruleSets, ∀ r' ∈ cfg.ruleSets, sha256Hex r = sha256Hex r' → r = r')
    (hsubjects : cfg.subjects = ["events"]) (htype : env.type ≠ "")
    (hgo : net.unmarshal data = .ok env) (hrust : net.fromValue data = .ok env) (sdk rust : List String) :
    Routed net sha256Hex cfg sdk rust env data ↔
      (env.type ∈ sdk ↔ env.type ∈ given.ruleSets.map Text.trimSpace) ∧
      (env.type ∈ rust ↔ env.type ∈ given.ruleSets.map Text.trimSpace) ∧
      (given.ruleSets ≠ [] ∨ (env.virtualShard cfg.numShards).toNat < 10) := by
  obtain ⟨hmem, hshards⟩ := normalizeConfig_spec hcfg
  have hsubject : Go.publishToShard net sha256Hex cfg env data =
      subjectUnder sha256Hex cfg.numShards env cfg.ruleSets := publishToShard_eq hgo htype
  have hsdk : Sdk.sendSubject sha256Hex "events" cfg.numShards sdk env =
      Go.publishToShard net sha256Hex cfg env data ↔
        (env.type ∈ sdk ↔ env.type ∈ given.ruleSets.map Text.trimSpace) := by
    rw [hsubject, sendSubject_eq, subjectUnder_eq_iff, hmem]
  have hempty : cfg.ruleSets = [] ↔ given.ruleSets = [] := by
    simp only [List.eq_nil_iff_forall_not_mem, hmem, List.mem_map, not_exists, not_and]
    exact ⟨fun h r hr => h _ r hr rfl, fun h _ r hr => absurd hr (h r)⟩
  constructor
  · intro h
    refine ⟨hsdk.mp h.sdk, ?_, ?_⟩
    · have hscheduler := h.scheduler
      rw [hsubject, publishScheduledEvent_eq hshards, Except.ok.injEq, subjectUnder_eq_iff, hmem] at hscheduler
      exact hscheduler
    · by_cases hsets : given.ruleSets = []
      · have hnone := hempty.mpr hsets
        exact .inr ((publishSubject_eq_iff hnone).mp ((h.generated hnone).trans hsubject))
      · exact .inl hsets
  · rintro ⟨hin, hrustin, hdigit⟩
    have hworker : subjectUnder sha256Hex cfg.numShards env rust =
        subjectUnder sha256Hex cfg.numShards env cfg.ruleSets := subjectUnder_eq_iff.mpr (by rw [hrustin, hmem])
    have hown : (keyOf cfg env).ruleSet = "" ∨ (keyOf cfg env).ruleSet ∈ cfg.ruleSets := by
      unfold keyOf
      by_cases h : env.type ∈ cfg.ruleSets
      · exact .inr (by simp [h])
      · exact .inl (by simp [h])
    refine ⟨hsdk.mpr hin, ?_, ?_, ?_, ?_, ?_⟩
    · rw [hsubject, publishScheduledEvent_eq hshards, hworker]
    · intro services tenantID destination name
      rw [hsubject, sendChild_eq hshards rust hrust, hworker]
    · intro hsets
      rw [hsubject]
      exact (publishSubject_eq_iff hsets).mpr (hdigit.resolve_left (not_not.mpr (hempty.mp hsets)))
    · rw [hsubject, ← filterSubject_keyOf]
      refine ⟨keyOf cfg env, ⟨(mem_shardKeys hsubjects).mpr ⟨_, hown, rfl⟩, rfl⟩, ?_⟩
      rintro key ⟨hkey, hfilter⟩
      obtain ⟨ruleSet, hr, rfl⟩ := (mem_shardKeys hsubjects).mp hkey
      have hsame : ruleSet = (keyOf cfg env).ruleSet := (filterSubject_inj hsha hr hown hfilter).1
      rw [hsame]
      rfl
    · intro shard hshard key hkey hfilter
      obtain ⟨ruleSet, hr, rfl⟩ := (mem_shardKeys hsubjects).mp hkey
      rw [hsubject, ← filterSubject_keyOf] at hfilter
      exact hshard (filterSubject_inj hsha hr hown hfilter).2

/-! An order event, with a rule set for its type, and with none. -/

namespace Orders

def given (ruleSets : List String) : Settings := ⟨"", "", ["events"], ruleSets, 0, 0, 4096⟩

/-- The configuration for rule sets that are clean as they were given. -/
def cfg (ruleSets : List String) (hnodup : ruleSets.Nodup) (hne : ∀ r ∈ ruleSets, r ≠ "") : Nats.Config where
  stream := "flowrule"
  consumer := "flowrule-worker"
  subjects := ["events"]
  ruleSets := ruleSets
  ackWait := 30 * second
  maxDeliver := -1
  numShards := 4096
  subjects_ne := by decide
  subjects_nodup := by decide
  ruleSets_nodup := hnodup
  ruleSets_ne := hne

def routed : Nats.Config := cfg ["order.created"] (by decide) (by decide)

def plain : Nats.Config := cfg [] (by decide) (by decide)

end Orders

open Routing.Sample

/-- The broker was given the rule set with a blank in front. -/
theorem producers_agree_order :
    Routed network sha256Hex Orders.routed ["order.created"] ["order.created"] child childText := by
  have hcfg : normalizeConfig (Orders.given [" order.created"]) = .ok Orders.routed := rfl
  refine (producers_agree_iff hcfg ?_ rfl (by decide) ?_ ?_ _ _).mpr ⟨by decide, by decide, .inl (by decide)⟩
  · exact fun r _ r' _ h => sha256Hex_injective h
  · simp [network]
  · simp [network]

/-- In shard 2532 the generated publisher writes 2. -/
theorem generated_elsewhere :
    Generated.publishSubject Orders.plain.numShards child = "events.shard.2" ∧
      Go.publishToShard network sha256Hex Orders.plain child childText =
        "events.shard.2532" ∧
      ¬ Routed network sha256Hex Orders.plain [] [] child childText := by
  have hgenerated : Generated.publishSubject Orders.plain.numShards child = "events.shard.2" := by
    decide +kernel
  have hgo : Go.publishToShard network sha256Hex Orders.plain child childText =
      "events.shard.2532" := by
    decide +kernel
  refine ⟨hgenerated, hgo, ?_⟩
  intro h
  have heq := h.generated rfl
  rw [hgenerated, hgo] at heq
  exact absurd heq (by decide)

end FlowRule.Routing
