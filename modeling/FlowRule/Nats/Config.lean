import FlowRule.Domain.Errors
import FlowRule.Lib.Text

/- The configuration of the JetStream adapter and the names it derives from it
   (internal/adapters/nats/jetstream.go). `normalizeConfig` is the only way to a `Config`,
   which carries what normalization establishes. A durable's name is cut at 32 bytes, so names
   are byte strings; it ends in the shard (`durable_shard`).

   The connection's address and timeout are left out. sha256 is a parameter. -/
namespace FlowRule.Nats

open Text

structure Settings where
  stream : String
  consumer : String
  subjects : List String
  ruleSets : List String
  ackWait : Int
  maxDeliver : Int
  numShards : UInt32

structure Config where
  stream : String
  consumer : String
  subjects : List String
  ruleSets : List String
  ackWait : Int
  maxDeliver : Int
  numShards : UInt32
  subjects_ne : subjects ≠ []
  subjects_nodup : subjects.Nodup
  ruleSets_nodup : ruleSets.Nodup
  ruleSets_ne : ∀ ruleSet ∈ ruleSets, ruleSet ≠ ""

theorem no_ruleSets : ∀ ruleSet ∈ ([] : List String), ruleSet ≠ "" := by simp

def second : Int := 1000000000

def applyConfigDefaults (cfg : Settings) : Settings where
  stream := if cfg.stream = "" then "flowrule" else cfg.stream
  consumer := if cfg.consumer = "" then "flowrule-worker" else cfg.consumer
  subjects := if cfg.subjects.length = 0 then ["events"] else cfg.subjects
  ruleSets := cfg.ruleSets
  ackWait := if cfg.ackWait ≤ 0 then 30 * second else cfg.ackWait
  maxDeliver := if cfg.maxDeliver = 0 then -1 else cfg.maxDeliver
  numShards := if cfg.numShards = 0 then 4096 else cfg.numShards

def validateConsumerConfig (cfg : Settings) : Except Err Unit :=
  if cfg.maxDeliver ≠ -1 then
    .error (.msg ("NATS MaxDeliver must be -1 (unlimited) until durable exhausted-delivery recovery " ++
      "is implemented"))
  else .ok ()

def normalizeSubjects : List String → List String → Except Err (List String)
  | seen, [] => .ok seen
  | seen, value :: rest =>
    let subject := trimSpace value
    if subject = "" then .error (.msg "NATS subject must not be empty")
    else if subject ∈ seen then normalizeSubjects seen rest
    else normalizeSubjects (seen ++ [subject]) rest

def collectRuleSets : List String → List String → Except Err (List String)
  | seen, [] => .ok seen
  | seen, value :: rest =>
    let ruleSet := trimSpace value
    if ruleSet = "" then .error (.msg "NATS ruleset must not be empty")
    else if 128 < ruleSet.utf8ByteSize then .error (.msg "NATS ruleset exceeds 128 bytes")
    else if ruleSet ∈ seen then .error (.msg ("duplicate NATS ruleset \"" ++ ruleSet ++ "\""))
    else collectRuleSets (seen ++ [ruleSet]) rest

def normalizeRuleSets (values : List String) : Except Err (List String) :=
  (collectRuleSets [] values).map (fun ruleSets => ruleSets.insertionSort (· ≤ ·))

theorem nodup_snoc {x : String} {l : List String} (hl : l.Nodup) (hx : x ∉ l) : (l ++ [x]).Nodup := by
  rw [List.nodup_append]
  refine ⟨hl, List.nodup_singleton x, ?_⟩
  intro a ha b hb
  rw [List.mem_singleton] at hb
  intro hab
  exact hx (hb ▸ hab ▸ ha)

/-- What normalization of the subjects establishes. -/
theorem normalizeSubjects_ok {values : List String} : ∀ {seen out : List String},
    normalizeSubjects seen values = .ok out → seen.Nodup →
    out.Nodup ∧ ((seen ≠ [] ∨ values ≠ []) → out ≠ []) := by
  induction values with
  | nil =>
    intro seen out h hnd
    cases h
    exact ⟨hnd, fun hne => hne.resolve_right (fun h => h rfl)⟩
  | cons value rest ih =>
    intro seen out h hnd
    simp only [normalizeSubjects] at h
    split at h
    · cases h
    split at h
    · rename_i hmem
      have hseen : seen ≠ [] := List.ne_nil_of_mem hmem
      exact ⟨(ih h hnd).1, fun _ => (ih h hnd).2 (.inl hseen)⟩
    · rename_i hnew
      have hnd' := nodup_snoc hnd hnew
      exact ⟨(ih h hnd').1, fun _ => (ih h hnd').2 (.inl (by simp))⟩

theorem collectRuleSets_ok {values : List String} : ∀ {seen out : List String},
    collectRuleSets seen values = .ok out → seen.Nodup → (∀ r ∈ seen, r ≠ "") →
    out.Nodup ∧ ∀ r ∈ out, r ≠ "" := by
  induction values with
  | nil =>
    intro seen out h hnd hne
    cases h
    exact ⟨hnd, hne⟩
  | cons value rest ih =>
    intro seen out h hnd hne
    simp only [collectRuleSets] at h
    split at h
    · cases h
    split at h
    · cases h
    split at h
    · cases h
    rename_i hempty _ hnew
    refine ih h (nodup_snoc hnd hnew) ?_
    intro r hr
    rcases List.mem_append.mp hr with hr | hr
    · exact hne r hr
    · rw [List.mem_singleton.mp hr]
      exact hempty

theorem normalizeRuleSets_ok {values out : List String} (h : normalizeRuleSets values = .ok out) :
    out.Nodup ∧ ∀ r ∈ out, r ≠ "" := by
  unfold normalizeRuleSets at h
  cases hc : collectRuleSets [] values with
  | error e => rw [hc] at h; cases h
  | ok collected =>
    rw [hc] at h
    cases h
    obtain ⟨hnd, hne⟩ := collectRuleSets_ok hc List.nodup_nil (fun r hr => absurd hr List.not_mem_nil)
    have hperm := List.perm_insertionSort (· ≤ ·) collected
    exact ⟨hperm.nodup_iff.mpr hnd, fun r hr => hne r (hperm.mem_iff.mp hr)⟩

def normalizeConfig (given : Settings) : Except Err Config :=
  let cfg := applyConfigDefaults given
  match validateConsumerConfig cfg with
  | .error e => .error e
  | .ok _ =>
    match hs : normalizeSubjects [] cfg.subjects, hr : normalizeRuleSets cfg.ruleSets with
    | .error e, _ => .error e
    | .ok _, .error e => .error e
    | .ok subjects, .ok ruleSets => .ok {
        stream := cfg.stream
        consumer := cfg.consumer
        subjects := subjects
        ruleSets := ruleSets
        ackWait := cfg.ackWait
        maxDeliver := cfg.maxDeliver
        numShards := cfg.numShards
        subjects_ne := by
          refine (normalizeSubjects_ok hs List.nodup_nil).2 (.inr ?_)
          show (if given.subjects.length = 0 then ["events"] else given.subjects) ≠ []
          split
          · simp
          · rename_i hne
            exact fun h => hne (by rw [h]; rfl)
        subjects_nodup := (normalizeSubjects_ok hs List.nodup_nil).1
        ruleSets_nodup := (normalizeRuleSets_ok hr).1
        ruleSets_ne := (normalizeRuleSets_ok hr).2 }

/-! Keys and names. -/

structure ConsumerKey where
  baseSubject : String
  ruleSet : String
  shard : Nat
  deriving DecidableEq, Repr

/-- The keys of a shard, in the order in which its consumers are created. -/
def shardKeys (cfg : Config) (shard : Nat) : List ConsumerKey :=
  cfg.subjects.flatMap (fun base =>
    ⟨base, "", shard⟩ :: cfg.ruleSets.map (fun ruleSet => ⟨base, ruleSet, shard⟩))

def Configured (cfg : Config) (key : ConsumerKey) : Prop := key ∈ shardKeys cfg key.shard

section
variable (sha256Hex : String → String) (cfg : Config)

def ruleSetToken (ruleSet : String) : String := sha256Hex ruleSet

def ruleSetSubject (baseSubject ruleSet : String) (shard : Nat) : String :=
  baseSubject ++ ".ruleset." ++ ruleSetToken sha256Hex ruleSet ++ ".shard." ++ toString shard

/-- The characters of a subject that a durable's name may not have are replaced, and the
    rest is cut at 32 bytes. -/
def safeDurableToken (value : String) : List UInt8 :=
  (bytes (value.map (fun c => if c = '.' ∨ c = ' ' then '-' else if c = '*' ∨ c = '>' then 'x' else c))).take 32

def durableStem (key : ConsumerKey) : List UInt8 :=
  if key.ruleSet ≠ "" then
    bytes cfg.consumer ++ bytes "-" ++ safeDurableToken key.baseSubject ++ bytes "-rs-" ++
      (bytes (ruleSetToken sha256Hex key.ruleSet)).take 32
  else if key.baseSubject ≠ cfg.subjects.head cfg.subjects_ne then
    bytes cfg.consumer ++ bytes "-" ++ safeDurableToken key.baseSubject
  else bytes cfg.consumer

def durable (key : ConsumerKey) : List UInt8 :=
  durableStem sha256Hex cfg key ++ bytes "-shard" ++ 45 :: bytes (toString key.shard)

def filterSubject (key : ConsumerKey) : String :=
  if key.ruleSet ≠ "" then ruleSetSubject sha256Hex key.baseSubject key.ruleSet key.shard
  else key.baseSubject ++ ".shard." ++ toString key.shard

end

theorem durable_shard {sha256Hex : String → String} {cfg : Config} {k k' : ConsumerKey}
    (h : durable sha256Hex cfg k = durable sha256Hex cfg k') : k.shard = k'.shard :=
  numbered_inj h

theorem shardKeys_shard {cfg : Config} {shard : Nat} {key : ConsumerKey} (h : key ∈ shardKeys cfg shard) :
    key.shard = shard := by
  obtain ⟨base, -, hk⟩ := List.mem_flatMap.mp h
  rcases List.mem_cons.mp hk with rfl | hk
  · rfl
  · obtain ⟨ruleSet, -, rfl⟩ := List.mem_map.mp hk
    rfl

theorem shardKeys_nodup (cfg : Config) (shard : Nat) : (shardKeys cfg shard).Nodup := by
  unfold shardKeys
  rw [List.nodup_flatMap]
  refine ⟨?_, ?_⟩
  · intro base _
    rw [List.nodup_cons]
    refine ⟨?_, ?_⟩
    · -- the base consumer has no rule set, and rule sets are not empty
      intro hmem
      obtain ⟨ruleSet, hr, he⟩ := List.mem_map.mp hmem
      simp only [ConsumerKey.mk.injEq, true_and, and_true] at he
      exact cfg.ruleSets_ne ruleSet hr he
    · refine cfg.ruleSets_nodup.map ?_
      intro a b hab
      simpa using hab
  · refine cfg.subjects_nodup.imp ?_
    intro a b hab key ha hb
    have hbase : ∀ {c : String}, key ∈ (⟨c, "", shard⟩ :: cfg.ruleSets.map (fun r => ⟨c, r, shard⟩) :
        List ConsumerKey) → key.baseSubject = c := by
      intro c hc
      rcases List.mem_cons.mp hc with rfl | hc
      · rfl
      · obtain ⟨r, -, rfl⟩ := List.mem_map.mp hc
        rfl
    exact hab ((hbase ha).symm.trans (hbase hb))

theorem length_shardKeys (cfg : Config) (shard : Nat) :
    (shardKeys cfg shard).length = cfg.subjects.length * (1 + cfg.ruleSets.length) := by
  unfold shardKeys
  rw [List.length_flatMap]
  simp [Nat.add_comm]

end FlowRule.Nats
