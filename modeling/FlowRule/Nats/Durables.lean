import FlowRule.Nats.Config

/- When the durables of different consumers have different names. A name has its base subject
   with some characters replaced and the rest cut at 32 bytes, and the first subject's own
   consumer has no subject in its name at all. `Confusable` says which subjects are written the
   same, and `durables_distinct_iff` that nothing else is lost. Assumed of sha256: at least 32
   digits, and cut there different for different rule sets of the configuration. -/
namespace FlowRule.Nats

open Text

/-! Subjects in a name. -/

/-- Bytes of a subject that are written alike: those of a dot, a blank and a dash, and those
    of the two wildcards and an x. -/
def WrittenAlike (x y : UInt8) : Prop :=
  x = y ∨ (x ∈ [46, 32, 45] ∧ y ∈ [46, 32, 45]) ∨ (x ∈ [42, 62, 120] ∧ y ∈ [42, 62, 120])

instance (x y : UInt8) : Decidable (WrittenAlike x y) := inferInstanceAs (Decidable (_ ∨ _ ∨ _))

def Confusable (a b : String) : Prop := List.Forall₂ WrittenAlike ((bytes a).take 32) ((bytes b).take 32)

instance (a b : String) : Decidable (Confusable a b) := inferInstanceAs (Decidable (List.Forall₂ _ _ _))

def written (x : UInt8) : UInt8 :=
  if x = 46 ∨ x = 32 then 45 else if x = 42 ∨ x = 62 then 120 else x

theorem written_eq_iff (x y : UInt8) : written x = written y ↔ WrittenAlike x y := by
  simp only [written, WrittenAlike, List.mem_cons, List.not_mem_nil, or_false]
  grind

theorem utf8EncodeChar_written (c : Char) :
    String.utf8EncodeChar (if c = '.' ∨ c = ' ' then '-' else if c = '*' ∨ c = '>' then 'x' else c) =
      (String.utf8EncodeChar c).map written := by
  -- a character has the byte of an ASCII character only if it is that one
  have hkept : ∀ b ∈ String.utf8EncodeChar c, ∀ x : Char, x.toNat < 128 → c ≠ x → b ≠ UInt8.ofNat x.toNat := by
    intro b hb x hx hc h
    have hbx : b.toNat = x.toNat := by
      rw [h, UInt8.toNat_ofNat', Nat.mod_eq_of_lt (by omega)]
    have hcb := (utf8EncodeChar_ascii hb (by omega)).1
    exact hc (Char.toNat_inj.mp (hcb.trans hbx))
  split_ifs with h₁ h₂
  · rcases h₁ with rfl | rfl <;> decide
  · rcases h₂ with rfl | rfl <;> decide
  · rw [not_or] at h₁ h₂
    refine (List.map_id' _).symm.trans (List.map_congr_left fun b hb => ?_)
    have h46 : b ≠ 46 := hkept b hb '.' (by decide) h₁.1
    have h32 : b ≠ 32 := hkept b hb ' ' (by decide) h₁.2
    have h42 : b ≠ 42 := hkept b hb '*' (by decide) h₂.1
    have h62 : b ≠ 62 := hkept b hb '>' (by decide) h₂.2
    unfold written
    rw [if_neg (not_or.mpr ⟨h46, h32⟩), if_neg (not_or.mpr ⟨h42, h62⟩)]

theorem safeDurableToken_eq_iff (a b : String) : safeDurableToken a = safeDurableToken b ↔ Confusable a b := by
  unfold safeDurableToken Confusable
  rw [bytes_map utf8EncodeChar_written, bytes_map utf8EncodeChar_written, ← List.map_take, ← List.map_take,
    ← List.forall₂_eq_eq_eq, List.forall₂_map_left_iff, List.forall₂_map_right_iff]
  simp only [written_eq_iff]

theorem length_safeDurableToken (a : String) : (safeDurableToken a).length ≤ 32 := by
  unfold safeDurableToken
  rw [List.length_take]
  omega

/-! Keys and their names. -/

section
variable {sha256Hex : String → String} {cfg : Config}

instance (key : ConsumerKey) : Decidable (Configured cfg key) := inferInstanceAs (Decidable (key ∈ _))

theorem configured_iff {key : ConsumerKey} :
    Configured cfg key ↔ key.baseSubject ∈ cfg.subjects ∧ (key.ruleSet = "" ∨ key.ruleSet ∈ cfg.ruleSets) := by
  obtain ⟨base, ruleSet, shard⟩ := key
  unfold Configured shardKeys
  simp only [List.mem_flatMap, List.mem_cons, List.mem_map, ConsumerKey.mk.injEq]
  constructor
  · rintro ⟨base', hbase, ⟨rfl, rfl, -⟩ | ⟨ruleSet', hr, rfl, rfl, -⟩⟩
    · exact ⟨hbase, .inl rfl⟩
    · exact ⟨hbase, .inr hr⟩
  · rintro ⟨hbase, rfl | hr⟩
    · exact ⟨base, hbase, .inl ⟨rfl, rfl, trivial⟩⟩
    · exact ⟨base, hbase, .inr ⟨ruleSet, hr, rfl, rfl, trivial⟩⟩

variable {k k' : ConsumerKey}

theorem durable_inj (h : durable sha256Hex cfg k = durable sha256Hex cfg k') :
    durableStem sha256Hex cfg k = durableStem sha256Hex cfg k' ∧ k.shard = k'.shard := by
  refine ⟨?_, durable_shard h⟩
  have hstem := (split_last_inj (dash_not_mem_number k.shard) (dash_not_mem_number k'.shard) h).1
  exact List.append_cancel_right hstem

theorem durable_congr (hstem : durableStem sha256Hex cfg k = durableStem sha256Hex cfg k')
    (hshard : k.shard = k'.shard) : durable sha256Hex cfg k = durable sha256Hex cfg k' := by
  unfold durable
  rw [hstem, hshard]

theorem durableStem_ruleSet (h : k.ruleSet ≠ "") :
    durableStem sha256Hex cfg k = bytes cfg.consumer ++ bytes "-" ++ safeDurableToken k.baseSubject ++ bytes "-rs-" ++
      (bytes (sha256Hex k.ruleSet)).take 32 := if_pos h

theorem durableStem_subject (h : k.ruleSet = "") :
    durableStem sha256Hex cfg k = if k.baseSubject ≠ cfg.subjects.head cfg.subjects_ne then
      bytes cfg.consumer ++ bytes "-" ++ safeDurableToken k.baseSubject else bytes cfg.consumer :=
        if_neg (not_not.mpr h)

/-- The name of a rule set's consumer determines how its subject is written and the cut hash. -/
theorem ruleSet_stem_inj (hk : k.ruleSet ≠ "") (hk' : k'.ruleSet ≠ "")
    (hlen : 32 ≤ (bytes (sha256Hex k.ruleSet)).length) (hlen' : 32 ≤ (bytes (sha256Hex k'.ruleSet)).length)
    (h : durableStem sha256Hex cfg k = durableStem sha256Hex cfg k') :
    safeDurableToken k.baseSubject = safeDurableToken k'.baseSubject ∧
      (bytes (sha256Hex k.ruleSet)).take 32 = (bytes (sha256Hex k'.ruleSet)).take 32 := by
  rw [durableStem_ruleSet hk, durableStem_ruleSet hk'] at h
  obtain ⟨hbase, htoken⟩ := List.append_inj' h (by simp [hlen, hlen'])
  exact ⟨List.append_cancel_left (List.append_cancel_right hbase), htoken⟩

/-- The two kinds of names differ in their length. -/
theorem kinds_apart (hk : k.ruleSet ≠ "") (hk' : k'.ruleSet = "") (hlen : 32 ≤ (bytes (sha256Hex k.ruleSet)).length) :
    durableStem sha256Hex cfg k ≠ durableStem sha256Hex cfg k' := by
  intro h
  have hlength := congrArg List.length h
  have hcut := length_safeDurableToken k'.baseSubject
  have hone : (bytes "-").length = 1 := rfl
  have hfour : (bytes "-rs-").length = 4 := rfl
  rw [durableStem_ruleSet hk, durableStem_subject hk'] at hlength
  split_ifs at hlength
  all_goals
    simp only [List.length_append, List.length_take, hone, hfour] at hlength
    omega

/-- The name of a subject's own consumer determines how the subject is written, and whether
    it is the first one. -/
theorem subject_stem_inj (hk : k.ruleSet = "") (hk' : k'.ruleSet = "")
    (h : durableStem sha256Hex cfg k = durableStem sha256Hex cfg k') :
    k.baseSubject = k'.baseSubject ∨
      (k.baseSubject ≠ cfg.subjects.head cfg.subjects_ne ∧ k'.baseSubject ≠ cfg.subjects.head cfg.subjects_ne ∧
        safeDurableToken k.baseSubject = safeDurableToken k'.baseSubject) := by
  have hone : (bytes "-").length = 1 := rfl
  rw [durableStem_subject hk, durableStem_subject hk'] at h
  split_ifs at h with hfirst hfirst' hfirst'
  · exact .inr ⟨hfirst, hfirst', List.append_cancel_left h⟩
  · have hlength := congrArg List.length h
    simp only [List.length_append, hone] at hlength
    omega
  · have hlength := congrArg List.length h
    simp only [List.length_append, hone] at hlength
    omega
  · exact .inl ((not_not.mp hfirst).trans (not_not.mp hfirst').symm)

end

/-- Different consumers of a configuration have different durables exactly if no two of its
    subjects are written alike: no two at all when there are rule sets, and otherwise no two
    behind the first. -/
theorem durables_distinct_iff {sha256Hex : String → String} {cfg : Config}
    (hlen : ∀ r ∈ cfg.ruleSets, 32 ≤ (bytes (sha256Hex r)).length)
    (hsha : ∀ r ∈ cfg.ruleSets, ∀ r' ∈ cfg.ruleSets,
      (bytes (sha256Hex r)).take 32 = (bytes (sha256Hex r')).take 32 → r = r') :
    (∀ k k', Configured cfg k → Configured cfg k' → k ≠ k' → durable sha256Hex cfg k ≠ durable sha256Hex cfg k') ↔
      ∀ a ∈ cfg.subjects, ∀ b ∈ cfg.subjects, a ≠ b →
        (cfg.ruleSets ≠ [] ∨
          (a ≠ cfg.subjects.head cfg.subjects_ne ∧ b ≠ cfg.subjects.head cfg.subjects_ne)) → ¬ Confusable a b := by
  constructor
  · intro hdistinct a ha b hb hab hwhere hconf
    have htoken := (safeDurableToken_eq_iff a b).mpr hconf
    rcases hwhere with hsets | ⟨hfirst, hfirst'⟩
    · -- the consumers of one rule set
      obtain ⟨r, hr⟩ := List.exists_mem_of_ne_nil _ hsets
      refine hdistinct ⟨a, r, 0⟩ ⟨b, r, 0⟩ (configured_iff.mpr ⟨ha, .inr hr⟩) (configured_iff.mpr ⟨hb, .inr hr⟩)
        (by simpa using hab) (durable_congr ?_ rfl)
      have hne := cfg.ruleSets_ne r hr
      rw [durableStem_ruleSet hne, durableStem_ruleSet hne, htoken]
    · -- the consumers of the two subjects themselves
      refine hdistinct ⟨a, "", 0⟩ ⟨b, "", 0⟩ (configured_iff.mpr ⟨ha, .inl rfl⟩) (configured_iff.mpr ⟨hb, .inl rfl⟩)
        (by simpa using hab) (durable_congr ?_ rfl)
      rw [durableStem_subject rfl, durableStem_subject rfl, if_pos hfirst, if_pos hfirst', htoken]
  · intro hsubjects k k' hk hk' hne hname
    obtain ⟨hbase, hrs⟩ := configured_iff.mp hk
    obtain ⟨hbase', hrs'⟩ := configured_iff.mp hk'
    obtain ⟨hstem, hshard⟩ := durable_inj hname
    by_cases h : k.ruleSet = "" <;> by_cases h' : k'.ruleSet = ""
    · have heq : k.baseSubject = k'.baseSubject := by
        by_contra hdiff
        rcases subject_stem_inj h h' hstem with heq | ⟨hfirst, hfirst', htoken⟩
        · exact hdiff heq
        · exact hsubjects _ hbase _ hbase' hdiff (.inr ⟨hfirst, hfirst'⟩) ((safeDurableToken_eq_iff _ _).mp htoken)
      exact hne (ConsumerKey.mk.injEq .. ▸ ⟨heq, h.trans h'.symm, hshard⟩)
    · have hr' := hrs'.resolve_left h'
      exact kinds_apart h' h (hlen _ hr') hstem.symm
    · have hr := hrs.resolve_left h
      exact kinds_apart h h' (hlen _ hr) hstem
    · have hr := hrs.resolve_left h
      have hr' := hrs'.resolve_left h'
      obtain ⟨htoken, hhash⟩ := ruleSet_stem_inj h h' (hlen _ hr) (hlen _ hr') hstem
      have hset := hsha _ hr _ hr' hhash
      have heq : k.baseSubject = k'.baseSubject := by
        by_contra hdiff
        exact hsubjects _ hbase _ hbase' hdiff (.inl (List.ne_nil_of_mem hr)) ((safeDurableToken_eq_iff _ _).mp htoken)
      exact hne (ConsumerKey.mk.injEq .. ▸ ⟨heq, hset, hshard⟩)

/-! Two configurations of three subjects. -/

namespace Subjects

def given (subjects ruleSets : List String) : Settings := ⟨"", "", subjects, ruleSets, 0, 0, 16⟩

def sha : String → String :=
  digest [("orders", "1c168adb00d208e42f93314529f1fa9c0427eb63233ceda95a5db52b7012a719")]

end Subjects

theorem durables_distinct_orders :
    ∃ cfg, normalizeConfig (Subjects.given ["events", "orders.eu", "orders.us"] ["orders"]) = .ok cfg ∧
      ∀ k k', Configured cfg k → Configured cfg k' → k ≠ k' →
        durable Subjects.sha cfg k ≠ durable Subjects.sha cfg k' := by
  refine ⟨_, rfl, ?_⟩
  refine (durables_distinct_iff ?_ ?_).mpr ?_ <;> decide +kernel

/-- The consumers of orders.eu and of orders-eu have one durable. -/
theorem durables_shared :
    ∃ cfg, normalizeConfig (Subjects.given ["events", "orders.eu", "orders-eu"] []) = .ok cfg ∧
      ∃ k k', Configured cfg k ∧ Configured cfg k' ∧ k ≠ k' ∧
        durable Subjects.sha cfg k = durable Subjects.sha cfg k' ∧
        filterSubject Subjects.sha k ≠ filterSubject Subjects.sha k' := by
  refine ⟨_, rfl, ⟨"orders.eu", "", 3⟩, ⟨"orders-eu", "", 3⟩, ?_⟩
  decide +kernel

end FlowRule.Nats
