import FlowRule.Lib.Spelling
import FlowRule.Rules.Acting

/- What a decision hash says about the decision (ComputeDecisionHash of
   internal/domain/types.go, Evaluate of internal/rules/evaluator.go).

   Matched rules, effects' identities and the event's are hashed as one text with nothing between
   them: two events have one hash and not one decision exactly when what stands at the end of the
   one decision is the beginning of the other event's identity (`decisionHash_commits_iff`). -/
namespace FlowRule.Rules

section
variable (sha256Hex : String → String) (sem : Semantics) (revision : RuleRevision) (event : EventEnvelope)

def actingIDs : List String :=
  (acting sem revision event revision.compiled).map (fun a =>
    computeEffectID sha256Hex event.tenantID event.id revision.ruleID revision.revision a.ruleID a.index)

/-- What stands between the content hash and the event's identity in the hashed text. -/
def trail : String :=
  Text.spell (holding sem revision event revision.compiled ++ actingIDs sha256Hex sem revision event)

end

section
variable {sha256Hex : String → String} {sem : Semantics} {now : Time} {revision : RuleRevision} {event : EventEnvelope}

theorem buildsTo_ids {as : List Acting} {effects : List Effect}
    (h : List.Forall₂ (BuildsTo sha256Hex sem now revision event) as effects) :
    effects.map Effect.id = as.map (fun a =>
      computeEffectID sha256Hex event.tenantID event.id revision.ruleID revision.revision a.ruleID a.index) := by
  induction h with
  | nil => rfl
  | cons hbuild _ ih => rw [List.map_cons, List.map_cons, buildEffect_id hbuild, ih]

theorem evaluate_trail {d : Decision} (h : evaluate sha256Hex sem now revision event = .ok d) :
    d.matchedRules = holding sem revision event revision.compiled ∧
      d.effects.map Effect.id = actingIDs sha256Hex sem revision event ∧
      d.hash = sha256Hex (revision.contentHash ++ (trail sha256Hex sem revision event ++ event.id)) := by
  obtain ⟨hmatched, hbuilds, hhash⟩ := evaluate_acting h
  have heffects : d.effects.map Effect.id = actingIDs sha256Hex sem revision event := buildsTo_ids hbuilds
  refine ⟨hmatched, heffects, ?_⟩
  rw [hhash, hmatched]
  unfold computeDecisionHash trail
  rw [Text.foldl_spell Effect.id, heffects]
  have hfold := Text.foldl_spell id (holding sem revision event revision.compiled) revision.contentHash
  simp only [id_eq, List.map_id] at hfold
  rw [hfold, Text.spell_append]
  simp only [String.append_assoc, String.append_empty]

end

/-! Two events. -/

section
variable (sha256Hex : String → String) (sem : Semantics) (revision : RuleRevision)

def Differ (e e' : EventEnvelope) : Prop :=
  holding sem revision e revision.compiled ≠ holding sem revision e' revision.compiled ∨
    actingIDs sha256Hex sem revision e ≠ actingIDs sha256Hex sem revision e'

/-- A text at the end of one event's trail is at the beginning of the other event's identity,
    and without it the two are the same; if it is empty, then the trails are put together
    differently. -/
def Shifted (e e' : EventEnvelope) : Prop :=
  ∃ s, e'.id = s ++ e.id ∧ trail sha256Hex sem revision e = trail sha256Hex sem revision e' ++ s ∧
    (s ≠ "" ∨ Differ sha256Hex sem revision e e')

end

section
variable {sha256Hex : String → String} {sem : Semantics} {revision : RuleRevision} {e e' : EventEnvelope}

theorem Shifted.text_eq (h : Shifted sha256Hex sem revision e e') :
    trail sha256Hex sem revision e ++ e.id = trail sha256Hex sem revision e' ++ e'.id := by
  obtain ⟨s, hid, htrail, -⟩ := h
  rw [hid, htrail, String.append_assoc]

theorem Shifted.apart (h : Shifted sha256Hex sem revision e e') :
    e.id ≠ e'.id ∨ Differ sha256Hex sem revision e e' := by
  obtain ⟨s, hid, -, hs | hdiffer⟩ := h
  · refine .inl fun hsame => hs ?_
    rw [hsame] at hid
    exact String.append_eq_right_iff.mp hid.symm
  · exact .inr hdiffer

/-- Equal texts of different events are shifted, to one side or the other. -/
theorem shifted_of_text_eq (htext : trail sha256Hex sem revision e ++ e.id = trail sha256Hex sem revision e' ++ e'.id)
    (hapart : e.id ≠ e'.id ∨ Differ sha256Hex sem revision e e') :
    Shifted sha256Hex sem revision e e' ∨ Shifted sha256Hex sem revision e' e := by
  rcases Text.append_eq_iff.mp htext with ⟨s, htrail, hid⟩ | ⟨s, htrail, hid⟩
  · refine .inr ⟨s, hid, htrail, ?_⟩
    by_cases hs : s = ""
    · subst hs
      refine .inr (hapart.resolve_left ?_ |>.imp Ne.symm Ne.symm)
      simpa using hid
    · exact .inl hs
  · refine .inl ⟨s, hid, htrail, ?_⟩
    by_cases hs : s = ""
    · subst hs
      refine .inr (hapart.resolve_left ?_)
      simpa using hid.symm
    · exact .inl hs

/-- One hash means one event identity, one list of matched rules and one list of effect
    identities, exactly where no text is shifted between the two events. -/
theorem decisionHash_commits_iff (hsha : Function.Injective sha256Hex) {now now' : Time} {d d' : Decision}
    (hd : evaluate sha256Hex sem now revision e = .ok d) (hd' : evaluate sha256Hex sem now' revision e' = .ok d') :
    (d.hash = d'.hash → e.id = e'.id ∧ d.matchedRules = d'.matchedRules ∧
      d.effects.map Effect.id = d'.effects.map Effect.id) ↔
    ¬ (Shifted sha256Hex sem revision e e' ∨ Shifted sha256Hex sem revision e' e) := by
  obtain ⟨hmatched, heffects, hhash⟩ := evaluate_trail hd
  obtain ⟨hmatched', heffects', hhash'⟩ := evaluate_trail hd'
  rw [hhash, hhash', hsha.eq_iff, String.append_right_inj, hmatched, hmatched', heffects, heffects']
  constructor
  · rintro hcommits (hshift | hshift)
    · obtain ⟨hid, hm, he⟩ := hcommits hshift.text_eq
      rcases hshift.apart with hne | hne | hne
      · exact hne hid
      · exact hne hm
      · exact hne he
    · obtain ⟨hid, hm, he⟩ := hcommits hshift.text_eq.symm
      rcases hshift.apart with hne | hne | hne
      · exact hne hid.symm
      · exact hne hm.symm
      · exact hne he.symm
  · intro hnone htext
    by_contra hnot
    apply hnone
    apply shifted_of_text_eq htext
    by_cases hid : e.id = e'.id
    · right
      by_contra hsame
      unfold Differ at hsame
      push Not at hsame
      exact hnot ⟨hid, hsame.1, hsame.2⟩
    · exact .inl hid

theorem holding_rules {word : String → Prop} (hrules : ∀ rule ∈ revision.compiled, word rule.id) :
    ∀ id ∈ holding sem revision e revision.compiled, word id := by
  intro id hid
  obtain ⟨rule, hrule, rfl⟩ := List.mem_map.mp hid
  exact hrules rule (reached_subset (List.mem_filter.mp hrule).1)

theorem not_shifted_of_code {word : String → Prop} (hcode : Text.Code word)
    (hrules : ∀ rule ∈ revision.compiled, word rule.id)
    (hacting : ∀ x ∈ [e, e'], ∀ id ∈ actingIDs sha256Hex sem revision x,
      word id ∧ id ∉ revision.compiled.map CompiledRule.id)
    (hsize : e.id.utf8ByteSize = e'.id.utf8ByteSize) : ¬ Shifted sha256Hex sem revision e e' := by
  rintro ⟨s, hid, htrail, hs⟩
  have hempty : s = "" := by
    have hsizes := congrArg String.utf8ByteSize hid
    rw [String.utf8ByteSize_append] at hsizes
    exact String.utf8ByteSize_eq_zero_iff.mp (by omega)
  subst hempty
  have hwords : ∀ x ∈ [e, e'], ∀ w ∈ holding sem revision x revision.compiled ++
      actingIDs sha256Hex sem revision x, word w := by
    intro x hx w hw
    rcases List.mem_append.mp hw with hw | hw
    · exact holding_rules hrules w hw
    · exact (hacting x hx w hw).1
  have hlists := Text.spell_inj hcode (hwords e (by simp)) (hwords e' (by simp)) (by simpa [trail] using htrail)
  have hmem : ∀ x, ∀ id ∈ holding sem revision x revision.compiled, ¬ id ∉ revision.compiled.map CompiledRule.id :=
    fun x id hid' => not_not_intro (holding_rules (fun rule hrule => List.mem_map_of_mem hrule) id hid')
  have hfirst : ∀ x ∈ [e, e'], ∀ id ∈ (actingIDs sha256Hex sem revision x).head?,
      id ∉ revision.compiled.map CompiledRule.id :=
    fun x hx id hid' => (hacting x hx id (List.mem_of_mem_head? hid')).2
  obtain ⟨hholding, hacts⟩ := Text.word_append_inj (hmem e) (hmem e') (hfirst e (by simp)) (hfirst e' (by simp)) hlists
  rcases hs with hs | hs | hs
  · exact hs rfl
  · exact hs hholding
  · exact hs hacts

end

namespace CommitSample

def rulesText : RawMessage :=
  "[\x7b\"id\":\"r\",\"priority\":1,\"when\":\x7b\"path\":\"$.amount\",\"op\":\"gt\",\"value\":10" ++
  "0\x7d,\"then\":[\x7b\"emit\":\x7b\"topic\":\"orders.big\",\"data\":\x7b\x7d\x7d\x7d]\x7d]"

def source : RawMessage :=
  "\x7b\"rule_set\":\"order.placed\",\"revision\":1,\"mode\":\"all_matches\",\"rules\":" ++ rulesText ++ "\x7d"

def large : RawRule where
  id := "r"
  name := ""
  priority := 1
  when := .mk none none none "$.amount" "gt" (some (.num "100"))
  then_ := [⟨some ⟨"orders.big", "\x7b\x7d"⟩, none, none⟩]
  otherwise := []

def codec : Codec where
  ruleSet text := if text = source then .ok ⟨"order.placed", 1, "all_matches", rulesText⟩ else .error (.msg "not read")
  rules text := if text = rulesText then .ok [large] else .error (.msg "not read")
  valid _ := true
  payloadSize _ := 2

def contentHash : String := "ca3a6333e3dbebdee13bec7e4c5041f28f58c0dbaa3a617b747cc6b2b99af346"

def effectHash : String := "72c8dda8dc76e5a992963ffc21792f7532ae0311c026f7bf324c82568856daf1"

def sha256Hex : String → String := Text.digest
  [(source, contentHash), ("acme|o-2|order.placed|1|r|0", effectHash),
   (contentHash ++ ("r" ++ effectHash ++ "o-2"), "186b95abe95f33c4b7d815cbc26ca4f6b151da4b3e06c279edb9abcd7dc480ea")]

theorem sha256Hex_injective : Function.Injective sha256Hex :=
  Text.digest_injective (by decide +kernel) (by decide +kernel)

def semantics : Semantics where
  evalPredicate _ data := .ok (data = "\x7b\"amount\":500\x7d")
  resolvePath _ _ := .ok none
  interpolateTemplates data _ _ _ := .ok data
  marshal _ := .error (.msg "not written")

def revision : RuleRevision := ⟨"", "order.placed", 1, contentHash, .allMatches, [large.compiled]⟩

def event (id data : String) : EventEnvelope := ⟨id, "order.placed", "acme", "k", "", 63902822400000000, data, []⟩

/-- A small order whose identity is the end of what is hashed for a large one. -/
def small : EventEnvelope := event ("r" ++ effectHash ++ "o-2") "\x7b\"amount\":5\x7d"

def big : EventEnvelope := event "o-2" "\x7b\"amount\":500\x7d"

/-- Another small order, with an identity as long as that of the large one. -/
def another : EventEnvelope := event "o-3" "\x7b\"amount\":5\x7d"

def decided (matched : List String) (effects : List Effect) (hash : String) (ok : Bool)
    (actions : List String) : Decision :=
  ⟨matched, effects, hash, [⟨"r", "", ok, 1, if ok then "predicate matched" else "predicate did not match", actions⟩]⟩

def bigDecision : Decision :=
  decided ["r"] [⟨effectHash, "orders.big", "orders.big", "\x7b\x7d", .emit, 63902822400000000⟩]
    "186b95abe95f33c4b7d815cbc26ca4f6b151da4b3e06c279edb9abcd7dc480ea" true ["emit:orders.big"]

def smallDecision (id : String) : Decision := decided [] [] (sha256Hex (contentHash ++ id)) false []

set_option maxRecDepth 4000 in
theorem evaluate_big : evaluate sha256Hex semantics 63902822400000000 revision big = .ok bigDecision := rfl

theorem words_code : Text.Code (fun w => w = "r" ∨ w = effectHash) where
  nonempty := by decide
  free := by
    rintro v w s (rfl | rfl) (rfl | rfl) h
    · exact String.append_eq_left_iff.mp h.symm
    · exact absurd (congrArg (fun t => t.toList.head?) h) (by simp [effectHash])
    · exact absurd (congrArg (fun t => t.toList.head?) h) (by simp [effectHash])
    · exact String.append_eq_left_iff.mp h.symm

set_option maxRecDepth 20000 in
theorem compile_source : compile codec defaultLimits sha256Hex source = .ok revision := rfl

theorem acting_words : ∀ x ∈ [big, another], ∀ id ∈ actingIDs sha256Hex semantics revision x,
    (id = "r" ∨ id = effectHash) ∧ id ∉ revision.compiled.map CompiledRule.id := by decide +kernel

theorem not_shifted_big_another : ¬ Shifted sha256Hex semantics revision big another :=
  not_shifted_of_code words_code (by decide) acting_words rfl

theorem not_shifted_another_big : ¬ Shifted sha256Hex semantics revision another big :=
  not_shifted_of_code words_code (by decide)
    (fun x hx => acting_words x ((List.Perm.swap big another []).mem_iff.mp hx)) rfl

end CommitSample

open CommitSample in
/-- A large order and another small one have different hashes. -/
theorem decisionHash_commits_apart :
    evaluate sha256Hex semantics 63902822400000000 revision big = .ok bigDecision ∧
    evaluate sha256Hex semantics 63902822400000000 revision another = .ok (smallDecision "o-3") ∧
    bigDecision.hash ≠ (smallDecision "o-3").hash := by
  refine ⟨evaluate_big, rfl, fun hhash => ?_⟩
  have hcommits := decisionHash_commits_iff sha256Hex_injective evaluate_big
    (show evaluate _ _ 63902822400000000 _ another = .ok (smallDecision "o-3") from rfl)
  have hid := (hcommits.mpr (not_or.mpr ⟨not_shifted_big_another, not_shifted_another_big⟩) hhash).1
  exact absurd hid (by decide)

open CommitSample in
/-- Two accepted events, one of which matches the rule and one of which does not, with one
    hash. -/
theorem decisionHash_shared :
    compile codec defaultLimits sha256Hex source = .ok revision ∧ small.validate = .ok () ∧ big.validate = .ok () ∧
    evaluate sha256Hex semantics 63902822400000000 revision small = .ok (smallDecision small.id) ∧
    evaluate sha256Hex semantics 63902822400000000 revision big = .ok bigDecision ∧
    (smallDecision small.id).hash = bigDecision.hash ∧ small.id ≠ big.id ∧
    (smallDecision small.id).matchedRules ≠ bigDecision.matchedRules ∧
    (smallDecision small.id).effects.map Effect.id ≠ bigDecision.effects.map Effect.id := by
  exact ⟨compile_source, rfl, rfl, rfl, evaluate_big, rfl, by decide, by decide, by decide⟩

end FlowRule.Rules
