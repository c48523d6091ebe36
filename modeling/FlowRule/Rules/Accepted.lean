import FlowRule.Rules.Grammar

/- What the compiler accepts, said without an order: every rule passes its own checks, identities
   and priorities are all different, and the whole is within the budgets (`compile_ok`). So the
   order in which the rules are written is not seen in the result (`compile_reordered`). -/
namespace FlowRule.Rules
open Checks

def RawRule.compiled (rule : RawRule) : CompiledRule :=
  ⟨rule.id, rule.name, rule.priority, rule.when, rule.then_, rule.otherwise⟩

section
variable (codec : Codec) (limits : Limits)

structure RuleOk (rule : RawRule) : Prop where
  idRequired : rule.id ≠ ""
  idLength : (rule.id.utf8ByteSize : Int) ≤ limits.maxRuleIDLen
  actions : validateRuleActions codec limits rule = .ok ()

structure RulesOk (rules : List RawRule) : Prop where
  each : ∀ rule ∈ rules, RuleOk codec limits rule
  ids : (rules.map RawRule.id).Nodup
  priorities : (rules.map RawRule.priority).Nodup

variable {codec limits}

theorem compileRule_ok {rule : RawRule} {ids : List String} {priorities : List Int} {c : CompiledRule} :
    compileRule codec limits rule ids priorities = .ok c ↔
      RuleOk codec limits rule ∧ rule.id ∉ ids ∧ rule.priority ∉ priorities ∧ c = rule.compiled := by
  constructor
  · intro h
    obtain ⟨_, hident, h⟩ := bind_ok.mp h
    obtain ⟨_, hactions, h⟩ := bind_ok.mp h
    simp only [validateRuleIdentity, ite_ok] at hident
    obtain ⟨hid, hlen, hnew, hprio, -⟩ := hident
    cases h
    exact ⟨⟨hid, Int.not_lt.mp hlen, hactions⟩, hnew, hprio, rfl⟩
  · rintro ⟨hok, hnew, hprio, rfl⟩
    have hident : validateRuleIdentity limits rule ids priorities = .ok () := by
      simp only [validateRuleIdentity, ite_ok]
      exact ⟨hok.idRequired, Int.not_lt.mpr hok.idLength, hnew, hprio, trivial⟩
    exact bind_ok.mpr ⟨(), hident, bind_ok.mpr ⟨(), hok.actions, rfl⟩⟩

/-- The loop over the rules: it carries what it has seen, and the rules behind must differ
    from it and from each other. -/
theorem compileEach_ok : ∀ {rules : List RawRule} {ids : List String} {priorities : List Int}
    {cs : List CompiledRule}, compileEach codec limits rules ids priorities = .ok cs ↔
      RulesOk codec limits rules ∧ (∀ rule ∈ rules, rule.id ∉ ids ∧ rule.priority ∉ priorities) ∧
        cs = rules.map RawRule.compiled
  | [], ids, priorities, cs => by
    constructor
    · intro h
      cases h
      exact ⟨⟨by simp, by simp, by simp⟩, by simp, rfl⟩
    · rintro ⟨-, -, rfl⟩
      rfl
  | rule :: rest, ids, priorities, cs => by
    constructor
    · intro h
      obtain ⟨c, hc, h⟩ := bind_ok.mp h
      obtain ⟨cs', hcs, h⟩ := bind_ok.mp h
      cases h
      obtain ⟨hok, hid, hprio, rfl⟩ := compileRule_ok.mp hc
      obtain ⟨hrest, hnew, rfl⟩ := compileEach_ok.mp hcs
      refine ⟨⟨?_, ?_, ?_⟩, ?_, rfl⟩
      · exact List.forall_mem_cons.mpr ⟨hok, hrest.each⟩
      · rw [List.map_cons, List.nodup_cons, List.mem_map]
        exact ⟨fun ⟨r, hr, he⟩ => (hnew r hr).1 (he ▸ List.mem_cons_self), hrest.ids⟩
      · rw [List.map_cons, List.nodup_cons, List.mem_map]
        exact ⟨fun ⟨r, hr, he⟩ => (hnew r hr).2 (he ▸ List.mem_cons_self), hrest.priorities⟩
      · refine List.forall_mem_cons.mpr ⟨⟨hid, hprio⟩, fun r hr => ?_⟩
        exact ⟨fun h => (hnew r hr).1 (List.mem_cons_of_mem _ h), fun h => (hnew r hr).2 (List.mem_cons_of_mem _ h)⟩
    · rintro ⟨hok, hnew, rfl⟩
      obtain ⟨hrule, heach⟩ := List.forall_mem_cons.mp hok.each
      obtain ⟨⟨hid, hprio⟩, hseen⟩ := List.forall_mem_cons.mp hnew
      obtain ⟨hidNew, hids⟩ := List.nodup_cons.mp hok.ids
      obtain ⟨hprioNew, hprios⟩ := List.nodup_cons.mp hok.priorities
      refine bind_ok.mpr ⟨rule.compiled, compileRule_ok.mpr ⟨hrule, hid, hprio, rfl⟩, ?_⟩
      refine bind_ok.mpr ⟨rest.map RawRule.compiled, compileEach_ok.mpr ⟨⟨heach, hids, hprios⟩, ?_, rfl⟩, rfl⟩
      intro r hr
      rw [List.mem_cons, List.mem_cons, not_or, not_or]
      exact ⟨⟨fun h => hidNew (h ▸ List.mem_map_of_mem hr), (hseen r hr).1⟩,
        fun h => hprioNew (h ▸ List.mem_map_of_mem hr), (hseen r hr).2⟩

variable {rules : List RawRule} {cs : List CompiledRule} {sha256Hex : String → String} {source : RawMessage}
variable {revision : RuleRevision} {rs : RawRuleSet}

theorem compileRules_ok :
    compileRules codec limits rules = .ok cs ↔
      RulesOk codec limits rules ∧ cs = byPriority (rules.map RawRule.compiled) := by
  rw [compileRules, map_ok]
  constructor
  · rintro ⟨cs', h, rfl⟩
    obtain ⟨hok, -, rfl⟩ := compileEach_ok.mp h
    exact ⟨hok, rfl⟩
  · rintro ⟨hok, rfl⟩
    exact ⟨_, compileEach_ok.mpr ⟨hok, by simp, rfl⟩, rfl⟩

/-! The order of the rules. -/

theorem byPriority_perm (cs : List CompiledRule) : (byPriority cs).Perm cs := List.perm_insertionSort _ cs

theorem byPriority_falling (h : (cs.map CompiledRule.priority).Nodup) :
    (byPriority cs).Pairwise (fun a b => b.priority < a.priority) := by
  have hnd : ((byPriority cs).map CompiledRule.priority).Nodup := ((byPriority_perm cs).map _).nodup_iff.mpr h
  have hle : (byPriority cs).Pairwise (fun a b => b.priority ≤ a.priority) := by
    have : IsTrans CompiledRule (fun a b => b.priority ≤ a.priority) := ⟨fun _ _ _ h₁ h₂ => le_trans h₂ h₁⟩
    have : Std.Total (fun a b : CompiledRule => b.priority ≤ a.priority) := ⟨fun a b => le_total _ _⟩
    exact List.pairwise_insertionSort _ cs
  have hne : (byPriority cs).Pairwise (fun a b => a.priority ≠ b.priority) := List.pairwise_map.mp hnd
  exact hle.imp₂ (fun a b hab hn => lt_of_le_of_ne hab (Ne.symm hn)) hne

theorem byPriority_congr {cs' : List CompiledRule} (hperm : cs.Perm cs')
    (h : (cs.map CompiledRule.priority).Nodup) : byPriority cs = byPriority cs' := by
  have h' : (cs'.map CompiledRule.priority).Nodup := (hperm.map _).nodup_iff.mp h
  have hsorted : (byPriority cs).Perm (byPriority cs') :=
    (byPriority_perm cs).trans (hperm.trans (byPriority_perm cs').symm)
  refine hsorted.eq_of_pairwise ?_ (byPriority_falling h) (byPriority_falling h')
  intro a b _ _ hab hba
  omega

theorem RulesOk.perm {rules' : List RawRule} (h : RulesOk codec limits rules) (hperm : rules.Perm rules') :
    RulesOk codec limits rules' where
  each := fun rule hr => h.each rule (hperm.mem_iff.mpr hr)
  ids := (hperm.map _).nodup_iff.mp h.ids
  priorities := (hperm.map _).nodup_iff.mp h.priorities

theorem RulesOk.compiled_priorities (h : RulesOk codec limits rules) :
    ((rules.map RawRule.compiled).map CompiledRule.priority).Nodup := by
  rw [List.map_map]
  exact h.priorities

theorem RulesOk.compiled_ids (h : RulesOk codec limits rules) :
    ((byPriority (rules.map RawRule.compiled)).map CompiledRule.id).Nodup := by
  rw [((byPriority_perm _).map _).nodup_iff, List.map_map]
  exact h.ids

theorem validateRuleSetBudgets_perm {rules' : List RawRule} (hperm : rules.Perm rules') :
    validateRuleSetBudgets limits rules = validateRuleSetBudgets limits rules' := by
  unfold validateRuleSetBudgets
  have hnil : rules = [] ↔ rules' = [] := by
    rw [← List.length_eq_zero_iff, ← List.length_eq_zero_iff, hperm.length_eq]
  simp only [(hperm.map _).sum_eq, hperm.length_eq, hnil]

/-! Rule sets. -/

variable (codec limits)

/-- A source, the rule set and the rules it decodes to, and the revision made of it. -/
structure Compiles (sha256Hex : String → String) (source : RawMessage) (rs : RawRuleSet) (rules : List RawRule)
    (revision : RuleRevision) : Prop where
  sourceRequired : source ≠ ""
  ruleSet : codec.ruleSet source = .ok rs
  metadata : validateRuleSetMetadata rs = .ok ()
  decoded : codec.rules rs.rules = .ok rules
  budgets : validateRuleSetBudgets limits rules = .ok ()
  rulesOk : RulesOk codec limits rules
  otherwise : validateOtherwise rs.mode (byPriority (rules.map RawRule.compiled)) = .ok ()
  result : revision = ⟨"", rs.ruleSet, rs.revision, computeSourceHash sha256Hex source,
    if rs.mode = "first_match" then .firstMatch else .allMatches, byPriority (rules.map RawRule.compiled)⟩

variable {codec limits}

theorem compile_ok :
    compile codec limits sha256Hex source = .ok revision ↔
      ∃ rs rules, Compiles codec limits sha256Hex source rs rules revision := by
  constructor
  · intro h
    obtain ⟨rs, hparse, h⟩ := bind_ok.mp h
    obtain ⟨rules, hset, h⟩ := bind_ok.mp h
    obtain ⟨compiled, hrules, h⟩ := bind_ok.mp h
    obtain ⟨_, hother, h⟩ := bind_ok.mp h
    cases h
    obtain ⟨hne, hparse⟩ := ite_ok.mp hparse
    obtain ⟨_, hmeta, hset⟩ := bind_ok.mp hset
    obtain ⟨rules', hdecoded, hset⟩ := bind_ok.mp hset
    obtain ⟨_, hbudgets, hset⟩ := bind_ok.mp hset
    cases hset
    obtain ⟨hok, rfl⟩ := compileRules_ok.mp hrules
    exact ⟨rs, rules, hne, mapError_ok.mp hparse, hmeta, mapError_ok.mp hdecoded, hbudgets, hok, hother, rfl⟩
  · rintro ⟨rs, rules, h⟩
    obtain rfl := h.result
    have hparse : parseRuleSet codec source = .ok rs :=
      ite_ok.mpr ⟨h.sourceRequired, mapError_ok.mpr h.ruleSet⟩
    have hset : validateRuleSet codec limits rs = .ok rules :=
      bind_ok.mpr ⟨(), h.metadata, bind_ok.mpr ⟨rules, mapError_ok.mpr h.decoded,
        bind_ok.mpr ⟨(), h.budgets, rfl⟩⟩⟩
    refine bind_ok.mpr ⟨rs, hparse, bind_ok.mpr ⟨rules, hset, ?_⟩⟩
    exact bind_ok.mpr ⟨_, compileRules_ok.mpr ⟨h.rulesOk, rfl⟩, bind_ok.mpr ⟨(), h.otherwise, rfl⟩⟩

section
variable (h : Compiles codec limits sha256Hex source rs rules revision)
include h

/-- An accepted rule set keeps to the grammar and the depth in every predicate. -/
theorem Compiles.inGrammar {rule : RawRule} (hr : rule ∈ rules) : InGrammar rule.when := by
  obtain ⟨_, hpred, -⟩ := bind_ok.mp (h.rulesOk.each rule hr).actions
  exact (validatePredicate_iff.mp hpred).1

theorem Compiles.perm : revision.compiled.Perm (rules.map RawRule.compiled) := by
  obtain rfl := h.result
  exact byPriority_perm _

theorem Compiles.mem_compiled {rule : CompiledRule}
    (hr : rule ∈ revision.compiled) : ∃ raw ∈ rules, raw.compiled = rule :=
  List.mem_map.mp (h.perm.mem_iff.mp hr)

end

theorem validateActions_ok : ∀ {actions : List Action}, validateActions codec limits actions = .ok () →
    ∀ action ∈ actions, validateAction codec limits action = .ok ()
  | [], _ => by simp
  | action :: rest, h => by
    obtain ⟨_, haction, hrest⟩ := bind_ok.mp h
    exact List.forall_mem_cons.mpr ⟨haction, validateActions_ok hrest⟩

/-- What compiled rules may do: the predicate is in the grammar, and every action was
    checked. -/
theorem compiled_accepted (h : compile codec limits sha256Hex source = .ok revision) {rule : CompiledRule}
    (hr : rule ∈ revision.compiled) :
    InGrammar rule.when ∧ ∀ action ∈ rule.then_ ++ rule.otherwise, validateAction codec limits action = .ok () := by
  obtain ⟨rs, rules, h⟩ := compile_ok.mp h
  obtain ⟨raw, hraw, rfl⟩ := h.mem_compiled hr
  refine ⟨h.inGrammar hraw, ?_⟩
  obtain ⟨_, -, hactions⟩ := bind_ok.mp (h.rulesOk.each raw hraw).actions
  obtain ⟨-, hactions⟩ := ite_ok.mp hactions
  obtain ⟨-, hactions⟩ := ite_ok.mp hactions
  obtain ⟨_, hthen, hactions⟩ := bind_ok.mp hactions
  obtain ⟨-, hother⟩ := ite_ok.mp hactions
  intro action ha
  rcases List.mem_append.mp ha with ha | ha
  · exact validateActions_ok hthen action ha
  · exact validateActions_ok hother action ha

def totalLeaves (revision : RuleRevision) : Nat := (revision.compiled.map (fun r => leafCount r.when)).sum

def totalActions (revision : RuleRevision) : Nat :=
  (revision.compiled.map (fun r => r.then_.length + r.otherwise.length)).sum

variable (limits)

/-- The check of a predicate accepts the grammar up to the depth, and no accepted rule set
    has more leaves or actions than the budgets. -/
theorem predicate_grammar :
    (∀ p, validatePredicate limits p 0 = .ok () ↔ InGrammar p ∧ (depth p : Int) ≤ limits.maxNestingDepth) ∧
    ∀ (codec : Codec) (sha256Hex : String → String) (source : RawMessage) (revision : RuleRevision),
      compile codec limits sha256Hex source = .ok revision →
      (totalLeaves revision : Int) ≤ limits.maxPredicates ∧
        (totalActions revision : Int) ≤ limits.maxActionsPerSet := by
  constructor
  · intro p
    rw [validatePredicate_iff, zero_add]
  · intro codec sha256Hex source revision h
    obtain ⟨rs, rules, h⟩ := compile_ok.mp h
    have hleaves : totalLeaves revision = (rules.map (fun r => countPredicates r.when)).sum := by
      rw [totalLeaves, (h.perm.map _).sum_eq, List.map_map]
      exact congrArg List.sum (List.map_congr_left (fun r hr => (countPredicates_eq (h.inGrammar hr)).symm))
    have hactions : totalActions revision = (rules.map (fun r => r.then_.length + r.otherwise.length)).sum := by
      rw [totalActions, (h.perm.map _).sum_eq, List.map_map]
      rfl
    obtain ⟨-, hbudgets⟩ := ite_ok.mp h.budgets
    obtain ⟨htotal, -⟩ := ite_ok.mp hbudgets
    rw [not_or, Int.not_lt, Int.not_lt] at htotal
    rw [hleaves, hactions]
    exact htotal

end

/-! Rules in another order. -/

structure ArrayCodec extends Codec where
  /-- The elements of a text that is an array. -/
  elements : RawMessage → Option (List RawMessage)
  rule : RawMessage → Except Err RawRule
  each : ∀ text items, elements text = some items → rules text = items.mapM rule

/-- Two sources of which one has the rules of the other in any order, and the same fields
    otherwise. -/
structure Reordered (codec : ArrayCodec) (source source' : RawMessage) : Prop where
  sourceRequired : source ≠ "" ∧ source' ≠ ""
  fields : (codec.ruleSet source).map (fun rs => { rs with rules := "" }) =
    (codec.ruleSet source').map (fun rs => { rs with rules := "" })
  rules : ∀ rs rs', codec.ruleSet source = .ok rs → codec.ruleSet source' = .ok rs' →
    ∃ items items', codec.elements rs.rules = some items ∧ codec.elements rs'.rules = some items' ∧
      items.Perm items'

section
variable {codec : ArrayCodec} {limits : Limits} {sha256Hex : String → String} {source source' : RawMessage}

theorem Reordered.symm (h : Reordered codec source source') : Reordered codec source' source where
  sourceRequired := h.sourceRequired.symm
  fields := h.fields.symm
  rules := by
    intro rs rs' hrs hrs'
    obtain ⟨items, items', hi, hi', hperm⟩ := h.rules rs' rs hrs' hrs
    exact ⟨items', items, hi', hi, hperm.symm⟩

theorem Compiles.reordered {rs : RawRuleSet} {rules : List RawRule} {revision : RuleRevision}
    (h : Compiles codec.toCodec limits sha256Hex source rs rules revision) (hre : Reordered codec source source') :
    ∃ rs' rules', Compiles codec.toCodec limits sha256Hex source' rs' rules'
      { revision with contentHash := computeSourceHash sha256Hex source' } := by
  obtain ⟨rs', hrs', hfields⟩ : ∃ rs', codec.ruleSet source' = .ok rs' ∧
      { rs' with rules := "" } = { rs with rules := "" } := by
    have heq := hre.fields.symm
    rw [h.ruleSet] at heq
    exact map_ok.mp heq
  simp only [RawRuleSet.mk.injEq, and_true] at hfields
  obtain ⟨hname, hrevision, hmode⟩ := hfields
  obtain ⟨items, items', hitems, hitems', hperm⟩ := hre.rules rs rs' h.ruleSet hrs'
  obtain ⟨rules', hrules', hrulesPerm⟩ := mapM_perm hperm ((codec.each _ _ hitems).symm.trans h.decoded)
  have hcompiled : byPriority (rules.map RawRule.compiled) = byPriority (rules'.map RawRule.compiled) :=
    byPriority_congr (hrulesPerm.map _) h.rulesOk.compiled_priorities
  refine ⟨rs', rules', hre.sourceRequired.2, hrs', ?_, (codec.each _ _ hitems').trans hrules', ?_,
    h.rulesOk.perm hrulesPerm, ?_, ?_⟩
  · have hmeta := h.metadata
    unfold validateRuleSetMetadata at hmeta ⊢
    rwa [hname, hrevision, hmode]
  · rw [← validateRuleSetBudgets_perm hrulesPerm]
    exact h.budgets
  · rw [hmode, ← hcompiled]
    exact h.otherwise
  · rw [h.result, hname, hrevision, hmode, hcompiled]

variable (limits sha256Hex)

/-- The order in which rules are written does not matter. -/
theorem compile_reordered (hre : Reordered codec source source') :
    ((∃ revision, compile codec.toCodec limits sha256Hex source = .ok revision) ↔
      ∃ revision, compile codec.toCodec limits sha256Hex source' = .ok revision) ∧
    ∀ revision revision', compile codec.toCodec limits sha256Hex source = .ok revision →
      compile codec.toCodec limits sha256Hex source' = .ok revision' →
      revision.ruleID = revision'.ruleID ∧ revision.revision = revision'.revision ∧
      revision.matchMode = revision'.matchMode ∧ revision.compiled = revision'.compiled ∧
      (∃ rs rules, codec.ruleSet source = .ok rs ∧ codec.rules rs.rules = .ok rules ∧
        revision.compiled.Perm (rules.map RawRule.compiled)) ∧
      revision.compiled.Pairwise (fun a b => b.priority < a.priority) ∧
      (revision.compiled.map CompiledRule.id).Nodup := by
  have hthere : ∀ {source source' : RawMessage} {revision : RuleRevision}, Reordered codec source source' →
      compile codec.toCodec limits sha256Hex source = .ok revision →
      compile codec.toCodec limits sha256Hex source' =
        .ok { revision with contentHash := computeSourceHash sha256Hex source' } := by
    intro source source' revision hre h
    obtain ⟨rs, rules, h⟩ := compile_ok.mp h
    exact compile_ok.mpr (h.reordered hre)
  refine ⟨⟨?_, ?_⟩, ?_⟩
  · rintro ⟨revision, h⟩
    exact ⟨_, hthere hre h⟩
  · rintro ⟨revision, h⟩
    exact ⟨_, hthere hre.symm h⟩
  · intro revision revision' h h'
    cases (hthere hre h).symm.trans h'
    obtain ⟨rs, rules, hc⟩ := compile_ok.mp h
    refine ⟨rfl, rfl, rfl, rfl, ⟨rs, rules, hc.ruleSet, hc.decoded, hc.perm⟩, ?_, ?_⟩
    · obtain rfl := hc.result
      exact byPriority_falling hc.rulesOk.compiled_priorities
    · obtain rfl := hc.result
      exact hc.rulesOk.compiled_ids

end

/-! Two rules for an order, written in either order. -/

namespace Orders

def smallText : RawMessage :=
  "\x7b\"id\":\"small\",\"priority\":1,\"when\":\x7b\"path\":\"$.total\",\"op\":\"lt\",\"value\":100\x7d," ++
  "\"then\":[\x7b\"emit\":\x7b\"topic\":\"orders.small\",\"data\":1\x7d\x7d]\x7d"

def largeText : RawMessage :=
  "\x7b\"id\":\"large\",\"priority\":2,\"when\":\x7b\"not\":" ++
  "\x7b\"path\":\"$.total\",\"op\":\"lt\",\"value\":100\x7d\x7d," ++
  "\"then\":[\x7b\"emit\":\x7b\"topic\":\"orders.large\",\"data\":1\x7d\x7d]\x7d"

def rulesText (first second : RawMessage) : RawMessage := "[" ++ first ++ "," ++ second ++ "]"

def source (first second : RawMessage) : RawMessage :=
  "\x7b\"rule_set\":\"order.placed\",\"revision\":1,\"mode\":\"first_match\",\"rules\":" ++
    rulesText first second ++ "\x7d"

def rawSet (first second : RawMessage) : RawRuleSet := ⟨"order.placed", 1, "first_match", rulesText first second⟩

def below : Predicate := .mk none none none "$.total" "lt" (some (.num "100"))

def small : RawRule := ⟨"small", "", 1, below, [⟨some ⟨"orders.small", "1"⟩, none, none⟩], []⟩

def large : RawRule :=
  ⟨"large", "", 2, .mk none none (some below) "" "" none, [⟨some ⟨"orders.large", "1"⟩, none, none⟩], []⟩

def elements (text : RawMessage) : Option (List RawMessage) :=
  if text = rulesText smallText largeText then some [smallText, largeText]
  else if text = rulesText largeText smallText then some [largeText, smallText]
  else none

def rule (text : RawMessage) : Except Err RawRule :=
  if text = smallText then .ok small else if text = largeText then .ok large else .error (.msg "not read")

def codec : ArrayCodec where
  ruleSet text :=
    if text = source smallText largeText then .ok (rawSet smallText largeText)
    else if text = source largeText smallText then .ok (rawSet largeText smallText)
    else .error (.msg "not read")
  rules text :=
    match elements text with
    | some items => items.mapM rule
    | none => .error (.msg "not read")
  valid _ := true
  payloadSize data := data.utf8ByteSize
  elements := elements
  rule := rule
  each := by
    intro text items h
    simp only [h]

theorem ruleSet_small : codec.ruleSet (source smallText largeText) = .ok (rawSet smallText largeText) := by
  simp only [codec, ↓reduceIte]

theorem texts_differ : smallText ≠ largeText ∧ source largeText smallText ≠ source smallText largeText ∧
    rulesText largeText smallText ≠ rulesText smallText largeText := by
  decide +kernel

theorem ruleSet_large : codec.ruleSet (source largeText smallText) = .ok (rawSet largeText smallText) := by
  simp only [codec, texts_differ.2.1, ↓reduceIte]

theorem elements_small : codec.elements (rawSet smallText largeText).rules = some [smallText, largeText] := by
  simp only [codec, elements, rawSet, ↓reduceIte]

theorem elements_large : codec.elements (rawSet largeText smallText).rules = some [largeText, smallText] := by
  simp only [codec, elements, rawSet, texts_differ.2.2, ↓reduceIte]

theorem reordered : Reordered codec (source smallText largeText) (source largeText smallText) where
  sourceRequired := by decide +kernel
  fields := by
    rw [ruleSet_small, ruleSet_large]
    rfl
  rules := by
    intro rs rs' h h'
    rw [ruleSet_small] at h
    rw [ruleSet_large] at h'
    cases h
    cases h'
    exact ⟨[smallText, largeText], [largeText, smallText], elements_small, elements_large, List.Perm.swap _ _ _⟩

theorem decoded : codec.rules (rawSet smallText largeText).rules = .ok [small, large] := by
  have hsmall : codec.rule smallText = .ok small := by
    simp only [codec, rule, ↓reduceIte]
  have hlarge : codec.rule largeText = .ok large := by
    simp only [codec, rule, Ne.symm texts_differ.1, ↓reduceIte]
  rw [codec.each _ [smallText, largeText] elements_small, List.mapM_cons, List.mapM_cons, hsmall, hlarge]
  rfl

def revision : RuleRevision :=
  ⟨"", "order.placed", 1, computeSourceHash (Text.digest []) (source smallText largeText), .firstMatch,
    [large.compiled, small.compiled]⟩

theorem budgets : validateRuleSetBudgets defaultLimits [small, large] = .ok () := rfl

theorem rulesOk : RulesOk codec.toCodec defaultLimits [small, large] where
  each := by
    have hsmall : RuleOk codec.toCodec defaultLimits small := ⟨by decide, by decide, rfl⟩
    have hlarge : RuleOk codec.toCodec defaultLimits large := ⟨by decide, by decide, rfl⟩
    simpa using ⟨hsmall, hlarge⟩
  ids := by decide
  priorities := by decide

theorem compiles : Compiles codec.toCodec defaultLimits (Text.digest []) (source smallText largeText)
    (rawSet smallText largeText) [small, large] revision where
  sourceRequired := by decide +kernel
  ruleSet := ruleSet_small
  metadata := rfl
  decoded := decoded
  budgets := budgets
  rulesOk := rulesOk
  otherwise := rfl
  result := rfl

end Orders

/-- The two rules compile to one list, whichever is written first. -/
theorem compile_reordered_orders :
    compile Orders.codec.toCodec defaultLimits (Text.digest []) (Orders.source Orders.smallText Orders.largeText) =
      .ok Orders.revision ∧
    ∃ revision, compile Orders.codec.toCodec defaultLimits (Text.digest [])
        (Orders.source Orders.largeText Orders.smallText) = .ok revision ∧
      Orders.revision.compiled = revision.compiled := by
  have h := compile_reordered defaultLimits (Text.digest []) Orders.reordered
  have hr := compile_ok.mpr ⟨_, _, Orders.compiles⟩
  obtain ⟨revision, hr'⟩ := h.1.mp ⟨_, hr⟩
  exact ⟨hr, revision, hr', (h.2 _ revision hr hr').2.2.2.1⟩

/-- The two predicates have two leaves, and the rules two actions. -/
theorem predicate_grammar_orders :
    totalLeaves Orders.revision = 2 ∧ (totalLeaves Orders.revision : Int) ≤ 200 ∧
      (totalActions Orders.revision : Int) ≤ 10 :=
  ⟨rfl, (predicate_grammar defaultLimits).2 _ _ _ _ (compile_ok.mpr ⟨_, _, Orders.compiles⟩)⟩

end FlowRule.Rules
