import FlowRule.Rules.Accepted
import FlowRule.Rules.Evaluator

/- What the match modes mean, stated by priorities alone. First_match acts through the rule of
   highest priority whose predicate holds, and where none holds through the otherwise actions of
   the rule of lowest priority; all_matches acts through every rule. The first needs the compiler:
   only the last rule is allowed to have otherwise actions (`compile_wellOrdered`). -/
namespace FlowRule.Rules

/-! What the compiler guarantees. -/

/-- There are rules, they stand by falling priority and have different identities, and under
    first_match only the last one has otherwise actions. -/
structure WellOrdered (revision : RuleRevision) : Prop where
  nonempty : revision.compiled ≠ []
  falling : revision.compiled.Pairwise (fun a b => b.priority < a.priority)
  ids : (revision.compiled.map CompiledRule.id).Nodup
  otherwise : revision.matchMode = .firstMatch → ∀ r ∈ revision.compiled.dropLast, r.otherwise = []

section
variable {codec : Codec} {limits : Limits}

theorem compile_wellOrdered {sha256Hex : String → String} {source : RawMessage} {revision : RuleRevision}
    (h : compile codec limits sha256Hex source = .ok revision) : WellOrdered revision := by
  obtain ⟨rs, rules, h⟩ := compile_ok.mp h
  obtain rfl := h.result
  refine ⟨?_, byPriority_falling h.rulesOk.compiled_priorities, h.rulesOk.compiled_ids, ?_⟩
  · -- an empty rule set is over the budget
    intro (hempty : byPriority (rules.map RawRule.compiled) = [])
    obtain ⟨hcount, -⟩ := Checks.ite_ok.mp h.budgets
    refine hcount (Or.inl ?_)
    have hperm := byPriority_perm (rules.map RawRule.compiled)
    rw [hempty] at hperm
    simpa using hperm.symm
  intro hmode r hr
  have hfirst : rs.mode = "first_match" := by
    by_contra hne
    simp [hne] at hmode
  have hother := h.otherwise
  simp only [validateOtherwise, Checks.ite_ok, hfirst, true_and] at hother
  have hnone := hother.1
  simp only [Bool.not_eq_true, List.any_eq_false] at hnone
  simpa using hnone r hr

end

/-! What the modes select. -/

section
variable (sem : Semantics) (revision : RuleRevision) (event : EventEnvelope)

def holds (rule : CompiledRule) : Bool :=
  match sem.evalPredicate rule.when event.data with
  | .ok b => b
  | .error _ => false

def Highest (rule : CompiledRule) : Prop :=
  rule ∈ revision.compiled ∧ holds sem event rule = true ∧
    ∀ r ∈ revision.compiled, holds sem event r = true → r.priority ≤ rule.priority

def Lowest (rule : CompiledRule) : Prop :=
  rule ∈ revision.compiled ∧ ∀ r ∈ revision.compiled, rule.priority ≤ r.priority

def Selected (rule : CompiledRule) (actions : List Action) : Prop :=
  match revision.matchMode with
  | .firstMatch =>
    (Highest sem revision event rule ∧ actions = rule.then_) ∨
      ((∀ r ∈ revision.compiled, holds sem event r = false) ∧ Lowest revision rule ∧ actions = rule.otherwise)
  | .allMatches =>
    rule ∈ revision.compiled ∧ actions = if holds sem event rule then rule.then_ else rule.otherwise

end

theorem find_highest {sem : Semantics} {revision : RuleRevision} {event : EventEnvelope} {rule : CompiledRule}
    (h : WellOrdered revision) :
    revision.compiled.find? (holds sem event) = some rule ↔ Highest sem revision event rule := by
  constructor
  · intro hf
    obtain ⟨hp, before, after, hl, hno⟩ := List.find?_eq_some_iff_append.mp hf
    refine ⟨hl ▸ by simp, hp, ?_⟩
    intro r hr hrt
    have hord := h.falling
    rw [hl] at hr hord
    rcases List.mem_append.mp hr with hb | ha
    · have hfalse := hno r hb
      simp [hrt] at hfalse
    · rcases List.mem_cons.mp ha with rfl | ha
      · exact le_refl _
      · have hlt := (List.pairwise_cons.mp (List.pairwise_append.mp hord).2.1).1 r ha
        omega
  · rintro ⟨hmem, hp, hmax⟩
    cases hf : revision.compiled.find? (holds sem event) with
    | none => exact absurd hp (by simpa using List.find?_eq_none.mp hf rule hmem)
    | some r =>
      obtain ⟨hrt, before, after, hl, hno⟩ := List.find?_eq_some_iff_append.mp hf
      have hord := h.falling
      have hmax' := hmax r (hl ▸ by simp) hrt
      rw [hl] at hmem hord
      rcases List.mem_append.mp hmem with hb | ha
      · have hfalse := hno rule hb
        simp [hp] at hfalse
      · rcases List.mem_cons.mp ha with rfl | ha
        · rfl
        · have hlt := (List.pairwise_cons.mp (List.pairwise_append.mp hord).2.1).1 rule ha
          omega

theorem getLast_lowest {revision : RuleRevision} {rule : CompiledRule} (h : WellOrdered revision) :
    revision.compiled.getLast? = some rule ↔ Lowest revision rule := by
  constructor
  · intro hl
    obtain ⟨before, hb⟩ := List.getLast?_eq_some_iff.mp hl
    refine ⟨hb ▸ by simp, ?_⟩
    intro r hr
    have hord := h.falling
    rw [hb] at hr hord
    rcases List.mem_append.mp hr with hr | hr
    · exact le_of_lt ((List.pairwise_append.mp hord).2.2 r hr rule (by simp))
    · rw [List.mem_singleton.mp hr]
  · rintro ⟨hmem, hmin⟩
    cases hl : revision.compiled.getLast? with
    | none =>
      rw [List.getLast?_eq_none_iff.mp hl] at hmem
      cases hmem
    | some r =>
      obtain ⟨before, hb⟩ := List.getLast?_eq_some_iff.mp hl
      have hord := h.falling
      have hmin' := hmin r (hb ▸ by simp)
      rw [hb] at hmem hord
      rcases List.mem_append.mp hmem with hm | hm
      · have hlt := (List.pairwise_append.mp hord).2.2 rule hm r (by simp)
        omega
      · rw [List.mem_singleton.mp hm]

/-! What the loop builds. -/

section
variable (sha256Hex : String → String) (sem : Semantics) (now : Time) (revision : RuleRevision)
  (event : EventEnvelope)

def builtEffects (ruleID : String) (actions : List Action) (n : Nat) : List Effect :=
  (actions.zipIdx n).filterMap (fun p => (buildEffect sha256Hex sem now revision event ruleID p.2 p.1).toOption)

def Builds (ruleID : String) (actions : List Action) (n : Nat) : Prop :=
  ∀ i a, actions[i]? = some a → ∃ ef, buildEffect sha256Hex sem now revision event ruleID (n + i) a = .ok ef

def actionsOf (rule : CompiledRule) : List Action :=
  if holds sem event rule then rule.then_ else rule.otherwise

/-- The rules that are looked at: all of them, or those up to the first one that holds. -/
def reached : List CompiledRule → List CompiledRule
  | [] => []
  | rule :: rest =>
    if revision.matchMode = .firstMatch ∧ holds sem event rule = true then [rule] else rule :: reached rest

def holding (rules : List CompiledRule) : List String :=
  ((reached sem revision event rules).filter (holds sem event)).map CompiledRule.id

end

section
variable {sha256Hex : String → String} {sem : Semantics} {now : Time} {revision : RuleRevision}
  {event : EventEnvelope}

theorem Builds.tail {ruleID : String} {action : Action} {rest : List Action} {n : Nat}
    (h : Builds sha256Hex sem now revision event ruleID (action :: rest) n) :
    Builds sha256Hex sem now revision event ruleID rest (n + 1) := by
  intro i a ha
  obtain ⟨ef, hef⟩ := h (i + 1) a (by simpa using ha)
  exact ⟨ef, by rw [show n + 1 + i = n + (i + 1) by omega]; exact hef⟩

theorem builtEffects_cons {ruleID : String} {action : Action} {rest : List Action} {n : Nat} {ef : Effect}
    (h : buildEffect sha256Hex sem now revision event ruleID n action = .ok ef) :
    builtEffects sha256Hex sem now revision event ruleID (action :: rest) n =
      ef :: builtEffects sha256Hex sem now revision event ruleID rest (n + 1) := by
  simp [builtEffects, List.zipIdx_cons, h, Except.toOption]

theorem buildEffects_ok {ruleID context : String} {actions : List Action} : ∀ {n : Nat},
    Builds sha256Hex sem now revision event ruleID actions n →
    buildEffects sha256Hex sem now revision event ruleID context n actions =
      .ok (builtEffects sha256Hex sem now revision event ruleID actions n) := by
  induction actions with
  | nil => exact fun _ => rfl
  | cons action rest ih =>
    intro n hb
    obtain ⟨ef, hef⟩ := hb 0 action rfl
    rw [Nat.add_zero] at hef
    rw [builtEffects_cons hef, buildEffects, hef, ih hb.tail]
    rfl

theorem builds_of_plain {ruleID : String} {actions : List Action} {n : Nat}
    (h : ∀ a ∈ actions, a.emitEvent.isNone = true) : Builds sha256Hex sem now revision event ruleID actions n := by
  intro i a ha
  have hnone := Option.isNone_iff_eq_none.mp (h a (List.mem_of_getElem? ha))
  unfold buildEffect
  rw [hnone]
  split <;> simp_all

theorem processRuleResult_ok {rule : CompiledRule} (acc : Collected)
    (hb : Builds sha256Hex sem now revision event rule.id (actionsOf sem event rule) 0) :
    ∃ ex, processRuleResult sha256Hex sem now revision event rule (holds sem event rule) acc =
      .ok ⟨if holds sem event rule then acc.matched ++ [rule.id] else acc.matched,
        acc.effects ++ builtEffects sha256Hex sem now revision event rule.id (actionsOf sem event rule) 0, ex⟩ := by
  unfold actionsOf at hb ⊢
  simp only [processRuleResult]
  rw [buildEffects_ok hb]
  exact ⟨_, rfl⟩

/-- Every rule that is looked at acts, in order. -/
theorem evaluateRules_ok {rules : List CompiledRule} : ∀ (acc : Collected),
    (∀ r ∈ rules, ∃ b, sem.evalPredicate r.when event.data = .ok b) →
    (∀ r ∈ reached sem revision event rules, Builds sha256Hex sem now revision event r.id (actionsOf sem event r) 0) →
    ∃ ex, evaluateRules sha256Hex sem now revision event rules acc =
      .ok ⟨acc.matched ++ holding sem revision event rules,
        acc.effects ++ (reached sem revision event rules).flatMap (fun r =>
          builtEffects sha256Hex sem now revision event r.id (actionsOf sem event r) 0), ex⟩ := by
  induction rules with
  | nil =>
    intro acc _ _
    exact ⟨acc.explanations, by simp [evaluateRules, holding, reached]⟩
  | cons rule rest ih =>
    intro acc hpred hbuild
    obtain ⟨b, hb⟩ := hpred rule (by simp)
    have hholds : holds sem event rule = b := by simp [holds, hb]
    obtain ⟨ex, hturn⟩ := processRuleResult_ok acc (hbuild rule (by unfold reached; split <;> simp))
    simp only [evaluateRules, hb, holding]
    rw [← hholds, hturn]
    by_cases hend : revision.matchMode = .firstMatch ∧ holds sem event rule = true
    · -- the first match ends the loop
      exact ⟨ex, by simp [reached, hend]⟩
    · simp only [reached, if_neg hend] at hbuild ⊢
      obtain ⟨ex', hrest⟩ := ih _ (fun r hr => hpred r (by simp [hr])) (fun r hr => hbuild r (by simp [hr]))
      refine ⟨ex', hrest.trans ?_⟩
      cases hh : holds sem event rule <;> simp [hh, holding]

theorem reached_all (hmode : revision.matchMode = .allMatches) (rules : List CompiledRule) :
    reached sem revision event rules = rules := by
  induction rules with
  | nil => rfl
  | cons rule rest ih => simp [reached, hmode, ih]

/-- What acts under first_match: the first rule that holds, or else the last one. -/
def ActsFirst (sem : Semantics) (event : EventEnvelope) (rules : List CompiledRule) (rule : CompiledRule)
    (actions : List Action) : Prop :=
  (rules.find? (holds sem event) = some rule ∧ actions = rule.then_) ∨
    (rules.find? (holds sem event) = none ∧ rules.getLast? = some rule ∧ actions = rule.otherwise)

/-- The rules that are looked at before it do not hold. -/
theorem reached_first (hmode : revision.matchMode = .firstMatch) {before after : List CompiledRule}
    {rule : CompiledRule} (hbefore : ∀ r ∈ before, holds sem event r = false)
    (hend : holds sem event rule = true ∨ after = []) :
    reached sem revision event (before ++ rule :: after) = before ++ [rule] := by
  induction before with
  | nil => rcases hend with h | rfl <;> simp [reached, *]
  | cons r rest ih =>
    have hrest := ih (fun r' hr => hbefore r' (by simp [hr]))
    simp [reached, hbefore r (by simp), hrest]

theorem reached_acts (hmode : revision.matchMode = .firstMatch) {rules : List CompiledRule} {rule : CompiledRule}
    {actions : List Action} (h : ActsFirst sem event rules rule actions) :
    actionsOf sem event rule = actions ∧ ∃ before, before ⊆ rules.dropLast ∧
      (∀ r ∈ before, holds sem event r = false) ∧ reached sem revision event rules = before ++ [rule] := by
  rcases h with ⟨hfind, rfl⟩ | ⟨hnone, hlast, rfl⟩
  · obtain ⟨hholds, before, after, rfl, hno⟩ := List.find?_eq_some_iff_append.mp hfind
    have hbefore : ∀ r ∈ before, holds sem event r = false := by simpa using hno
    exact ⟨if_pos hholds, before, by simp [List.dropLast_append_of_ne_nil], hbefore,
      reached_first hmode hbefore (.inl hholds)⟩
  · obtain ⟨before, rfl⟩ := List.getLast?_eq_some_iff.mp hlast
    obtain ⟨hbefore, hrule⟩ : (∀ r ∈ before, holds sem event r = false) ∧ holds sem event rule = false := by
      simpa using hnone
    exact ⟨if_neg (by simp [hrule]), before, by simp, hbefore, reached_first hmode hbefore (.inr rfl)⟩

/-- Under first_match one rule acts, when only the last one has otherwise actions. -/
theorem evaluateRules_first (hmode : revision.matchMode = .firstMatch) {rules : List CompiledRule}
    {rule : CompiledRule} {actions : List Action} (h : ActsFirst sem event rules rule actions)
    (hpred : ∀ r ∈ rules, ∃ b, sem.evalPredicate r.when event.data = .ok b)
    (hother : ∀ r ∈ rules.dropLast, r.otherwise = [])
    (hbuild : Builds sha256Hex sem now revision event rule.id actions 0) :
    ∃ ex, evaluateRules sha256Hex sem now revision event rules ⟨[], [], []⟩ =
      .ok ⟨if holds sem event rule then [rule.id] else [],
        builtEffects sha256Hex sem now revision event rule.id actions 0, ex⟩ := by
  obtain ⟨rfl, before, hsub, hbefore, hreached⟩ := reached_acts hmode h
  have hquiet : ∀ r ∈ before, actionsOf sem event r = [] :=
    fun r hr => (if_neg (by simp [hbefore r hr])).trans (hother r (hsub hr))
  have hbuilds : ∀ r ∈ reached sem revision event rules,
      Builds sha256Hex sem now revision event r.id (actionsOf sem event r) 0 := by
    rw [hreached]
    intro r hr
    rcases List.mem_append.mp hr with hr | hr
    · rw [hquiet r hr]
      exact fun i a ha => by simp at ha
    · rwa [List.mem_singleton.mp hr]
  obtain ⟨ex, hok⟩ := evaluateRules_ok ⟨[], [], []⟩ hpred hbuilds
  refine ⟨ex, hok.trans ?_⟩
  have hnone : before.flatMap (fun r =>
      builtEffects sha256Hex sem now revision event r.id (actionsOf sem event r) 0) = [] :=
    List.flatMap_eq_nil_iff.mpr (fun r hr => by rw [hquiet r hr]; rfl)
  have hmatched : before.filter (holds sem event) = [] :=
      List.filter_eq_nil_iff.mpr (fun r hr => by simp [hbefore r hr])
  simp only [holding, hreached, List.filter_append, hmatched, List.flatMap_append, hnone]
  cases hh : holds sem event rule <;> simp [hh]

end

/-! Identities. -/

section
variable {sha256Hex : String → String} {sem : Semantics} {now : Time} {revision : RuleRevision}
  {event : EventEnvelope}

theorem buildEffect_id {ruleID : String} {n : Nat} {action : Action} {ef : Effect}
    (h : buildEffect sha256Hex sem now revision event ruleID n action = .ok ef) :
    ef.id = computeEffectID sha256Hex event.tenantID event.id revision.ruleID revision.revision ruleID n := by
  unfold buildEffect at h
  split at h
  · cases h
    rfl
  · obtain ⟨key, -, h⟩ := Checks.bind_ok.mp h
    obtain ⟨data, -, h⟩ := Checks.bind_ok.mp h
    obtain ⟨encoded, -, h⟩ := Checks.bind_ok.mp h
    cases h
    rfl
  · cases h
    rfl
  · cases h
    rfl

theorem builtEffects_ids {ruleID : String} {actions : List Action} : ∀ {n : Nat},
    Builds sha256Hex sem now revision event ruleID actions n →
    (builtEffects sha256Hex sem now revision event ruleID actions n).map Effect.id =
      (List.range' n actions.length).map
        (computeEffectID sha256Hex event.tenantID event.id revision.ruleID revision.revision ruleID) := by
  induction actions with
  | nil => exact fun _ => rfl
  | cons action rest ih =>
    intro n hb
    obtain ⟨ef, hef⟩ := hb 0 action rfl
    rw [Nat.add_zero] at hef
    rw [builtEffects_cons hef, List.map_cons, ih hb.tail, buildEffect_id hef]
    simp [List.range'_succ]

/-- Effects of rules with different identities have different identities. -/
theorem effectIDs_nodup (hsha : Function.Injective sha256Hex) (rules : List CompiledRule)
    (acts : CompiledRule → List Action) (hids : (rules.map CompiledRule.id).Nodup)
    (hb : ∀ r ∈ rules, Builds sha256Hex sem now revision event r.id (acts r) 0) :
    ((rules.flatMap (fun r => builtEffects sha256Hex sem now revision event r.id (acts r) 0)).map
      Effect.id).Nodup := by
  have hinj : ∀ {r r' : String} {i i' : Nat},
      computeEffectID sha256Hex event.tenantID event.id revision.ruleID revision.revision r i =
        computeEffectID sha256Hex event.tenantID event.id revision.ruleID revision.revision r' i' →
      r = r' ∧ i = i' := fun h => effectText_inj (hsha h)
  rw [List.map_flatMap, List.nodup_flatMap]
  constructor
  · intro r hr
    rw [builtEffects_ids (hb r hr)]
    exact (List.nodup_range').map (fun i i' h => (hinj h).2)
  · refine (List.pairwise_map.mp hids).imp_of_mem ?_
    intro r r' hr hr' hne
    show List.Disjoint (List.map Effect.id _) (List.map Effect.id _)
    rw [builtEffects_ids (hb r hr), builtEffects_ids (hb r' hr')]
    intro id hid hid'
    obtain ⟨i, -, rfl⟩ := List.mem_map.mp hid
    obtain ⟨i', -, he⟩ := List.mem_map.mp hid'
    exact hne (hinj he).1.symm

end

/-! The decision. -/

section
variable {sha256Hex : String → String} {sem : Semantics} {now : Time} {revision : RuleRevision}
  {event : EventEnvelope}

theorem single_nodup (hsha : Function.Injective sha256Hex) {ruleID : String} {actions : List Action}
    (hb : Builds sha256Hex sem now revision event ruleID actions 0) :
    ((builtEffects sha256Hex sem now revision event ruleID actions 0).map Effect.id).Nodup := by
  have h := effectIDs_nodup hsha [⟨ruleID, "", 0, .mk none none none "" "" none, actions, []⟩]
    CompiledRule.then_ (by simp) (by simpa using hb)
  simpa using h

/-- What Evaluate decides on a compiled rule set, mode by mode. -/
theorem evaluate_match_modes {codec : Codec} {limits : Limits} {source : RawMessage}
    (hsha : Function.Injective sha256Hex) (hcompile : compile codec limits sha256Hex source = .ok revision)
    (hpred : ∀ rule ∈ revision.compiled, ∃ b, sem.evalPredicate rule.when event.data = .ok b)
    (hbuild : ∀ rule actions, Selected sem revision event rule actions →
      Builds sha256Hex sem now revision event rule.id actions 0) :
    ∃ d, evaluate sha256Hex sem now revision event = .ok d ∧
      (revision.matchMode = .firstMatch →
        ((∃ r ∈ revision.compiled, holds sem event r = true) →
          ∃ rule, Highest sem revision event rule ∧ d.matchedRules = [rule.id] ∧
            d.effects = builtEffects sha256Hex sem now revision event rule.id rule.then_ 0) ∧
        ((∀ r ∈ revision.compiled, holds sem event r = false) →
          ∃ rule, Lowest revision rule ∧ d.matchedRules = [] ∧
            d.effects = builtEffects sha256Hex sem now revision event rule.id rule.otherwise 0)) ∧
      (revision.matchMode = .allMatches →
        revision.compiled.Pairwise (fun a b => b.priority < a.priority) ∧
        d.matchedRules = (revision.compiled.filter (holds sem event)).map CompiledRule.id ∧
        d.effects = revision.compiled.flatMap (fun r =>
          builtEffects sha256Hex sem now revision event r.id (actionsOf sem event r) 0)) ∧
      (d.effects.map Effect.id).Nodup := by
  have hord := compile_wellOrdered hcompile
  cases hmode : revision.matchMode with
  | firstMatch =>
    obtain ⟨rule, actions, hacts⟩ : ∃ rule actions, ActsFirst sem event revision.compiled rule actions := by
      cases hf : revision.compiled.find? (holds sem event) with
      | some rule => exact ⟨rule, _, .inl ⟨hf, rfl⟩⟩
      | none => exact ⟨_, _, .inr ⟨hf, List.getLast?_eq_some_getLast hord.nonempty, rfl⟩⟩
    have hfound : (Highest sem revision event rule ∧ actions = rule.then_) ∨
        ((∀ r ∈ revision.compiled, holds sem event r = false) ∧ Lowest revision rule ∧ actions = rule.otherwise) :=
      hacts.imp (.imp_left (find_highest hord).mp) (.imp (by simpa using ·) (.imp_left (getLast_lowest hord).mp))
    have hb := hbuild rule actions (by rw [Selected, hmode]; exact hfound)
    obtain ⟨ex, hgo⟩ := evaluateRules_first hmode hacts hpred (hord.otherwise hmode) hb
    refine ⟨_, by rw [evaluate, hgo]; rfl, fun _ => ⟨?_, ?_⟩, by simp, single_nodup hsha hb⟩
    · rintro ⟨r, hr, hholds⟩
      rcases hfound with ⟨hhigh, rfl⟩ | ⟨hnone, -, -⟩
      · exact ⟨rule, hhigh, if_pos hhigh.2.1, rfl⟩
      · simp [hnone r hr] at hholds
    · intro hnone
      rcases hfound with ⟨⟨hmem, hholds, -⟩, -⟩ | ⟨-, hlow, rfl⟩
      · simp [hnone rule hmem] at hholds
      · exact ⟨rule, hlow, if_neg (by simp [hnone rule hlow.1]), rfl⟩
  | allMatches =>
    have hall : ∀ r ∈ revision.compiled,
        Builds sha256Hex sem now revision event r.id (actionsOf sem event r) 0 := by
      intro r hr
      apply hbuild r (actionsOf sem event r)
      rw [Selected, hmode]
      exact ⟨hr, rfl⟩
    have hreached : reached sem revision event revision.compiled = revision.compiled := reached_all hmode _
    obtain ⟨ex, hgo⟩ := evaluateRules_ok ⟨[], [], []⟩ hpred (by rwa [hreached])
    rw [holding, hreached] at hgo
    refine ⟨_, by rw [evaluate, hgo]; rfl, by simp, ?_, ?_⟩
    · intro _
      exact ⟨hord.falling, by simp, by simp⟩
    · simpa using effectIDs_nodup hsha revision.compiled (actionsOf sem event) hord.ids hall

end

/-! An order of 500 under first_match: the rule of priority 2 is written last and acts
    alone. -/

namespace MatchSample

def rulesText : RawMessage :=
  "[\x7b\"id\":\"any\",\"priority\":1,\"when\":\x7b\"path\":\"$.amount\",\"op\":\"exists\"\x7d," ++
  "\"then\":[\x7b\"emit\":\x7b\"topic\":\"orders.any\",\"data\":\x7b\x7d\x7d\x7d]," ++
  "\"otherwise\":[\x7b\"emit\":\x7b\"topic\":\"orders.none\",\"data\":\x7b\x7d\x7d\x7d]\x7d," ++
  "\x7b\"id\":\"big\",\"priority\":2,\"when\":\x7b\"path\":\"$.amount\",\"op\":\"gt\",\"value\":100\x7d," ++
  "\"then\":[\x7b\"emit\":\x7b\"topic\":\"orders.big\",\"data\":\x7b\x7d\x7d\x7d," ++
  "\x7b\"command\":\x7b\"destination\":\"crm\",\"name\":\"flag\",\"data\":\x7b\x7d\x7d\x7d]\x7d]"

def source : RawMessage :=
  "\x7b\"rule_set\":\"order.placed\",\"revision\":1,\"mode\":\"first_match\",\"rules\":" ++ rulesText ++ "\x7d"

def any : RawRule where
  id := "any"
  name := ""
  priority := 1
  when := .mk none none none "$.amount" "exists" none
  then_ := [⟨some ⟨"orders.any", "\x7b\x7d"⟩, none, none⟩]
  otherwise := [⟨some ⟨"orders.none", "\x7b\x7d"⟩, none, none⟩]

def big : RawRule where
  id := "big"
  name := ""
  priority := 2
  when := .mk none none none "$.amount" "gt" (some (.num "100"))
  then_ := [⟨some ⟨"orders.big", "\x7b\x7d"⟩, none, none⟩, ⟨none, none, some ⟨"crm", "flag", "\x7b\x7d"⟩⟩]
  otherwise := []

def codec : Codec where
  ruleSet text := if text = source then .ok ⟨"order.placed", 1, "first_match", rulesText⟩ else .error (.msg "not read")
  rules text := if text = rulesText then .ok [any, big] else .error (.msg "not read")
  valid _ := true
  payloadSize _ := 2

def sha256Hex : String → String := Text.digest
  [(source, "d2cfd1638618b472ca553420949e8b0fd45426564f31bf3ff3111caaca62c90a"),
   ("acme|o-1|order.placed|1|big|0", "f8bc2a8fb007d5381e27eddd91134386c4de99700514ece84387f203b2736611"),
   ("acme|o-1|order.placed|1|big|1", "afd05d90310c93af75c804346f1c746e74744bedd0c89998a98cc5ae4f45005d")]

theorem sha256Hex_injective : Function.Injective sha256Hex :=
  Text.digest_injective (by decide +kernel) (by decide +kernel)

def event : EventEnvelope :=
  ⟨"o-1", "order.placed", "acme", "k", "", 63902822400000000, "\x7b\"amount\":500\x7d", []⟩

def semantics : Semantics where
  evalPredicate _ _ := .ok true
  resolvePath _ _ := .ok none
  interpolateTemplates data _ _ _ := .ok data
  marshal _ := .error (.msg "not written")

def revision : RuleRevision :=
  ⟨"", "order.placed", 1, "d2cfd1638618b472ca553420949e8b0fd45426564f31bf3ff3111caaca62c90a", .firstMatch,
    [big.compiled, any.compiled]⟩

end MatchSample

open MatchSample

set_option maxRecDepth 20000 in
theorem evaluate_match_modes_highest :
    ∃ d rule, evaluate sha256Hex semantics 63902822400000000 revision
        event = .ok d ∧
      Highest semantics revision event rule ∧ d.matchedRules = [rule.id] := by
  have hcompile : compile codec defaultLimits sha256Hex source =
      .ok revision := rfl
  have hbuild : ∀ rule actions, Selected semantics revision event rule actions →
      Builds sha256Hex semantics 63902822400000000 revision
        event rule.id actions 0 := by
    intro rule actions hsel
    have hplain : ∀ r ∈ revision.compiled, ∀ a ∈ r.then_ ++ r.otherwise,
        a.emitEvent.isNone = true := by decide
    apply builds_of_plain
    intro a ha
    rcases hsel with ⟨⟨hmem, -, -⟩, rfl⟩ | ⟨-, ⟨hmem, -⟩, rfl⟩
    · exact hplain rule hmem a (List.mem_append_left _ ha)
    · exact hplain rule hmem a (List.mem_append_right _ ha)
  obtain ⟨d, hd, hfirst, -, -⟩ := evaluate_match_modes sha256Hex_injective hcompile
    (fun rule _ => ⟨true, rfl⟩) hbuild
  obtain ⟨rule, hhigh, hmatched, -⟩ := (hfirst rfl).1 ⟨_, List.mem_cons_self, rfl⟩
  exact ⟨d, rule, hd, hhigh, hmatched⟩

end FlowRule.Rules
