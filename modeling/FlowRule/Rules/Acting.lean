import FlowRule.Rules.Matching
import Mathlib.Data.List.Forall2

/- What a decision is made of (Evaluate in internal/rules/evaluator.go): the rules it looks at
   (`reached`), the actions through which each acts (`acting`), and one effect for each of these,
   in this order (`evaluate_acting`). Nothing of the compiler is needed. -/
namespace FlowRule.Rules

structure Acting where
  ruleID : String
  index : Nat
  action : Action

section
variable (sha256Hex : String → String) (sem : Semantics) (now : Time) (revision : RuleRevision) (event : EventEnvelope)

def numbered (ruleID : String) (n : Nat) (actions : List Action) : List Acting :=
  (actions.zipIdx n).map (fun p => ⟨ruleID, p.2, p.1⟩)

def acting (rules : List CompiledRule) : List Acting :=
  (reached sem revision event rules).flatMap (fun rule => numbered rule.id 0 (actionsOf sem event rule))

def BuildsTo (a : Acting) (effect : Effect) : Prop :=
  buildEffect sha256Hex sem now revision event a.ruleID a.index a.action = .ok effect

end

theorem reached_subset {sem : Semantics} {revision : RuleRevision} {event : EventEnvelope} {rules : List CompiledRule} :
    reached sem revision event rules ⊆ rules := by
  induction rules with
  | nil => simp [reached]
  | cons rule rest ih =>
    unfold reached
    split
    · simp
    · exact List.cons_subset_cons _ ih

theorem mem_numbered (ruleID : String) (n : Nat) {actions : List Action} {a : Action}
    (h : a ∈ actions) : ∃ x ∈ numbered ruleID n actions, x.action = a := by
  obtain ⟨i, hi, rfl⟩ := List.mem_iff_getElem.mp h
  refine ⟨⟨ruleID, n + i, actions[i]⟩, List.mem_map.mpr ⟨(actions[i], n + i), ?_, rfl⟩, rfl⟩
  exact List.mem_zipIdx_iff_le_and_getElem?_sub.mpr ⟨Nat.le_add_right n i, by simp [hi]⟩

section
variable {sha256Hex : String → String} {sem : Semantics} {now : Time} {revision : RuleRevision}
  {event : EventEnvelope}

theorem mem_acting {rules : List CompiledRule} {x : Acting} (h : x ∈ acting sem revision event rules) :
    ∃ rule ∈ rules, x.ruleID = rule.id ∧ ∃ actions, (actions = rule.then_ ∨ actions = rule.otherwise) ∧
      actions[x.index]? = some x.action := by
  obtain ⟨rule, hrule, hx⟩ := List.mem_flatMap.mp h
  obtain ⟨⟨a, i⟩, ha, rfl⟩ := List.mem_map.mp hx
  refine ⟨rule, reached_subset hrule, rfl, _, ?_, List.mk_mem_zipIdx_iff_getElem?.mp ha⟩
  unfold actionsOf
  split
  · exact Or.inl rfl
  · exact Or.inr rfl

theorem mem_actions {rule : CompiledRule} {actions : List Action} {i : Nat} {a : Action}
    (hactions : actions = rule.then_ ∨ actions = rule.otherwise) (h : actions[i]? = some a) :
    a ∈ rule.then_ ++ rule.otherwise := by
  rcases hactions with rfl | rfl
  · exact List.mem_append_left _ (List.mem_of_getElem? h)
  · exact List.mem_append_right _ (List.mem_of_getElem? h)

/-- The first rule acts, and then the others do unless it ends the evaluation. -/
theorem acting_cons (rule : CompiledRule) (rest : List CompiledRule) :
    acting sem revision event (rule :: rest) = numbered rule.id 0 (actionsOf sem event rule) ++
      if revision.matchMode = .firstMatch ∧ holds sem event rule = true then []
      else acting sem revision event rest := by
  rw [acting, reached]
  split
  · simp
  · rfl

theorem buildEffects_acting {ruleID context : String} {actions : List Action} : ∀ {n : Nat} {effects : List Effect},
    buildEffects sha256Hex sem now revision event ruleID context n actions = .ok effects →
    List.Forall₂ (BuildsTo sha256Hex sem now revision event) (numbered ruleID n actions) effects := by
  induction actions with
  | nil =>
    intro n effects h
    cases h
    exact List.Forall₂.nil
  | cons action rest ih =>
    intro n effects h
    unfold buildEffects at h
    cases hbuild : buildEffect sha256Hex sem now revision event ruleID n action with
    | error e =>
      rw [hbuild] at h
      cases h
    | ok effect =>
      rw [hbuild] at h
      obtain ⟨effects', hrest, rfl⟩ := Checks.map_ok.mp h
      exact List.Forall₂.cons hbuild (ih hrest)

theorem processRuleResult_acting {rule : CompiledRule} {acc c : Collected}
    (h : processRuleResult sha256Hex sem now revision event rule (holds sem event rule) acc = .ok c) :
    c.matched = acc.matched ++ (if holds sem event rule then [rule.id] else []) ∧
      ∃ effects, c.effects = acc.effects ++ effects ∧
        List.Forall₂ (BuildsTo sha256Hex sem now revision event)
          (numbered rule.id 0 (actionsOf sem event rule)) effects := by
  obtain ⟨effects, hbuild, rfl⟩ := Checks.map_ok.mp h
  refine ⟨?_, effects, rfl, buildEffects_acting hbuild⟩
  dsimp only
  split <;> simp

/-- Induction on the rules: each turn adds its own identity and effects, and the loop goes on
    as long as `reached` does. -/
theorem evaluateRules_acting {rules : List CompiledRule} : ∀ {acc c : Collected},
    evaluateRules sha256Hex sem now revision event rules acc = .ok c →
    c.matched = acc.matched ++ holding sem revision event rules ∧
      ∃ effects, c.effects = acc.effects ++ effects ∧
        List.Forall₂ (BuildsTo sha256Hex sem now revision event) (acting sem revision event rules) effects := by
  induction rules with
  | nil =>
    intro acc c h
    cases h
    exact ⟨by simp [holding, reached], [], by simp, by simp [acting, reached]⟩
  | cons rule rest ih =>
    intro acc c h
    unfold evaluateRules at h
    cases hpred : sem.evalPredicate rule.when event.data with
    | error e =>
      rw [hpred] at h
      cases h
    | ok b =>
      have hholds : holds sem event rule = b := by simp [holds, hpred]
      rw [hpred] at h
      cases hturn : processRuleResult sha256Hex sem now revision event rule b acc with
      | error e =>
        simp only [hturn] at h
        cases h
      | ok acc' =>
        obtain ⟨hmatched, effects, heffects, hbuilds⟩ := processRuleResult_acting (hholds ▸ hturn)
        simp only [hturn] at h
        by_cases hend : revision.matchMode = .firstMatch ∧ b = true
        · -- the first match ends the loop
          rw [if_pos hend] at h
          cases h
          have hreached : reached sem revision event (rule :: rest) = [rule] := if_pos (hholds ▸ hend)
          refine ⟨?_, effects, heffects, ?_⟩
          · simp [hmatched, holding, hreached, hholds, hend.2]
          · simpa [acting, hreached] using hbuilds
        · rw [if_neg hend] at h
          obtain ⟨hm, effects', he, hrest⟩ := ih h
          have hreached : reached sem revision event (rule :: rest) = rule :: reached sem revision event rest :=
            if_neg (hholds ▸ hend)
          refine ⟨?_, effects ++ effects', ?_, ?_⟩
          · rw [hm, hmatched, holding, holding, hreached]
            cases hh : holds sem event rule <;> simp [hh]
          · rw [he, heffects, List.append_assoc]
          · rw [acting, hreached, List.flatMap_cons]
            exact List.rel_append hbuilds hrest

theorem evaluate_acting {d : Decision} (h : evaluate sha256Hex sem now revision event = .ok d) :
    d.matchedRules = holding sem revision event revision.compiled ∧
      List.Forall₂ (BuildsTo sha256Hex sem now revision event) (acting sem revision event revision.compiled) d.effects ∧
      d.hash = computeDecisionHash sha256Hex revision.contentHash event.id "" d.matchedRules d.effects := by
  obtain ⟨c, hrules, rfl⟩ := Checks.map_ok.mp h
  obtain ⟨hmatched, effects, heffects, hbuilds⟩ := evaluateRules_acting hrules
  simp only [List.nil_append] at hmatched heffects
  exact ⟨hmatched, heffects ▸ hbuilds, rfl⟩

end

end FlowRule.Rules
