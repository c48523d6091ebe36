import FlowRule.Rules.Matching
import FlowRule.Rules.PredicateAgreement

/- Accepted predicates as formulas (evalPredicate in internal/rules/evaluator.go). Evaluation goes
   from left to right and ends early; the laws of Boolean algebra hold all the same, with the same
   error where there is one (`boolean_algebra`). What makes evaluation fail structurally is checked
   by the compiler, but for one thing: the path of a leaf has to begin at the root
   (`structural_iff`). -/
namespace FlowRule
open Checks Rules

/-! Boolean algebra. -/

section
variable (num : Numbers) (data : Json) (facts : Facts)

/-- A composite without a path; its operator and value are not looked at. -/
def allOf (op : String) (value : Option Json) (ps : List Predicate) : Predicate :=
  .mk (some (ps.map some)) none none "" op value

def anyOf (op : String) (value : Option Json) (ps : List Predicate) : Predicate :=
  .mk none (some (ps.map some)) none "" op value

def notOf (op : String) (value : Option Json) (p : Predicate) : Predicate :=
  .mk none none (some p) "" op value

variable {num data facts} {op op' : String} {value value' : Option Json}

@[simp] theorem eval_notOf (p : Predicate) :
    evalPredicate num data facts (notOf op value p) = (evalPredicate num data facts p).map (! ·) :=
  (go_walks num data facts).not p op value

theorem eval_allOf (ps : List Predicate) :
    evalPredicate num data facts (allOf op value ps) = untilStop (evalPredicate num data facts) false ps :=
  (go_walks num data facts).all ps op value

theorem eval_anyOf (ps : List Predicate) :
    evalPredicate num data facts (anyOf op value ps) = untilStop (evalPredicate num data facts) true ps :=
  (go_walks num data facts).any ps op value

variable (num data facts op op' value value')

/-- The laws of Boolean algebra, errors included. -/
theorem boolean_algebra (ps qs : List Predicate) (p : Predicate) :
    evalPredicate num data facts (notOf op value (allOf op' value' ps)) =
      evalPredicate num data facts (anyOf op' value' (ps.map (notOf op value))) ∧
    evalPredicate num data facts (notOf op value (anyOf op' value' ps)) =
      evalPredicate num data facts (allOf op' value' (ps.map (notOf op value))) ∧
    evalPredicate num data facts (notOf op value (notOf op' value' p)) =
      evalPredicate num data facts p ∧
    evalPredicate num data facts (allOf op value (allOf op' value' qs :: ps)) =
      evalPredicate num data facts (allOf op value (qs ++ ps)) ∧
    evalPredicate num data facts (anyOf op value (anyOf op' value' qs :: ps)) =
      evalPredicate num data facts (anyOf op value (qs ++ ps)) := by
  refine ⟨?_, ?_, ?_, ?_, ?_⟩
  · rw [eval_notOf, eval_allOf, eval_anyOf]
    exact (untilStop_not eval_notOf ps).symm
  · rw [eval_notOf, eval_anyOf, eval_allOf]
    exact (untilStop_not eval_notOf ps).symm
  · rw [eval_notOf, eval_notOf]
    cases evalPredicate num data facts p with
    | error e => rfl
    | ok b => exact congrArg Except.ok (Bool.not_not b)
  · rw [eval_allOf, eval_allOf, untilStop_append, untilStop, eval_allOf]
  · rw [eval_anyOf, eval_anyOf, untilStop_append, untilStop, eval_anyOf]

end

/-! Structural errors. -/

def structuralErrors : List Sentinel := [.invalidPredicate, .invalidOperator, .invalidFactPath]

def Structural (r : Except Err Bool) : Prop := ∃ e, r = .error e ∧ e.isAny structuralErrors = true

theorem structural_error {e : Err} : Structural (.error e) ↔ e.isAny structuralErrors = true := by
  constructor
  · rintro ⟨e', h, hany⟩
    cases h
    exact hany
  · exact fun h => ⟨e, rfl, h⟩

theorem not_structural_ok (b : Bool) : ¬ Structural (.ok b) := by
  rintro ⟨e, h, -⟩
  cases h

section
variable {num : Numbers} {data : Json} {facts : Facts}

theorem unmarshal_plain {document : Json} {e : Err} (h : unmarshal num document = .error e) : e.sentinels = [] := by
  unfold unmarshal at h
  cases hf : document.literals.find? (fun literal => !num.goInRange literal) with
  | none =>
    rw [hf] at h
    cases h
  | some literal =>
    rw [hf] at h
    cases h
    rfl

theorem resolvePath_plain {path : String} (hroot : Rooted path) {e : Err}
    (h : resolvePath num path data facts = .error e) : e.sentinels = [] := by
  have hread : ∀ {context : String} {document : Json} {parts : List String}, (do
      let value ← (unmarshal num document).mapError (Err.wrap context)
      .ok (walkObjectPath value parts)) = Except.error e → e.sentinels = [] := by
    intro context document parts h
    cases hu : unmarshal num document with
    | error e' =>
      rw [hu] at h
      cases h
      have hplain : e'.sentinels = [] := unmarshal_plain hu
      exact hplain
    | ok v =>
      rw [hu] at h
      cases h
  unfold resolvePath at h
  have h := (if_neg (not_not.mpr hroot)).symm.trans h
  dsimp only at h
  split at h
  · unfold resolveFactPath at h
    split at h
    · cases h
    split at h
    · cases h
    · exact hread h
  · exact hread h

theorem resolvePath_unrooted {path : String} (h : ¬ Rooted path) :
    resolvePath num path data facts = .error (.sentinel .invalidFactPath) := if_pos h

theorem compareNumericLeaf_plain {o : Operator} {name : String} {actual expected : Option Json} :
    ¬ Structural (compareNumericLeaf num o name actual expected) := by
  unfold compareNumericLeaf
  by_cases h : compareCmp num actual expected = 2
  · simp only [h, ↓reduceIte]
    rw [structural_error]
    simp [Err.msg, Err.isAny]
  · simp only [h, ↓reduceIte]
    exact not_structural_ok _

theorem evaluateLeafValue_plain {op : String} {o : Operator} (ho : Operator.ofText op = some o)
    (hexists : o ≠ .exists_) (hnot : o ≠ .notExists) (actual expected : Option Json) :
    ¬ Structural (evaluateLeafValue num op actual expected) := by
  unfold evaluateLeafValue
  rw [ho]
  cases o with
  | eq | neq | in_ | notIn => exact not_structural_ok _
  | gt | gte | lt | lte => exact compareNumericLeaf_plain
  | exists_ => exact absurd rfl hexists
  | notExists => exact absurd rfl hnot

/-- A leaf with a known operator fails structurally when its path does not begin at the root, and
    only then. -/
theorem leaf_structural_iff {path op : String} (hop : validOp op = true) (value : Option Json) :
    Structural (evalLeaf num path op value data facts) ↔ ¬ Rooted path := by
  by_cases hroot : Rooted path
  · refine iff_of_false ?_ (not_not.mpr hroot)
    unfold evalLeaf
    cases hr : resolvePath num path data facts with
    | error e =>
      rw [structural_error]
      simp [Err.isAny, resolvePath_plain hroot hr, structuralErrors]
    | ok found =>
      rcases operator_cases hop with rfl | rfl | ⟨hne, hne', o, ho, hexists, hnot⟩
      · exact not_structural_ok _
      · exact not_structural_ok _
      · simp only [hne, hne', ↓reduceIte]
        split
        · exact not_structural_ok _
        · exact evaluateLeafValue_plain ho hexists hnot _ _
  · refine iff_of_true ?_ hroot
    rw [evalLeaf, resolvePath_unrooted hroot]
    exact structural_error.mpr rfl

theorem tree_structural_iff {p : Predicate} (h : InGrammar p) :
    Structural (evalPredicate num data facts p) ↔ ∃ path op value,
      .mk none none none path op value ∈ visited (evalPredicate num data facts) p ∧ ¬ Rooted path := by
  obtain ⟨haccepted, herror⟩ := visited_spec (go_walks num data facts) h
  constructor
  · rintro ⟨e, he, hany⟩
    obtain ⟨leaf, hleaf, he⟩ := (herror e).mp he
    obtain ⟨path, op, value, rfl, -, hop⟩ := haccepted leaf hleaf
    exact ⟨path, op, value, hleaf, (leaf_structural_iff hop value).mp ⟨e, he, hany⟩⟩
  · rintro ⟨path, op, value, hleaf, hroot⟩
    obtain ⟨_, _, _, h, -, hop⟩ := haccepted _ hleaf
    cases h
    obtain ⟨e, he, hany⟩ := (leaf_structural_iff hop value).mpr hroot
    exact ⟨e, (herror e).mpr ⟨_, hleaf, he⟩, hany⟩

end

/-- An accepted action is of one kind, and so is its effect. -/
theorem buildEffect_kind {codec : Codec} {limits : Limits} {action : Action}
    (h : validateAction codec limits action = .ok ()) {sha256Hex : String → String} {sem : Semantics}
    {now : Time} {revision : RuleRevision} {event : EventEnvelope} {ruleID : String} {n : Nat} {effect : Effect}
    (hb : buildEffect sha256Hex sem now revision event ruleID n action = .ok effect) :
    effect.effectType = .emit ∨ effect.effectType = .emitEvent ∨ effect.effectType = .command := by
  obtain ⟨emit, emitEvent, command⟩ := action
  unfold buildEffect at hb
  cases emit with
  | some a =>
    cases hb
    exact Or.inl rfl
  | none =>
    cases emitEvent with
    | some a =>
      obtain ⟨_, -, hb⟩ := bind_ok.mp hb
      obtain ⟨_, -, hb⟩ := bind_ok.mp hb
      obtain ⟨_, -, hb⟩ := bind_ok.mp hb
      cases hb
      exact Or.inr (Or.inl rfl)
    | none =>
      cases command with
      | some a =>
        cases hb
        exact Or.inr (Or.inr rfl)
      | none => cases h

/-- Evaluating the predicate of a compiled rule fails structurally exactly when it comes to a leaf
    whose path does not begin at the root; what the rule's actions build is of a known kind. -/
theorem structural_iff (num : Numbers) {codec : Codec} {limits : Limits} {sha256Hex : String → String}
    {source : RawMessage} {revision : RuleRevision}
    (h : compile codec limits sha256Hex source = .ok revision) {rule : CompiledRule}
    (hr : rule ∈ revision.compiled) :
    (∀ data facts, Structural (evalPredicate num data facts rule.when) ↔ ∃ path op value,
      .mk none none none path op value ∈ visited (evalPredicate num data facts) rule.when ∧ ¬ Rooted path) ∧
    ∀ action ∈ rule.then_ ++ rule.otherwise, ∀ sem now event n effect,
      buildEffect sha256Hex sem now revision event rule.id n action = .ok effect →
      effect.effectType = .emit ∨ effect.effectType = .emitEvent ∨ effect.effectType = .command := by
  obtain ⟨hgrammar, hactions⟩ := compiled_accepted h hr
  exact ⟨fun data facts => tree_structural_iff hgrammar,
    fun action ha _ _ _ _ _ hb => buildEffect_kind (hactions action ha) hb⟩

open Rules.Orders

theorem structural_iff_orders :
    large.compiled ∈ revision.compiled ∧
      ¬ Structural (evalPredicate integers (.obj [("total", .num "7")]) [] large.when) := by
  have hmem : large.compiled ∈ revision.compiled := List.mem_cons_self
  have h := structural_iff integers (compile_ok.mpr ⟨_, _, compiles⟩) hmem
  refine ⟨hmem, fun hs => ?_⟩
  obtain ⟨path, op, value, hleaf, hroot⟩ := (h.1 _ _).mp hs
  cases List.mem_singleton.mp hleaf
  exact hroot (by decide)

/-! A rule whose path has no root. -/

namespace Unrooted

def rulesText : RawMessage :=
  "[\x7b\"id\":\"any\",\"priority\":1,\"when\":\x7b\"path\":\"total\",\"op\":\"exists\"\x7d," ++
  "\"then\":[\x7b\"emit\":\x7b\"topic\":\"orders.any\",\"data\":1\x7d\x7d]\x7d]"

def source : RawMessage :=
  "\x7b\"rule_set\":\"order.placed\",\"revision\":1,\"mode\":\"first_match\",\"rules\":" ++ rulesText ++ "\x7d"

def hasTotal : Predicate := .mk none none none "total" "exists" none

def rule : RawRule := ⟨"any", "", 1, hasTotal, [⟨some ⟨"orders.any", "1"⟩, none, none⟩], []⟩

def codec : Codec where
  ruleSet text := if text = source then .ok ⟨"order.placed", 1, "first_match", rulesText⟩ else .error (.msg "not read")
  rules text := if text = rulesText then .ok [rule] else .error (.msg "not read")
  valid _ := true
  payloadSize data := data.utf8ByteSize

end Unrooted

set_option maxRecDepth 4000 in
/-- The rule is accepted, and fails structurally on an order that has the member. -/
theorem unrooted_fails :
    ∃ revision, compile Unrooted.codec defaultLimits (Text.digest []) Unrooted.source = .ok revision ∧
      Unrooted.rule.compiled ∈ revision.compiled ∧
      Structural (evalPredicate integers (.obj [("total", .num "7")]) [] Unrooted.rule.compiled.when) :=
  ⟨_, rfl, List.mem_cons_self, _, rfl, rfl⟩

end FlowRule
