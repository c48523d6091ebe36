import FlowRule.Rules.Accepted
import FlowRule.Rules.Documents

/- Rules against the contract of their events (ValidatePathsAgainstContract and
   validatePredicatePaths in internal/rules/compiler.go).

   Evaluation follows a path part by part, so a path can be relied on if the contract declares a
   field at each of its parts, or if it leads to facts (`Covered`). The check looks the whole text
   of the path up among the names of the outermost fields (`Known`). `contract_check_iff` says
   when the two come to the same for all paths of a rule set. -/
namespace FlowRule

inductive ContractField where
  | mk (type : String) (properties : List (String × ContractField))

structure ContractSchema where
  name : String
  version : String
  fields : List (String × ContractField)

namespace Rules

open Checks

/-- strings.TrimPrefix of the root. -/
def trimRoot (path : String) : List Char := if "$.".toList <+: path.toList then path.toList.drop 2 else path.toList

section
variable (schema : ContractSchema)

mutual

def validatePredicatePaths : Predicate → Except Err Unit
  | .mk all any not path _ _ => do
    match all with
      | some children => validateChildPaths children
      | none => .ok ()
    match any with
      | some children => validateChildPaths children
      | none => .ok ()
    match not with
      | some child => validatePredicatePaths child
      | none => .ok ()
    if path ≠ "" ∧ (schema.fields.lookup (String.ofList (trimRoot path))).isNone = true then
      .error (.msg ("path \"" ++ path ++ "\" not found in contract " ++ schema.name ++ "@" ++ schema.version))
    else .ok ()

def validateChildPaths : List (Option Predicate) → Except Err Unit
  | [] => .ok ()
  | none :: rest => validateChildPaths rest
  | some child :: rest => do
    validatePredicatePaths child
    validateChildPaths rest

end

def validatePathsAgainstContract : List CompiledRule → Except Err Unit
  | [] => .ok ()
  | rule :: rest => do
    (validatePredicatePaths schema rule.when).mapError (Err.wrap ("rule " ++ rule.id))
    validatePathsAgainstContract rest

end

/-! What a contract says about a path. -/

/-- Every part names a declared field, each but the first of the object before it. -/
def declared (fields : List (String × ContractField)) : List String → Bool
  | [] => true
  | part :: parts =>
    match fields.lookup part with
    | none => false
    | some (.mk type properties) => parts.isEmpty || (type == "object" && declared properties parts)

def FactsPath (path : String) : Prop := "$.".toList <+: path.toList ∧ OnFacts path

instance (path : String) : Decidable (FactsPath path) := inferInstanceAs (Decidable (_ ∧ _))

section
variable (schema : ContractSchema) (path : String)

def Covered : Prop := FactsPath path ∨ declared schema.fields (dotted (trimRoot path)) = true

def Known : Prop := (schema.fields.lookup (String.ofList (trimRoot path))).isSome = true

instance : Decidable (Covered schema path) := inferInstanceAs (Decidable (_ ∨ _))

instance : Decidable (Known schema path) := inferInstanceAs (Decidable (_ = _))

end

def leafPath? : Predicate → Option String
  | .mk none none none path _ _ => some path
  | _ => none

def leafPaths (rules : List CompiledRule) : List String :=
  rules.flatMap (fun rule => (parts rule.when).filterMap leafPath?)

/-- Some path is neither a field's name nor covered; or there are paths that are covered and
    no field's name exactly if there are such that are a field's name and not covered. -/
def Balanced (schema : ContractSchema) (paths : List String) : Prop :=
  (∃ path ∈ paths, ¬ Known schema path ∧ ¬ Covered schema path) ∨
    ((∃ path ∈ paths, Covered schema path ∧ ¬ Known schema path) ↔
      ∃ path ∈ paths, Known schema path ∧ ¬ Covered schema path)

/-! What the check accepts. -/

section
variable {schema : ContractSchema}

theorem checks_ok {x : Except Err Unit} {y : Unit → Except Err Unit} :
    x >>= y = .ok () ↔ x = .ok () ∧ y () = .ok () := by
  rw [bind_ok]
  exact ⟨fun ⟨_, hx, hy⟩ => ⟨hx, hy⟩, fun ⟨hx, hy⟩ => ⟨(), hx, hy⟩⟩

theorem validateChildPaths_ok {children : List Predicate} :
    validateChildPaths schema (children.map some) = .ok () ↔
      ∀ child ∈ children, validatePredicatePaths schema child = .ok () := by
  induction children with
  | nil => simp [validateChildPaths]
  | cons child rest ih =>
    rw [List.map_cons, List.forall_mem_cons, ← ih]
    conv_lhs => unfold validateChildPaths
    exact checks_ok

variable {path : String} {rules : List CompiledRule}

theorem validatePredicatePaths_iff {all any : Option (List (Option Predicate))} {not : Option Predicate}
    {op : String} {value : Option Json} :
    validatePredicatePaths schema (.mk all any not path op value) = .ok () ↔
      (∀ children ∈ all, validateChildPaths schema children = .ok ()) ∧
      (∀ children ∈ any, validateChildPaths schema children = .ok ()) ∧
      (∀ child ∈ not, validatePredicatePaths schema child = .ok ()) ∧ (path ≠ "" → Known schema path) := by
  have hpath : (if path ≠ "" ∧ (schema.fields.lookup (String.ofList (trimRoot path))).isNone = true then
      .error (.msg ("path \"" ++ path ++ "\" not found in contract " ++ schema.name ++ "@" ++ schema.version))
      else (.ok () : Except Err Unit)) = .ok () ↔ (path ≠ "" → Known schema path) := by
    rw [ite_ok]
    unfold Known
    cases schema.fields.lookup (String.ofList (trimRoot path)) <;> simp
  rw [← hpath]
  conv_lhs => unfold validatePredicatePaths
  cases all <;> cases any <;> cases not <;> simp [checks_ok]

theorem onLeaves_children {L : String → String → Option Json → Prop} {p : Predicate} {children : List Predicate}
    (hparts : parts p = p :: partsOf (children.map some)) (hleaf : isLeaf p = false) :
    OnLeaves L p ↔ ∀ child ∈ children, OnLeaves L child := by
  unfold OnLeaves
  rw [hparts]
  constructor
  · intro h child hc path op value hmem
    exact h path op value (List.mem_cons_of_mem _ (mem_partsOf.mpr ⟨child, hc, hmem⟩))
  · intro h path op value hmem
    rcases List.mem_cons.mp hmem with rfl | hmem
    · cases hleaf
    · obtain ⟨child, hc, hq⟩ := mem_partsOf.mp hmem
      exact h child hc path op value hq

/-- Induction on the grammar: only leaves have paths. -/
theorem validatePredicatePaths_ok {p : Predicate} (h : InGrammar p) :
    validatePredicatePaths schema p = .ok () ↔ OnLeaves (fun path _ _ => Known schema path) p := by
  induction h with
  | leaf path op value hpath hop =>
    rw [validatePredicatePaths_iff]
    constructor
    · rintro ⟨-, -, -, hknown⟩ path' op' value' hmem
      cases List.mem_singleton.mp hmem
      exact hknown hpath
    · intro hknown
      exact ⟨by simp, by simp, by simp, fun _ => hknown path op value (mem_parts_self _)⟩
  | all children op value hne hc ih | any children op value hne hc ih =>
    rw [validatePredicatePaths_iff, onLeaves_children rfl rfl, ← forall₂_congr ih, ← validateChildPaths_ok]
    simp
  | not child op value hc ih =>
    have hchild : OnLeaves (fun path _ _ => Known schema path) (.mk none none (some child) "" op value) ↔
        OnLeaves (fun path _ _ => Known schema path) child := by
      unfold OnLeaves
      simp [parts]
    rw [validatePredicatePaths_iff, hchild, ← ih]
    simp

theorem validatePathsAgainstContract_ok :
    validatePathsAgainstContract schema rules = .ok () ↔
      ∀ rule ∈ rules, validatePredicatePaths schema rule.when = .ok () := by
  induction rules with
  | nil => simp [validatePathsAgainstContract]
  | cons rule rest ih =>
    rw [List.forall_mem_cons, ← ih]
    conv_lhs => unfold validatePathsAgainstContract
    rw [checks_ok, mapError_ok]

theorem mem_leafPaths :
    path ∈ leafPaths rules ↔ ∃ rule ∈ rules, ∃ op value,
      Predicate.mk none none none path op value ∈ parts rule.when := by
  unfold leafPaths
  rw [List.mem_flatMap]
  refine exists_congr fun rule => and_congr_right fun _ => ?_
  rw [List.mem_filterMap]
  constructor
  · rintro ⟨q, hq, hpath⟩
    unfold leafPath? at hpath
    split at hpath <;> cases hpath
    exact ⟨_, _, hq⟩
  · rintro ⟨op, value, hq⟩
    exact ⟨_, hq, rfl⟩

/-- The check passes exactly if every path is the name of a field. -/
theorem contract_check_known (hg : ∀ rule ∈ rules, InGrammar rule.when) :
    validatePathsAgainstContract schema rules = .ok () ↔ ∀ path ∈ leafPaths rules, Known schema path := by
  rw [validatePathsAgainstContract_ok]
  constructor
  · intro h path hpath
    obtain ⟨rule, hr, op, value, hq⟩ := mem_leafPaths.mp hpath
    exact (validatePredicatePaths_ok (hg rule hr)).mp (h rule hr) path op value hq
  · intro h rule hr
    rw [validatePredicatePaths_ok (hg rule hr)]
    intro path op value hq
    exact h path (mem_leafPaths.mpr ⟨rule, hr, op, value, hq⟩)

theorem known_iff_covered (hfacts : ¬ FactsPath path) (hdot : '.' ∉ trimRoot path) :
    Known schema path ↔ Covered schema path := by
  have hparts : dotted (trimRoot path) = [String.ofList (trimRoot path)] := by
    unfold dotted List.splitOn
    rw [List.splitOnP_eq_singleton]
    · rfl
    · intro c hc
      rw [beq_eq_false_iff_ne]
      rintro rfl
      exact hdot hc
  unfold Covered Known
  rw [hparts, or_iff_right hfacts, declared]
  cases schema.fields.lookup (String.ofList (trimRoot path)) with
  | none => simp
  | some field =>
    obtain ⟨type, properties⟩ := field
    simp

end

/-- The check agrees with the contract on an accepted rule set exactly if its paths are
    balanced. -/
theorem contract_check_iff {codec : Codec} {limits : Limits} {sha256Hex : String → String} {source : RawMessage}
    {revision : RuleRevision} (hcompile : compile codec limits sha256Hex source = .ok revision)
      (schema : ContractSchema) :
    (validatePathsAgainstContract schema revision.compiled = .ok () ↔
      ∀ path ∈ leafPaths revision.compiled, Covered schema path) ↔
    Balanced schema (leafPaths revision.compiled) := by
  rw [contract_check_known (fun rule hr => (compiled_accepted hcompile hr).1)]
  generalize leafPaths revision.compiled = paths
  unfold Balanced
  by_cases hunknown : ∃ path ∈ paths, ¬ Known schema path ∧ ¬ Covered schema path
  · -- both sides refuse the path
    obtain ⟨path, hpath, hknown, hcovered⟩ := hunknown
    exact iff_of_true (iff_of_false (fun h => hknown (h path hpath)) (fun h => hcovered (h path hpath)))
      (.inl ⟨path, hpath, hknown, hcovered⟩)
  · rw [or_iff_right hunknown]
    push Not at hunknown
    -- one side accepts all paths exactly if the other side alone accepts none
    have hall : (∀ path ∈ paths, Known schema path) ↔ ¬ ∃ path ∈ paths, Covered schema path ∧ ¬ Known schema path := by
      push Not
      exact forall₂_congr fun path hpath => ⟨fun h _ => h, fun h => by_contra fun hn => hn (h (hunknown path hpath hn))⟩
    have hcov : (∀ path ∈ paths, Covered schema path) ↔
        ¬ ∃ path ∈ paths, Known schema path ∧ ¬ Covered schema path := by
      push Not
      exact forall₂_congr fun path hpath => ⟨fun h _ => h, fun h => by_contra fun hn =>
        hn (h (by_contra fun hk => hn (hunknown path hpath hk)))⟩
    rw [hall, hcov, not_iff_not]

namespace ContractSample

def rulesText : RawMessage :=
  "[\x7b\"id\":\"gold\",\"priority\":1,\"when\":\x7b\"path\":\"$.customer.tier\",\"op\":\"eq\"," ++
  "\"value\":\"gold\"\x7d," ++
  "\"then\":[\x7b\"emit\":\x7b\"topic\":\"orders.gold\",\"data\":\x7b\x7d\x7d\x7d]\x7d]"

def source : RawMessage :=
  "\x7b\"rule_set\":\"order.placed\",\"revision\":1,\"mode\":\"first_match\",\"rules\":" ++ rulesText ++ "\x7d"

def gold : RawRule where
  id := "gold"
  name := ""
  priority := 1
  when := .mk none none none "$.customer.tier" "eq" (some (.str "gold"))
  then_ := [⟨some ⟨"orders.gold", "\x7b\x7d"⟩, none, none⟩]
  otherwise := []

def codec : Codec where
  ruleSet text := if text = source then .ok ⟨"order.placed", 1, "first_match", rulesText⟩ else .error (.msg "not read")
  rules text := if text = rulesText then .ok [gold] else .error (.msg "not read")
  valid _ := true
  payloadSize _ := 2

def revision : RuleRevision := ⟨"", "order.placed", 1, Text.digest [] source, .firstMatch, [gold.compiled]⟩

set_option maxRecDepth 20000 in
theorem compile_source : compile codec defaultLimits (Text.digest []) source = .ok revision := rfl

def customer : ContractField := .mk "object" [("tier", .mk "string" [])]

def nested : ContractSchema := ⟨"order", "1", [("customer", customer)]⟩

def flattened : ContractSchema := ⟨"order", "1", [("customer", customer), ("customer.tier", .mk "string" [])]⟩

end ContractSample

open ContractSample in
theorem contract_check_flattened :
    validatePathsAgainstContract flattened revision.compiled = .ok () ∧
    (validatePathsAgainstContract flattened revision.compiled = .ok () ↔
      ∀ path ∈ leafPaths revision.compiled, Covered flattened path) :=
  ⟨rfl, (contract_check_iff compile_source flattened).mpr (.inr (by decide +kernel))⟩

open ContractSample in
/-- A field of an object is declared, and the rule that asks for it is refused. -/
theorem contract_refuses_declared :
    compile codec defaultLimits (Text.digest []) source = .ok revision ∧
    leafPaths revision.compiled = ["$.customer.tier"] ∧ Covered nested "$.customer.tier" ∧
    validatePathsAgainstContract nested revision.compiled =
      .error (.wrap "rule gold" (.msg "path \"$.customer.tier\" not found in contract order@1")) :=
  ⟨compile_source, rfl, by decide +kernel, rfl⟩

end Rules

end FlowRule
