import FlowRule.Lib.Shape
import FlowRule.Rules.Acting
import FlowRule.Rules.Templates

/- The payloads of emit and command effects (buildEmitEffect and buildCommandEffect of
   internal/rules/evaluator.go) against the guide to rules (docs/rules.md, Substitution).
   `Substituted` is what the guide says, on documents. The code copies the data of the action, so
   the payloads are what the guide says exactly where there is nothing to resolve
   (`payloads_substituted_iff`). -/
namespace FlowRule.Rules

open Json

def IsPath (s : String) : Prop := "$.".toList <+: s.toList ∧ "" ∉ dotted (s.toList.drop 2)

instance (s : String) : Decidable (IsPath s) := inferInstanceAs (Decidable (_ ∧ _))

def payloadData (action : Action) : Option RawMessage :=
  match action.emit, action.emitEvent, action.command with
  | some a, _, _ => some a.data
  | none, none, some a => some a.data
  | _, _, _ => none

section
variable (num : Numbers) (event : Json)

def Refers (s : String) (v : Json) : Prop := IsPath s ∧ resolvePath num s event [] = .ok (some v)

def Substituted (data payload : Json) : Prop :=
  Rewritten (fun literal out => out = .num literal)
    (fun s out => (∀ v, Refers num event s v → same sameNumber v out = true) ∧
      ((∀ v, ¬ Refers num event s v) → out = .str s)) data.canon payload.canon

end

theorem same_str {r : String → String → Bool} {v : Json} {s : String} : same r v (.str s) = true ↔ v = .str s := by
  cases v <;> simp [same]

theorem substituted_self_iff {num : Numbers} {event data : Json} :
    Substituted num event data data ↔
      ∀ s, Json.str s ∈ data.canon.leaves → ∀ v, Refers num event s v → v = .str s := by
  unfold Substituted
  rw [rewritten_self_iff]
  unfold LeavesRewritten
  simp only [same_str, implies_true, true_and, and_true]

theorem buildEffect_payload {sha256Hex : String → String} {sem : Semantics} {now : Time} {revision : RuleRevision}
    {event : EventEnvelope} {a : Acting} {effect : Effect} {data : RawMessage}
    (hbuild : BuildsTo sha256Hex sem now revision event a effect) (hdata : payloadData a.action = some data) :
    effect.payload = data := by
  unfold BuildsTo buildEffect at hbuild
  unfold payloadData at hdata
  split at hdata
  · rename_i hemit
    rw [hemit] at hbuild
    cases hbuild
    exact Option.some.inj hdata
  · rename_i hemit hevent hcommand
    rw [hemit, hevent, hcommand] at hbuild
    cases hbuild
    exact Option.some.inj hdata
  · cases hdata

/-- The payload of every emit and command that acts is its data with the event's values put in,
    exactly if there are none to put in but those the data has already. -/
theorem payloads_substituted_iff {sha256Hex : String → String} {sem : Semantics} {now : Time} {revision : RuleRevision}
    {event : EventEnvelope} {d : Decision} (num : Numbers) (texts : Texts)
    (hd : evaluate sha256Hex sem now revision event = .ok d) :
    (∀ p ∈ (acting sem revision event revision.compiled).zip d.effects, ∀ data ∈ payloadData p.1.action,
      Substituted num (texts.read event.data) (texts.read data) (texts.read p.2.payload)) ↔
    ∀ a ∈ acting sem revision event revision.compiled, ∀ data ∈ payloadData a.action,
      ∀ s, Json.str s ∈ (texts.read data).canon.leaves → ∀ v, Refers num (texts.read event.data) s v → v = .str s := by
  obtain ⟨-, hbuilds, -⟩ := evaluate_acting hd
  generalize acting sem revision event revision.compiled = as at hbuilds ⊢
  generalize d.effects = effects at hbuilds ⊢
  -- one action and its effect at a time
  induction hbuilds with
  | nil => simp
  | @cons a effect as effects hbuild hrest ih =>
    simp only [List.zip_cons_cons, List.forall_mem_cons, ih]
    apply and_congr_left'
    apply forall₂_congr
    intro data hdata
    rw [buildEffect_payload hbuild hdata, substituted_self_iff]

namespace PayloadSample

def dataText : RawMessage := "\x7b\"order_id\":\"$.id\"\x7d"

def fullText : RawMessage := "\x7b\"id\":\"order-4821\",\"total\":900\x7d"

def bareText : RawMessage := "\x7b\"total\":900\x7d"

def rulesText : RawMessage :=
  "[\x7b\"id\":\"review\",\"priority\":1,\"when\":\x7b\"path\":\"$.total\",\"op\":\"exists\"\x7d," ++
  "\"then\":[\x7b\"emit\":\x7b\"topic\":\"orders.review\",\"data\":\x7b\"order_id\":\"$.id\"\x7d\x7d\x7d]\x7d]"

def source : RawMessage :=
  "\x7b\"rule_set\":\"order.placed\",\"revision\":1,\"mode\":\"first_match\",\"rules\":" ++ rulesText ++ "\x7d"

def review : RawRule where
  id := "review"
  name := ""
  priority := 1
  when := .mk none none none "$.total" "exists" none
  then_ := [⟨some ⟨"orders.review", dataText⟩, none, none⟩]
  otherwise := []

def codec : Codec where
  ruleSet text := if text = source then .ok ⟨"order.placed", 1, "first_match", rulesText⟩ else .error (.msg "not read")
  rules text := if text = rulesText then .ok [review] else .error (.msg "not read")
  valid _ := true
  payloadSize _ := 19

def texts : Texts where
  read text :=
    if text = dataText then .obj [("order_id", .str "$.id")]
    else if text = fullText then .obj [("id", .str "order-4821"), ("total", .num "900")]
    else if text = bareText then .obj [("total", .num "900")]
    else .null
  goWrite v := v.render (Json.compact (Json.quote htmlEscape) id)
  goMarshal _ := .error (.msg "not written")
  rfc3339 _ := "2026-01-02T03:04:05Z"

def contentHash : String := "640d7a6d529a00c24b7b0c1c2d8d6bcc16173484a3c96f08d72e6b987fd7fab2"

def effectHash : String := "40eb327a345d3a61009da95d4ce53980cf8345c40309f18d14e708eb4ef356c5"

def decisionHash : String := "fe74820987d02002092d6aa2a861d12b43a2e4b772ba16d46d10081e5df5e6fd"

def sha256Hex : String → String := Text.digest
  [(source, contentHash), ("acme|o-1|order.placed|1|review|0", effectHash),
   (contentHash ++ "review" ++ effectHash ++ "o-1", decisionHash)]

def revision : RuleRevision := ⟨"", "order.placed", 1, contentHash, .firstMatch, [review.compiled]⟩

def event (data : RawMessage) : EventEnvelope := ⟨"o-1", "order.placed", "acme", "k", "", 63902822400000000, data, []⟩

def effect : Effect := ⟨effectHash, "orders.review", "orders.review", dataText, .emit, 63902822400000000⟩

def decision : Decision :=
  ⟨["review"], [effect], decisionHash, [⟨"review", "", true, 1, "predicate matched", ["emit:orders.review"]⟩]⟩

set_option maxRecDepth 20000 in
theorem compile_source : compile codec defaultLimits sha256Hex source = .ok revision := rfl

set_option maxRecDepth 20000 in
theorem evaluate_full : evaluate sha256Hex (documentSemantics integers texts) 63902822400000000 revision
    (event fullText) =
    .ok decision := rfl

set_option maxRecDepth 20000 in
theorem evaluate_bare : evaluate sha256Hex (documentSemantics integers texts) 63902822400000000 revision
    (event bareText) =
    .ok decision := rfl

def act : Acting := ⟨"review", 0, ⟨some ⟨"orders.review", dataText⟩, none, none⟩⟩

theorem acting_event (data : RawMessage)
    (h : holds (documentSemantics integers texts) (event data) review.compiled = true) :
    acting (documentSemantics integers texts) revision (event data) revision.compiled = [act] := by
  have hreached : reached (documentSemantics integers texts) revision (event data) revision.compiled =
      [review.compiled] :=
    if_pos ⟨rfl, h⟩
  have hactions : actionsOf (documentSemantics integers texts) (event data) review.compiled = review.then_ := if_pos h
  rw [acting, hreached, List.flatMap_singleton, hactions]
  rfl

theorem data_string {s : String} (h : Json.str s ∈ (texts.read dataText).canon.leaves) : s = "$.id" := by
  have hleaves : (texts.read dataText).canon.leaves = [.str "$.id"] := rfl
  rw [hleaves, List.mem_singleton] at h
  exact Json.str.inj h

theorem refers_full : Refers integers (texts.read fullText) "$.id" (.str "order-4821") := ⟨by decide, rfl⟩

theorem refers_bare {v : Json} : ¬ Refers integers (texts.read bareText) "$.id" v := by
  rintro ⟨-, h⟩
  have hnone : resolvePath integers "$.id" (texts.read bareText) [] = .ok none := rfl
  rw [hnone] at h
  cases h

end PayloadSample

open PayloadSample in
/-- An event without the field the data refers to. -/
theorem payloads_substituted_bare : Substituted integers (texts.read bareText) (texts.read dataText)
    (texts.read effect.payload) := by
  refine (payloads_substituted_iff integers texts evaluate_bare).mpr ?_ (act, effect) ?_ dataText rfl
  · rw [acting_event bareText rfl]
    intro a ha data hdata s hs v hv
    rw [List.mem_singleton.mp ha] at hdata
    obtain rfl : dataText = data := Option.some.inj hdata
    rw [data_string hs] at hv
    exact absurd hv refers_bare
  · rw [acting_event bareText rfl]
    exact List.mem_singleton.mpr rfl

open PayloadSample in
/-- The example of the guide: the payload still has the path in it. -/
theorem payload_not_substituted :
    compile codec defaultLimits sha256Hex source = .ok revision ∧ (event fullText).validate = .ok () ∧
    evaluate sha256Hex (documentSemantics integers texts) 63902822400000000 revision (event fullText) = .ok decision ∧
    acting (documentSemantics integers texts) revision (event fullText) revision.compiled = [act] ∧
    decision.effects = [effect] ∧ payloadData act.action = some dataText ∧
    texts.read effect.payload = .obj [("order_id", .str "$.id")] ∧
    ¬ Substituted integers (texts.read fullText) (texts.read dataText) (texts.read effect.payload) := by
  refine ⟨compile_source, rfl, evaluate_full, acting_event fullText rfl, rfl, rfl, rfl, fun h => ?_⟩
  have hleaf : Json.str "$.id" ∈ (texts.read dataText).canon.leaves := List.mem_singleton.mpr rfl
  have hself := substituted_self_iff.mp h "$.id" hleaf _ refers_full
  exact absurd (Json.str.inj hself) (by decide)

end FlowRule.Rules
