import FlowRule.Lib.Checks
import FlowRule.Rules.RustRules

/- The two rule engines decide the same. Where the predicates have the same outcome and neither
   engine fails, the two loops match the same rules and build the same effects but for their
   payloads. Each child event carries the same identity in both payloads; reading it back out of
   the JSON is a parameter (`readID`). -/
namespace FlowRule.Rules

section
variable (readID : RawMessage → Option String)

/-- Effects with the same identity, type and address, and the same child event. -/
structure SameEffect (go rust : Effect) : Prop where
  id : go.id = rust.id
  type : go.effectType = rust.effectType
  destination : go.destination = rust.destination
  name : go.name = rust.name
  child : go.effectType = .emitEvent → readID go.payload = readID rust.payload

end

section
variable {sha256Hex : String → String} {sem : Semantics} {rsem : Rust.Semantics} {now : Time}
  {readID : RawMessage → Option String} {revision : RuleRevision} {event : EventEnvelope}

section
variable (hgoID : ∀ env text, sem.marshal env = .ok text → readID text = some env.id)
  (hrustID : ∀ env, readID (rsem.toValue env) = some env.id)
include hgoID hrustID

/-- One action: the identity is fixed before the action is looked at, and the child's is the
    hash of the same text. -/
theorem buildEffect_same {ruleID : String} {n : Nat} {action : Action}
    {ef ef' : Effect} (hgo : buildEffect sha256Hex sem now revision event ruleID n action = .ok ef)
    (hrust : Rust.buildEffect sha256Hex rsem now revision event ruleID n action = .ok ef') :
    SameEffect readID ef ef' := by
  unfold Rust.buildEffect at hrust
  unfold buildEffect at hgo
  split at hrust
  · -- emit
    rename_i emit h₁ h₂ h₃
    rw [h₁] at hgo
    simp only [Rust.buildEmitEffect] at hrust
    split at hrust
    · cases hrust
    cases hrust
    cases hgo
    exact ⟨rfl, rfl, rfl, rfl, by simp⟩
  · -- emit_event
    rename_i child h₁ h₂ h₃
    rw [h₁, h₂] at hgo
    obtain ⟨key', -, hrust⟩ := Checks.bind_ok.mp hrust
    obtain ⟨key, -, hgo⟩ := Checks.bind_ok.mp hgo
    obtain ⟨data, -, hgo⟩ := Checks.bind_ok.mp hgo
    obtain ⟨encoded, henc, hgo⟩ := Checks.bind_ok.mp hgo
    cases hrust
    cases hgo
    refine ⟨rfl, rfl, rfl, rfl, ?_⟩
    intro _
    have hmarshal : sem.marshal (buildChildEventEnvelope event child
        (computeChildEventID sha256Hex event.id ruleID n) key data now) = .ok encoded := by
      cases hm : sem.marshal (buildChildEventEnvelope event child
        (computeChildEventID sha256Hex event.id ruleID n) key data now) with
      | error e =>
        rw [hm] at henc
        cases henc
      | ok text =>
        rw [hm] at henc
        exact henc
    calc readID encoded = some (computeChildEventID sha256Hex event.id ruleID n) := hgoID _ _ hmarshal
      _ = _ := (hrustID (Rust.buildChildEventPayload rsem now child event _ key')).symm
  · -- command
    rename_i command h₁ h₂ h₃
    rw [h₁, h₂, h₃] at hgo
    simp only [Rust.buildCommandEffect] at hrust
    split at hrust
    · cases hrust
    cases hrust
    cases hgo
    exact ⟨rfl, rfl, rfl, rfl, by simp⟩
  · cases hrust

theorem buildEffects_same {ruleID context : String} {actions : List Action} :
    ∀ {n : Nat} {efs efs' : List Effect},
    buildEffects sha256Hex sem now revision event ruleID context n actions = .ok efs →
    Rust.buildEffects sha256Hex rsem now revision event ruleID n actions = .ok efs' →
    List.Forall₂ (SameEffect readID) efs efs' := by
  induction actions with
  | nil =>
    intro n efs efs' hgo hrust
    cases hgo
    cases hrust
    exact .nil
  | cons action rest ih =>
    intro n efs efs' hgo hrust
    obtain ⟨ef', hone', hrust⟩ := Checks.bind_ok.mp hrust
    obtain ⟨rest', hrest', hrust⟩ := Checks.bind_ok.mp hrust
    cases hrust
    simp only [buildEffects] at hgo
    split at hgo
    · cases hgo
    rename_i ef hone
    obtain ⟨rest₀, hrest, rfl⟩ := Checks.map_ok.mp hgo
    exact .cons (buildEffect_same hgoID hrustID hone hone') (ih hrest hrest')

/-- The loops stay in step: the same rules matched, the same effects built. -/
theorem evaluateRules_same {rules : List CompiledRule} :
    ∀ {acc c : Collected} {efs : List Effect} {r : List String × List Effect},
    (∀ rule ∈ rules, ∀ b, sem.evalPredicate rule.when event.data = .ok b ↔
      rsem.evalPredicate rule.when event.data = .ok b) →
    List.Forall₂ (SameEffect readID) acc.effects efs →
    evaluateRules sha256Hex sem now revision event rules acc = .ok c →
    Rust.evaluateRules sha256Hex rsem now revision event rules acc.matched efs = .ok r →
    c.matched = r.1 ∧ List.Forall₂ (SameEffect readID) c.effects r.2 := by
  induction rules with
  | nil =>
    intro acc c efs r _ hacc hgo hrust
    cases hgo
    cases hrust
    exact ⟨rfl, hacc⟩
  | cons rule rest ih =>
    intro acc c efs r hpred hacc hgo hrust
    obtain ⟨b, hb', hrust⟩ := Checks.bind_ok.mp hrust
    have hb := (hpred rule (by simp) b).mpr hb'
    obtain ⟨built', hbuilt', hrust⟩ := Checks.bind_ok.mp hrust
    simp only [evaluateRules, hb] at hgo
    split at hgo
    · cases hgo
    rename_i acc' hturn
    obtain ⟨built, hbuilt, rfl⟩ := Checks.map_ok.mp hturn
    have heffects : List.Forall₂ (SameEffect readID) (acc.effects ++ built) (efs ++ built') :=
      List.rel_append hacc (buildEffects_same hgoID hrustID hbuilt hbuilt')
    split at hgo
    · -- both loops end at the first match
      rename_i hstop
      rw [if_pos hstop] at hrust
      cases hgo
      cases hrust
      exact ⟨rfl, heffects⟩
    · rename_i hstop
      rw [if_neg hstop] at hrust
      exact ih (fun rule' hr => hpred rule' (by simp [hr])) heffects hgo hrust

end

/-- The decision hash sees of the effects only their identities. -/
theorem foldl_ids {readID : RawMessage → Option String} {efs efs' : List Effect}
    (h : List.Forall₂ (SameEffect readID) efs efs') :
    ∀ m : String, efs.foldl (fun m ef => m ++ ef.id) m = efs'.foldl (fun m ef => m ++ ef.id) m := by
  induction h with
  | nil => exact fun _ => rfl
  | cons hone _ ih =>
    intro m
    simp only [List.foldl_cons, hone.id]
    exact ih _

theorem executionText_written {t e r : String} {n : Int} : executionText t e r n =
    "execution|" ++ toString t.utf8ByteSize ++ ":" ++ t ++ "|" ++ toString e.utf8ByteSize ++ ":" ++ e ++ "|" ++
      toString r.utf8ByteSize ++ ":" ++ r ++ "|" ++ toString n := by
  unfold executionText Text.prefixed
  repeat rw [String.append_assoc]

/-- Go's Evaluate and Rust's evaluate on one revision and one event. -/
theorem decision_identity (hgoID : ∀ env text, sem.marshal env = .ok text → readID text = some env.id)
    (hrustID : ∀ env, readID (rsem.toValue env) = some env.id)
    (hpred : ∀ rule ∈ revision.compiled, ∀ b, sem.evalPredicate rule.when event.data = .ok b ↔
      rsem.evalPredicate rule.when event.data = .ok b)
    {d : Decision} {matched : List String} {effects : List Effect}
    (hgo : evaluate sha256Hex sem now revision event = .ok d)
    (hrust : Rust.evaluate sha256Hex rsem now revision event = .ok (matched, effects)) :
    d.matchedRules = matched ∧ List.Forall₂ (SameEffect readID) d.effects effects ∧
      d.hash = Rust.calculateDecisionHash sha256Hex revision event matched effects ∧
      computeExecutionID sha256Hex event.tenantID event.id event.type revision.revision =
        Rust.calculateExecutionID sha256Hex event revision.revision := by
  obtain ⟨c, hc, rfl⟩ := Checks.map_ok.mp hgo
  obtain ⟨hmatched, heffects⟩ := evaluateRules_same hgoID hrustID hpred .nil hc hrust
  refine ⟨hmatched, heffects, ?_, ?_⟩
  · have hm : c.matched = matched := hmatched
    simp only [computeDecisionHash, Rust.calculateDecisionHash]
    rw [hm, foldl_ids heffects, String.append_empty]
  · exact congrArg sha256Hex executionText_written

end

/-! A rule that emits a child event, decided by both workers. -/

namespace AgreementSample

def rule : CompiledRule where
  id := "big"
  name := ""
  priority := 1
  when := .mk none none none "$.amount" "gt" (some (.num "100"))
  then_ := [⟨none, some ⟨"order.flagged", "", .inherit, "", "\x7b\x7d"⟩, none⟩]
  otherwise := []

def revision : RuleRevision :=
  ⟨"acme", "order.placed", 1, "cdf6b142f1a22fd165f3faf0e43a48e73e48f28d75cd73ee76fd1a3c4c3be8b6", .allMatches, [rule]⟩

def event : EventEnvelope :=
  ⟨"o-1", "order.placed", "acme", "k", "", 63902822400000000, "\x7b\"amount\":500\x7d", []⟩

def childID : String := "2c5900de4fbab991917929580b1b98d09a8e943356dff035c88c2f40f1c34571"

def effectID : String := "f8bc2a8fb007d5381e27eddd91134386c4de99700514ece84387f203b2736611"

def sha256Hex : String → String := Text.digest
  [("acme|o-1|order.placed|1|big|0", effectID),
   ("child|o-1|big|0", childID),
   (revision.contentHash ++ "big" ++ effectID ++ "o-1",
    "8f1302a6ee51bcb69ef2320f0dc4870993294546dea8de942aa7137533d5e92f")]

def goText : RawMessage :=
  "\x7b\"id\":\"" ++
    childID ++
    "\",\"type\":\"order.flagged\",\"tenant_id\":\"acme\"," ++
    "\"partition_key\":\"k\"," ++
    "\"occurred_at\":\"2026-01-01T00:00:00Z\",\"data\":\x7b\x7d," ++
    "\"headers\":\x7b\"flowrule_child_event_id\":\"" ++
    childID ++
    "\",\"flowrule_parent_event_id\":\"o-1\"\x7d\x7d"

/-- The child as serde_json writes it. -/
def rustText : RawMessage :=
  "\x7b\"data\":\x7b\x7d,\"headers\":\x7b\"flowrule_child_event_id\":\"" ++
    childID ++
    "\",\"flowrule_parent_event_id\":\"o-1\"\x7d,\"id\":\"" ++
    childID ++
    "\",\"occurred_at\":\"2026-01-01T00:00:00Z\"," ++
    "\"partition_key\":\"k\",\"tenant_id\":\"acme\"," ++
    "\"type\":\"order.flagged\"\x7d"

def goSemantics : Semantics where
  evalPredicate _ _ := .ok true
  resolvePath _ _ := .ok none
  interpolateTemplates data _ _ _ := .ok data
  marshal env := if env.id = childID then .ok goText else .error (.msg "not written")

def rustSemantics : Rust.Semantics where
  evalPredicate _ _ := .ok true
  resolvePath _ _ := none
  interpolateTemplates data _ _ _ := data
  toValue env := if env.id = childID then rustText else "#" ++ env.id

def readID (text : RawMessage) : Option String :=
  if text = goText ∨ text = rustText then some childID
  else if text.toList.head? = some '#' then some (String.ofList text.toList.tail) else none

theorem readID_marked (id : String) : readID ("#" ++ id) = some id := by
  have hhead : ("#" ++ id).toList = '#' :: id.toList := by simp
  have hgo : "#" ++ id ≠ goText := by
    intro h
    have := congrArg (fun s => s.toList.head?) h
    rw [hhead, List.head?_cons] at this
    revert this
    decide +kernel
  have hrust : "#" ++ id ≠ rustText := by
    intro h
    have := congrArg (fun s => s.toList.head?) h
    rw [hhead, List.head?_cons] at this
    revert this
    decide +kernel
  simp [readID, hgo, hrust, hhead]

end AgreementSample

open AgreementSample

theorem decision_identity_child :
    ∃ d matched effects,
      evaluate sha256Hex goSemantics 63902822400000000 revision
        event = .ok d ∧
      Rust.evaluate sha256Hex rustSemantics 63902822400000000
        revision event = .ok (matched, effects) ∧
      matched = ["big"] ∧ List.Forall₂ (SameEffect readID) d.effects effects := by
  have hgoID : ∀ env text, goSemantics.marshal env = .ok text →
      readID text = some env.id := by
    intro env text h
    by_cases hid : env.id = childID
    · simp only [goSemantics, hid, if_true, Except.ok.injEq] at h
      rw [← h, hid]
      simp [readID]
    · simp [goSemantics, hid] at h
  have hrustID : ∀ env, readID (rustSemantics.toValue env) = some env.id := by
    intro env
    by_cases hid : env.id = childID
    · simp [rustSemantics, hid, readID]
    · simp only [rustSemantics, hid, if_false]
      exact readID_marked env.id
  obtain ⟨d, hd⟩ : ∃ d, evaluate sha256Hex goSemantics 63902822400000000
      revision event = .ok d := ⟨_, rfl⟩
  obtain ⟨effects, hr⟩ : ∃ effects, Rust.evaluate sha256Hex rustSemantics
      63902822400000000 revision event = .ok (["big"], effects) := ⟨_, rfl⟩
  exact ⟨d, ["big"], effects, hd, hr, rfl,
    (decision_identity hgoID hrustID (fun _ _ _ => Iff.rfl) hd hr).2.1⟩

end FlowRule.Rules
