import FlowRule.Lib.Checks
import FlowRule.Rules.Templates

/- What Compile accepts of an emit_event action, and the child the Go engine then builds: it has a
   key unless the text of the key is empty (`go_key`), and data unless those of the action have a
   number out of range (`go_child`). -/
namespace FlowRule
open Checks Rules Json

/-! What is accepted of an emit_event action. -/

def EmitEventAction.policy (action : EmitEventAction) : PartitionKeyPolicy :=
  if action.partitionKeyPolicy.text = "" then .explicit else action.partitionKeyPolicy

/-- The key of an accepted action is given, inherited, or at a path from the root. -/
inductive AcceptedKey (action : EmitEventAction) : Prop
  | explicit (hpolicy : action.policy = .explicit) (hkey : action.partitionKey ≠ "")
  | inherit (hpolicy : action.policy = .inherit)
  | fromData (hpolicy : action.policy = .fromData) (hpath : action.partitionKeyPath ≠ "")
      (hroot : "$.".toList <+: action.partitionKeyPath.toList)

theorem validateEmitEventAction_ok {codec : Codec} {limits : Limits} {action : EmitEventAction}
    (h : validateEmitEventAction codec limits action = .ok ()) :
    validPartitionKeyPolicy action.policy = true ∧
      validatePartitionKeyPolicy action action.policy = .ok () ∧ action.type ≠ "" ∧
      codec.valid action.data = true := by
  unfold validateEmitEventAction at h
  by_cases hvalid : validPartitionKeyPolicy action.policy = true
  · obtain ⟨_, hkey, hrest⟩ := bind_ok.mp ((if_pos hvalid).symm.trans h)
    obtain ⟨htype, -⟩ := ite_ok.mp hrest
    simp only [Bool.or_eq_true, decide_eq_true_eq, not_or, Bool.not_eq_true', Bool.not_eq_false] at htype
    exact ⟨hvalid, hkey, htype.1.1, htype.2⟩
  · have herror := (if_neg hvalid).symm.trans h
    cases herror

theorem acceptedKey {codec : Codec} {limits : Limits} {action : EmitEventAction}
    (h : validateEmitEventAction codec limits action = .ok ()) : AcceptedKey action := by
  obtain ⟨hvalid, hkey, -, -⟩ := validateEmitEventAction_ok h
  cases hp : action.policy with
  | explicit =>
    rw [hp] at hkey
    exact .explicit hp (ite_ok.mp hkey).1
  | inherit => exact .inherit hp
  | fromData =>
    rw [hp] at hkey
    obtain ⟨hpath, -⟩ := ite_ok.mp hkey
    obtain ⟨hne, hroot⟩ := not_or.mp hpath
    exact .fromData hp hne (not_not.mp hroot)
  | unset | other _ =>
    rw [hp] at hvalid
    cases hvalid

/-! Partition keys. -/

section
variable (num : Numbers)

def goPathText (path : String) (data : Json) : String :=
  match resolvePath num path data [] with
  | .ok (some v) => sprint num (some v)
  | _ => ""

def keyText (action : EmitEventAction) (event : EventEnvelope) (pathText : String) : String :=
  match action.policy with
  | .inherit => event.partitionKey
  | .fromData => pathText
  | _ => action.partitionKey

variable {num} {action : EmitEventAction} {event : EventEnvelope}

theorem keyText_explicit (h : action.policy = .explicit) (t : String) :
    keyText action event t = action.partitionKey := by
  rw [keyText, h]

theorem keyText_inherit (h : action.policy = .inherit) (t : String) :
    keyText action event t = event.partitionKey := by
  rw [keyText, h]

theorem keyText_fromData (h : action.policy = .fromData) (t : String) : keyText action event t = t := by
  rw [keyText, h]

/-- Go fails with an empty key, and only then. -/
theorem go_key (num : Numbers) (texts : Texts) (event : EventEnvelope) (h : AcceptedKey action) : ∃ e,
    resolveEmitEventPartitionKey (documentSemantics num texts) action event =
      let key := keyText action event (goPathText num action.partitionKeyPath (texts.read event.data))
      if key = "" then .error e else .ok key := by
  have hpolicy : (if action.partitionKeyPolicy.text = "" then PartitionKeyPolicy.explicit
    else action.partitionKeyPolicy) = action.policy := rfl
  simp only [resolveEmitEventPartitionKey, hpolicy]
  cases h with
  | explicit hp hkey =>
    rw [keyText_explicit hp, hp]
    exact ⟨_, rfl⟩
  | inherit hp =>
    rw [keyText_inherit hp, hp]
    exact ⟨_, rfl⟩
  | fromData hp hpath hroot =>
    rw [keyText_fromData hp, hp]
    simp only [hpath, ↓reduceIte, documentSemantics]
    cases hres : resolvePath num action.partitionKeyPath (texts.read event.data) [] with
    | error e =>
      rw [goPathText, hres]
      exact ⟨_, rfl⟩
    | ok found =>
      rw [goPathText, hres]
      cases found with
      | none | some v => exact ⟨_, rfl⟩

end

/-! Children. -/

section
variable (num : Numbers) (sha256Hex : String → String) (texts : Texts) (now : Time) (event : EventEnvelope)
  (ruleID : String) (index : Nat) {action : EmitEventAction}

def childWith (action : EmitEventAction) (key : String) (data : Json) : ChildEvent :=
  ⟨computeChildEventID sha256Hex event.id ruleID index, action.type, event.tenantID, key, data,
    [("flowrule_parent_event_id", event.id),
     ("flowrule_child_event_id", computeChildEventID sha256Hex event.id ruleID index)]⟩

def childContext : TemplateContext :=
  ⟨texts.read event.data, computeChildEventID sha256Hex event.id ruleID index, texts.rfc3339 now⟩

theorem go_child (h : AcceptedKey action) : ∃ e e',
    childEvent num sha256Hex texts now event ruleID index action =
      let key := keyText action event (goPathText num action.partitionKeyPath (texts.read event.data))
      if key = "" then .error e
      else if Readable num (texts.read action.data) then
        .ok (childWith sha256Hex event ruleID index action key
          ((walk num (childContext sha256Hex texts now event ruleID index)
            (texts.read action.data).canon).mapLeaves (fun literal => .num (numberText num literal)) .str))
      else .error e' := by
  obtain ⟨e, hgo⟩ := go_key num texts event h
  dsimp only at hgo ⊢
  unfold childEvent
  rw [hgo]
  by_cases hkey : keyText action event (goPathText num action.partitionKeyPath (texts.read event.data)) = ""
  · simp only [if_pos hkey]
    exact ⟨e, e, rfl⟩
  · simp only [if_neg hkey]
    by_cases hr : Readable num (texts.read action.data)
    · simp only [if_pos hr, interpolateTemplates, unmarshal_readable hr]
      exact ⟨e, e, rfl⟩
    · obtain ⟨e', he'⟩ := unmarshal_unreadable hr
      simp only [if_neg hr, interpolateTemplates, he']
      exact ⟨e, _, rfl⟩

end

end FlowRule
