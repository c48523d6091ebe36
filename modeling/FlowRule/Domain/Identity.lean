import FlowRule.Domain.Types

/- Identities derived by hashing (internal/domain/types.go, engine.rs). sha256 in lowercase
   hexadecimal is a parameter; results that need it assume it injective.

   Identities of executions and of quarantine records write every field with its byte length
   (`computeExecutionID_inj`, `quarantineText_inj`). Those of effects and child events join
   their fields with a bar only (`effectText_inj`, `computeChildEventID_eq_iff`). -/
namespace FlowRule

open Text

section
variable (sha256Hex : String → String)

def executionText (tenantID eventID ruleSet : String) (revision : Int) : String :=
  "execution|" ++ prefixed tenantID ++ "|" ++ prefixed eventID ++ "|" ++ prefixed ruleSet ++ "|" ++
    toString revision

def computeExecutionID (tenantID eventID ruleSet : String) (revision : Int) : String :=
  sha256Hex (executionText tenantID eventID ruleSet revision)

def effectText (tenantID eventID ruleSet : String) (revision : Int) (ruleID : String)
    (actionIndex : Nat) : String :=
  tenantID ++ "|" ++ eventID ++ "|" ++ ruleSet ++ "|" ++ toString revision ++ "|" ++ ruleID ++ "|" ++
    toString actionIndex

def computeEffectID (tenantID eventID ruleSet : String) (revision : Int) (ruleID : String)
    (actionIndex : Nat) : String :=
  sha256Hex (effectText tenantID eventID ruleSet revision ruleID actionIndex)

/-- The decision hash: content hash, matched rules, effect identities and event, joined. -/
def computeDecisionHash (revisionHash eventID factsHash : String) (matched : List String)
    (effects : List Effect) : String :=
  sha256Hex (effects.foldl (fun h ef => h ++ ef.id) (matched.foldl (fun h id => h ++ id) revisionHash)
    ++ eventID ++ factsHash)

/-- The text whose hash is the identity of the quarantine record of an event. -/
def quarantineText (tenantID sourceID eventID errClass : String) : String :=
  "event-quarantine|" ++ prefixed tenantID ++ "|" ++ prefixed sourceID ++ "|" ++ prefixed eventID ++ "|" ++ errClass

def computeSourceHash (source : RawMessage) : String := sha256Hex source

def computeChildEventID (parentEventID ruleID : String) (actionIndex : Nat) : String :=
  sha256Hex ("child|" ++ parentEventID ++ "|" ++ ruleID ++ "|" ++ toString actionIndex)

end

variable {t t' e e' r r' : String} {n : Int}

theorem executionText_inj {n' : Int} (h : executionText t e r n = executionText t' e' r' n') :
    t = t' ∧ e = e' ∧ r = r' ∧ n = n' := by
  unfold executionText at h
  simp only [String.append_assoc] at h
  obtain ⟨ht, h₁⟩ := prefixed_append_inj ((String.append_right_inj _).mp h)
  obtain ⟨he, h₂⟩ := prefixed_append_inj ((String.append_right_inj _).mp h₁)
  obtain ⟨hr, h₃⟩ := prefixed_append_inj ((String.append_right_inj _).mp h₂)
  have hn := (String.append_right_inj _).mp h₃
  rw [Int.toString_eq_repr, Int.toString_eq_repr, Int.repr_inj] at hn
  exact ⟨ht, he, hr, hn⟩

theorem quarantineText_inj {s s' c c' : String} (h : quarantineText t s e c = quarantineText t' s' e' c') :
    t = t' ∧ s = s' ∧ e = e' ∧ c = c' := by
  unfold quarantineText at h
  simp only [String.append_assoc] at h
  obtain ⟨ht, h₁⟩ := prefixed_append_inj ((String.append_right_inj _).mp h)
  obtain ⟨hs, h₂⟩ := prefixed_append_inj ((String.append_right_inj _).mp h₁)
  obtain ⟨he, h₃⟩ := prefixed_append_inj ((String.append_right_inj _).mp h₂)
  exact ⟨ht, hs, he, (String.append_right_inj _).mp h₃⟩

/-- Within one event and revision the text of an effect determines its rule and its action:
    the action's number has no bar in it. -/
theorem effectText_inj {rs : String} {i i' : Nat}
    (h : effectText t e rs n r i = effectText t e rs n r' i') : r = r' ∧ i = i' := by
  obtain ⟨hr, hi⟩ := number_after_inj (c := '|') (by decide) h
  exact ⟨(String.append_right_inj _).mp hr, hi⟩

theorem computeExecutionID_inj {sha256Hex : String → String} (hsha : Function.Injective sha256Hex) {n' : Int}
    (h : computeExecutionID sha256Hex t e r n = computeExecutionID sha256Hex t' e' r' n') :
    t = t' ∧ e = e' ∧ r = r' ∧ n = n' :=
  executionText_inj (hsha h)

/-- The number at the end is read back, and the two identities before it up to the place of
    the bar between them. -/
theorem computeChildEventID_eq_iff {sha256Hex : String → String} (hsha : Function.Injective sha256Hex) {i i' : Nat} :
    computeChildEventID sha256Hex e r i = computeChildEventID sha256Hex e' r' i' ↔
      i = i' ∧ ((e = e' ∧ r = r') ∨ Moved '|' e r e' r' ∨ Moved '|' e' r' e r) := by
  unfold computeChildEventID
  rw [hsha.eq_iff, ← joined_eq_iff]
  constructor
  · intro h
    obtain ⟨hpair, hi⟩ := number_after_inj (c := '|') (by decide) h
    refine ⟨hi, ?_⟩
    simp only [String.append_assoc] at hpair ⊢
    exact (String.append_right_inj _).mp hpair
  · rintro ⟨rfl, hpair⟩
    have htext : "child|" ++ (e ++ "|" ++ r) ++ "|" ++ toString i =
        "child|" ++ (e' ++ "|" ++ r') ++ "|" ++ toString i :=
      congrArg (fun text => "child|" ++ text ++ "|" ++ toString i) hpair
    simpa only [String.append_assoc] using htext

end FlowRule
