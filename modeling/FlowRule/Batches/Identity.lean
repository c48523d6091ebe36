import FlowRule.Batches.Service
import FlowRule.Lib.Spelling

/- What a batch ID says of the batch (ComputeBatchID in internal/domain/batch.go). Tenant, partition
   key, rule set and the sorted events are joined with bars, the events among each other with
   commas, and names may contain both. Two batches have one ID though they differ exactly if the
   texts have the same words but the separators belong to other fields (`Shifted`). -/
namespace FlowRule.Batches

open Text

/-- What ComputeBatchID is given. -/
structure Scope where
  tenantID : String
  partitionKey : String
  ruleSet : String
  eventIDs : List String

namespace Scope

def batchID (sha256Hex : String → String) (b : Scope) : String :=
  computeBatchID sha256Hex b.tenantID b.partitionKey b.ruleSet b.eventIDs

def Same (a b : Scope) : Prop :=
  a.tenantID = b.tenantID ∧ a.partitionKey = b.partitionKey ∧ a.ruleSet = b.ruleSet ∧ a.eventIDs.Perm b.eventIDs

def sorted (b : Scope) : List String := b.eventIDs.insertionSort (· ≤ ·)

/-- The fields of the text that is hashed; the events are one of them. -/
def fields (b : Scope) : List String := [b.tenantID, b.partitionKey, b.ruleSet, ",".intercalate b.sorted]

/-- Every field has as many words between bars in both, and every event as many between commas. -/
def Aligned (a b : Scope) : Prop :=
  a.fields.map (fun f => (words '|' f).length) = b.fields.map (fun f => (words '|' f).length) ∧
    a.sorted.map (fun id => (words ',' id).length) = b.sorted.map (fun id => (words ',' id).length)

/-- Between the bars the same words stand in both, but not in the same fields or events. -/
def Shifted (a b : Scope) : Prop :=
  a.fields.flatMap (words '|') = b.fields.flatMap (words '|') ∧ ¬ Aligned a b

instance (a b : Scope) : Decidable (Aligned a b) := inferInstanceAs (Decidable (_ ∧ _))

instance (a b : Scope) : Decidable (Shifted a b) := inferInstanceAs (Decidable (_ ∧ _))

instance (a b : Scope) : Decidable (Same a b) := inferInstanceAs (Decidable (_ ∧ _))

variable {sha256Hex : String → String} {a b : Scope}

theorem batchID_fields : b.batchID sha256Hex = sha256Hex ("|".intercalate b.fields) := by
  simp [batchID, computeBatchID, fields, sorted, String.append_assoc]

theorem batchID_eq_iff (hsha : Function.Injective sha256Hex) :
    a.batchID sha256Hex = b.batchID sha256Hex ↔ a.fields.flatMap (words '|') = b.fields.flatMap (words '|') := by
  rw [batchID_fields, batchID_fields, hsha.eq_iff, ← (words_injective '|').eq_iff]
  exact iff_of_eq (congrArg₂ (· = ·) (words_join '|' (by simp [fields])) (words_join '|' (by simp [fields])))

theorem sorted_eq_iff : a.sorted = b.sorted ↔ a.eventIDs.Perm b.eventIDs := by
  have ha := List.perm_insertionSort (· ≤ ·) a.eventIDs
  have hb := List.perm_insertionSort (· ≤ ·) b.eventIDs
  constructor
  · intro h
    exact ha.symm.trans ((List.Perm.of_eq h).trans hb)
  · intro h
    exact List.Perm.eq_of_pairwise' (List.pairwise_insertionSort _ _) (List.pairwise_insertionSort _ _)
      (ha.trans (h.trans hb.symm))

theorem same_iff_fields : Same a b ↔ a.fields = b.fields ∧ a.sorted = b.sorted := by
  rw [sorted_eq_iff]
  constructor
  · rintro ⟨ht, hp, hr, hids⟩
    exact ⟨by rw [fields, fields, ht, hp, hr, sorted_eq_iff.mpr hids], hids⟩
  · rintro ⟨hf, hids⟩
    simp only [fields, List.cons.injEq] at hf
    exact ⟨hf.1, hf.2.1, hf.2.2.1, hids⟩

/-- Where the separators stand in the same fields, the fields and the events are read back. -/
theorem Aligned.same (h : Aligned a b) (hw : a.fields.flatMap (words '|') = b.fields.flatMap (words '|')) :
    Same a b := by
  have hf : a.fields = b.fields := flatMap_inj_of_length (words_injective '|') h.1 hw
  have hids : ",".intercalate a.sorted = ",".intercalate b.sorted := by
    simp only [fields, List.cons.injEq] at hf
    exact hf.2.2.2.1
  exact same_iff_fields.mpr ⟨hf, join_inj (c := ',') h.2 hids⟩

/-- Batch IDs are equal exactly for the same tenant, key, rule set and set of events, for two
    batches of which the one is not the other with its separators in other fields. -/
theorem batch_id_identifies_iff (hsha : Function.Injective sha256Hex) (a b : Scope) :
    (a.batchID sha256Hex = b.batchID sha256Hex ↔ Same a b) ↔ ¬ Shifted a b := by
  rw [batchID_eq_iff hsha]
  constructor
  · rintro h ⟨hw, hshift⟩
    obtain ⟨hf, hids⟩ := same_iff_fields.mp (h.mp hw)
    exact hshift ⟨by rw [hf], by rw [hids]⟩
  · intro hshift
    constructor
    · intro hw
      exact (not_not.mp (not_and.mp hshift hw)).same hw
    · intro h
      rw [(same_iff_fields.mp h).1]

end Scope

namespace Regions

def sha256Hex : String → String := Text.digest
  [("acme|eu|1|order.placed|o-1,o-2", "708d438f2ea7409d79df83d61224a053395f76f4ab51764a477b2eba0a5fb77d")]

def acme : Scope := ⟨"acme", "eu|1", "order.placed", ["o-1", "o-2"]⟩

def reordered : Scope := ⟨"acme", "eu|1", "order.placed", ["o-2", "o-1"]⟩

def acmeEu : Scope := ⟨"acme|eu", "1", "order.placed", ["o-2", "o-1"]⟩

def oneEvent : Scope := ⟨"acme", "eu|1", "order.placed", ["o-1,o-2"]⟩

theorem sha256Hex_inj : Function.Injective sha256Hex :=
  Text.digest_injective (by simp) (by decide +kernel)

end Regions

open Regions

/-- The order of the events does not matter. -/
theorem batch_id_identifies_reordered :
    (acme.batchID sha256Hex = reordered.batchID sha256Hex ↔
      acme.Same reordered) ∧ ¬ acme.Shifted reordered := by
  refine ⟨(Scope.batch_id_identifies_iff sha256Hex_inj _ _).mpr ?_, ?_⟩ <;> decide +kernel

/-- Two tenants with one batch ID, and two events with that of one. -/
theorem batch_id_clash :
    acme.batchID sha256Hex = acmeEu.batchID sha256Hex ∧
      ¬ acme.Same acmeEu ∧
      acme.batchID sha256Hex = oneEvent.batchID sha256Hex ∧
      ¬ acme.Same oneEvent := by
  decide +kernel

end FlowRule.Batches
