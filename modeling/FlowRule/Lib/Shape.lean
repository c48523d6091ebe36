import FlowRule.Lib.Canonical

/- Documents that have one shape: the same objects with the same keys and the same arrays,
   while what stands for a number or a string may be related to it in a way of its own.
   For a document that was made from another by replacing its leaves this comes down to
   the leaves (`rewritten_mapLeaves_iff`). -/
namespace Json

mutual

/-- The second document is the first with its numbers and strings replaced as the two
    relations say. -/
def Rewritten (num str : String → Json → Prop) : Json → Json → Prop
  | .null, out => out = .null
  | .bool b, out => out = .bool b
  | .num literal, out => num literal out
  | .str s, out => str s out
  | .arr items, .arr outs => RewrittenItems num str items outs
  | .obj members, .obj outs => RewrittenMembers num str members outs
  | _, _ => False

def RewrittenItems (num str : String → Json → Prop) : List Json → List Json → Prop
  | [], [] => True
  | v :: rest, out :: outs => Rewritten num str v out ∧ RewrittenItems num str rest outs
  | _, _ => False

def RewrittenMembers (num str : String → Json → Prop) : List (String × Json) → List (String × Json) → Prop
  | [], [] => True
  | m :: rest, out :: outs => RewrittenMember num str m out ∧ RewrittenMembers num str rest outs
  | _, _ => False

def RewrittenMember (num str : String → Json → Prop) : String × Json → String × Json → Prop
  | (k, v), (k', out) => k = k' ∧ Rewritten num str v out

end

def LeavesRewritten (num str : String → Json → Prop) (f g : String → Json) (leaves : List Json) : Prop :=
  (∀ literal, Json.num literal ∈ leaves → num literal (f literal)) ∧ (∀ s, Json.str s ∈ leaves → str s (g s))

section
variable {num str : String → Json → Prop} {f g : String → Json}

theorem leavesRewritten_append {vs ws : List Json} :
    LeavesRewritten num str f g (vs ++ ws) ↔ LeavesRewritten num str f g vs ∧ LeavesRewritten num str f g ws := by
  unfold LeavesRewritten
  simp only [List.mem_append, or_imp, forall_and]
  exact and_and_and_comm

mutual

/-- Induction on the document: what is between the leaves stays. -/
theorem rewritten_mapLeaves_iff : ∀ v : Json,
    Rewritten num str v (v.mapLeaves f g) ↔ LeavesRewritten num str f g v.leaves
  | .null | .bool _ | .num _ | .str _ => by simp [Rewritten, mapLeaves, LeavesRewritten, leaves]
  | .arr items => by
    simp only [Rewritten, mapLeaves, leaves]
    exact rewrittenItems_mapItems_iff items
  | .obj members => by
    simp only [Rewritten, mapLeaves, leaves]
    exact rewrittenMembers_mapMembers_iff members

theorem rewrittenItems_mapItems_iff : ∀ items : List Json,
    RewrittenItems num str items (mapItems f g items) ↔ LeavesRewritten num str f g (leavesItems items)
  | [] => by simp [RewrittenItems, mapItems, LeavesRewritten, leavesItems]
  | v :: rest => by
    simp only [RewrittenItems, mapItems, leavesItems, leavesRewritten_append]
    exact and_congr (rewritten_mapLeaves_iff v) (rewrittenItems_mapItems_iff rest)

theorem rewrittenMembers_mapMembers_iff : ∀ members : List (String × Json),
    RewrittenMembers num str members (mapMembers f g members) ↔ LeavesRewritten num str f g (leavesMembers members)
  | [] => by simp [RewrittenMembers, mapMembers, LeavesRewritten, leavesMembers]
  | (k, v) :: rest => by
    simp only [RewrittenMembers, RewrittenMember, mapMembers, mapMember, leavesMembers, leavesMember,
      leavesRewritten_append, true_and]
    exact and_congr (rewritten_mapLeaves_iff v) (rewrittenMembers_mapMembers_iff rest)

end

theorem rewritten_self_iff (v : Json) : Rewritten num str v v ↔ LeavesRewritten num str .num .str v.leaves := by
  have h : Rewritten num str v (v.mapLeaves .num .str) ↔ _ := rewritten_mapLeaves_iff v
  rwa [mapLeaves_id] at h

end

theorem same_renumber_iff {r : String → String → Bool} {f : String → String} (v : Json) :
    same r v (v.renumber f) = true ↔ ∀ literal ∈ v.literals, r literal (f literal) = true := by
  have h : same r (v.mapLeaves .num .str) (v.renumber f) = true ↔ _ := same_mapLeaves_iff v
  rw [mapLeaves_id] at h
  rw [h]
  constructor
  · intro hleaves literal hl
    simpa only [same, mapLeaves] using hleaves _ (mem_literals.mp hl)
  · intro hnumbers leaf hleaf
    cases leaf with
    | num literal => simpa only [same, mapLeaves] using hnumbers literal (mem_literals.mpr hleaf)
    | null | bool b | str s => simp [same, mapLeaves]
    | arr items | obj members => exact absurd (leaves_scalar v _ hleaf) (by simp [isScalar])

end Json
