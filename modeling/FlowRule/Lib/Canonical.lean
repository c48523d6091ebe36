import FlowRule.Lib.Json
import Mathlib.Data.String.Basic

/- Documents as a reader's maps hold them. The members of a canonical object have rising
   keys, so a document is canonical once (`canon_canon`), and an object that is written with
   rising keys is canonical when its values are (`canon_fields`).

   A document can come back with its numbers spelled in another way (`renumber`). It is the
   same document to everyone who makes the same of both spellings. -/
namespace Json

/-! Numbers spelled in another way. -/

def renumber (f : String → String) (v : Json) : Json := v.mapLeaves (fun literal => .num (f literal)) .str

variable {v : Json} {literal key : String}

theorem mem_literals : literal ∈ v.literals ↔ Json.num literal ∈ v.leaves := by
  unfold literals
  rw [List.mem_filterMap]
  constructor
  · rintro ⟨leaf, hleaf, hlit⟩
    cases leaf <;> cases hlit
    exact hleaf
  · intro h
    exact ⟨_, h, rfl⟩

mutual

variable {num num' str str' : String → Json}

theorem mapLeaves_congr : ∀ v : Json,
    (∀ leaf ∈ v.leaves, leaf.mapLeaves num str = leaf.mapLeaves num' str') →
    v.mapLeaves num str = v.mapLeaves num' str'
  | .null, _ | .bool _, _ => rfl
  | .num literal, h => h (.num literal) List.mem_cons_self
  | .str s, h => h (.str s) List.mem_cons_self
  | .arr items, h => congrArg Json.arr (mapItems_congr items h)
  | .obj members, h => congrArg Json.obj (mapMembers_congr members h)

theorem mapItems_congr : ∀ items : List Json,
    (∀ leaf ∈ leavesItems items, leaf.mapLeaves num str = leaf.mapLeaves num' str') →
    mapItems num str items = mapItems num' str' items
  | [], _ => rfl
  | v :: rest, h => by
    simp only [leavesItems, List.forall_mem_append] at h
    exact congrArg₂ List.cons (mapLeaves_congr v h.1) (mapItems_congr rest h.2)

theorem mapMembers_congr : ∀ members : List (String × Json),
    (∀ leaf ∈ leavesMembers members, leaf.mapLeaves num str = leaf.mapLeaves num' str') →
    mapMembers num str members = mapMembers num' str' members
  | [], _ => rfl
  | (k, v) :: rest, h => by
    simp only [leavesMembers, leavesMember, List.forall_mem_append] at h
    exact congrArg₂ List.cons (congrArg (Prod.mk k) (mapLeaves_congr v h.1)) (mapMembers_congr rest h.2)

end

mutual

theorem mapLeaves_id : ∀ v : Json, v.mapLeaves .num .str = v
  | .null | .bool _ | .num _ | .str _ => rfl
  | .arr items => congrArg Json.arr (mapItems_id items)
  | .obj members => congrArg Json.obj (mapMembers_id members)

theorem mapItems_id : ∀ items : List Json, mapItems .num .str items = items
  | [] => rfl
  | v :: rest => congrArg₂ List.cons (mapLeaves_id v) (mapItems_id rest)

theorem mapMembers_id : ∀ members : List (String × Json), mapMembers .num .str members = members
  | [] => rfl
  | (k, v) :: rest => congrArg₂ List.cons (congrArg (Prod.mk k) (mapLeaves_id v)) (mapMembers_id rest)

end

theorem renumber_renumber (f g : String → String) (v : Json) :
    (v.renumber f).renumber g = v.renumber (fun literal => g (f literal)) := mapLeaves_mapLeaves v

theorem same_renumber {r : String → String → Bool} {f : String → String} (h : ∀ literal, r literal (f literal) = true)
    (v : Json) : same r v (v.renumber f) = true := by
  have hleaves := (@same_mapLeaves_iff r .num .str (fun literal => .num (f literal)) .str v).mpr
  rw [mapLeaves_id] at hleaves
  apply hleaves
  intro leaf hleaf
  have hscalar := leaves_scalar v leaf hleaf
  cases leaf with
  | num literal => simpa [mapLeaves, same] using h literal
  | arr _ | obj _ => cases hscalar
  | _ => simp [mapLeaves, same]

mutual

variable {l : Layout} {f : String → String}

theorem render_renumber : ∀ v : Json,
    (∀ literal, .num literal ∈ v.leaves → l.num (f literal) = l.num literal) → (v.renumber f).render l = v.render l
  | .null, _ | .bool _, _ | .str _, _ => rfl
  | .num literal, h => h literal List.mem_cons_self
  | .arr items, h => congrArg l.arr (renderItems_renumber items h)
  | .obj members, h => congrArg l.obj (renderMembers_renumber members h)

theorem renderItems_renumber : ∀ items : List Json,
    (∀ literal, .num literal ∈ leavesItems items → l.num (f literal) = l.num literal) →
    renderItems l (mapItems (fun literal => .num (f literal)) .str items) = renderItems l items
  | [], _ => rfl
  | v :: rest, h => by
    simp only [leavesItems, List.mem_append] at h
    exact congrArg₂ List.cons (render_renumber v (fun literal hl => h literal (Or.inl hl)))
      (renderItems_renumber rest (fun literal hl => h literal (Or.inr hl)))

theorem renderMembers_renumber : ∀ members : List (String × Json),
    (∀ literal, .num literal ∈ leavesMembers members → l.num (f literal) = l.num literal) →
    renderMembers l (mapMembers (fun literal => .num (f literal)) .str members) = renderMembers l members
  | [], _ => rfl
  | (k, v) :: rest, h => by
    simp only [leavesMembers, leavesMember, List.mem_append] at h
    exact congrArg₂ List.cons
      (congrArg (Prod.mk k) (render_renumber v (fun literal hl => h literal (Or.inl hl))))
      (renderMembers_renumber rest (fun literal hl => h literal (Or.inr hl)))

end

/-! Canonical documents. -/

def Rising (members : List (String × Json)) : Prop := members.Pairwise (fun m n => m.1 < n.1)

theorem mem_insertNew {m : String × Json} : ∀ {members : List (String × Json)},
    m ∈ insertNew key v members → m = (key, v) ∨ m ∈ members
  | [], h => Or.inl (List.mem_singleton.mp h)
  | n :: rest, h => by
    unfold insertNew at h
    split at h
    · exact Or.inr h
    split at h
    · exact List.mem_cons.mp h
    rcases List.mem_cons.mp h with rfl | h
    · exact Or.inr List.mem_cons_self
    · exact (mem_insertNew h).imp_right (List.mem_cons_of_mem n)

theorem insertNew_rising : ∀ {members : List (String × Json)},
    Rising members → Rising (insertNew key v members)
  | [], _ => List.pairwise_singleton _ _
  | n :: rest, h => by
    obtain ⟨hfirst, hrest⟩ := List.pairwise_cons.mp h
    unfold insertNew
    split
    · exact h
    rename_i hne
    split
    · rename_i hlt
      refine List.pairwise_cons.mpr ⟨?_, h⟩
      intro m hm
      rcases List.mem_cons.mp hm with rfl | hm
      · exact hlt
      · exact hlt.trans (hfirst m hm)
    · rename_i hnlt
      refine List.pairwise_cons.mpr ⟨?_, insertNew_rising hrest⟩
      intro m hm
      rcases mem_insertNew hm with rfl | hm
      · exact lt_of_le_of_ne (not_lt.mp hnlt) (Ne.symm hne)
      · exact hfirst m hm

theorem insertNew_front {members : List (String × Json)} (h : ∀ m ∈ members, key < m.1) :
    insertNew key v members = (key, v) :: members := by
  cases members with
  | nil => rfl
  | cons n rest =>
    have hlt := h n List.mem_cons_self
    rw [insertNew, if_neg (ne_of_lt hlt), if_pos hlt]

theorem canonMembers_rising : ∀ members : List (String × Json), Rising (canonMembers members)
  | [] => List.Pairwise.nil
  | _ :: rest => insertNew_rising (canonMembers_rising rest)

theorem canonMembers_of_rising : ∀ {members : List (String × Json)}, Rising members →
    canonMembers members = members.map (fun m => (m.1, m.2.canon))
  | [], _ => rfl
  | (key, v) :: rest, h => by
    obtain ⟨hfirst, hrest⟩ := List.pairwise_cons.mp h
    rw [canonMembers, canonMembers_of_rising hrest]
    apply insertNew_front
    intro m hm
    obtain ⟨n, hn, rfl⟩ := List.mem_map.mp hm
    exact hfirst n hn

mutual

theorem canon_canon : ∀ v : Json, v.canon.canon = v.canon
  | .null | .bool _ | .num _ | .str _ => rfl
  | .arr items => congrArg Json.arr (canonItems_canonItems items)
  | .obj members => by
    have hfixed : (canonMembers members).map (fun m => (m.1, m.2.canon)) = (canonMembers members).map id :=
      List.map_congr_left (fun m hm => Prod.ext rfl (canonMembers_fixed members m hm))
    simp only [canon]
    rw [canonMembers_of_rising (canonMembers_rising members), hfixed, List.map_id]

theorem canonItems_canonItems : ∀ items : List Json, canonItems (canonItems items) = canonItems items
  | [] => rfl
  | v :: rest => congrArg₂ List.cons (canon_canon v) (canonItems_canonItems rest)

theorem canonMembers_fixed : ∀ members : List (String × Json), ∀ m ∈ canonMembers members, m.2.canon = m.2
  | [], m, h => by cases h
  | (key, v) :: rest, m, h => by
    rcases mem_insertNew h with heq | h
    · exact heq ▸ canon_canon v
    · exact canonMembers_fixed rest m h

end

theorem mapMembers_insertNew {num str : String → Json} :
    ∀ members : List (String × Json), mapMembers num str (insertNew key v members) =
      insertNew key (v.mapLeaves num str) (mapMembers num str members)
  | [] => rfl
  | (k, w) :: rest => by
    simp only [insertNew, mapMembers, mapMember]
    split
    · rfl
    split
    · rfl
    · exact congrArg (List.cons _) (mapMembers_insertNew rest)

mutual

theorem canon_renumber (f : String → String) : ∀ v : Json, (v.renumber f).canon = v.canon.renumber f
  | .null | .bool _ | .num _ | .str _ => rfl
  | .arr items => congrArg Json.arr (canonItems_renumber f items)
  | .obj members => congrArg Json.obj (canonMembers_renumber f members)

theorem canonItems_renumber (f : String → String) : ∀ items : List Json,
    canonItems (mapItems (fun literal => .num (f literal)) .str items) =
      mapItems (fun literal => .num (f literal)) .str (canonItems items)
  | [] => rfl
  | v :: rest => congrArg₂ List.cons (canon_renumber f v) (canonItems_renumber f rest)

theorem canonMembers_renumber (f : String → String) : ∀ members : List (String × Json),
    canonMembers (mapMembers (fun literal => .num (f literal)) .str members) =
      mapMembers (fun literal => .num (f literal)) .str (canonMembers members)
  | [] => rfl
  | (key, v) :: rest => by
    simp only [mapMembers, mapMember, canonMembers, canonMember, mapMembers_insertNew]
    exact congrArg₂ (insertNew key) (canon_renumber f v) (canonMembers_renumber f rest)

end

theorem mem_leavesMembers {leaf : Json} : ∀ {members : List (String × Json)},
    leaf ∈ leavesMembers members ↔ ∃ m ∈ members, leaf ∈ m.2.leaves
  | [] => by simp [leavesMembers]
  | (k, v) :: rest => by simp [leavesMembers, leavesMember, mem_leavesMembers]

mutual

variable {leaf : Json}

theorem leaves_canon : ∀ v : Json, leaf ∈ v.canon.leaves → leaf ∈ v.leaves
  | .null, h | .bool _, h | .num _, h | .str _, h => h
  | .arr items, h => leavesItems_canon items h
  | .obj members, h => leavesMembers_canon members h

theorem leavesItems_canon : ∀ items : List Json,
    leaf ∈ leavesItems (canonItems items) → leaf ∈ leavesItems items
  | [], h => h
  | v :: rest, h => by
    rcases List.mem_append.mp h with h | h
    · exact List.mem_append_left _ (leaves_canon v h)
    · exact List.mem_append_right _ (leavesItems_canon rest h)

theorem leavesMembers_canon : ∀ members : List (String × Json),
    leaf ∈ leavesMembers (canonMembers members) → leaf ∈ leavesMembers members
  | [], h => h
  | (key, v) :: rest, h => by
    obtain ⟨m, hm, hleaf⟩ := mem_leavesMembers.mp h
    rcases mem_insertNew hm with heq | hm
    · exact List.mem_append_left _ (leaves_canon v (by rw [heq] at hleaf; exact hleaf))
    · exact List.mem_append_right _ (leavesMembers_canon rest (mem_leavesMembers.mpr ⟨m, hm, hleaf⟩))

end

theorem literals_canon (h : literal ∈ v.canon.literals) : literal ∈ v.literals :=
  mem_literals.mpr (leaves_canon v (mem_literals.mp h))

mutual

variable {f : String → String} {literal : String}

theorem mem_leaves_renumber : ∀ v : Json,
    .num literal ∈ (v.renumber f).leaves ↔ ∃ l, .num l ∈ v.leaves ∧ f l = literal
  | .null | .bool _ | .str _ => by simp [renumber, mapLeaves, leaves]
  | .num l => by simp [renumber, mapLeaves, leaves, eq_comm]
  | .arr items => mem_leavesItems_renumber items
  | .obj members => mem_leavesMembers_renumber members

theorem mem_leavesItems_renumber : ∀ items : List Json,
    .num literal ∈ leavesItems (mapItems (fun literal => .num (f literal)) .str items) ↔
      ∃ l, .num l ∈ leavesItems items ∧ f l = literal
  | [] => by simp [mapItems, leavesItems]
  | v :: rest => by
    simp only [mapItems, leavesItems, List.mem_append, or_and_right, exists_or]
    exact or_congr (mem_leaves_renumber v) (mem_leavesItems_renumber rest)

theorem mem_leavesMembers_renumber : ∀ members : List (String × Json),
    .num literal ∈ leavesMembers (mapMembers (fun literal => .num (f literal)) .str members) ↔
      ∃ l, .num l ∈ leavesMembers members ∧ f l = literal
  | [] => by simp [mapMembers, leavesMembers]
  | (k, v) :: rest => by
    simp only [mapMembers, mapMember, leavesMembers, leavesMember, List.mem_append, or_and_right, exists_or]
    exact or_congr (mem_leaves_renumber v) (mem_leavesMembers_renumber rest)

end

theorem mem_literals_renumber {f : String → String} :
    literal ∈ (v.renumber f).literals ↔ ∃ l ∈ v.literals, f l = literal := by
  simp only [mem_literals]
  exact mem_leaves_renumber v

/-! Objects whose members may be left out. -/

def fields (fs : List (String × Option Json)) : Json :=
  .obj (fs.filterMap (fun field => field.2.map (Prod.mk field.1)))

theorem canon_fields {fs : List (String × Option Json)} (h : (fs.map Prod.fst).Pairwise (· < ·)) :
    (fields fs).canon = fields (fs.map (fun field => (field.1, field.2.map canon))) := by
  have hrising : Rising (fs.filterMap (fun field => field.2.map (Prod.mk field.1))) := by
    refine List.Pairwise.filterMap _ ?_ (List.pairwise_map.mp h)
    rintro ⟨k, o⟩ ⟨k', o'⟩ hlt m hm m' hm'
    obtain ⟨v, -, rfl⟩ := Option.map_eq_some_iff.mp hm
    obtain ⟨v', -, rfl⟩ := Option.map_eq_some_iff.mp hm'
    exact hlt
  unfold fields
  rw [canon, canonMembers_of_rising hrising, List.map_filterMap, List.filterMap_map]
  congr 1
  refine List.filterMap_congr ?_
  rintro ⟨k, o⟩ -
  cases o <;> rfl

theorem mapMembers_eq (num str : String → Json) : ∀ members : List (String × Json),
    mapMembers num str members = members.map (fun m => (m.1, m.2.mapLeaves num str))
  | [] => rfl
  | (k, v) :: rest => congrArg (List.cons (k, v.mapLeaves num str)) (mapMembers_eq num str rest)

theorem renumber_fields (f : String → String) (fs : List (String × Option Json)) :
    (fields fs).renumber f = fields (fs.map (fun field => (field.1, field.2.map (renumber f)))) := by
  unfold fields renumber
  rw [mapLeaves, mapMembers_eq, List.map_filterMap, List.filterMap_map]
  congr 1
  refine List.filterMap_congr ?_
  rintro ⟨k, o⟩ -
  cases o <;> rfl

/-! Numbers that are written in full. -/

theorem digits_eq {cs : List Char} (h : ∀ c ∈ cs, c.isDigit = true) : digits cs = Nat.ofDigitChars 10 cs 0 := by
  have hfrom : ∀ n, cs.foldl (fun n c => if c.isDigit then 10 * n + (c.toNat - 48) else n) n =
      Nat.ofDigitChars 10 cs n := by
    induction cs with
    | nil => exact fun n => rfl
    | cons c rest ih =>
      intro n
      rw [List.foldl_cons, if_pos (h c List.mem_cons_self), ih (fun c hc => h c (List.mem_cons_of_mem _ hc)),
        Nat.ofDigitChars_cons]
      rfl
  exact hfrom 0

theorem toString_digits (m : Nat) : ∀ c ∈ (toString m).toList, c.isDigit = true := by
  intro c hc
  rw [Nat.toString_eq_repr, Nat.repr_eq_ofList_toDigits, String.toList_ofList] at hc
  exact Nat.isDigit_of_mem_toDigits (by decide) (by decide) hc

theorem digits_toString (m : Nat) : digits (toString m).toList = m := by
  rw [digits_eq (toString_digits m), Nat.toString_eq_repr, Nat.repr_eq_ofList_toDigits, String.toList_ofList]
  exact Nat.ofDigitChars_toDigits (by decide) (by decide)

theorem signed_toString (n : Int) : signed (toString n).toList = n := by
  cases n with
  | ofNat m =>
    show signed (toString m).toList = _
    have hdigits := digits_toString m
    -- a number without a sign does not begin with one
    cases hcs : (toString m).toList with
    | nil =>
      rw [hcs] at hdigits
      exact congrArg Int.ofNat hdigits
    | cons c rest =>
      have hc : c ≠ '-' := by
        rintro rfl
        have := toString_digits m '-' (by rw [hcs]; exact List.mem_cons_self)
        revert this
        decide
      rw [hcs] at hdigits
      unfold signed
      split
      · next heq => exact absurd (List.cons.inj heq).1 hc
      · exact congrArg Int.ofNat hdigits
  | negSucc m =>
    have htext : (toString (Int.negSucc m)).toList = '-' :: (toString (m + 1)).toList := by
      show ("-" ++ toString (m + 1)).toList = _
      rw [String.toList_append]
      rfl
    rw [htext]
    show -((digits (toString (m + 1)).toList : Nat) : Int) = _
    rw [digits_toString]
    rfl

end Json
