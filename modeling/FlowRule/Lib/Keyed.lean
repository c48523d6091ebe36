import Mathlib.Logic.Function.Basic
import Mathlib.Data.List.Forall2
import Mathlib.Data.List.Perm.Subperm

/- Rows inserted under keys, where the first row under a key stays (INSERT ... ON CONFLICT
   DO NOTHING). `has_insertAll_iff`: every item finds a row of its own in the table exactly
   when the keys of the items are distinct and were all free. It needs a way to tell new rows
   from old ones (`Fits` holds of no row that was there before). -/
namespace Keyed

variable {K V B : Type} [DecidableEq K]

def insertNew (t : K → Option V) (k : K) (v : V) : K → Option V :=
  if (t k).isSome then t else Function.update t k (some v)

def insertAll (key : B → K) (val : B → V) : (K → Option V) → List B → K → Option V
  | t, [] => t
  | t, b :: items => insertAll key val (insertNew t (key b) (val b)) items

def Has (t : K → Option V) (Fits : B → V → Prop) (items : List B) : Prop :=
  ∃ keys : List K, keys.Nodup ∧ List.Forall₂ (fun k b => ∃ v, t k = some v ∧ Fits b v) keys items

theorem insertNew_keep {t : K → Option V} {k k' : K} {v v' : V} (h : t k = some v) :
    insertNew t k' v' k = some v := by
  unfold insertNew
  split
  · exact h
  rename_i hfree
  have hne : k ≠ k' := by
    rintro rfl
    simp [h] at hfree
  rw [Function.update_of_ne hne, h]

theorem insertNew_origin {t : K → Option V} {k k' : K} {v v' : V} (h : insertNew t k' v' k = some v) :
    t k = some v ∨ (t k = none ∧ k = k' ∧ v = v') := by
  unfold insertNew at h
  split at h
  · exact .inl h
  rename_i hfree
  by_cases hk : k = k'
  · subst hk
    rw [Function.update_self] at h
    exact .inr ⟨by simpa using hfree, rfl, (Option.some.inj h).symm⟩
  · rw [Function.update_of_ne hk] at h
    exact .inl h

section
variable {key : B → K} {val : B → V}
variable {items : List B}

theorem insertAll_keep : ∀ {t : K → Option V} {k : K} {v : V}, t k = some v →
    insertAll key val t items k = some v := by
  induction items with
  | nil => exact fun h => h
  | cons b items ih => exact fun h => ih (insertNew_keep h)

theorem insertAll_origin : ∀ {t : K → Option V} {k : K} {v : V},
    insertAll key val t items k = some v →
    t k = some v ∨ (t k = none ∧ k ∈ items.map key) := by
  induction items with
  | nil => exact fun h => .inl h
  | cons b items ih =>
    intro t k v h
    rcases ih h with hnew | ⟨hfree, hmem⟩
    · rcases insertNew_origin hnew with hold | ⟨hfree, rfl, -⟩
      · exact .inl hold
      · exact .inr ⟨hfree, List.mem_cons_self⟩
    · refine .inr ⟨?_, List.mem_cons_of_mem _ hmem⟩
      cases ht : t k with
      | none => rfl
      | some v' => rw [insertNew_keep ht] at hfree; cases hfree

theorem insertAll_append {xs ys : List B} : ∀ {t : K → Option V},
    insertAll key val t (xs ++ ys) = insertAll key val (insertAll key val t xs) ys := by
  induction xs with
  | nil => exact fun {t} => rfl
  | cons b xs ih => exact fun {t} => ih

theorem insertAll_replicate {t : K → Option V} {b : B} {n : ℕ} (hn : 0 < n) :
    insertAll key val t (List.replicate n b) = insertNew t (key b) (val b) := by
  induction n with
  | zero => cases hn
  | succ n ih =>
    rw [List.replicate_succ']
    rw [insertAll_append]
    cases n with
    | zero => rfl
    | succ n =>
      rw [ih (Nat.succ_pos n)]
      show insertNew (insertNew t (key b) (val b)) (key b) (val b) = _
      have hthere : (insertNew t (key b) (val b) (key b)).isSome := by
        unfold insertNew
        split
        · assumption
        · simp
      rw [insertNew, if_pos hthere]

/-- Only the first of the copies of an item counts. -/
theorem insertAll_copies {C : Type} {f : C → B} {n : C → ℕ} {xs : List C} : ∀ {t : K → Option V},
    (∀ x ∈ xs, 0 < n x) →
    insertAll key val t (xs.flatMap (fun x => List.replicate (n x) (f x))) = insertAll key val t (xs.map f) := by
  induction xs with
  | nil => exact fun _ => rfl
  | cons x xs ih =>
    intro t hn
    rw [List.flatMap_cons, insertAll_append, insertAll_replicate (hn x List.mem_cons_self),
      ih (fun y hy => hn y (List.mem_cons_of_mem x hy))]
    rfl

theorem insertAll_pairs : ∀ {t : K → Option V},
    insertAll key val t items = insertAll Prod.fst Prod.snd t (items.map (fun b => (key b, val b))) := by
  induction items with
  | nil => exact fun {t} => rfl
  | cons b items ih => exact fun {t} => ih

theorem insertAll_map {X : Type} {f : V → X} : ∀ {t : K → Option V} {k : K},
    (insertAll key val t items k).map f = insertAll key (f ∘ val) (fun k => (t k).map f) items k := by
  induction items with
  | nil => exact fun {t k} => rfl
  | cons b items ih =>
    intro t k
    have hstep : (fun k' => (insertNew t (key b) (val b) k').map f) =
        insertNew (fun k' => (t k').map f) (key b) (f (val b)) := by
      funext k'
      unfold insertNew
      rw [Option.isSome_map]
      split
      · rfl
      · by_cases hk : k' = key b <;> simp [Function.update, hk]
    show (insertAll key val (insertNew t (key b) (val b)) items k).map f = _
    rw [ih, hstep]
    rfl

/-- Distinct free keys: every item's row is under its key. -/
theorem insertAll_stored : ∀ {t : K → Option V}, (items.map key).Nodup →
    (∀ b ∈ items, t (key b) = none) → ∀ b ∈ items, insertAll key val t items (key b) = some (val b) := by
  induction items with
  | nil => exact fun _ _ b hb => nomatch hb
  | cons a items ih =>
    intro t hnd hfree b hb
    obtain ⟨hnot, hnd'⟩ := List.nodup_cons.mp hnd
    have hins : insertNew t (key a) (val a) = Function.update t (key a) (some (val a)) := by
      simp [insertNew, hfree a List.mem_cons_self]
    rcases List.mem_cons.mp hb with rfl | hmem
    · show insertAll key val (insertNew t (key b) (val b)) items (key b) = some (val b)
      apply insertAll_keep
      rw [hins, Function.update_self]
    · refine ih hnd' (fun c hc => ?_) b hmem
      have hne : key c ≠ key a := fun he => hnot (he ▸ List.mem_map_of_mem hc)
      rw [hins, Function.update_of_ne hne]
      exact hfree c (List.mem_cons_of_mem _ hc)

theorem forall₂_mem {A : Type} {R : A → B → Prop} {as : List A} {bs : List B} (h : List.Forall₂ R as bs) :
    ∀ a ∈ as, ∃ b ∈ bs, R a b := by
  induction h with
  | nil => exact fun a ha => nomatch ha
  | cons hr _ ih =>
    intro a ha
    rcases List.mem_cons.mp ha with rfl | hmem
    · exact ⟨_, List.mem_cons_self, hr⟩
    · obtain ⟨b, hb, hab⟩ := ih a hmem
      exact ⟨b, List.mem_cons_of_mem _ hb, hab⟩

/-- Nothing was lost exactly when the items' keys are distinct and were free. -/
theorem has_insertAll_iff {t : K → Option V} {Fits : B → V → Prop} (hself : ∀ b ∈ items, Fits b (val b))
    (hold : ∀ k v, t k = some v → ∀ b ∈ items, ¬ Fits b v) :
    Has (insertAll key val t items) Fits items ↔ (items.map key).Nodup ∧ ∀ b ∈ items, t (key b) = none := by
  constructor
  · rintro ⟨keys, hnd, hall⟩
    -- the rows' keys are keys of items that were free, and there are as many
    have hsub : keys ⊆ (items.map key).filter (fun k => (t k).isNone) := by
      intro k hk
      obtain ⟨b, hb, v, hv, hfit⟩ := forall₂_mem hall k hk
      rcases insertAll_origin hv with hthere | ⟨hfree, hmem⟩
      · exact absurd hfit (hold k v hthere b hb)
      · exact List.mem_filter.mpr ⟨hmem, by simp [hfree]⟩
    have hperm := List.subperm_of_subset hnd hsub
    have hlen : keys.length = (items.map key).length := by
      rw [List.length_map]
      exact hall.length_eq
    have hfilter : (items.map key).filter (fun k => (t k).isNone) = items.map key := by
      refine List.filter_sublist.eq_of_length_le ?_
      rw [← hlen]
      exact hperm.length_le
    rw [hfilter] at hperm
    refine ⟨(hperm.perm_of_length_le (Nat.le_of_eq hlen.symm)).nodup_iff.mp hnd, fun b hb => ?_⟩
    have hb' : key b ∈ (items.map key).filter (fun k => (t k).isNone) :=
      hfilter.symm ▸ List.mem_map_of_mem hb
    simpa using (List.mem_filter.mp hb').2
  · rintro ⟨hnd, hfree⟩
    refine ⟨items.map key, hnd, ?_⟩
    rw [List.forall₂_map_left_iff, List.forall₂_same]
    exact fun b hb => ⟨val b, insertAll_stored hnd hfree b hb, hself b hb⟩

end

end Keyed
