import Mathlib.Data.List.Nodup

/- A table as the list of its rows, in the order in which the server finds them. The
   primary key is part of the table: no two rows have the same.

   `insert` is INSERT ... ON CONFLICT DO NOTHING, `update` is UPDATE ... WHERE with the
   number of rows it changed; an update may not change the key. -/

structure Rows (V : Type) {K : Type} (key : V → K) where
  rows : List V
  nodup : (rows.map key).Nodup

namespace Rows

variable {V K : Type} {key : V → K}

def empty : Rows V key := ⟨[], List.nodup_nil⟩

def Taken [DecidableEq K] (t : Rows V key) (k : K) : Prop := k ∈ t.rows.map key

instance [DecidableEq K] (t : Rows V key) (k : K) : Decidable (t.Taken k) :=
  inferInstanceAs (Decidable (k ∈ t.rows.map key))

def insert [DecidableEq K] (t : Rows V key) (v : V) : Rows V key :=
  if h : t.Taken (key v) then t
  else ⟨t.rows ++ [v], by
    rw [List.map_append]
    exact t.nodup.append (List.nodup_singleton _) (by simpa [Taken, List.disjoint_singleton] using h)⟩

/-- The rows that satisfy `p`, changed by `f`, and how many they are. -/
def update (t : Rows V key) (p : V → Bool) (f : V → V) (hf : ∀ v, key (f v) = key v) : ℕ × Rows V key :=
  ((t.rows.filter p).length, ⟨t.rows.map (fun v => if p v then f v else v), by
    rw [List.map_map]
    have hsame : key ∘ (fun v => if p v then f v else v) = key := by
      funext v
      simp only [Function.comp_apply]
      split
      · exact hf v
      · rfl
    rw [hsame]
    exact t.nodup⟩)

section
variable {t : Rows V key} {v w : V}

theorem insert_of_free [DecidableEq K] (h : ¬ t.Taken (key v)) : (t.insert v).rows = t.rows ++ [v] := by
  rw [insert, dif_neg h]

theorem mem_insert [DecidableEq K] : w ∈ (t.insert v).rows ↔ w ∈ t.rows ∨ (¬ t.Taken (key v) ∧ w = v) := by
  by_cases h : t.Taken (key v)
  · simp [insert, h]
  · simp [insert_of_free h, h]

variable {p : V → Bool} {f : V → V}

theorem mem_update {hf : ∀ v, key (f v) = key v} :
    w ∈ (t.update p f hf).2.rows ↔ ∃ v ∈ t.rows, (if p v then f v else v) = w := by
  simp [update]

theorem update_of_none {hf : ∀ v, key (f v) = key v} (h : (t.update p f hf).1 = 0) : (t.update p f hf).2 = t := by
  have hnone : t.rows.filter p = [] := List.length_eq_zero_iff.mp h
  have hsame : t.rows.map (fun v => if p v then f v else v) = t.rows := by
    rw [List.map_congr_left (g := id), List.map_id]
    intro v hv
    have hp : ¬ p v = true := List.filter_eq_nil_iff.mp hnone v hv
    simp [hp]
  obtain ⟨rows, nodup⟩ := t
  simpa [update] using hsame

theorem exists_of_update {hf : ∀ v, key (f v) = key v} (h : (t.update p f hf).1 ≠ 0) : ∃ v ∈ t.rows, p v = true := by
  obtain ⟨v, hv⟩ := List.exists_mem_of_length_pos (Nat.pos_of_ne_zero h)
  exact ⟨v, (List.mem_filter.mp hv).1, (List.mem_filter.mp hv).2⟩

/-- What an update does not change of a row, it does not change of the table. -/
theorem map_update {A : Type} (hf : ∀ v, key (f v) = key v) {g : V → A}
    (hg : ∀ v, g (f v) = g v) : (t.update p f hf).2.rows.map g = t.rows.map g := by
  rw [update, List.map_map]
  refine List.map_congr_left ?_
  intro v _
  rw [Function.comp_apply]
  split
  · exact hg v
  · rfl

theorem map_insert [DecidableEq K] {A : Type} {g : V → A} : (t.insert v).rows.map g = t.rows.map g ∨
    ¬ t.Taken (key v) ∧ (t.insert v).rows.map g = t.rows.map g ++ [g v] := by
  by_cases h : t.Taken (key v)
  · exact .inl (by rw [insert, dif_pos h])
  · exact .inr ⟨h, by rw [insert_of_free h, List.map_append, List.map_singleton]⟩

theorem eq_of_key (hv : v ∈ t.rows) (hw : w ∈ t.rows) (h : key v = key w) : v = w :=
  List.inj_on_of_nodup_map t.nodup hv hw h

end

end Rows
