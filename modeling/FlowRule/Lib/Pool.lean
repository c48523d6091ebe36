import Mathlib.Algebra.BigOperators.Group.Finset.Basic
import Mathlib.Data.List.Basic

/- Pools of threads: a list, in which a thread keeps its place and a step of it replaces the
   entry. -/
namespace Pool

variable {T : Type} {pool : List T} {i j : Nat} {a b x : T}

theorem get_step (h : (pool.set i b)[j]? = some x) : (j = i ∧ x = b) ∨ (j ≠ i ∧ pool[j]? = some x) := by
  rw [List.getElem?_set] at h
  by_cases hij : i = j
  · rw [if_pos hij] at h
    split at h
    · exact .inl ⟨hij.symm, (Option.some.inj h).symm⟩
    · cases h
  · rw [if_neg hij] at h
    exact .inr ⟨fun hji => hij hji.symm, h⟩

theorem get_self (h : pool[i]? = some a) : (pool.set i b)[i]? = some b := by
  obtain ⟨hi, -⟩ := List.getElem?_eq_some_iff.mp h
  rw [List.getElem?_set, if_pos rfl, if_pos hi]

theorem get_other (h : j ≠ i) : (pool.set i b)[j]? = pool[j]? := by
  rw [List.getElem?_set, if_neg (fun hij => h hij.symm)]

theorem get_append {more : List T} (h : (pool ++ more)[j]? = some x) : pool[j]? = some x ∨ x ∈ more := by
  rw [List.getElem?_append] at h
  split at h
  · exact .inl h
  · exact .inr (List.mem_of_getElem? h)

theorem get_append_of {more : List T} (h : pool[j]? = some x) : (pool ++ more)[j]? = some x := by
  obtain ⟨hj, -⟩ := List.getElem?_eq_some_iff.mp h
  rw [List.getElem?_append_left hj, h]

theorem get_concat (h : (pool ++ [b])[j]? = some x) :
    (j = pool.length ∧ x = b) ∨ (j ≠ pool.length ∧ pool[j]? = some x) := by
  rw [List.getElem?_append] at h
  split at h
  · exact .inr ⟨by omega, h⟩
  · rw [List.getElem?_singleton] at h
    split at h
    · exact .inl ⟨by omega, (Option.some.inj h).symm⟩
    · cases h

/-! How a step changes the number of threads of a kind. -/

variable {p : T → Bool}

theorem count_keep (h : pool[i]? = some a) (hab : p b = p a) : (pool.set i b).countP p = pool.countP p := by
  obtain ⟨hi, rfl⟩ := List.getElem?_eq_some_iff.mp h
  rw [List.countP_set hi, hab]
  by_cases hp : p pool[i] = true
  · have hpos : 0 < pool.countP p := List.countP_pos_iff.mpr ⟨pool[i], List.getElem_mem hi, hp⟩
    simp only [hp, if_true]
    omega
  · simp [hp]

theorem count_enter (h : pool[i]? = some a) (ha : p a = false) (hb : p b = true) :
    (pool.set i b).countP p = pool.countP p + 1 := by
  obtain ⟨hi, rfl⟩ := List.getElem?_eq_some_iff.mp h
  rw [List.countP_set hi]
  simp [ha, hb]

theorem count_leave (h : pool[i]? = some a) (ha : p a = true) (hb : p b = false) :
    (pool.set i b).countP p + 1 = pool.countP p := by
  obtain ⟨hi, rfl⟩ := List.getElem?_eq_some_iff.mp h
  have hpos : 0 < pool.countP p := List.countP_pos_iff.mpr ⟨pool[i], List.getElem_mem hi, ha⟩
  rw [List.countP_set hi]
  simp only [ha, hb, if_true, Bool.false_eq_true, if_false]
  omega

/-! What a table holds in all. -/

variable {V : Type} {table : Nat → V} {n o : Nat} {v : V}

theorem sum_update (size : V → Nat) (ho : o < n) :
    ∑ j ∈ Finset.range n, size (Function.update table o v j) + size (table o) =
      ∑ j ∈ Finset.range n, size (table j) + size v := by
  have hmem : o ∈ Finset.range n := Finset.mem_range.mpr ho
  have hrest : ∑ j ∈ (Finset.range n).erase o, size (Function.update table o v j) =
      ∑ j ∈ (Finset.range n).erase o, size (table j) := by
    apply Finset.sum_congr rfl
    intro j hj
    rw [Function.update_of_ne (Finset.ne_of_mem_erase hj)]
  have hafter := Finset.sum_erase_add (Finset.range n) (fun j => size (Function.update table o v j)) hmem
  have hbefore := Finset.sum_erase_add (Finset.range n) (fun j => size (table j)) hmem
  simp only [Function.update_self] at hafter
  omega

end Pool
