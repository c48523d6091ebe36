import Mathlib.Data.List.Basic
import Mathlib.Data.List.Nodup

/- Maps as lists of entries. `put` and `drop` leave at most one entry of the key they are
   given, so a list built by them has distinct keys; `List.lookup` reads it. -/
namespace Assoc

variable {K V : Type} [DecidableEq K] {l : List (K × V)} {key k : K} {v : V}

def drop (key : K) (l : List (K × V)) : List (K × V) := l.filter (fun e => e.1 ≠ key)

def put (key : K) (v : V) (l : List (K × V)) : List (K × V) := (key, v) :: drop key l

/-- A filter that looks at the keys only keeps or loses what a key has as a whole. -/
theorem lookup_filter {p : K → Bool} : (l.filter (fun e => p e.1)).lookup k = if p k then l.lookup k else none := by
  induction l with
  | nil => simp
  | cons e l ih =>
    obtain ⟨a, v⟩ := e
    by_cases hk : k = a
    · subst hk
      cases hp : p k <;> simp [hp, ih]
    · have hne : (k == a) = false := by simpa using hk
      cases hp : p a <;> simp [hp, List.lookup_cons, ih, hne]

theorem lookup_drop : (drop key l).lookup k = if k = key then none else l.lookup k := by
  unfold drop
  rw [lookup_filter (p := fun k => decide (k ≠ key))]
  by_cases hk : k = key <;> simp [hk]

theorem lookup_put : (put key v l).lookup k = if k = key then some v else l.lookup k := by
  unfold put
  rw [List.lookup_cons, lookup_drop]
  by_cases hk : k = key
  · simp [hk]
  · have hne : (k == key) = false := by simpa using hk
    simp [hk, hne]

theorem mem_of_lookup (h : l.lookup k = some v) : (k, v) ∈ l := by
  obtain ⟨before, after, rfl, -⟩ := List.lookup_eq_some_iff.mp h
  simp

theorem mem_keys : k ∈ l.map Prod.fst ↔ ∃ v, l.lookup k = some v := by
  induction l with
  | nil => simp
  | cons e l ih =>
    rw [List.map_cons, List.mem_cons, ih, List.lookup_cons]
    by_cases hk : k = e.1
    · simp [hk]
    · have hne : (k == e.1) = false := by simpa using hk
      simp [hk, hne]

theorem nodup_drop (h : (l.map Prod.fst).Nodup) : ((drop key l).map Prod.fst).Nodup :=
  h.sublist (List.filter_sublist.map Prod.fst)

theorem nodup_put (h : (l.map Prod.fst).Nodup) : ((put key v l).map Prod.fst).Nodup := by
  show (key :: (drop key l).map Prod.fst).Nodup
  rw [List.nodup_cons]
  refine ⟨?_, nodup_drop h⟩
  intro hmem
  obtain ⟨e, he, hek⟩ := List.mem_map.mp hmem
  have hne := (List.mem_filter.mp he).2
  simp [hek] at hne

theorem lookup_of_mem (h : (l.map Prod.fst).Nodup) {e : K × V} (he : e ∈ l) : l.lookup e.1 = some e.2 := by
  induction l with
  | nil => cases he
  | cons d l ih =>
    rw [List.map_cons, List.nodup_cons] at h
    rw [List.lookup_cons]
    rcases List.mem_cons.mp he with rfl | he
    · rw [beq_self_eq_true]
    have hne : (e.1 == d.1) = false := by
      rw [beq_eq_false_iff_ne]
      intro heq
      exact h.1 (heq ▸ List.mem_map_of_mem he)
    rw [hne]
    exact ih h.2 he

end Assoc
