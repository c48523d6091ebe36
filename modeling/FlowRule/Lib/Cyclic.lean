import Mathlib.Algebra.BigOperators.Group.List.Basic
import Mathlib.Data.List.Nodup
import Mathlib.Data.Nat.ModEq

/- Turns on a ring of `n` places. A window is a number of neighbouring places; a cursor goes
   on by a whole window at a time, so the windows lie side by side, and as soon as they
   are as long as the ring together they cover it (`window_covers`). A quantity that is
   shared out in whole units, with the remainder over the first places, is shared out
   completely (`sum_shares`). -/
namespace Cyclic

/-- The `count` places of a ring of `n` from `start` on. -/
def window (n start count : Nat) : List Nat := (List.range count).map (fun i => (start + i) % n)

theorem mem_window {n start count p : Nat} : p ∈ window n start count ↔ ∃ i < count, (start + i) % n = p := by
  simp [window]

theorem window_nodup {n start count : Nat} (h : count ≤ n) : (window n start count).Nodup := by
  apply List.Nodup.map_on _ List.nodup_range
  intro i hi j hj hij
  rw [List.mem_range] at hi hj
  have hmod : i ≡ j [MOD n] := Nat.ModEq.add_left_cancel' start hij
  exact Nat.ModEq.eq_of_lt_of_lt hmod (by omega) (by omega)

theorem cursor_eq {n count : Nat} {cursor : Nat → Nat} {k : Nat}
    (hnext : ∀ j, j + 1 < k → cursor (j + 1) = (cursor j % n + count) % n) :
    ∀ j < k, cursor j % n = (cursor 0 + j * count) % n := by
  intro j
  induction j with
  | zero => intro _; simp
  | succ j ih =>
    intro hj
    calc cursor (j + 1) % n = (cursor j % n + count) % n := by rw [hnext j hj, Nat.mod_mod]
      _ = ((cursor 0 + j * count) % n + count) % n := by rw [ih (by omega)]
      _ = (cursor 0 + (j + 1) * count) % n := by rw [Nat.mod_add_mod, Nat.succ_mul, Nat.add_assoc]

/-- The place at distance `d` of the first cursor is in the window number `d / count`. -/
theorem window_covers {n count : Nat} (hcount : 0 < count) (cursor : Nat → Nat) {k : Nat} (hk : n ≤ k * count)
    (hnext : ∀ j, j + 1 < k → cursor (j + 1) = (cursor j % n + count) % n) {p : Nat} (hp : p < n) :
    ∃ j < k, p ∈ window n (cursor j % n) count := by
  have hstart : cursor 0 % n < n := Nat.mod_lt _ (by omega)
  obtain ⟨d, hd, hdp⟩ : ∃ d < n, (cursor 0 + d) % n = p := by
    refine ⟨(p + (n - cursor 0 % n)) % n, Nat.mod_lt _ (by omega), ?_⟩
    have hsum : cursor 0 % n + (p + (n - cursor 0 % n)) = p + n := by omega
    rw [Nat.add_mod_mod, ← Nat.mod_add_mod, hsum, Nat.add_mod_right, Nat.mod_eq_of_lt hp]
  have hj : d / count < k := (Nat.div_lt_iff_lt_mul hcount).mpr (by omega)
  refine ⟨d / count, hj, mem_window.mpr ⟨d % count, Nat.mod_lt _ hcount, ?_⟩⟩
  have hsplit : d / count * count + d % count = d := by rw [Nat.mul_comm]; exact Nat.div_add_mod d count
  rw [cursor_eq hnext _ hj, Nat.mod_add_mod, Nat.add_assoc, hsplit, hdp]

theorem sum_shares {q r n : Nat} :
    ((List.range n).map (fun i => if i < r then q + 1 else q)).sum = n * q + min n r := by
  induction n with
  | zero => simp
  | succ n ih =>
    rw [List.range_succ, List.map_append, List.sum_append, ih]
    simp only [List.map_cons, List.map_nil, List.sum_cons, List.sum_nil, Nat.succ_mul]
    split <;> omega

end Cyclic
