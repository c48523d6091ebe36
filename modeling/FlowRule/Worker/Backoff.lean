import FlowRule.Lib.Handle
import FlowRule.Worker.Delivery

/- The delay before a delivery is retried (retryDelayForDelivery in
   internal/application/worker_delivery.go), in the machine's integers. `retryChecked` is the
   computation with every int64 operation checked, and counts how often the loop's body runs:
   * `min_doubled`: doubling under a guard and then cutting is cutting the power;
   * `doubledChecked_eq`: the loop does not overflow, and its rounds are bounded;
   * `retryDelay_exact`: ceiling, rounds and result for every base, attempt and draw. -/
namespace FlowRule.Worker

open Prog

namespace Handle

def int64 (x : Int) : Option Int := if -2 ^ 63 ≤ x ∧ x < 2 ^ 63 then some x else none

/-- The loop over the attempts after the first: the ceiling, and how often its body ran. -/
def doubledChecked : Nat → Int → Option (Int × Nat)
  | 0, ceiling => some (ceiling, 0)
  | n + 1, ceiling =>
    if ceiling < maxDeliveryRetryDelay then
      if maxDeliveryRetryDelay / 2 < ceiling then some (maxDeliveryRetryDelay, 1)
      else do
        let ceiling ← int64 (ceiling * 2)
        let (ceiling, rounds) ← doubledChecked n ceiling
        some (ceiling, rounds + 1)
    else some (ceiling, 0)

/-- What the delay starts from: five seconds where nothing is configured. -/
def baseOf (base : Int) : Int := if base ≤ 0 then 5 * 1000000000 else base

structure RetryRun where
  ceiling : Int
  rounds : Nat
  delay : Int

/-- The delay, where `draw n` is what rand.Int64N answers to `n`. -/
def retryChecked (base : Int) (attempt : Option Nat) (draw : Int → Int) : Option RetryRun := do
  let attempt := match attempt with
    | some n => if 0 < n then n else 1
    | none => 1
  let (ceiling, rounds) ← doubledChecked (attempt - 1) (baseOf base)
  let ceiling := min ceiling maxDeliveryRetryDelay
  let lower := ceiling / 2
  let jitterRange ← int64 (ceiling - lower)
  if jitterRange ≤ 0 then some ⟨ceiling, rounds, ceiling⟩
  else do
    let bound ← int64 (jitterRange + 1)
    let delay ← int64 (lower + draw bound)
    some ⟨ceiling, rounds, delay⟩

theorem int64_of_fits {x : Int} (h0 : 0 ≤ x) (h1 : x < 2 ^ 63) : int64 x = some x := by
  have hlow : -2 ^ 63 ≤ x := by omega
  exact if_pos ⟨hlow, h1⟩

/-! The loop. -/

/-- Induction on the attempts: a round either doubles, or the ceiling is so large already
    that both sides are cut. -/
theorem min_doubled (n : Nat) {c : Int} (hc : 0 < c) :
    min (doubled n c) maxDeliveryRetryDelay = min (c * 2 ^ n) maxDeliveryRetryDelay := by
  induction n generalizing c with
  | zero => simp [doubled]
  | succ n ih =>
    have hpow : c * 2 ^ (n + 1) = c * 2 * 2 ^ n := by rw [pow_succ']; ring
    have hgrow : c * 2 ≤ c * 2 * 2 ^ n := by
      apply le_mul_of_one_le_right (by omega)
      exact one_le_pow₀ (by omega)
    unfold doubled
    split
    · split
      · rename_i hhalf
        have hmax : maxDeliveryRetryDelay ≤ c * 2 ^ (n + 1) := by
          unfold maxDeliveryRetryDelay at hhalf ⊢
          omega
        rw [min_self, min_eq_right hmax]
      · rw [ih (by omega), hpow]
    · rename_i hlarge
      rw [min_eq_right (by omega), min_eq_right (by omega)]

/-- The loop returns what it returns in unbounded integers. If `k` doublings bring the
    ceiling above half of the limit, then the round after them is the last. -/
theorem doubledChecked_eq (n : Nat) {c : Int} (hc : 0 < c) (k : Nat) (hk : maxDeliveryRetryDelay / 2 < c * 2 ^ k) :
    ∃ rounds ≤ k + 1, doubledChecked n c = some (doubled n c, rounds) := by
  induction n generalizing c k with
  | zero => exact ⟨0, by omega, rfl⟩
  | succ n ih =>
    unfold doubledChecked doubled
    by_cases hlt : c < maxDeliveryRetryDelay
    · by_cases hhalf : maxDeliveryRetryDelay / 2 < c
      · refine ⟨1, by omega, ?_⟩
        simp [hlt, hhalf]
      · cases k with
        | zero =>
          simp only [pow_zero, mul_one] at hk
          exact absurd hk hhalf
        | succ k =>
          have hfits : int64 (c * 2) = some (c * 2) := by
            apply int64_of_fits (by omega)
            unfold maxDeliveryRetryDelay at hhalf
            omega
          have hk' : maxDeliveryRetryDelay / 2 < c * 2 * 2 ^ k := by
            calc maxDeliveryRetryDelay / 2 < c * 2 ^ (k + 1) := hk
              _ = c * 2 * 2 ^ k := by rw [pow_succ']; ring
          obtain ⟨rounds, hle, heq⟩ := ih (by omega) k hk'
          refine ⟨rounds + 1, by omega, ?_⟩
          simp [hlt, hhalf, hfits, heq]
    · refine ⟨0, by omega, ?_⟩
      simp [hlt]

/-! The delay. -/

theorem baseOf_pos (base : Int) : 0 < baseOf base := by
  unfold baseOf
  split <;> omega

theorem retryCeiling_eq (base : Int) {attempt : Nat} (hattempt : 1 ≤ attempt) :
    retryCeiling base (some attempt) = min (baseOf base * 2 ^ (attempt - 1)) maxDeliveryRetryDelay := by
  have hceil : retryCeiling base (some attempt) = min (doubled (attempt - 1) (baseOf base)) maxDeliveryRetryDelay := by
    simp only [retryCeiling, baseOf, if_pos (show 0 < attempt from hattempt)]
  rw [hceil, min_doubled _ (baseOf_pos base)]

theorem retryCeiling_bounds (base : Int) {attempt : Nat} (hattempt : 1 ≤ attempt) :
    0 < retryCeiling base (some attempt) ∧ retryCeiling base (some attempt) ≤ maxDeliveryRetryDelay := by
  rw [retryCeiling_eq base hattempt]
  have hpos : 0 < baseOf base * 2 ^ (attempt - 1) := mul_pos (baseOf_pos base) (by positivity)
  have hmax : 0 < maxDeliveryRetryDelay := by decide
  exact ⟨lt_min hpos hmax, min_le_right _ _⟩

/-- The draw is between 0 and the half that the lower one leaves, so the delay fits. -/
theorem retryChecked_eq (base : Int) {attempt : Nat} (hattempt : 1 ≤ attempt) {draw : Int → Int}
    (hdraw : ∀ n, 0 < n → 0 ≤ draw n ∧ draw n < n) : ∃ rounds ≤ 40,
    retryChecked base (some attempt) draw = some ⟨retryCeiling base (some attempt), rounds,
      retryCeiling base (some attempt) / 2 +
        draw (retryCeiling base (some attempt) - retryCeiling base (some attempt) / 2 + 1)⟩ := by
  obtain ⟨hpos, hmax⟩ := retryCeiling_bounds base hattempt
  have hmin : min (doubled (attempt - 1) (baseOf base)) maxDeliveryRetryDelay = retryCeiling base (some attempt) := by
    rw [retryCeiling_eq base hattempt, min_doubled _ (baseOf_pos base)]
  -- 2 ^ 38 nanoseconds are more than half of five minutes
  have henough : maxDeliveryRetryDelay / 2 < baseOf base * 2 ^ 38 := by
    have hbase := baseOf_pos base
    unfold maxDeliveryRetryDelay
    omega
  obtain ⟨rounds, hrounds, hloop⟩ := doubledChecked_eq (attempt - 1) (baseOf_pos base) 38 henough
  refine ⟨rounds, by omega, ?_⟩
  generalize retryCeiling base (some attempt) = ceiling at hpos hmax hmin ⊢
  unfold maxDeliveryRetryDelay at hmax
  obtain ⟨hlow, hhigh⟩ := hdraw (ceiling - ceiling / 2 + 1) (by omega)
  have hrange : int64 (ceiling - ceiling / 2) = some (ceiling - ceiling / 2) :=
    int64_of_fits (by omega) (by omega)
  have hbound : int64 (ceiling - ceiling / 2 + 1) = some (ceiling - ceiling / 2 + 1) :=
    int64_of_fits (by omega) (by omega)
  have hdelay := int64_of_fits (x := ceiling / 2 + draw (ceiling - ceiling / 2 + 1)) (by omega) (by omega)
  have hjitter : ¬ ceiling - ceiling / 2 ≤ 0 := by omega
  simp only [retryChecked, if_pos (show 0 < attempt from hattempt), hloop, Option.bind_eq_bind, Option.bind_some, hmin,
    hrange, hbound, hdelay, if_neg hjitter]

theorem handle_retryDelayForDelivery {S : Type} {h : (o : HandleOp) → S → Except Err o.Res × S} {draw : Int → Int}
    (hrandom : ∀ n s, (h (.random n) s).1 = .ok (draw n)) (base : Int) {attempt : Nat} (hattempt : 1 ≤ attempt)
      (s : S) :
    (handle h (retryDelayForDelivery base (some attempt)) s).1 =
      .ok (retryCeiling base (some attempt) / 2 +
        draw (retryCeiling base (some attempt) - retryCeiling base (some attempt) / 2 + 1)) := by
  have hjitter : ¬ retryCeiling base (some attempt) - retryCeiling base (some attempt) / 2 ≤ 0 := by
    have hpos := (retryCeiling_bounds base hattempt).1
    omega
  unfold retryDelayForDelivery
  simp only [if_neg hjitter]
  generalize retryCeiling base (some attempt) - retryCeiling base (some attempt) / 2 + 1 = bound
  have hdrawn : handle h (call (.random bound)) s = (.ok (draw bound), (h (.random bound) s).2) :=
    handle_call.trans (Prod.ext (hrandom bound s) rfl)
  exact congrArg Prod.fst (handle_bind_ok hdrawn)

/-- Every base, every attempt and every draw. The checked run has a result, so that no
    operation overflows; it is what the program returns. -/
theorem retryDelay_exact (base : Int64) (attempt : UInt64) (hattempt : 1 ≤ attempt.toNat) (draw : Int → Int)
    (hdraw : ∀ n, 0 < n → 0 ≤ draw n ∧ draw n < n) :
    ∃ run, retryChecked base.toInt (some attempt.toNat) draw = some run ∧
      run.ceiling = retryCeiling base.toInt (some attempt.toNat) ∧
      run.ceiling = min ((if base.toInt ≤ 0 then 5000000000 else base.toInt) * 2 ^ (attempt.toNat - 1)) 300000000000 ∧
      run.rounds ≤ 40 ∧ run.ceiling / 2 ≤ run.delay ∧ run.delay ≤ run.ceiling ∧
      ∀ (S : Type) (h : (o : HandleOp) → S → Except Err o.Res × S), (∀ n s, (h (.random n) s).1 = .ok (draw n)) →
        ∀ s, (handle h (retryDelayForDelivery base.toInt (some attempt.toNat)) s).1 = .ok run.delay := by
  obtain ⟨rounds, hrounds, hrun⟩ := retryChecked_eq base.toInt hattempt hdraw
  obtain ⟨hpos, -⟩ := retryCeiling_bounds base.toInt hattempt
  obtain ⟨hlow, hhigh⟩ := hdraw
    (retryCeiling base.toInt (some attempt.toNat) - retryCeiling base.toInt (some attempt.toNat) / 2 + 1) (by omega)
  refine ⟨_, hrun, rfl, retryCeiling_eq base.toInt hattempt, hrounds, ?_, ?_, ?_⟩
  · dsimp only
    omega
  · dsimp only
    omega
  · intro S h hrandom s
    exact handle_retryDelayForDelivery hrandom base.toInt hattempt s

/-- One nanosecond, and the last attempt there can be. -/
theorem retryDelay_exact_last : ∃ run, retryChecked 1 (some (2 ^ 64 - 1)) (fun _ => 0) = some run ∧
    run.rounds ≤ 40 ∧ run.ceiling / 2 ≤ run.delay ∧ run.delay ≤ run.ceiling := by
  obtain ⟨run, hrun, -, -, hrounds, hlow, hhigh, -⟩ := retryDelay_exact 1 (UInt64.ofNat (2 ^ 64 - 1)) (by decide)
    (fun _ => 0) (fun n hn => ⟨le_rfl, hn⟩)
  exact ⟨run, hrun, hrounds, hlow, hhigh⟩

end Handle

end FlowRule.Worker
