import FlowRule.Nats.Consumer

/- One iteration of the sharded worker (internal/application/worker_sharding.go): what of a fetch
   reaches processSingleDelivery. `passed` is the list of deliveries that the processor is called
   with, and every processor's work is its calls on that list (`iteration_fold`). The fetch returns
   the deliveries it has together with an error, and the iteration then drops them (`passed_eq`). -/
namespace FlowRule.Worker

open Nats

section
variable {Delivery σ : Type}

/-- Every delivery in order; an error of one is logged and the loop goes on. -/
def processFetchedDeliveries (processSingleDelivery : σ → Delivery → σ × Option Err) (s : σ)
    (deliveries : List Delivery) : σ × Bool :=
  if deliveries.length = 0 then (s, false)
  else (deliveries.foldl (fun s delivery => (processSingleDelivery s delivery).1) s, true)

def fetchAndProcessDeliveries (processSingleDelivery : σ → Delivery → σ × Option Err) (env : FetchEnv Delivery)
    (fetchBatchSize : Int) (ownedShards : List Nat) (c : Consumer) (s : σ) : Consumer × σ × Bool × Option Err :=
  if ownedShards.length = 0 then (c, s, false, none)
  else
    match fetchShards env c fetchBatchSize ownedShards with
    | (c, _, some e) => (c, s, false, some e)
    | (c, deliveries, none) =>
      let (s, didWork) := processFetchedDeliveries processSingleDelivery s deliveries
      (c, s, didWork, none)

/-- The iteration after its consumers have been reconciled; `waited` is whether the worker
    is still to run after a pause. -/
def runShardedIteration (processSingleDelivery : σ → Delivery → σ × Option Err) (env : FetchEnv Delivery)
    (fetchBatchSize : Int) (ownedShards : List Nat) (waited : Bool) (c : Consumer) (s : σ) : Consumer × σ × Bool :=
  match fetchAndProcessDeliveries processSingleDelivery env fetchBatchSize ownedShards c s with
  | (c, s, _, some _) => (c, s, waited)
  | (c, s, false, none) => (c, s, waited)
  | (c, s, true, none) => (c, s, true)

def trace (calls : List Delivery) (delivery : Delivery) : List Delivery × Option Err :=
  (calls ++ [delivery], none)

def passed (env : FetchEnv Delivery) (fetchBatchSize : Int) (ownedShards : List Nat) (waited : Bool)
    (c : Consumer) : List Delivery :=
  (runShardedIteration trace env fetchBatchSize ownedShards waited c []).2.1

variable {env : FetchEnv Delivery} {fetchBatchSize : Int} {ownedShards : List Nat} {waited : Bool} {c : Consumer}

theorem foldl_trace (deliveries calls : List Delivery) :
    deliveries.foldl (fun s d => (trace s d).1) calls = calls ++ deliveries := by
  induction deliveries generalizing calls with
  | nil => simp
  | cons d rest ih =>
    rw [List.foldl_cons, ih]
    simp [trace]

/-- The state after an iteration: the processor's calls on what the fetch returned, if it
    returned no error. -/
theorem iteration_state (processSingleDelivery : σ → Delivery → σ × Option Err) (s : σ) :
    (runShardedIteration processSingleDelivery env fetchBatchSize ownedShards waited c s).2.1 =
      (if (fetchShards env c fetchBatchSize ownedShards).2.2.isSome then []
        else (fetchShards env c fetchBatchSize ownedShards).2.1).foldl
          (fun s d => (processSingleDelivery s d).1) s := by
  have hnone : ownedShards.length = 0 → (fetchShards env c fetchBatchSize ownedShards).2.1 = [] := by
    intro h
    unfold fetchShards
    split
    · rfl
    · rw [if_pos h]
  unfold runShardedIteration fetchAndProcessDeliveries
  by_cases hown : ownedShards.length = 0
  · rw [if_pos hown, hnone hown]
    simp
  · rw [if_neg hown]
    rcases hf : fetchShards env c fetchBatchSize ownedShards with ⟨c', deliveries, err⟩
    cases err with
    | some e => simp
    | none =>
      simp only [processFetchedDeliveries]
      cases deliveries with
      | nil => simp
      | cons d rest => simp

theorem passed_eq : passed env fetchBatchSize ownedShards waited c =
    if (fetchShards env c fetchBatchSize ownedShards).2.2.isSome then []
    else (fetchShards env c fetchBatchSize ownedShards).2.1 := by
  unfold passed
  rw [iteration_state, foldl_trace, List.nil_append]

theorem iteration_fold (processSingleDelivery : σ → Delivery → σ × Option Err) (s : σ) :
    (runShardedIteration processSingleDelivery env fetchBatchSize ownedShards waited c s).2.1 =
      (passed env fetchBatchSize ownedShards waited c).foldl (fun s d => (processSingleDelivery s d).1) s := by
  rw [iteration_state, passed_eq]

/-! What the fetch returns. -/

theorem joinErrors_isSome (errs : List Err) : (joinErrors errs).isSome ↔ errs ≠ [] := by
  cases errs <;> simp [joinErrors]

/-- The collector drops no delivery, and returns an error exactly when some consumer did or
    there are more deliveries than were asked for. -/
theorem collect_spec (results : List (ShardFetchResult Delivery)) (maxMessages : Nat) :
    (collectFetchResults results maxMessages).1 = results.flatMap ShardFetchResult.deliveries ∧
    ((collectFetchResults results maxMessages).2.isSome ↔
      ¬ ((∀ r ∈ results, r.err = none) ∧ (results.flatMap ShardFetchResult.deliveries).length ≤ maxMessages)) := by
  refine ⟨rfl, ?_⟩
  have herrs : results.filterMap ShardFetchResult.err = [] ↔ ∀ r ∈ results, r.err = none :=
    List.filterMap_eq_nil_iff
  unfold collectFetchResults
  simp only [joinErrors_isSome]
  generalize (results.flatMap ShardFetchResult.deliveries).length = n
  by_cases hmany : maxMessages < n
  · rw [if_pos hmany]
    have hnot : ¬ n ≤ maxMessages := by omega
    simp [hnot]
  · rw [if_neg hmany]
    have hle : n ≤ maxMessages := by omega
    rw [ne_eq, herrs]
    simp only [hle, and_true]

/-- A fetch that gets as far as asking consumers returns what the collector makes of their
    results; any other returns nothing. -/
theorem fetchShards_eq (env : FetchEnv Delivery) (c : Consumer) (fetchBatchSize : Int) (ownedShards : List Nat) :
    (fetchShards env c fetchBatchSize ownedShards).2 =
        collectFetchResults (fetchResults env c fetchBatchSize ownedShards) fetchBatchSize.toNat ∨
      ((fetchShards env c fetchBatchSize ownedShards).2.1 = [] ∧
        fetchResults env c fetchBatchSize ownedShards = []) := by
  -- nobody is asked, so nothing arrives
  have hnobody : (selectFetchConsumers c fetchBatchSize.toNat ownedShards).2 = [] →
      env.arrive (fetchSelectedConsumers env.answers fetchBatchSize.toNat
        (selectFetchConsumers c fetchBatchSize.toNat ownedShards).2) = [] := by
    intro h
    have hperm := env.arrive_perm (fetchSelectedConsumers env.answers fetchBatchSize.toNat
      (selectFetchConsumers c fetchBatchSize.toNat ownedShards).2)
    rw [h] at hperm ⊢
    exact List.perm_nil.mp hperm
  have hempty : ownedShards.length = 0 → (selectFetchConsumers c fetchBatchSize.toNat ownedShards).2 = [] := by
    intro h
    rw [List.length_eq_zero_iff] at h
    subst h
    simp [selectFetchConsumers, matchingConsumerKeys]
  unfold fetchShards fetchResults
  cases validateFetchRequest env.ctxErr fetchBatchSize with
  | error e => exact .inr ⟨rfl, rfl⟩
  | ok _ =>
    simp only
    by_cases hown : ownedShards.length = 0
    · rw [if_pos hown]
      exact .inr ⟨rfl, hnobody (hempty hown)⟩
    · rw [if_neg hown]
      by_cases hsel : (selectFetchConsumers c fetchBatchSize.toNat ownedShards).2.length = 0
      · rw [if_pos hsel]
        exact .inr ⟨rfl, hnobody (List.length_eq_zero_iff.mp hsel)⟩
      · rw [if_neg hsel]
        exact .inl rfl

/-- An iteration calls the processor with a list of deliveries, whatever the processor is.
    That list holds every delivery of every result exactly once if and only if no result has
    an error and there are not more deliveries than were asked for, or there are none. -/
theorem iteration_passes_iff (env : FetchEnv Delivery) (fetchBatchSize : Int) (ownedShards : List Nat)
    (waited : Bool) (c : Consumer) :
    (∀ (σ : Type) (processSingleDelivery : σ → Delivery → σ × Option Err) (s : σ),
      (runShardedIteration processSingleDelivery env fetchBatchSize ownedShards waited c s).2.1 =
        (passed env fetchBatchSize ownedShards waited c).foldl (fun s d => (processSingleDelivery s d).1) s) ∧
    ((passed env fetchBatchSize ownedShards waited c).Perm
        ((fetchResults env c fetchBatchSize ownedShards).flatMap ShardFetchResult.deliveries) ↔
      ((∀ r ∈ fetchResults env c fetchBatchSize ownedShards, r.err = none) ∧
        ((fetchResults env c fetchBatchSize ownedShards).flatMap ShardFetchResult.deliveries).length ≤
          fetchBatchSize.toNat) ∨
      ∀ r ∈ fetchResults env c fetchBatchSize ownedShards, r.deliveries = []) := by
  refine ⟨fun σ process s => iteration_fold process s, ?_⟩
  have hnil : (∀ r ∈ fetchResults env c fetchBatchSize ownedShards, r.deliveries = []) ↔
      (fetchResults env c fetchBatchSize ownedShards).flatMap ShardFetchResult.deliveries = [] :=
    List.flatMap_eq_nil_iff.symm
  rw [passed_eq, hnil]
  rcases fetchShards_eq env c fetchBatchSize ownedShards with hcollect | ⟨hdel, hres⟩
  · obtain ⟨hall, herr⟩ := collect_spec (fetchResults env c fetchBatchSize ownedShards) fetchBatchSize.toNat
    rw [hcollect, hall]
    by_cases hfail : (collectFetchResults (fetchResults env c fetchBatchSize ownedShards)
        fetchBatchSize.toNat).2.isSome
    · -- the error hides the deliveries: nothing is passed on
      rw [if_pos hfail, List.nil_perm]
      have hnot := herr.mp hfail
      constructor
      · intro h
        exact .inr h
      · intro h
        exact h.resolve_left hnot
    · rw [if_neg hfail]
      have hgood := not_not.mp (fun h => hfail (herr.mpr h))
      exact ⟨fun _ => .inl hgood, fun _ => List.Perm.refl _⟩
  · rw [hdel, hres]
    simp

end

/-! A fetch from two shards, one of whose consumers is gone. -/

namespace Sample

def consumer : Consumer :=
  ⟨[(⟨"events", "", 0⟩, Text.bytes "flowrule-worker-shard-0"),
    (⟨"events", "", 1⟩, Text.bytes "flowrule-worker-shard-1")], 0⟩

def answers (key : ConsumerKey) (_ : Nat) : Answer String :=
  if key.shard = 0 then ⟨none, none, ["message"], none⟩
  else ⟨some (.other "nats: API error: code=404 err_code=10014 description=consumer not found"), none, [], none⟩

def env : FetchEnv String where
  ctxErr := none
  answers := answers
  arrive results := results
  arrive_perm results := List.Perm.refl results

end Sample

/-- The message of the first consumer is in a result and is not passed on. -/
theorem fetch_error_drops_delivery :
    (fetchResults Sample.env Sample.consumer 10 [0, 1]).flatMap ShardFetchResult.deliveries = ["message"] ∧
      passed Sample.env 10 [0, 1] true Sample.consumer = [] := by
  decide +kernel

end FlowRule.Worker
