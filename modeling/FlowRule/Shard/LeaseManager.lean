import FlowRule.Events.Statement
import Mathlib.Algebra.Order.BigOperators.Group.Finset
import Mathlib.Data.List.Sort

/- The lease manager of the Go worker (internal/runtime/shard/lease.go): how one worker of a fixed
   number of replicas reconciles the leases it owns with its share of the shards. `Replica` carries
   that there is at least one shard and one replica and that owned shards exist.

   rebalanceIfNeeded releases what a replica has too much and then sweeps over the shards for what
   it has too little; errors are logged and skipped. `settled_covers` is what follows for all
   replicas together when none of them would do anything. -/
namespace FlowRule

open Prog

structure LeaseManager where
  owner : String
  numShards : UInt32
  replicaCount : UInt32
  ttl : Int
  shards_pos : 0 < numShards.toNat
  replicas_pos : 0 < replicaCount.toNat

def newLeaseManager (owner : String) (numShards replicaCount : UInt32) (ttl : Int) : LeaseManager where
  owner := owner
  numShards := if numShards = 0 then 4096 else numShards
  replicaCount := if replicaCount = 0 then 3 else replicaCount
  ttl := if ttl ≤ 0 then 30000000 else ttl
  shards_pos := by
    split
    · decide
    · rename_i h
      exact Nat.pos_of_ne_zero (fun h0 => h (UInt32.toNat_inj.mp h0))
  replicas_pos := by
    split
    · decide
    · rename_i h
      exact Nat.pos_of_ne_zero (fun h0 => h (UInt32.toNat_inj.mp h0))

/-- The map of owned shards, all below `n`. -/
structure OwnedShards (n : Nat) where
  leases : List (Nat × ShardLease)
  nodup : (leases.map Prod.fst).Nodup
  below : ∀ e ∈ leases, e.1 < n

namespace OwnedShards

variable {n : Nat}

def shards (o : OwnedShards n) : List Nat := o.leases.map Prod.fst

def size (o : OwnedShards n) : Nat := o.leases.length

def put (o : OwnedShards n) (shard : Fin n) (lease : ShardLease) : OwnedShards n where
  leases := Assoc.put shard.val lease o.leases
  nodup := Assoc.nodup_put o.nodup
  below := by
    intro e he
    rcases List.mem_cons.mp he with rfl | he
    · exact shard.isLt
    · exact o.below e (List.mem_filter.mp he).1

def drop (o : OwnedShards n) (shard : Nat) : OwnedShards n where
  leases := Assoc.drop shard o.leases
  nodup := Assoc.nodup_drop o.nodup
  below e he := o.below e (List.mem_filter.mp he).1

end OwnedShards

structure Replica where
  manager : LeaseManager
  owned : OwnedShards manager.numShards.toNat

namespace LeaseManager

variable (m : LeaseManager)

def targetOwnedShards : UInt32 :=
  let target := m.numShards / m.replicaCount
  let target := if m.numShards % m.replicaCount ≠ 0 then target + 1 else target
  if target = 0 then 1 else target

def acquireShard (owned : OwnedShards m.numShards.toNat) (shard : Fin m.numShards.toNat) :
    Tx (OwnedShards m.numShards.toNat) := do
  let lease ← Go.acquire shard.val m.owner m.ttl
  if lease.owner ≠ m.owner then Prog.throw (.sentinel .leaseOwnedByOther)
  else pure (owned.put shard lease)

/-- The shards of the list are released one by one until the excess is gone; also says which
    were. -/
def releaseExcess (owned : OwnedShards m.numShards.toNat) :
    List Nat → Nat → Tx (OwnedShards m.numShards.toNat × List Nat)
  | [], _ => pure (owned, [])
  | shard :: rest, excess => do
    if excess = 0 then pure (owned, [])
    else
      match ← (Go.release shard m.owner).caught with
      | .error _ => releaseExcess owned rest excess
      | .ok _ =>
        if shard ∈ owned.shards then
          let (owned, released) ← releaseExcess (owned.drop shard) rest (excess - 1)
          pure (owned, shard :: released)
        else
          let (owned, released) ← releaseExcess owned rest excess
          pure (owned, shard :: released)

/-- The sweep over the shards for those the replica still needs; also says which it got. -/
def acquireNeeded (owned : OwnedShards m.numShards.toNat) :
    List (Fin m.numShards.toNat) → Nat → Tx (OwnedShards m.numShards.toNat × List Nat)
  | [], _ => pure (owned, [])
  | shard :: rest, needed => do
    if needed = 0 then pure (owned, [])
    else if shard.val ∈ owned.shards then acquireNeeded owned rest needed
    else
      match ← (m.acquireShard owned shard).caught with
      | .error _ => acquireNeeded owned rest needed
      | .ok owned =>
        let (owned, acquired) ← acquireNeeded owned rest (needed - 1)
        pure (owned, shard.val :: acquired)

structure Rebalanced (n : Nat) where
  owned : OwnedShards n
  released : List Nat
  acquired : List Nat

def rebalanceIfNeeded (owned : OwnedShards m.numShards.toNat) : Tx (Rebalanced m.numShards.toNat) := do
  let targetOwned := m.targetOwnedShards.toNat
  let (owned, released) ←
    if targetOwned < owned.size then
      -- the highest shards go first
      m.releaseExcess owned (owned.shards.insertionSort (· ≥ ·)) (owned.size - targetOwned)
    else pure (owned, [])
  if targetOwned ≤ owned.size then pure ⟨owned, released, []⟩
  else
    let (owned, acquired) ← m.acquireNeeded owned (List.finRange _) (targetOwned - owned.size)
    pure ⟨owned, released, acquired⟩

end LeaseManager

/-! The repository without errors. -/

def Leased (d : DB) (shard : Nat) (l : ShardLease) : Prop := d.leases shard = some l ∧ d.now < l.expiresAt

/-- No call on the repository fails: nothing goes wrong outside, and no token is at the end
    of its column. -/
def Faultless (d : DB) : Prop := ∀ shard l, d.leases shard = some l → l.fencingToken < maxInt64

section
variable {clock : Time} {d : DB} {s : Session} {shard : Nat} {owner : String} {ttl : Int}

variable (shard owner ttl) in
theorem upsertLease_token (h : Faultless d) :
    ¬ maxInt64 < (upsertLease d.now owner ttl (d.leases shard)).fencingToken := by
  cases hl : d.leases shard with
  | none =>
    simp only [upsertLease, maxInt64]
    omega
  | some l =>
    have hlt := h shard l hl
    simp only [upsertLease]
    split
    · simp only
      omega
    · omega

variable (clock s shard owner ttl) in
theorem handle_acquire (h : Faultless d) :
    ∃ s', handle (statement (calm clock)) (Go.acquire shard owner ttl) (d, s) =
      (.ok (upsertLease d.now owner (Go.milliseconds ttl) (d.leases shard)),
        ({ d with
            leases := Function.update d.leases shard
              (some (upsertLease d.now owner (Go.milliseconds ttl) (d.leases shard))) }, s')) := by
  have htoken := upsertLease_token shard owner (Go.milliseconds ttl) h
  generalize hl : upsertLease d.now owner (Go.milliseconds ttl) (d.leases shard) = l at htoken ⊢
  have hup : perform d [] { s with state := .active, now := d.now } (.leaseUpsert shard owner (Go.milliseconds ttl)) =
      some ({ d with leases := Function.update d.leases shard (some l) },
        ({ s with state := .active, now := d.now } : Session).close, .ok l) := by
    simp only [perform, List.any_nil, hl, if_neg htoken]
    rfl
  refine ⟨⟨.active, d.now, .empty, []⟩, (handle_bind_ok (handle_wrap_ok (handle_begin rfl))).trans ?_⟩
  refine (handle_bind_ok (handle_sql_wrap rfl rfl hup)).trans ?_
  refine (handle_bind_ok (handle_wrap_ok (handle_begin rfl))).trans ?_
  refine (handle_bind_ok (handle_sql_wrap rfl rfl rfl)).trans ?_
  simp only [Function.update_self]
  rfl

variable (clock d s shard owner) in
theorem handle_release : ∃ st, handle (statement (calm clock)) (Go.release shard owner) (d, s) = (.ok (), st) := by
  have hrel := handle_sql_wrap (w := calm clock) (d := d) (s := { s with state := .active, now := d.now })
    (o := .leaseRelease shard owner) (g := Err.wrap "release lease") rfl rfl rfl
  exact ⟨_, (handle_bind_ok (handle_wrap_ok (handle_begin rfl))).trans hrel⟩

end

/-! What a rebalance that does nothing says. -/

namespace LeaseManager

variable {m : LeaseManager} {clock : Time}

/-- The first shard of a release loop with something to release is released. -/
theorem releaseExcess_releases {owned : OwnedShards m.numShards.toNat} {shard : Nat} {rest : List Nat} {excess : Nat}
    (hpos : excess ≠ 0) {st st' : DB × Session} {owned' : OwnedShards m.numShards.toNat} {released : List Nat}
    (h : handle (statement (calm clock)) (m.releaseExcess owned (shard :: rest) excess) st =
      (.ok (owned', released), st')) : released ≠ [] := by
  obtain ⟨d, s⟩ := st
  obtain ⟨st₁, hrel⟩ := handle_release clock d s shard m.owner
  rw [releaseExcess, if_neg hpos, handle_bind, handle_caught, hrel] at h
  simp only at h
  split at h
  all_goals
    rw [handle_bind] at h
    split at h <;> cases h
    simp

/-- The shards the replica owns are those with a lease of its own that has not expired. -/
def Current (d : DB) (r : Replica) : Prop :=
  ∀ shard, shard ∈ r.owned.shards ↔ ∃ l, Leased d shard l ∧ l.owner = r.manager.owner

/-- A sweep that needs a shard and gets none has found a lease on every one of them. -/
theorem acquireNeeded_none {d : DB} {owned : OwnedShards m.numShards.toNat} (hfault : Faultless d)
    (hnow : ∀ shard l, d.leases shard = some l → l.expiresAt ≠ d.now)
    (hcur : Current d ⟨m, owned⟩) {needed : Nat} (hneeded : needed ≠ 0) :
    ∀ {shards : List (Fin m.numShards.toNat)} {s : Session} {owned' : OwnedShards m.numShards.toNat}
      {st : DB × Session},
      handle (statement (calm clock)) (m.acquireNeeded owned shards needed) (d, s) = (.ok (owned', []), st) →
      ∀ shard ∈ shards, ∃ l, Leased d shard.val l := by
  intro shards
  induction shards with
  | nil => simp
  | cons shard rest ih =>
    intro s owned' st h
    rw [acquireNeeded, if_neg hneeded] at h
    by_cases howned : shard.val ∈ owned.shards
    · rw [if_pos howned] at h
      obtain ⟨l, hl, -⟩ := (hcur shard.val).mp howned
      intro x hx
      rcases List.mem_cons.mp hx with rfl | hx
      · exact ⟨l, hl⟩
      · exact ih h x hx
    · rw [if_neg howned, handle_bind, handle_caught, acquireShard] at h
      obtain ⟨s', hacq⟩ := handle_acquire clock s shard.val m.owner m.ttl hfault
      rw [handle_bind_ok hacq] at h
      by_cases hheld : ∃ l, Leased d shard.val l
      · -- the lease is another's, and the upsert writes back what is there
        obtain ⟨l, hl⟩ := hheld
        have hother : l.owner ≠ m.owner := fun ho => howned ((hcur shard.val).mpr ⟨l, hl, ho⟩)
        have hback : upsertLease d.now m.owner (Go.milliseconds m.ttl) (d.leases shard.val) = l := by
          rw [hl.1]
          simp only [upsertLease, if_neg (not_lt.mpr hl.2.le)]
        rw [hback] at h
        have hsame : ({ d with leases := Function.update d.leases shard.val (some l) } : DB) = d := by
          rw [← hl.1, Function.update_eq_self]
        rw [hsame, if_pos hother] at h
        intro x hx
        rcases List.mem_cons.mp hx with rfl | hx
        · exact ⟨l, hl⟩
        · exact ih h x hx
      · -- nobody holds it, so the sweep gets it
        exfalso
        have hown : (upsertLease d.now m.owner (Go.milliseconds m.ttl) (d.leases shard.val)).owner = m.owner := by
          cases hl : d.leases shard.val with
          | none => rfl
          | some l =>
            have hle : ¬ d.now < l.expiresAt := fun hlt => hheld ⟨l, hl, hlt⟩
            have hne := hnow shard.val l hl
            simp only [upsertLease]
            rw [if_pos (lt_of_le_of_ne (not_lt.mp hle) hne)]
        rw [if_neg (by simp [hown])] at h
        simp only [handle_pure] at h
        rw [handle_bind] at h
        split at h <;> cases h

/-- The target is the number of shards over that of replicas, rounded up. -/
theorem targetOwnedShards_toNat (m : LeaseManager) :
    m.targetOwnedShards.toNat = (m.numShards.toNat + m.replicaCount.toNat - 1) / m.replicaCount.toNat := by
  have hn := m.shards_pos
  have hr := m.replicas_pos
  have hlt : m.numShards.toNat < 4294967296 := m.numShards.toNat_lt
  generalize hN : m.numShards.toNat = n at hn hlt ⊢
  generalize hR : m.replicaCount.toNat = r at hr ⊢
  have hdiv : (m.numShards / m.replicaCount).toNat = n / r := by rw [UInt32.toNat_div, hN, hR]
  have hmod : m.numShards % m.replicaCount = 0 ↔ n % r = 0 := by
    rw [← UInt32.toNat_inj, UInt32.toNat_mod, hN, hR]
    rfl
  have hsplit := Nat.div_add_mod n r
  generalize hq : n / r = q at hdiv hsplit
  have hpos : ∀ {t : UInt32}, 0 < t.toNat → (if t = 0 then 1 else t) = t := by
    intro t ht
    rw [if_neg]
    rintro rfl
    exact absurd ht (by decide)
  unfold targetOwnedShards
  by_cases hzero : n % r = 0
  · -- the shards divide evenly, and there is at least one for each
    have hqpos : 0 < q := by
      rcases Nat.eq_zero_or_pos q with rfl | h
      · omega
      · exact h
    simp only [hmod.mpr hzero, ne_eq, not_true_eq_false, if_false]
    rw [hpos (by rw [hdiv]; exact hqpos), hdiv, ← hsplit, hzero, Nat.add_zero, Nat.add_sub_assoc hr,
      Nat.mul_add_div hr, Nat.div_eq_of_lt (by omega), Nat.add_zero]
  · -- one more for the rest; the sum stays in the type because there are two replicas at least
    have hr2 : 2 ≤ r := by
      rcases Nat.lt_or_ge r 2 with h | h
      · obtain rfl : r = 1 := by omega
        exact absurd (Nat.mod_one n) hzero
      · exact h
    have hq2 : 2 * q ≤ n := by
      have := Nat.mul_le_mul_right q hr2
      omega
    have hsum : (m.numShards / m.replicaCount + 1).toNat = q + 1 := by
      rw [UInt32.toNat_add, hdiv]
      show (q + 1) % 4294967296 = q + 1
      exact Nat.mod_eq_of_lt (by omega)
    have hmodlt : n % r < r := Nat.mod_lt n hr
    simp only [mt hmod.mp hzero, ne_eq, not_false_eq_true, if_true]
    have hrest : n + r - 1 = r * (q + 1) + (n % r - 1) := by
      rw [Nat.mul_add, Nat.mul_one]
      omega
    rw [hpos (by rw [hsum]; omega), hsum, hrest, Nat.mul_add_div hr, Nat.div_eq_of_lt (by omega), Nat.add_zero]

end LeaseManager

/-! All replicas together. -/

/-- A rebalance of the replica, run now, would neither release nor acquire a lease. -/
def Settled (clock : Time) (d : DB) (r : Replica) : Prop :=
  ∃ owned st, handle (statement (calm clock)) (r.manager.rebalanceIfNeeded r.owned) (d, .idle) =
    (.ok ⟨owned, [], []⟩, st)

theorem settled_cases {clock : Time} {d : DB} {r : Replica} (hfault : Faultless d)
    (hnow : ∀ shard l, d.leases shard = some l → l.expiresAt ≠ d.now) (hcur : LeaseManager.Current d r)
    (h : Settled clock d r) :
    r.owned.size ≤ r.manager.targetOwnedShards.toNat ∧
      (r.owned.size = r.manager.targetOwnedShards.toNat ∨
        ∀ shard < r.manager.numShards.toNat, ∃ l, Leased d shard l) := by
  obtain ⟨m, owned⟩ := r
  obtain ⟨owned', st, h⟩ := h
  simp only [LeaseManager.rebalanceIfNeeded] at h
  by_cases hover : m.targetOwnedShards.toNat < owned.size
  · -- more than its share: the first of them would go
    exfalso
    rw [if_pos hover, handle_bind] at h
    split at h
    · rename_i x st₁ hrel
      obtain ⟨owned₁, released⟩ := x
      have hlen : 0 < (owned.shards.insertionSort (· ≥ ·)).length := by
        rw [List.length_insertionSort, OwnedShards.shards, List.length_map]
        exact Nat.lt_of_le_of_lt (Nat.zero_le _) hover
      cases hsort : owned.shards.insertionSort (· ≥ ·) with
      | nil =>
        rw [hsort] at hlen
        cases hlen
      | cons shard rest =>
        rw [hsort] at hrel
        have hne := LeaseManager.releaseExcess_releases (Nat.sub_ne_zero_of_lt hover) hrel
        simp only at h
        split at h
        · cases h
          exact hne rfl
        · rw [handle_bind] at h
          split at h
          · simp only [handle_pure, Prod.mk.injEq, Except.ok.injEq, LeaseManager.Rebalanced.mk.injEq] at h
            exact hne h.1.2.1
          · cases h
    · cases h
  · refine ⟨not_lt.mp hover, ?_⟩
    rw [if_neg hover, handle_bind] at h
    simp only [handle_pure] at h
    by_cases hfull : m.targetOwnedShards.toNat ≤ owned.size
    · exact .inl (le_antisymm (not_lt.mp hover) hfull)
    -- less than its share: it sweeps over all shards and gets none
    right
    rw [if_neg hfull, handle_bind] at h
    split at h
    · rename_i x st₁ hacq
      obtain ⟨owned₁, acquired⟩ := x
      cases h
      intro shard hshard
      exact LeaseManager.acquireNeeded_none hfault hnow hcur (by omega) hacq ⟨shard, hshard⟩ (List.mem_finRange _)
    · cases h

/-- Where no replica of a fixed number has anything to release or to acquire, every shard is
    leased and no replica owns more than its share of the shards, rounded up. -/
theorem settled_covers {numShards replicaCount : UInt32} (hreplicas : 0 < replicaCount.toNat)
    (replicas : Fin replicaCount.toNat → Replica)
    (hsame : ∀ i, (replicas i).manager.numShards = numShards ∧ (replicas i).manager.replicaCount = replicaCount)
    (howner : Function.Injective (fun i => (replicas i).manager.owner))
    {clock : Time} {d : DB} (hfault : Faultless d)
    (hnow : ∀ shard l, d.leases shard = some l → l.expiresAt ≠ d.now)
    (hcur : ∀ i, LeaseManager.Current d (replicas i)) (hsettled : ∀ i, Settled clock d (replicas i)) :
    (∀ shard < numShards.toNat, ∃ l, Leased d shard l) ∧
      ∀ i, (replicas i).owned.size ≤ (numShards.toNat + replicaCount.toNat - 1) / replicaCount.toNat := by
  have htarget : ∀ i, (replicas i).manager.targetOwnedShards.toNat =
      (numShards.toNat + replicaCount.toNat - 1) / replicaCount.toNat := by
    intro i
    rw [LeaseManager.targetOwnedShards_toNat, (hsame i).1, (hsame i).2]
  have hcases := fun i => settled_cases hfault hnow (hcur i) (hsettled i)
  refine ⟨?_, fun i => htarget i ▸ (hcases i).1⟩
  by_cases hall : ∀ i, (replicas i).owned.size = (replicas i).manager.targetOwnedShards.toNat
  · -- everyone has the full share: the shares are disjoint and as many as the shards
    let part : Fin replicaCount.toNat → Finset Nat := fun i => (replicas i).owned.shards.toFinset
    have hcard : ∀ i, (part i).card = (numShards.toNat + replicaCount.toNat - 1) / replicaCount.toNat := by
      intro i
      have hsize : (part i).card = (replicas i).owned.size := by
        show (List.toFinset ((replicas i).owned.leases.map Prod.fst)).card = _
        rw [List.toFinset_card_of_nodup (replicas i).owned.nodup, List.length_map]
        rfl
      rw [hsize, hall i, htarget i]
    have hdisjoint : ∀ i ∈ Finset.univ, ∀ j ∈ Finset.univ, i ≠ j → Disjoint (part i) (part j) := by
      intro i _ j _ hij
      rw [Finset.disjoint_left]
      intro shard hi hj
      obtain ⟨l, hl, ho⟩ := (hcur i shard).mp (List.mem_toFinset.mp hi)
      obtain ⟨l', hl', ho'⟩ := (hcur j shard).mp (List.mem_toFinset.mp hj)
      obtain rfl : l = l' := Option.some.inj (hl.1.symm.trans hl'.1)
      exact hij (howner (ho.symm.trans ho'))
    have hsub : Finset.univ.biUnion part ⊆ Finset.range numShards.toNat := by
      intro shard hshard
      obtain ⟨i, -, hi⟩ := Finset.mem_biUnion.mp hshard
      obtain ⟨e, he, rfl⟩ := List.mem_map.mp (List.mem_toFinset.mp hi)
      rw [Finset.mem_range, ← (hsame i).1]
      exact (replicas i).owned.below e he
    have hmany : (Finset.range numShards.toNat).card ≤ (Finset.univ.biUnion part).card := by
      rw [Finset.card_biUnion hdisjoint, Finset.sum_congr rfl (fun i _ => hcard i), Finset.sum_const,
        Finset.card_univ, Fintype.card_fin, Finset.card_range, smul_eq_mul]
      have := Nat.div_add_mod (numShards.toNat + replicaCount.toNat - 1) replicaCount.toNat
      have := Nat.mod_lt (numShards.toNat + replicaCount.toNat - 1) hreplicas
      omega
    intro shard hshard
    have hmem : shard ∈ Finset.univ.biUnion part := by
      rw [Finset.eq_of_subset_of_card_le hsub hmany]
      exact Finset.mem_range.mpr hshard
    obtain ⟨i, -, hi⟩ := Finset.mem_biUnion.mp hmem
    obtain ⟨l, hl, -⟩ := (hcur i shard).mp (List.mem_toFinset.mp hi)
    exact ⟨l, hl⟩
  · -- someone has less than the full share and has found no free shard
    obtain ⟨i, hi⟩ := not_forall.mp hall
    rcases (hcases i).2 with heq | hcover
    · exact absurd heq hi
    · rw [(hsame i).1] at hcover
      exact hcover

/-! Three shards on two workers. -/

namespace TwoWorkers

def lease (owner : String) : ShardLease := ⟨owner, 1, 30000000, 0⟩

def leases (shard : Nat) : Option ShardLease :=
  if shard < 2 then some (lease "a") else if shard = 2 then some (lease "b") else none

def db : DB := ⟨0, .empty, leases, ⟨[], [], [], [], []⟩⟩

def first : Replica where
  manager := newLeaseManager "a" 3 2 30000000
  owned := ⟨[(0, lease "a"), (1, lease "a")], by decide, by decide⟩

def second : Replica where
  manager := newLeaseManager "b" 3 2 30000000
  owned := ⟨[(2, lease "b")], by decide, by decide⟩

def replicas (i : Fin (2 : UInt32).toNat) : Replica := if i.val = 0 then first else second

theorem replicas_cases {P : Replica → Prop} (h₁ : P first) (h₂ : P second) (i : Fin (2 : UInt32).toNat) :
    P (replicas i) := by
  unfold replicas
  split
  · exact h₁
  · exact h₂

theorem leases_cases {shard : Nat} {l : ShardLease} (h : leases shard = some l) :
    (shard < 2 ∧ l = lease "a") ∨ (shard = 2 ∧ l = lease "b") := by
  unfold leases at h
  split at h
  · rename_i hlt
    cases h
    exact .inl ⟨hlt, rfl⟩
  · split at h
    · rename_i heq
      cases h
      exact .inr ⟨heq, rfl⟩
    · cases h

theorem current_first : LeaseManager.Current db first := by
  intro shard
  constructor
  · intro h
    have h2 : shard < 2 := by
      simp only [first, OwnedShards.shards, List.map_cons, List.map_nil, List.mem_cons, List.not_mem_nil,
        or_false] at h
      omega
    exact ⟨lease "a", ⟨if_pos h2, by decide⟩, rfl⟩
  · rintro ⟨l, ⟨hl, -⟩, ho⟩
    rcases leases_cases hl with ⟨h2, -⟩ | ⟨-, rfl⟩
    · simp only [first, OwnedShards.shards, List.map_cons, List.map_nil, List.mem_cons, List.not_mem_nil, or_false]
      omega
    · exact absurd ho (by decide)

theorem current_second : LeaseManager.Current db second := by
  intro shard
  constructor
  · intro h
    obtain rfl : shard = 2 := by
      simpa [second, OwnedShards.shards] using h
    exact ⟨lease "b", ⟨rfl, by decide⟩, rfl⟩
  · rintro ⟨l, ⟨hl, -⟩, ho⟩
    rcases leases_cases hl with ⟨-, rfl⟩ | ⟨rfl, -⟩
    · exact absurd ho (by decide)
    · simp [second, OwnedShards.shards]

theorem settled_first : Settled 0 db first := ⟨_, _, rfl⟩

theorem settled_second : Settled 0 db second := ⟨_, _, rfl⟩

end TwoWorkers

open TwoWorkers

theorem two_workers_cover :
    (∀ shard < (3 : UInt32).toNat, ∃ l, Leased db shard l) ∧
      ∀ i, (replicas i).owned.size ≤
        ((3 : UInt32).toNat + (2 : UInt32).toNat - 1) / (2 : UInt32).toNat := by
  refine @settled_covers 3 2 (by decide) replicas ?_ ?_ 0 db ?_ ?_ ?_ ?_
  · exact replicas_cases (P := fun r => r.manager.numShards = 3 ∧ r.manager.replicaCount = 2)
      ⟨rfl, rfl⟩ ⟨rfl, rfl⟩
  · intro i j h
    have hval : ∀ k : Fin (2 : UInt32).toNat, k.val = 0 ∨ k.val = 1 := by decide
    rcases hval i with hi | hi <;> rcases hval j with hj | hj
    · exact Fin.ext (hi.trans hj.symm)
    · simp only [replicas, hi, hj] at h
      exact absurd h (by decide)
    · simp only [replicas, hi, hj] at h
      exact absurd h (by decide)
    · exact Fin.ext (hi.trans hj.symm)
  · intro shard l hl
    rcases leases_cases hl with ⟨-, rfl⟩ | ⟨-, rfl⟩ <;> decide
  · intro shard l hl
    rcases leases_cases hl with ⟨-, rfl⟩ | ⟨-, rfl⟩ <;> decide
  · exact replicas_cases current_first current_second
  · exact replicas_cases settled_first settled_second

end FlowRule
