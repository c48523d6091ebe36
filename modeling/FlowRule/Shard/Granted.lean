import FlowRule.Lib.Triple
import FlowRule.Lib.Workers
import FlowRule.Events.Protocol
import FlowRule.Shard.LeaseManager

/- What an acquired lease is worth (acquireShard of internal/runtime/shard/lease.go on Acquire,
   RenewOwned and Release of internal/adapters/postgres/shard.go).

   Any number of managers share the lease table, several of them possibly under one owner name:
   that is what a restarted worker is. Their statements interleave; a manager may crash, a statement
   may fail, and its answer may be lost.

   The upsert of Acquire takes a row over only when it has expired, and the read that follows goes
   by the owner's name, so a manager also gets the live lease of another one of its name. `Orderly`
   excludes this, and then every lease that is stored was live when it was asked for, with a token
   above all that other managers have stored for the shard (`granted_fresh`). `taker` and `stored`
   are kept for the statements only. -/
namespace FlowRule

open Prog Workers Function

namespace LeaseManager

def acquireLease (m : LeaseManager) (shard : Nat) : Tx ShardLease := do
  let lease ← Go.acquire shard m.owner m.ttl
  if lease.owner ≠ m.owner then Prog.throw (.sentinel .leaseOwnedByOther)
  else pure lease

end LeaseManager

namespace OwnedShards

variable {n : Nat}

def ownedLeaseTokens (o : OwnedShards n) : List (Nat × Int) := o.leases.map (fun e => (e.1, e.2.fencingToken))

def applyRenewal (renewed : List (Nat × ShardLease)) (o : OwnedShards n) (expected : Nat × Int) : OwnedShards n :=
  match o.leases.lookup expected.1 with
  | none => o
  | some current =>
    if current.fencingToken ≠ expected.2 then o
    else
      match renewed.lookup expected.1 with
      | none => o.drop expected.1
      | some lease => if h : expected.1 < n then o.put ⟨expected.1, h⟩ lease else o

def applyBatchRenewals (o : OwnedShards n) (expected : List (Nat × Int)) (renewed : List (Nat × ShardLease)) :
    OwnedShards n :=
  expected.foldl (applyRenewal renewed) o

theorem applyRenewal_mem {P : Nat × ShardLease → Prop} {renewed : List (Nat × ShardLease)} {o : OwnedShards n}
    (ho : ∀ e ∈ o.leases, P e) (hr : ∀ e ∈ renewed, P e) (expected : Nat × Int) :
    ∀ e ∈ (applyRenewal renewed o expected).leases, P e := by
  unfold applyRenewal
  split
  · exact ho
  split
  · exact ho
  split
  · exact fun e he => ho e (List.mem_filter.mp he).1
  rename_i lease hlease
  split
  · intro e he
    rcases List.mem_cons.mp he with rfl | he
    · exact hr _ (Assoc.mem_of_lookup hlease)
    · exact ho e (List.mem_filter.mp he).1
  · exact ho

theorem applyBatchRenewals_mem {P : Nat × ShardLease → Prop} {renewed : List (Nat × ShardLease)}
    (hr : ∀ e ∈ renewed, P e) (expected : List (Nat × Int)) :
    ∀ {o : OwnedShards n}, (∀ e ∈ o.leases, P e) → ∀ e ∈ (o.applyBatchRenewals expected renewed).leases, P e := by
  induction expected with
  | nil => exact fun ho => ho
  | cons x rest ih => exact fun ho => ih (applyRenewal_mem ho hr x)

end OwnedShards

namespace Shard

/-- What a manager calls: acquireShard, the batch renewal of what it owns, and Release. -/
inductive Command where
  | acquire (shard : Nat)
  | renew
  | release (shard : Nat)
  deriving DecidableEq

inductive Outcome where
  | granted (shard : Nat) (lease : ShardLease)
  | renewed (expected : List (Nat × Int)) (rows : List (Nat × ShardLease))
  | released (shard : Nat)

/-- The database, and of every manager its map of owned shards, the call it makes, its
    session and the NOW() of the upsert that this call has made. -/
structure Fleet {n : Nat} (managers : Fin n → LeaseManager) where
  db : DB
  owned : (i : Fin n) → OwnedShards (managers i).numShards.toNat
  command : Fin n → Option Command
  alive : Fin n → Bool
  session : Fin n → Session
  asked : Fin n → Option Time
  taker : Nat → Option (Fin n)
  stored : List (Fin n × Nat × Int)

structure Reply where
  oracle : Oracle
  lost : Option Err

namespace Fleet

variable {n : Nat} {managers : Fin n → LeaseManager}

def begins (d : Fleet managers) (i : Fin n) : Fleet managers :=
  { d with session := update d.session i .idle, asked := update d.asked i none }

def start (d : Fleet managers) (i : Fin n) : Option (Fleet managers × Tx Outcome) :=
  if d.alive i then
    match d.command i with
    | none => none
    | some (.acquire shard) =>
      if shard < (managers i).numShards.toNat then
        some (d.begins i, Outcome.granted shard <$> (managers i).acquireLease shard)
      else none
    | some .renew =>
      let tokens := (d.owned i).ownedLeaseTokens
      some (d.begins i, Outcome.renewed tokens <$> Go.renewOwned (managers i).owner tokens (managers i).ttl)
    | some (.release shard) =>
      some (d.begins i, (fun _ => Outcome.released shard) <$> Go.release shard (managers i).owner)
  else none

def answered (d : Fleet managers) (i : Fin n) (o : Op) (db : DB) (s : Session) (a : Except Err o.Res) :
    Fleet managers :=
  { d with
    db := db
    session := update d.session i s
    asked := match o, a with
      | .leaseUpsert _ _ _, .ok _ => update d.asked i (some (d.session i).now)
      | _, _ => d.asked
    taker := match o with
      | .leaseUpsert shard _ _ =>
        if (db.leases shard).map ShardLease.fencingToken = (d.db.leases shard).map ShardLease.fencingToken then d.taker
        else update d.taker shard (some i)
      | _ => d.taker }

def exec (d : Fleet managers) (i : Fin n) (o : Op) (x : Reply) : Option (Fleet managers × Except Err o.Res) :=
  if d.alive i then
    match FlowRule.exec d.db [] (d.session i) o x.oracle with
    | some (db, s, a) => some (d.answered i o db s (Workers.unlessLost x.lost a), Workers.unlessLost x.lost a)
    | none => none
  else none

theorem exec_some {d d' : Fleet managers} {i : Fin n} {o : Op} {x : Reply} {a : Except Err o.Res}
    (h : d.exec i o x = some (d', a)) :
    d.alive i = true ∧ ∃ db s a₀, FlowRule.exec d.db [] (d.session i) o x.oracle = some (db, s, a₀) ∧
      d' = d.answered i o db s a ∧ Workers.unlessLost x.lost a₀ = a := by
  unfold exec at h
  split at h
  · rename_i halive
    split at h
    · rename_i db s a₀ hex
      simp only [Option.some.injEq, Prod.mk.injEq] at h
      obtain ⟨rfl, rfl⟩ := h
      exact ⟨halive, db, s, a₀, hex, rfl, rfl⟩
    · cases h
  · cases h

def ownedAfter (d : Fleet managers) (i : Fin n) : Except Err Outcome → OwnedShards (managers i).numShards.toNat
  | .ok (.granted shard lease) =>
    if h : shard < (managers i).numShards.toNat then (d.owned i).put ⟨shard, h⟩ lease else d.owned i
  | .ok (.renewed expected rows) => (d.owned i).applyBatchRenewals expected rows
  | .ok (.released shard) => (d.owned i).drop shard
  | .error _ => d.owned i

def tokens (i : Fin n) (o : OwnedShards (managers i).numShards.toNat) : List (Fin n × Nat × Int) :=
  o.ownedLeaseTokens.map (fun e => (i, e))

def finish (d : Fleet managers) (i : Fin n) (r : Except Err Outcome) : Fleet managers :=
  if d.alive i then
    { d with
      owned := update d.owned i (d.ownedAfter i r)
      stored := tokens i (d.ownedAfter i r) ++ d.stored
      command := update d.command i none
      asked := update d.asked i none }
  else d

/-- A manager takes up its next call, a manager crashes, and time passes. -/
inductive Event (n : Nat) where
  | order (i : Fin n) (c : Command)
  | crash (i : Fin n)
  | tick (dt : Nat)

def env (d : Fleet managers) : Event n → Option (Fleet managers)
  | .order i c =>
    match d.command i with
    | none => some { d with command := update d.command i (some c) }
    | some _ => none
  | .crash i => some { d with alive := update d.alive i false }
  | .tick dt => some { d with db := outside d.db (.tick dt) }

def init (managers : Fin n → LeaseManager) (now : Time) (refs : Reference) : Fleet managers where
  db := DB.empty now refs
  owned _ := ⟨[], by simp, by simp⟩
  command _ := none
  alive _ := true
  session _ := .idle
  asked _ := none
  taker _ := none
  stored := []

end Fleet

def fleet {n : Nat} (managers : Fin n → LeaseManager) :
    Shop (Fleet managers) (Fin n) (Fleet.Event n) Reply Op Op.Res Err Outcome where
  start := Fleet.start
  exec := Fleet.exec
  finish := Fleet.finish
  env := Fleet.env

section
variable {n : Nat} {managers : Fin n → LeaseManager}

def Fleet.Waiting (d : Fleet managers) (j : Fin n) (shard : Nat) : Prop :=
  d.alive j = true ∧ d.command j = some (.acquire shard) ∧ d.asked j ≠ none

instance {d : Fleet managers} {j : Fin n} {shard : Nat} : Decidable (d.Waiting j shard) :=
  inferInstanceAs (Decidable (_ ∧ _ ∧ _))

/-- The condition on a statement. A lease lasts for a millisecond at least. A row is taken
    over only when no manager of the same name is still to read it, and not from a manager
    that is still to store it. A manager that finds its own name on a lease that has not
    expired has taken this lease itself, and it does not expire right now. A row is released
    only when no other manager of the name is still to read it. -/
def Orderly (d : Fleet managers) (i : Fin n) (o : Op) (_ : Reply) : Prop :=
  match o with
  | .leaseUpsert shard owner ttl =>
    0 < ttl ∧ ∀ row ∈ d.db.leases shard,
      (row.expiresAt < (d.session i).now → ∀ j, j ≠ i → d.Waiting j shard →
        (managers j).owner ≠ owner ∧ d.taker shard ≠ some j) ∧
      ((d.session i).now ≤ row.expiresAt → row.owner = owner →
        (d.session i).now < row.expiresAt ∧ d.taker shard = some i)
  | .leaseRelease shard owner => ∀ j, j ≠ i → d.Waiting j shard → (managers j).owner ≠ owner
  | _ => True

instance {d : Fleet managers} {i : Fin n} {o : Op} {x : Reply} : Decidable (Orderly d i o x) := by
  unfold Orderly
  split <;> infer_instance

abbrev FleetWorld (managers : Fin n → LeaseManager) := World (Fleet managers) (Fin n) Op Op.Res Err Outcome

abbrev FleetAct (n : Nat) := Act (Fin n) (Fleet.Event n) Reply

/-- The manager, the shard and the lease, where the step is the store of an acquireShard. -/
def grant (u : FleetWorld managers) : FleetAct n → Option (Fin n × Nat × ShardLease)
  | .finish i =>
    match u.tasks i with
    | some (.ret (.granted shard lease)) => if u.data.alive i then some (i, shard, lease) else none
    | _ => none
  | _ => none

/-- A lease that is stored was live when it was asked for, and every token that another
    manager has stored for the shard is below its own. -/
def Granted (u : FleetWorld managers) (a : FleetAct n) : Prop :=
  ∀ g ∈ grant u a, (∃ now ∈ u.data.asked g.1, now < g.2.2.expiresAt) ∧
    ∀ e ∈ u.data.stored, e.1 ≠ g.1 → e.2.1 = g.2.1 → e.2.2 < g.2.2.fencingToken

instance {u : FleetWorld managers} {a : FleetAct n} : Decidable (Granted u a) :=
  inferInstanceAs (Decidable (∀ g ∈ grant u a, _))

/-! The protocol of a call. -/

inductive Stage where
  | asking (shard : Nat)
  | asked (shard : Nat) (now : Time)
  | read (shard : Nat) (now : Time) (lease : ShardLease)
  | renewing (expected : List (Nat × Int))
  | renewed (expected : List (Nat × Int)) (rows : List (Nat × ShardLease))
  | releasing (shard : Nat)
  | ended

inductive Allowed (owner : String) : Stage → Op → Prop where
  | begin {st : Stage} : Allowed owner st .begin
  | upsert {shard : Nat} {ttl : Int} : Allowed owner (.asking shard) (.leaseUpsert shard owner ttl)
  | get {shard : Nat} {now : Time} : Allowed owner (.asked shard now) (.leaseGet shard)
  | renew {expected : List (Nat × Int)} {ttl : Int} :
      Allowed owner (.renewing expected) (.leaseRenew owner expected ttl)
  | release {shard : Nat} : Allowed owner (.releasing shard) (.leaseRelease shard owner)

def moves (st : Stage) (o : Op) (r : o.Res) (st' : Stage) : Prop :=
  match st, o, r with
  | _, .begin, _ => st' = st
  | .asking shard, .leaseUpsert _ _ _, _ => ∃ now, st' = .asked shard now
  | .asked shard now, .leaseGet _, some lease => st' = .read shard now lease
  | .renewing expected, .leaseRenew _ _ _, rows => st' = .renewed expected rows
  | _, _, _ => st' = .ended

def proto (owner : String) : Proto Op Op.Res Err Stage := ⟨Allowed owner, untilError .ended moves⟩

def Stores (owner : String) (st : Stage) : Except Err Outcome → Prop
  | .ok (.granted shard lease) => ∃ now, st = .read shard now lease ∧ lease.owner = owner
  | .ok (.renewed expected rows) => expected = [] ∨ st = .renewed expected rows
  | _ => True

/-! The programs follow it. -/

section
variable {owner : String}

theorem returns_begin {st : Stage} {g : Err → Err} :
    Returns (proto owner) st ((sql .begin).wrap g) (fun st' _ => st' = st) := by
  refine .mono (.under (returns_call .begin)) (fun _ _ h => h) ?_
  intro st' now htr
  cases st <;> exact htr

theorem wp_acquireLease {m : LeaseManager} {shard : Nat} :
    wp (proto m.owner) (Outcome.granted shard <$> m.acquireLease shard) (Stores m.owner) (.asking shard) := by
  refine wp_map_returns (fun _ _ => trivial) (.bind (Q := fun st lease => ∃ now, st = .read shard now lease)
    (.bind returns_begin ?_) ?_)
  · rintro _ _ rfl
    refine .bind (.under (returns_call .upsert)) ?_
    rintro _ _ ⟨now, rfl⟩
    refine .bind returns_begin ?_
    rintro _ _ rfl
    refine .bind (.under (returns_call .get)) ?_
    rintro st (_ | lease) hst
    · trivial
    · exact ⟨now, hst⟩
  · rintro st lease ⟨now, rfl⟩
    split
    · trivial
    · rename_i howner
      exact ⟨now, rfl, not_not.mp howner⟩

theorem wp_renewOwned {expected : List (Nat × Int)} {ttl : Int} :
    wp (proto owner) (Outcome.renewed expected <$> Go.renewOwned owner expected ttl) (Stores owner)
      (.renewing expected) := by
  refine wp_map_returns (fun _ _ => trivial) ?_
  unfold Go.renewOwned
  split
  · rename_i hempty
    exact .inl (List.isEmpty_iff.mp hempty)
  · refine .bind returns_begin ?_
    rintro _ _ rfl
    exact .mono (.under (returns_call .renew)) (fun _ _ h => h) (fun _ _ h => .inr h)

theorem wp_release {shard : Nat} :
    wp (proto owner) ((fun _ => Outcome.released shard) <$> Go.release shard owner) (Stores owner)
      (.releasing shard) := by
  refine wp_map_returns (fun _ _ => trivial) (.bind returns_begin ?_)
  rintro _ _ rfl
  exact .mono (.under (returns_call .release)) (fun _ _ h => h) (fun _ _ _ => trivial)

end

/-! The invariant. -/

/-- What is known of a manager in the stage. Where the row bears its name it has taken the
    lease itself. -/
def StageOk (d : Fleet managers) (i : Fin n) : Stage → Prop
  | .asking shard => d.command i = some (.acquire shard)
  | .asked shard now => d.command i = some (.acquire shard) ∧ d.asked i = some now ∧
      ∃ row, d.db.leases shard = some row ∧
        (row.owner = (managers i).owner → d.taker shard = some i ∧ now < row.expiresAt)
  | .read shard now lease => d.command i = some (.acquire shard) ∧ d.asked i = some now ∧
      (lease.owner = (managers i).owner → d.taker shard = some i ∧ now < lease.expiresAt ∧
        ∃ row, d.db.leases shard = some row ∧ row.fencingToken = lease.fencingToken)
  | .renewing expected => ∀ e ∈ expected, (i, e) ∈ d.stored
  | .renewed _ rows => ∀ e ∈ rows, (i, e.1, e.2.fencingToken) ∈ d.stored
  | .releasing _ => True
  | .ended => True

/-- A stored token is that of the row or below it, and only who has taken the row has stored
    the token of the row. -/
structure FleetOk (d : Fleet managers) (σ : Fin n → Option Stage) : Prop where
  stored : ∀ e ∈ d.stored, ∃ row, d.db.leases e.2.1 = some row ∧
    (e.2.2 < row.fencingToken ∨ (e.2.2 = row.fencingToken ∧ d.taker e.2.1 = some e.1))
  owned : ∀ i, ∀ e ∈ (d.owned i).leases, (i, e.1, e.2.fencingToken) ∈ d.stored
  stage : ∀ i st, σ i = some st → d.alive i = true → StageOk d i st

inductive Moved (d : Fleet managers) (i : Fin n) (shard : Nat) (row : ShardLease) :
    ShardLease → Option (Fin n) → Prop where
  | same : Moved d i shard row row (d.taker shard)
  | taken {row' : ShardLease} (htoken : row.fencingToken < row'.fencingToken) (howner : row'.owner = (managers i).owner)
      (hfree : ∀ j, j ≠ i → d.Waiting j shard → (managers j).owner ≠ (managers i).owner ∧ d.taker shard ≠ some j) :
      Moved d i shard row row' (some i)
  | renewed {at_ : Time} (htaker : d.taker shard = some i) :
      Moved d i shard row { row with expiresAt := at_ } (d.taker shard)
  | released {at_ : Time} (howner : row.owner = (managers i).owner)
      (hfree : ∀ j, j ≠ i → d.Waiting j shard → (managers j).owner ≠ (managers i).owner) :
      Moved d i shard row { row with expiresAt := at_ } (d.taker shard)

structure Stepped (d d' : Fleet managers) (i : Fin n) : Prop where
  rows : ∀ shard row, d.db.leases shard = some row →
    ∃ row', d'.db.leases shard = some row' ∧ Moved d i shard row row' (d'.taker shard)
  owned : d'.owned = d.owned
  command : d'.command = d.command
  alive : d'.alive = d.alive
  stored : d'.stored = d.stored
  asked : ∀ j, j ≠ i → d'.asked j = d.asked j

section
variable {d d' : Fleet managers} {i j : Fin n} {σ : Fin n → Option Stage} {st st' : Stage} {shard : Nat}
  {row row' : ShardLease} {taker' : Option (Fin n)}

/-- A row goes on to a higher token, or keeps its token and its taker. -/
theorem Moved.token (h : Moved d i shard row row' taker') :
    row.fencingToken < row'.fencingToken ∨ (row'.fencingToken = row.fencingToken ∧ taker' = d.taker shard) := by
  cases h with
  | same => exact .inr ⟨rfl, rfl⟩
  | taken htoken howner hfree => exact .inl htoken
  | renewed htaker | released howner hfree => exact .inr ⟨rfl, rfl⟩

/-- A manager that is still to read the row finds its name there only on a lease of its own. -/
theorem Moved.asked {now : Time} (h : Moved d i shard row row' taker') (hj : j ≠ i) (hwait : d.Waiting j shard)
    (hrow : row.owner = (managers j).owner → d.taker shard = some j ∧ now < row.expiresAt)
    (howner : row'.owner = (managers j).owner) : taker' = some j ∧ now < row'.expiresAt := by
  cases h with
  | same => exact hrow howner
  | taken htoken hname hfree => exact absurd (howner.symm.trans hname) (hfree j hj hwait).1
  | renewed htaker =>
    have hself : some j = some i := (hrow howner).1.symm.trans htaker
    exact absurd (Option.some.inj hself) hj
  | released hname hfree => exact absurd (howner.symm.trans hname) (hfree j hj hwait)

/-- The lease of a manager that is still to store it stays the manager's own. -/
theorem Moved.read (h : Moved d i shard row row' taker') (hj : j ≠ i) (hwait : d.Waiting j shard)
    (htaker : d.taker shard = some j) : taker' = some j ∧ row'.fencingToken = row.fencingToken := by
  cases h with
  | same => exact ⟨htaker, rfl⟩
  | taken htoken hname hfree => exact absurd htaker (hfree j hj hwait).2
  | renewed _ | released _ _ => exact ⟨htaker, rfl⟩

theorem stageOk_other (h : StageOk d j st) (hj : j ≠ i) (halive : d.alive j = true) (hs : Stepped d d' i) :
    StageOk d' j st := by
  cases st with
  | asking shard => exact (congrFun hs.command j).trans h
  | asked shard now =>
    obtain ⟨hcommand, hasked, row, hrow, hown⟩ := h
    have hwait : d.Waiting j shard := ⟨halive, hcommand, by simp [hasked]⟩
    obtain ⟨row', hrow', hmoved⟩ := hs.rows shard row hrow
    exact ⟨(congrFun hs.command j).trans hcommand, (hs.asked j hj).trans hasked, row', hrow',
      fun howner => hmoved.asked hj hwait hown howner⟩
  | read shard now lease =>
    obtain ⟨hcommand, hasked, hown⟩ := h
    have hwait : d.Waiting j shard := ⟨halive, hcommand, by simp [hasked]⟩
    refine ⟨(congrFun hs.command j).trans hcommand, (hs.asked j hj).trans hasked, ?_⟩
    intro howner
    obtain ⟨htaker, hlive, row, hrow, htoken⟩ := hown howner
    obtain ⟨row', hrow', hmoved⟩ := hs.rows shard row hrow
    obtain ⟨htaker', htoken'⟩ := hmoved.read hj hwait htaker
    exact ⟨htaker', hlive, row', hrow', htoken'.trans htoken⟩
  | renewing expected | renewed expected rows =>
    intro e he
    rw [hs.stored]
    exact h e he
  | releasing shard => trivial
  | ended => trivial

theorem fleetOk_stepped (h : FleetOk d σ) (hs : Stepped d d' i) (hst : StageOk d' i st') :
    FleetOk d' (update σ i (some st')) where
  stored := by
    intro e he
    rw [hs.stored] at he
    obtain ⟨row, hrow, htoken⟩ := h.stored e he
    obtain ⟨row', hrow', hmoved⟩ := hs.rows e.2.1 row hrow
    refine ⟨row', hrow', ?_⟩
    rcases hmoved.token with hlt | ⟨heq, htaker⟩
    · left
      rcases htoken with htoken | ⟨htoken, -⟩ <;> omega
    · rw [heq, htaker]
      exact htoken
  owned := by
    intro j e he
    rw [hs.owned] at he
    rw [hs.stored]
    exact h.owned j e he
  stage := by
    intro j st hj halive
    rcases update_cases hj with ⟨rfl, hst'⟩ | ⟨hji, hj⟩
    · cases hst'
      exact hst
    · rw [hs.alive] at halive
      exact stageOk_other (h.stage j st hj halive) hji halive hs

/-! One statement. -/

section
variable {o : Op} {db : DB} {s : Session} {a : Except Err o.Res} {x : Reply}

theorem answered_asked (hj : j ≠ i) : (d.answered i o db s a).asked j = d.asked j := by
  unfold Fleet.answered
  simp only
  split
  · exact update_of_ne hj ..
  · rfl

theorem stepped_of_rows (hrows : ∀ shard row, d.db.leases shard = some row →
      ∃ row', db.leases shard = some row' ∧ Moved d i shard row row' ((d.answered i o db s a).taker shard)) :
    Stepped d (d.answered i o db s a) i :=
  ⟨hrows, rfl, rfl, rfl, rfl, fun _ hj => answered_asked hj⟩

theorem answered_taker (hleases : db.leases = d.db.leases) : (d.answered i o db s a).taker = d.taker := by
  unfold Fleet.answered
  simp only
  split
  · rw [hleases, if_pos rfl]
  · rfl

theorem stepped_quiet (hleases : db.leases = d.db.leases) : Stepped d (d.answered i o db s a) i := by
  refine stepped_of_rows (fun shard row hrow => ⟨row, hleases ▸ hrow, ?_⟩)
  rw [answered_taker hleases]
  exact .same

variable {owner : String} {ttl : Int}

theorem perform_upsert {db db' : DB} {s s' : Session} {a : Except Err (Op.leaseUpsert shard owner ttl).Res}
    (hp : perform db [] s (.leaseUpsert shard owner ttl) = some (db', s', a)) :
    (db'.leases = db.leases ∧ ∃ e, a = .error e) ∨
      db'.leases = update db.leases shard (some (upsertLease s.now owner ttl (db.leases shard))) := by
  simp only [perform, List.any_nil, Bool.false_eq_true, if_false] at hp
  split at hp
  · cases hp
    exact .inl ⟨rfl, _, rfl⟩
  · cases hp
    exact .inr rfl

theorem perform_renew {db db' : DB} {s s' : Session} {expected : List (Nat × Int)}
    {a : Except Err (Op.leaseRenew owner expected ttl).Res}
    (hp : perform db [] s (.leaseRenew owner expected ttl) = some (db', s', a)) :
    (∀ k, db'.leases k = (db.leases k).map (renewLease s.now owner expected ttl k)) ∧
      ∀ rows : List (Nat × ShardLease), a = .ok rows → ∀ e ∈ rows,
        (e.1, e.2.fencingToken) ∈ expected ∧ db'.leases e.1 = some e.2 ∧ e.2.owner = owner := by
  simp only [perform, List.any_nil, Bool.false_eq_true, if_false, Option.some.injEq, Prod.mk.injEq] at hp
  obtain ⟨rfl, -, rfl⟩ := hp
  refine ⟨fun _ => rfl, ?_⟩
  intro rows hrows e he
  cases hrows
  obtain ⟨p, hp, hsome⟩ := List.mem_filterMap.mp he
  split at hsome
  · rename_i l hl
    split at hsome
    · rename_i hmatch
      simp only [hl, Option.map_some, Option.some.injEq] at hsome
      subst hsome
      refine ⟨?_, by simp only [hl, Option.map_some], ?_⟩
      · rw [renewLease]
        split <;> (rw [hmatch.1]; exact hp)
      · rw [renewLease]
        split <;> exact hmatch.2.1
    · cases hsome
  · cases hsome

theorem upsert_taker {a : Except Err (Op.leaseUpsert shard owner ttl).Res}
    (htoken : (db.leases shard).map ShardLease.fencingToken ≠ (d.db.leases shard).map ShardLease.fencingToken) :
    (d.answered i (.leaseUpsert shard owner ttl) db s a).taker = update d.taker shard (some i) :=
  if_neg htoken

/-- The upsert: it makes the row, takes over an expired one, or leaves it. In the end the
    manager finds its name only on a lease that it has taken itself. -/
theorem stepped_upsert {a : Except Err (Op.leaseUpsert shard (managers i).owner ttl).Res}
    (hord : Orderly d i (.leaseUpsert shard (managers i).owner ttl) x)
    (hleases : db.leases = update d.db.leases shard
      (some (upsertLease (d.session i).now (managers i).owner ttl (d.db.leases shard)))) :
    Stepped d (d.answered i (.leaseUpsert shard (managers i).owner ttl) db s a) i ∧
      ∃ row, db.leases shard = some row ∧ (row.owner = (managers i).owner →
        (d.answered i (.leaseUpsert shard (managers i).owner ttl) db s a).taker shard = some i ∧
          (d.session i).now < row.expiresAt) := by
  have hself : db.leases shard =
      some (upsertLease (d.session i).now (managers i).owner ttl (d.db.leases shard)) := by
    rw [hleases, update_self]
  have hother : ∀ k, k ≠ shard → db.leases k = d.db.leases k := by
    intro k hk
    rw [hleases, update_of_ne hk]
  obtain ⟨hlasts, hord⟩ := hord
  -- a new token makes the manager the taker
  have htakes : (db.leases shard).map ShardLease.fencingToken ≠ (d.db.leases shard).map ShardLease.fencingToken →
      (∀ row ∈ d.db.leases shard, ∃ row', db.leases shard = some row' ∧ Moved d i shard row row' (some i)) →
      Stepped d (d.answered i (.leaseUpsert shard (managers i).owner ttl) db s a) i ∧
        (d.answered i (.leaseUpsert shard (managers i).owner ttl) db s a).taker shard = some i := by
    intro htoken hmoved
    have htaker := upsert_taker (d := d) (i := i) (s := s) (a := a) htoken
    rw [htaker, update_self]
    refine ⟨stepped_of_rows ?_, rfl⟩
    intro k row hk
    rw [htaker]
    by_cases hne : k = shard
    · subst hne
      rw [update_self]
      exact hmoved row hk
    · rw [update_of_ne hne]
      exact ⟨row, (hother k hne).trans hk, .same⟩
  cases hrow : d.db.leases shard with
  | none =>
    rw [hrow] at hself htakes
    obtain ⟨hstep, htaker⟩ := htakes (by rw [hself]; exact nofun) (fun _ h => by cases h)
    exact ⟨hstep, _, hself, fun _ => ⟨htaker, Int.lt_add_of_pos_right _ hlasts⟩⟩
  | some row =>
    obtain ⟨hover, hleft⟩ := hord row hrow
    rw [hrow] at hself htakes
    simp only [upsertLease] at hself
    by_cases hexp : row.expiresAt < (d.session i).now
    · -- taken over
      rw [if_pos hexp] at hself
      obtain ⟨hstep, htaker⟩ := htakes (by rw [hself]; simp) (by
        rintro _ ⟨⟩
        exact ⟨_, hself, .taken (Int.lt_succ _) rfl (hover hexp)⟩)
      exact ⟨hstep, _, hself, fun _ => ⟨htaker, Int.lt_add_of_pos_right _ hlasts⟩⟩
    · -- left as it is
      rw [if_neg hexp] at hself
      have hsame : db.leases = d.db.leases := by
        funext k
        by_cases hne : k = shard
        · rw [hne, hself, hrow]
        · exact hother k hne
      refine ⟨stepped_quiet hsame, row, hself, ?_⟩
      intro howner
      rw [answered_taker hsame]
      exact (hleft (not_lt.mp hexp) howner).symm

/-- A renewal: the rows it matches are those the manager has taken itself. -/
theorem stepped_renew {expected : List (Nat × Int)}
    {a : Except Err (Op.leaseRenew (managers i).owner expected ttl).Res} (h : FleetOk d σ)
    (hexp : ∀ e ∈ expected, (i, e) ∈ d.stored)
    (hleases : ∀ k, db.leases k = (d.db.leases k).map
      (renewLease (d.session i).now (managers i).owner expected ttl k)) :
    Stepped d (d.answered i (.leaseRenew (managers i).owner expected ttl) db s a) i := by
  refine stepped_of_rows (fun k row hrow => ⟨_, by rw [hleases k, hrow]; rfl, ?_⟩)
  show Moved d i k row _ (d.taker k)
  unfold renewLease
  split
  · rename_i hmatch
    obtain ⟨row', hrow', htoken⟩ := h.stored _ (hexp _ hmatch.1)
    rw [hrow] at hrow'
    cases hrow'
    rcases htoken with hlt | ⟨-, htaker⟩
    · exact absurd hlt (Int.lt_irrefl _)
    · exact .renewed htaker
  · exact .same

theorem stepped_release {a : Except Err (Op.leaseRelease shard (managers i).owner).Res}
    (hord : Orderly d i (.leaseRelease shard (managers i).owner) x)
    (hleases : db.leases = update d.db.leases shard
      ((d.db.leases shard).map (releaseLease (d.session i).now (managers i).owner))) :
    Stepped d (d.answered i (.leaseRelease shard (managers i).owner) db s a) i := by
  refine stepped_of_rows (fun k row hrow => ?_)
  by_cases hne : k = shard
  · subst hne
    refine ⟨_, by rw [hleases, update_self, hrow]; rfl, ?_⟩
    show Moved d i k row _ (d.taker k)
    unfold releaseLease
    split
    · rename_i howner
      exact .released howner hord
    · exact .same
  · exact ⟨row, by rw [hleases, update_of_ne hne]; exact hrow, .same⟩

theorem exec_stepped {a₀ : Except Err o.Res} (h : FleetOk d σ) (hst : StageOk d i st)
    (ha : Allowed (managers i).owner st o) (hord : Orderly d i o x)
    (he : FlowRule.exec d.db [] (d.session i) o x.oracle = some (db, s, a₀)) :
    Stepped d (d.answered i o db s a) i := by
  rcases exec_cases he with ⟨rfl, -⟩ | ⟨rfl, -⟩ | ⟨rfl, -⟩ | hp
  · exact stepped_quiet rfl
  · exact stepped_quiet rfl
  · exact stepped_quiet rfl
  · cases ha with
    | begin => cases hp
    | upsert =>
      rcases perform_upsert hp with ⟨hsame, -⟩ | hleases
      · exact stepped_quiet hsame
      · exact (stepped_upsert hord hleases).1
    | get =>
      cases hp
      exact stepped_quiet rfl
    | renew => exact stepped_renew h hst (perform_renew hp).1
    | release =>
      cases hp
      exact stepped_release hord rfl

theorem performed_of_ok {r : o.Res} (ho : o ≠ .begin) (hclock : o ≠ .clock)
    (he : FlowRule.exec d.db [] (d.session i) o x.oracle = some (db, s, .ok r)) :
    perform d.db [] (d.session i) o = some (db, s, .ok r) := by
  rcases exec_cases he with ⟨-, -, ⟨e, herr, -⟩ | hc⟩ | ⟨-, -, hb, -⟩ | ⟨-, -, e, herr⟩ | hp
  · cases herr
  · exact absurd hc hclock
  · exact absurd hb ho
  · cases herr
  · exact hp

theorem stage_after {r : o.Res} (hst : StageOk d i st) (ha : Allowed (managers i).owner st o) (hord : Orderly d i o x)
    (he : FlowRule.exec d.db [] (d.session i) o x.oracle = some (db, s, .ok r)) :
    ∃ st', moves st o r st' ∧ StageOk (d.answered i o db s (.ok r)) i st' := by
  cases ha with
  | begin =>
    have hdb : db = d.db := by
      rcases exec_cases he with ⟨hdb, -⟩ | ⟨hdb, -⟩ | ⟨hdb, -⟩ | hp
      · exact hdb
      · exact hdb
      · exact hdb
      · cases hp
    subst hdb
    refine ⟨st, ?_, ?_⟩
    · cases st <;> rfl
    · cases st <;> exact hst
  | @upsert shard ttl =>
    rcases perform_upsert (performed_of_ok (by simp) (by simp) he) with ⟨-, e, herr⟩ | hleases
    · cases herr
    · exact ⟨.asked shard (d.session i).now, ⟨_, rfl⟩, hst, update_self ..,
        (stepped_upsert hord hleases).2⟩
  | @get shard now =>
    have hp := performed_of_ok (by simp) (by simp) he
    obtain ⟨hcommand, hasked, row, hrow, hown⟩ := hst
    cases hp
    rw [hrow]
    exact ⟨.read shard now row, rfl, hcommand, hasked, fun howner => ⟨(hown howner).1, (hown howner).2, row, hrow, rfl⟩⟩
  | @renew expected ttl =>
    have hrows := (perform_renew (performed_of_ok (by simp) (by simp) he)).2 r rfl
    exact ⟨.renewed expected r, rfl, fun e hmem => hst _ (hrows e hmem).1⟩
  | release => exact ⟨.ended, rfl, trivial⟩

theorem exec_sound {a : Except Err o.Res} (h : FleetOk d σ) (hσ : σ i = some st)
    (ha : Allowed (managers i).owner st o) (hord : Orderly d i o x) (he : d.exec i o x = some (d', a)) :
    ∃ st', untilError .ended moves st o a st' ∧ FleetOk d' (update σ i (some st')) := by
  obtain ⟨halive, db, s, a₀, hex, rfl, ha₀⟩ := Fleet.exec_some he
  have hst := h.stage i st hσ halive
  have hstep := exec_stepped (a := a) h hst ha hord hex
  cases a with
  | error e => exact ⟨.ended, rfl, fleetOk_stepped h hstep trivial⟩
  | ok r =>
    rw [Workers.unlessLost_ok ha₀] at hex
    obtain ⟨st', htr, hst'⟩ := stage_after hst ha hord hex
    exact ⟨st', htr, fleetOk_stepped h hstep hst'⟩

end

/-! The other steps. -/

theorem stageOk_frame (h : StageOk d j st) (hleases : d'.db.leases = d.db.leases) (htaker : d'.taker = d.taker)
    (hstored : ∀ e ∈ d.stored, e ∈ d'.stored) (hcommand : d'.command j = d.command j)
    (hasked : d'.asked j = d.asked j) : StageOk d' j st := by
  cases st with
  | asking shard => exact hcommand.trans h
  | asked shard now | read shard now lease =>
    simp only [StageOk, hleases, htaker, hcommand, hasked]
    exact h
  | renewing expected | renewed expected rows => exact fun e he => hstored _ (h e he)
  | releasing shard => trivial
  | ended => trivial

theorem fleetOk_start {p : Tx Outcome} (h : FleetOk d σ) (hst : d.start i = some (d', p)) :
    ∃ st, FleetOk d' (update σ i (some st)) ∧ wp (proto (managers i).owner) p (Stores (managers i).owner) st := by
  -- the call begins in a stage of its own, and nobody else's changes
  have hok : ∀ {st}, StageOk (d.begins i) i st → FleetOk (d.begins i) (update σ i (some st)) := by
    intro st hst
    refine ⟨h.stored, h.owned, ?_⟩
    intro j st' hj halive
    rcases update_cases hj with ⟨rfl, hst'⟩ | ⟨hji, hj⟩
    · cases hst'
      exact hst
    · exact stageOk_frame (h.stage j st' hj halive) rfl rfl (fun _ he => he) rfl (update_of_ne hji ..)
  unfold Fleet.start at hst
  split at hst
  · split at hst
    · cases hst
    · rename_i shard hcommand
      split at hst <;> cases hst
      exact ⟨.asking shard, hok hcommand, wp_acquireLease⟩
    · cases hst
      refine ⟨.renewing _, hok ?_, wp_renewOwned⟩
      intro e he
      obtain ⟨x, hx, rfl⟩ := List.mem_map.mp he
      exact h.owned i x hx
    · rename_i shard hcommand
      cases hst
      exact ⟨.releasing shard, hok trivial, wp_release⟩
  · cases hst

/-- What is in the map after a call was there before, or is what the call has come to. -/
theorem ownedAfter_mem {P : Nat × ShardLease → Prop} {r : Except Err Outcome} (hkept : ∀ e ∈ (d.owned i).leases, P e)
    (hrenewed : ∀ expected rows, r = .ok (.renewed expected rows) → expected = [] ∨ ∀ e ∈ rows, P e)
    (hgranted : ∀ shard lease, r = .ok (.granted shard lease) → P (shard, lease)) :
    ∀ e ∈ (d.ownedAfter i r).leases, P e := by
  match r with
  | .error _ => exact hkept
  | .ok (.released shard) => exact fun e he => hkept e (List.mem_filter.mp he).1
  | .ok (.renewed expected rows) =>
    rcases hrenewed expected rows rfl with rfl | hrows
    · exact hkept
    · exact OwnedShards.applyBatchRenewals_mem hrows expected hkept
  | .ok (.granted shard lease) =>
    simp only [Fleet.ownedAfter]
    split
    · intro e he
      rcases List.mem_cons.mp he with rfl | he
      · exact hgranted shard lease rfl
      · exact hkept e (List.mem_filter.mp he).1
    · exact hkept

theorem fleetOk_finish {r : Except Err Outcome} (h : FleetOk d σ) (hσ : σ i = some st)
    (hstores : Stores (managers i).owner st r) : FleetOk (d.finish i r) (update σ i none) := by
  unfold Fleet.finish
  split
  · rename_i halive
    have hst := h.stage i st hσ halive
    have hafter : ∀ e ∈ (d.ownedAfter i r).leases,
        (i, e.1, e.2.fencingToken) ∈ d.stored ∨ r = .ok (.granted e.1 e.2) := by
      refine ownedAfter_mem (fun e he => .inl (h.owned i e he)) ?_ (fun _ _ h => .inr h)
      rintro expected rows rfl
      exact hstores.imp id (by rintro rfl; exact fun e he => .inl (hst e he))
    refine ⟨?_, ?_, ?_⟩
    · intro e he
      rcases List.mem_append.mp he with he | he
      · obtain ⟨p, hp, rfl⟩ := List.mem_map.mp he
        obtain ⟨x, hx, rfl⟩ := List.mem_map.mp hp
        rcases hafter x hx with hold | rfl
        · exact h.stored _ hold
        -- the lease that was granted is the row, and the manager has taken it
        obtain ⟨now, rfl, howner⟩ := hstores
        obtain ⟨-, -, hown⟩ := hst
        obtain ⟨htaker, -, row, hrow, htoken⟩ := hown howner
        exact ⟨row, hrow, .inr ⟨htoken.symm, htaker⟩⟩
      · exact h.stored e he
    · intro j e he
      by_cases hji : j = i
      · subst hji
        simp only [update_self] at he
        exact List.mem_append_left _ (List.mem_map_of_mem (List.mem_map_of_mem he))
      · simp only [update_of_ne hji] at he
        exact List.mem_append_right _ (h.owned j e he)
    · intro j st' hj hjalive
      rcases update_cases hj with ⟨-, hst'⟩ | ⟨hji, hj⟩
      · cases hst'
      · exact stageOk_frame (h.stage j st' hj hjalive) rfl rfl (fun _ he => List.mem_append_right _ he)
          (update_of_ne hji ..) (update_of_ne hji ..)
  · rename_i hdead
    refine ⟨h.stored, h.owned, ?_⟩
    intro j st' hj hjalive
    rcases update_cases hj with ⟨rfl, -⟩ | ⟨-, hj⟩
    · exact absurd hjalive hdead
    · exact h.stage j st' hj hjalive

theorem fleetOk_env {v : Fleet.Event n} (h : FleetOk d σ) (hv : d.env v = some d') : FleetOk d' σ := by
  cases v with
  | order i c =>
    simp only [Fleet.env] at hv
    split at hv
    · rename_i hnone
      cases hv
      refine ⟨h.stored, h.owned, ?_⟩
      intro j st hj halive
      have hst := h.stage j st hj halive
      by_cases hji : j = i
      · -- a manager that waits for its next call has none under way
        subst hji
        cases st with
        | asking shard => cases hnone.symm.trans hst
        | asked shard now | read shard now lease => cases hnone.symm.trans hst.1
        | renewing expected => exact hst
        | renewed expected rows => exact hst
        | releasing shard => trivial
        | ended => trivial
      · exact stageOk_frame hst rfl rfl (fun _ he => he) (update_of_ne hji ..) rfl
    · cases hv
  | crash i =>
    cases hv
    refine ⟨h.stored, h.owned, ?_⟩
    intro j st hj halive
    have hji : j ≠ i := by
      rintro rfl
      simp at halive
    simp only [update_of_ne hji] at halive
    exact stageOk_frame (h.stage j st hj halive) rfl rfl (fun _ he => he) rfl rfl
  | tick dt =>
    cases hv
    exact ⟨h.stored, h.owned, fun j st hj halive =>
      stageOk_frame (h.stage j st hj halive) rfl rfl (fun _ he => he) rfl rfl⟩

end

theorem fleet_sound : Sound (fleet managers) (fun i => proto (managers i).owner)
    (fun i => Stores (managers i).owner) FleetOk Orderly where
  start h _ hst := fleetOk_start h hst
  exec h hσ ha hord he := exec_sound h hσ ha hord he
  finish h hσ hstores := fleetOk_finish h hσ hstores
  env h hv := fleetOk_env h hv

theorem fleetOk_init {now : Time} {refs : Reference} : FleetOk (Fleet.init managers now refs) (fun _ => none) :=
  ⟨nofun, fun _ _ he => (nomatch he), nofun⟩

theorem grant_cases {u : FleetWorld managers} {a : FleetAct n} {i : Fin n} {shard : Nat} {lease : ShardLease}
    (h : (i, shard, lease) ∈ grant u a) : u.tasks i = some (.ret (.granted shard lease)) ∧ u.data.alive i = true := by
  cases a with
  | finish j =>
    simp only [grant] at h
    split at h
    · rename_i htask
      split at h
      · rename_i halive
        cases h
        exact ⟨htask, halive⟩
      · cases h
    · cases h
  | _ => cases h

/-- A call that ends in a grant ends in the stage in which the manager has taken the lease
    and nobody else has its token. -/
theorem granted_of_holds {u : FleetWorld managers} (h : Holds (fun i => proto (managers i).owner)
    (fun i => Stores (managers i).owner) FleetOk u) (a : FleetAct n) : Granted u a := by
  obtain ⟨σ, hok, hfol⟩ := h
  rintro ⟨i, shard, lease⟩ hg
  obtain ⟨htask, halive⟩ := grant_cases hg
  have hi := hfol i
  rw [htask] at hi
  obtain ⟨st, hσ, now, rfl, howner⟩ := stage_of_task hi
  obtain ⟨-, hasked, hown⟩ := hok.stage i _ hσ halive
  obtain ⟨htaker, hlive, row, hrow, htoken⟩ := hown howner
  refine ⟨⟨now, hasked, hlive⟩, ?_⟩
  intro e he hne hshard
  obtain ⟨row', hrow', hstored⟩ := hok.stored e he
  rw [hshard] at hrow' hstored
  obtain rfl : row = row' := Option.some.inj (hrow.symm.trans hrow')
  rcases hstored with hlt | ⟨-, htaker'⟩
  · exact htoken ▸ hlt
  · exact absurd (Option.some.inj (htaker'.symm.trans htaker)) hne

end

/-- In every run whose statements are orderly, every lease that is stored was live when it was
    asked for, with a token above all those that other managers have stored for the shard. -/
theorem granted_fresh {n : Nat} (managers : Fin n → LeaseManager) (now : Time) (refs : Reference)
    (as : List (FleetAct n)) (h : Machine.Along (next (fleet managers)) (Meets Orderly)
      (Workers.init (Fleet.init managers now refs)) as) :
    Machine.Along (next (fleet managers)) Granted (Workers.init (Fleet.init managers now refs)) as := by
  refine Machine.along_imp (Holds (fun i => proto (managers i).owner) (fun i => Stores (managers i).owner)
    FleetOk) (fun u a hu _ => granted_of_holds hu a) ?_ ?_ h
  · intro u a u' hu hG hn
    exact holds_step fleet_sound hu hG hn
  · exact ⟨fun _ => none, fleetOk_init, fun _ => trivial⟩

/-! A worker that is started again. -/

namespace Restart

def managers (_ : Fin 2) : LeaseManager := newLeaseManager "w1" 4 1 30000000

def refs : Reference := ⟨[], [], [], [], []⟩

def init : FleetWorld managers := Workers.init (Fleet.init managers 63902822400000000 refs)

def ok : Reply := ⟨⟨none, 0⟩, none⟩

def call (i : Fin 2) (c : Command) (n : Nat) : List (FleetAct 2) :=
  [.env (.order i c), .start i] ++ List.replicate n (.exec i ok) ++ [.finish i]

/-- The first worker takes shard 0 and crashes. The second one is started at once. -/
def early : List (FleetAct 2) :=
  call 0 (.acquire 0) 4 ++ [.env (.crash 0), .env (.tick 1000000)] ++ call 1 (.acquire 0) 4

/-- The second worker is started when the lease of the first has expired. -/
def late : List (FleetAct 2) :=
  call 0 (.acquire 0) 4 ++ call 0 .renew 2 ++ [.env (.crash 0), .env (.tick 30000001)] ++ call 1 (.acquire 0) 4

end Restart

open Restart

theorem granted_fresh_late :
    (Machine.run (next (fleet managers)) init late).map (fun u => u.data.stored) =
      some [(1, 0, 2), (0, 0, 1), (0, 0, 1)] ∧
    Machine.Along (next (fleet managers)) Granted init late := by
  refine ⟨by decide +kernel, ?_⟩
  exact granted_fresh managers 63902822400000000 refs late (by decide +kernel)

/-- The worker that is started again gets the lease of its predecessor, with the token. -/
theorem restarted_same_token :
    (Machine.run (next (fleet managers)) init early).map (fun u => u.data.stored) =
      some [(1, 0, 1), (0, 0, 1)] ∧
    ¬Machine.Along (next (fleet managers)) Granted init early := by
  constructor <;> decide +kernel

end Shard

end FlowRule
