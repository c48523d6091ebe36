import FlowRule.Mongo.Fencing
import FlowRule.Shard.Snapshot

/- The lease managers on MongoDB (renewOwnedIndividually of internal/runtime/shard/lease.go on
   internal/adapters/mongo/shard.go).

   A manager renews its leases one by one. Renew is an update that matches owner and token, and
   then a read of the document that matches the shard only; when another manager takes the lease
   over in between, the map has its lease (`read_of_another`). `snapshot_own` says for both
   repositories when the maps hold the managers' own leases only.

   Kept for the statements only: `matched`, the shard whose document a manager has renewed and
   is still to read, and `grants`. -/
namespace FlowRule

open Prog Shard Function

namespace Mongo

namespace Managers

inductive Command where
  | acquire (shard : Nat)
  | renew (leases : List (Nat × Int))
  | release (shard : Nat)
  deriving DecidableEq

inductive Outcome where
  | granted (shard : Nat) (lease : ShardLease)
  | renewed (shard : Nat) (lease : Option ShardLease)
  | released (shard : Nat)

def acquireLease (m : LeaseManager) (shard : Nat) : Tx ShardLease := do
  let lease ← acquire shard m.owner m.ttl
  if lease.owner ≠ m.owner then Prog.throw (.sentinel .leaseOwnedByOther)
  else pure lease

structure Fleet {n : Nat} (managers : Fin n → LeaseManager) where
  db : DB
  owned : (i : Fin n) → OwnedShards (managers i).numShards.toNat
  command : Fin n → Option Command
  alive : Fin n → Bool
  matched : Fin n → Option Nat
  grants : List (Fin n × Nat × Int)

structure Answer where
  fail : Option Err
  lost : Option Err

namespace Fleet

variable {n : Nat} {managers : Fin n → LeaseManager}

def start (d : Fleet managers) (i : Fin n) : Option (Fleet managers × Tx Outcome) :=
  if d.alive i then
    match d.command i with
    | some (.acquire shard) =>
      if shard < (managers i).numShards.toNat then
        some (d, Outcome.granted shard <$> acquireLease (managers i) shard)
      else none
    | some (.renew (e :: _)) =>
      some (d, Outcome.renewed e.1 <$> renew e.1 (managers i).owner e.2 (managers i).ttl)
    | some (.release shard) =>
      some (d, (fun _ => Outcome.released shard) <$> release shard (managers i).owner)
    | _ => none
  else none

def answered (d : Fleet managers) (i : Fin n) (o : Op) (db : DB) (a : Except Err o.Res) : Fleet managers :=
  { d with
    db := db
    matched := match o, a with
      | .renew shard _ _ _ _, .ok true => update d.matched i (some shard)
      | .getOwner _, _ => update d.matched i none
      | _, _ => d.matched
    grants := match o with
      | .acquire shard _ _ _ => grantOf i shard (d.db.lease shard) (db.lease shard) ++ d.grants
      | _ => d.grants }

def exec (d : Fleet managers) (i : Fin n) (o : Op) (x : Answer) : Option (Fleet managers × Except Err o.Res) :=
  if d.alive i then
    match Mongo.exec d.db [] .closed o x.fail with
    | some (db, _, a) => some (d.answered i o db (Workers.unlessLost x.lost a), Workers.unlessLost x.lost a)
    | none => none
  else none

def lostErrors : List Sentinel := [.leaseExpired, .fencingTokenMismatch, .leaseOwnedByOther]

def ownedAfter (d : Fleet managers) (i : Fin n) : Except Err Outcome → OwnedShards (managers i).numShards.toNat
  | .ok (.granted shard lease) | .ok (.renewed shard (some lease)) =>
    if h : shard < (managers i).numShards.toNat then (d.owned i).put ⟨shard, h⟩ lease else d.owned i
  | .ok (.renewed _ none) => d.owned i
  | .ok (.released shard) => (d.owned i).drop shard
  | .error err =>
    match d.command i with
    | some (.renew (e :: _)) => if err.isAny lostErrors then (d.owned i).drop e.1 else d.owned i
    | _ => d.owned i

def next : Option Command → Option Command
  | some (.renew (_ :: e :: rest)) => some (.renew (e :: rest))
  | _ => none

def finish (d : Fleet managers) (i : Fin n) (r : Except Err Outcome) : Fleet managers :=
  if d.alive i then
    { d with
      owned := update d.owned i (d.ownedAfter i r)
      command := update d.command i (next (d.command i))
      matched := update d.matched i none }
  else d

inductive Event (n : Nat) where
  | order (i : Fin n) (c : Command)
  | stop (i : Fin n)
  | crash (i : Fin n)
  | tick (dt : Nat)

/-- A pass renews what is in the map when it begins, in any order; with an empty map it calls
    nothing. -/
def takesUp (owned : List (Nat × Int)) : Command → Bool
  | .renew leases => !leases.isEmpty && leases.isPerm owned
  | _ => true

def env (d : Fleet managers) : Event n → Option (Fleet managers)
  | .order i c =>
    if d.command i = none ∧ takesUp (d.owned i).ownedLeaseTokens c then
      some { d with command := update d.command i (some c) }
    else none
  | .stop i =>
    if d.command i = none then some { d with owned := update d.owned i (.empty _) } else none
  | .crash i => some { d with alive := update d.alive i false }
  | .tick dt => some { d with db := { d.db with now := d.db.now + dt } }

def init (managers : Fin n → LeaseManager) (now : Time) : Fleet managers where
  db := ⟨now, .empty, []⟩
  owned _ := .empty _
  command _ := none
  alive _ := true
  matched _ := none
  grants := []

end Fleet

def fleet {n : Nat} (managers : Fin n → LeaseManager) :
    Shop (Fleet managers) (Fin n) (Fleet.Event n) Answer Op Op.Res Err Outcome where
  start := Fleet.start
  exec := Fleet.exec
  finish := Fleet.finish
  env := Fleet.env

section
variable {n : Nat} {managers : Fin n → LeaseManager}

abbrev FleetWorld (managers : Fin n → LeaseManager) := Workers.World (Fleet managers) (Fin n) Op Op.Res Err Outcome

abbrev FleetAct (n : Nat) := Workers.Act (Fin n) (Fleet.Event n) Answer

def Fleet.Reading (d : Fleet managers) (i : Fin n) (shard : Nat) : Prop :=
  ∃ j, j ≠ i ∧ d.alive j = true ∧ d.matched j = some shard

instance {d : Fleet managers} {i : Fin n} {shard : Nat} : Decidable (d.Reading i shard) :=
  inferInstanceAs (Decidable (∃ _ : Fin n, _))

/-- The condition on a statement: while another manager is still to read the document it has
    renewed, the document is not taken over, and nobody releases it who has the owner's
    name. -/
def Undisturbed (d : Fleet managers) (i : Fin n) (o : Op) (x : Answer) : Prop :=
  match o with
  | .acquire shard owner now expiresAt =>
    x.fail = none → (acquireDoc owner now expiresAt (d.db.lease shard)).isSome → ¬ d.Reading i shard
  | .release shard owner _ =>
    x.fail = none → (∃ l ∈ d.db.lease shard, l.owner = owner) → ¬ d.Reading i shard
  | _ => True

instance {d : Fleet managers} {i : Fin n} {o : Op} {x : Answer} : Decidable (Undisturbed d i o x) := by
  unfold Undisturbed
  split <;> infer_instance

/-! The protocol of a call. -/

inductive Stage where
  | acquiring (shard : Nat)
  | acquired (shard : Nat) (lease : ShardLease)
  | renewing (shard : Nat) (token : Int)
  | matched (shard : Nat) (token : Int)
  | read (shard : Nat) (lease : Option ShardLease)
  | releasing (shard : Nat)
  | ended

inductive Allowed (owner : String) : Stage → Op → Prop where
  | clock {st : Stage} : Allowed owner st .clock
  | acquire {shard : Nat} {now expiresAt : Time} :
      Allowed owner (.acquiring shard) (.acquire shard owner now expiresAt)
  | renew {shard : Nat} {token : Int} {now expiresAt : Time} :
      Allowed owner (.renewing shard token) (.renew shard owner token now expiresAt)
  | getOwner {shard : Nat} {token : Int} : Allowed owner (.matched shard token) (.getOwner shard)
  | release {shard : Nat} {now : Time} : Allowed owner (.releasing shard) (.release shard owner now)

def moves (st : Stage) (o : Op) (r : o.Res) (st' : Stage) : Prop :=
  match st, o, r with
  | _, .clock, _ => st' = st
  | .acquiring shard, .acquire _ _ _ _, some lease => st' = .acquired shard lease
  | .renewing shard token, .renew _ _ _ _ _, true => st' = .matched shard token
  | .matched shard _, .getOwner _, lease => st' = .read shard lease
  | _, _, _ => st' = .ended

def proto (owner : String) : Proto Op Op.Res Err Stage := ⟨Allowed owner, untilError .ended moves⟩

/-- What a call that has succeeded stores is what the repository has answered. -/
def Stores (st : Stage) : Except Err Outcome → Prop
  | .ok (.granted shard lease) => st = .acquired shard lease
  | .ok (.renewed shard lease) => st = .read shard lease
  | _ => True

section
variable {owner : String} {shard : Nat}

theorem returns_clock {st : Stage} : Returns (proto owner) st (call .clock) (fun st' _ => st' = st) := by
  refine .mono (returns_call .clock) (fun _ _ h => h) ?_
  intro st' now htr
  cases st <;> exact htr

theorem wp_acquireLease {m : LeaseManager} :
    wp (proto m.owner) (Outcome.granted shard <$> acquireLease m shard) Stores (.acquiring shard) := by
  refine wp_map_returns (fun _ _ => trivial) (.bind (Q := fun st lease => st = .acquired shard lease)
    (.bind returns_clock ?_) ?_)
  · rintro _ now rfl
    refine .bind (.under (returns_call .acquire)) ?_
    rintro st (_ | lease) hst
    · trivial
    show Returns _ _ (if lease.owner ≠ m.owner then _ else _) _
    split
    · trivial
    · exact hst
  · rintro st lease hst
    split
    · trivial
    · exact hst

theorem wp_renew {token ttl : Int} :
    wp (proto owner) (Outcome.renewed shard <$> renew shard owner token ttl) Stores (.renewing shard token) := by
  refine wp_map_returns (fun _ _ => trivial) (.bind returns_clock ?_)
  rintro _ now rfl
  refine .bind (.under (returns_call .renew)) ?_
  rintro st (_ | _) hst
  · trivial
  · obtain rfl : st = .matched shard token := hst
    exact .under (returns_call .getOwner)

theorem wp_release : wp (proto owner) ((fun _ => Outcome.released shard) <$> release shard owner) Stores
    (.releasing shard) := by
  refine wp_map_returns (fun _ _ => trivial) (.bind returns_clock ?_)
  rintro _ now rfl
  exact .mono (.under (returns_call .release)) (fun _ _ h => h) (fun _ _ _ => trivial)

end

/-! The invariant. -/

def face (l : ShardLease) : String × Int := (l.owner, l.fencingToken)

/-- What is known of a manager in the stage. The document it is still to read is as its renewal
    has found it. -/
def StageOk (d : Fleet managers) (i : Fin n) : Stage → Prop
  | .acquired shard lease => lease.owner = (managers i).owner ∧ (i, shard, lease.fencingToken) ∈ d.grants
  | .renewing shard token => (i, shard, token) ∈ d.grants
  | .matched shard token => (i, shard, token) ∈ d.grants ∧ d.matched i = some shard ∧
      (d.db.lease shard).map face = some ((managers i).owner, token)
  | .read shard lease => ∀ l ∈ lease, l.owner = (managers i).owner ∧ (i, shard, l.fencingToken) ∈ d.grants
  | _ => True

structure FleetOk (d : Fleet managers) (σ : Fin n → Option Stage) : Prop where
  owned : Own managers d.owned d.grants
  pending : ∀ i leases, d.command i = some (.renew leases) → ∀ e ∈ leases, (i, e) ∈ d.grants
  stage : ∀ i st, σ i = some st → d.alive i = true → StageOk d i st

structure Stepped (d d' : Fleet managers) (i : Fin n) : Prop where
  owned : d'.owned = d.owned
  command : d'.command = d.command
  alive : d'.alive = d.alive
  grants : ∀ g ∈ d.grants, g ∈ d'.grants
  matched : ∀ j, j ≠ i → d'.matched j = d.matched j
  docs : ∀ shard, d.Reading i shard → (d'.db.lease shard).map face = (d.db.lease shard).map face

section
variable {d d' : Fleet managers} {i j : Fin n} {σ : Fin n → Option Stage} {st st' : Stage} {o : Op} {x : Answer}
  {db : DB} {shard : Nat}

/-- A stage depends on the grants and on the document the manager is still to read. -/
theorem stageOk_frame (h : StageOk d j st) (hgrants : ∀ g ∈ d.grants, g ∈ d'.grants)
    (hmatched : d'.matched j = d.matched j)
    (hdocs : ∀ shard, d.matched j = some shard → (d'.db.lease shard).map face = (d.db.lease shard).map face) :
    StageOk d' j st := by
  cases st with
  | acquired shard lease => exact ⟨h.1, hgrants _ h.2⟩
  | renewing shard token => exact hgrants _ h
  | matched shard token => exact ⟨hgrants _ h.1, hmatched.trans h.2.1, (hdocs shard h.2.1).trans h.2.2⟩
  | read shard lease => exact fun l hl => ⟨(h l hl).1, hgrants _ (h l hl).2⟩
  | acquiring shard | releasing shard | ended => trivial

theorem fleetOk_stepped (h : FleetOk d σ) (hs : Stepped d d' i) (hst : StageOk d' i st') :
    FleetOk d' (update σ i (some st')) where
  owned := by
    rw [hs.owned]
    exact fun j e he => ⟨(h.owned j e he).1, hs.grants _ (h.owned j e he).2⟩
  pending := by
    rw [hs.command]
    exact fun j leases hc e he => hs.grants _ (h.pending j leases hc e he)
  stage := by
    intro j st hj halive
    rcases Workers.update_cases hj with ⟨rfl, hst'⟩ | ⟨hji, hj⟩
    · cases hst'
      exact hst
    · rw [hs.alive] at halive
      exact stageOk_frame (h.stage j st hj halive) hs.grants (hs.matched j hji)
        (fun shard hmatched => hs.docs shard ⟨j, hji, halive, hmatched⟩)

/-! One statement. -/

variable {a : Except Err o.Res} {s s' : Session} {owner : String} {now expiresAt : Time}

theorem answered_matched (hj : j ≠ i) : (d.answered i o db a).matched j = d.matched j := by
  unfold Fleet.answered
  simp only
  split
  · exact update_of_ne hj ..
  · exact update_of_ne hj ..
  · rfl

theorem answered_grants : ∀ g ∈ d.grants, g ∈ (d.answered i o db a).grants := by
  intro g hg
  unfold Fleet.answered
  simp only
  split
  · exact List.mem_append_right _ hg
  · exact hg

theorem stepped_of_docs
    (hdocs : ∀ shard, d.Reading i shard → (db.lease shard).map face = (d.db.lease shard).map face) :
    Stepped d (d.answered i o db a) i :=
  ⟨rfl, rfl, rfl, answered_grants, fun _ hj => answered_matched hj, hdocs⟩

theorem perform_acquire {d db : DB} {a : Except Err (Op.acquire shard owner now expiresAt).Res}
    (hp : perform d s (.acquire shard owner now expiresAt) = (db, s', a)) :
    (db = d ∧ ∀ l : ShardLease, a ≠ .ok (some l)) ∨
      ∃ l, acquireDoc owner now expiresAt (d.lease shard) = some l ∧ a = .ok (some l) ∧
        ∀ k, db.lease k = if k = shard then some l else d.lease k := by
  simp only [perform] at hp
  split at hp
  · cases hp
    exact .inl ⟨rfl, fun l h => by cases h⟩
  · rename_i l hl
    split at hp
    · cases hp
      exact .inl ⟨rfl, fun l h => by cases h⟩
    · cases hp
      exact .inr ⟨l, hl, rfl, fun k => lease_putLease d shard k l⟩

theorem acquireDoc_granted {before : Option ShardLease} {l : ShardLease}
    (h : acquireDoc owner now expiresAt before = some l) :
    l.owner = owner ∧ before.map ShardLease.fencingToken ≠ some l.fencingToken := by
  cases before with
  | none =>
    cases h
    exact ⟨rfl, nofun⟩
  | some b =>
    simp only [acquireDoc] at h
    split at h <;> cases h
    exact ⟨rfl, by simp⟩

theorem perform_renewDoc {token : Int} {d db : DB} {a : Except Err (Op.renew shard owner token now expiresAt).Res}
    (hp : perform d s (.renew shard owner token now expiresAt) = (db, s', a)) :
    (∀ k, (db.lease k).map face = (d.lease k).map face) ∧
      (a = .ok true → (d.lease shard).map face = some (owner, token)) := by
  simp only [perform] at hp
  split at hp
  · cases hp
    exact ⟨fun _ => rfl, fun h => by cases h⟩
  · rename_i l hl
    split at hp
    · rename_i hmatch
      cases hp
      refine ⟨?_, ?_⟩
      · intro k
        rw [lease_putLease]
        split
        · rename_i hk
          rw [hk, hl]
          rfl
        · rfl
      · intro _
        simp only [holds, Bool.and_eq_true, decide_eq_true_eq] at hmatch
        rw [hl, Option.map_some, face, hmatch.1.1, hmatch.1.2]
    · cases hp
      exact ⟨fun _ => rfl, fun h => by cases h⟩

theorem perform_release {d db : DB} {a : Except Err (Op.release shard owner now).Res}
    (hp : perform d s (.release shard owner now) = (db, s', a)) :
    db = d ∨ ((∃ l ∈ d.lease shard, l.owner = owner) ∧ ∀ k, k ≠ shard → db.lease k = d.lease k) := by
  simp only [perform] at hp
  split at hp
  · cases hp
    exact .inl rfl
  · rename_i l hl
    split at hp
    · rename_i howner
      cases hp
      refine .inr ⟨⟨l, hl, howner⟩, ?_⟩
      intro k hk
      rw [lease_putLease, if_neg hk]
    · cases hp
      exact .inl rfl

/-- An undisturbed statement leaves the documents that others are still to read. -/
theorem exec_docs (ha : Allowed (managers i).owner st o)
    (hund : Undisturbed d i o x) (he : Mongo.exec d.db [] .closed o x.fail = some (db, s, a)) :
    ∀ shard, d.Reading i shard → (db.lease shard).map face = (d.db.lease shard).map face := by
  unfold Mongo.exec at he
  split at he
  · cases he
    exact fun _ _ => rfl
  · rename_i hfail
    have hp := Option.some.inj he
    intro k hreading
    cases ha with
    | clock =>
      cases hp
      rfl
    | acquire =>
      rcases perform_acquire hp with ⟨rfl, -⟩ | ⟨l, hl, -, hdocs⟩
      · rfl
      rw [hdocs]
      split
      · rename_i hk
        exact absurd (hk ▸ hreading) (hund hfail (by rw [hl]; rfl))
      · rfl
    | renew => exact (perform_renewDoc hp).1 k
    | getOwner =>
      cases hp
      rfl
    | @release shard now =>
      rcases perform_release hp with rfl | ⟨hmatch, hdocs⟩
      · rfl
      have hk : k ≠ shard := by
        rintro rfl
        exact hund hfail hmatch hreading
      rw [hdocs k hk]

theorem stage_after {r : o.Res} (hst : StageOk d i st) (ha : Allowed (managers i).owner st o)
    (he : Mongo.exec d.db [] .closed o x.fail = some (db, s, .ok r)) :
    ∃ st', moves st o r st' ∧ StageOk (d.answered i o db (.ok r)) i st' := by
  unfold Mongo.exec at he
  split at he
  · cases he
  have hp := Option.some.inj he
  cases ha with
  | clock =>
    cases hp
    refine ⟨st, ?_, ?_⟩
    · cases st <;> rfl
    · cases st <;> exact hst
  | @acquire shard now expiresAt =>
    match r with
    | none => exact ⟨.ended, rfl, trivial⟩
    | some lease =>
      rcases perform_acquire hp with ⟨-, hnone⟩ | ⟨l, hl, hlease, hdocs⟩
      · exact absurd rfl (hnone lease)
      cases hlease
      obtain ⟨howner, htoken⟩ := acquireDoc_granted hl
      refine ⟨.acquired shard lease, rfl, howner, List.mem_append_left _ ?_⟩
      rw [hdocs, if_pos rfl]
      exact mem_grantOf htoken
  | @renew shard token now expiresAt =>
    match r with
    | false => exact ⟨.ended, rfl, trivial⟩
    | true =>
      obtain ⟨hkept, hmatch⟩ := perform_renewDoc hp
      exact ⟨.matched shard token, rfl, hst, update_self .., (hkept shard).trans (hmatch rfl)⟩
  | @getOwner shard token =>
    cases hp
    obtain ⟨hgrant, -, hdoc⟩ := hst
    refine ⟨.read shard (d.db.lease shard), rfl, ?_⟩
    intro l hl
    rw [Option.mem_def.mp hl, Option.map_some, face, Option.some.injEq, Prod.mk.injEq] at hdoc
    exact ⟨hdoc.1, hdoc.2 ▸ hgrant⟩
  | release => exact ⟨.ended, rfl, trivial⟩

theorem fleet_exec (h : FleetOk d σ) (hσ : σ i = some st)
    (ha : Allowed (managers i).owner st o) (hund : Undisturbed d i o x) (he : d.exec i o x = some (d', a)) :
    ∃ st', untilError .ended moves st o a st' ∧ FleetOk d' (update σ i (some st')) := by
  unfold Fleet.exec at he
  split at he
  · rename_i halive
    split at he
    · rename_i db s a₀ hex
      simp only [Option.some.injEq, Prod.mk.injEq] at he
      obtain ⟨rfl, ha₀⟩ := he
      have hstep : Stepped d (d.answered i o db (Workers.unlessLost x.lost a₀)) i :=
          stepped_of_docs (exec_docs ha hund hex)
      rw [ha₀] at hstep ⊢
      cases a with
      | error e => exact ⟨.ended, rfl, fleetOk_stepped h hstep trivial⟩
      | ok r =>
        rw [Workers.unlessLost_ok ha₀] at hex
        obtain ⟨st', htr, hst'⟩ := stage_after (h.stage i st hσ halive) ha hex
        exact ⟨st', htr, fleetOk_stepped h hstep hst'⟩
    · cases he
  · cases he

/-! The other steps. -/

theorem fleet_start {p : Tx Outcome} (h : FleetOk d σ) (hst : d.start i = some (d', p)) :
    ∃ st, FleetOk d' (update σ i (some st)) ∧ wp (proto (managers i).owner) p Stores st := by
  -- the call begins in a stage of its own, and nobody else's changes
  have hok : ∀ {st}, StageOk d i st → FleetOk d (update σ i (some st)) :=
    fun hst => fleetOk_stepped h ⟨rfl, rfl, rfl, fun _ hg => hg, fun _ _ => rfl, fun _ _ => rfl⟩ hst
  unfold Fleet.start at hst
  split at hst
  · split at hst
    · rename_i shard _
      split at hst <;> cases hst
      exact ⟨.acquiring shard, hok trivial, wp_acquireLease⟩
    · rename_i e rest hcommand
      cases hst
      exact ⟨.renewing e.1 e.2, hok (h.pending i _ hcommand e List.mem_cons_self), wp_renew⟩
    · rename_i shard _
      cases hst
      exact ⟨.releasing shard, hok trivial, wp_release⟩
    · cases hst
  · cases hst

theorem put_own {grants : List (Fin n × Nat × Int)} {owned : OwnedShards (managers i).numShards.toNat}
    {lease : ShardLease}
    (h : ∀ e ∈ owned.leases, e.2.owner = (managers i).owner ∧ (i, e.1, e.2.fencingToken) ∈ grants)
    (hlease : lease.owner = (managers i).owner ∧ (i, shard, lease.fencingToken) ∈ grants) :
    ∀ e ∈ (if h : shard < (managers i).numShards.toNat then owned.put ⟨shard, h⟩ lease else owned).leases,
      e.2.owner = (managers i).owner ∧ (i, e.1, e.2.fencingToken) ∈ grants := by
  split
  · intro e he
    rcases List.mem_cons.mp he with rfl | he
    · exact hlease
    · exact h e (List.mem_filter.mp he).1
  · exact h

theorem ownedAfter_own {r : Except Err Outcome} (h : FleetOk d σ) (hst : StageOk d i st) (hstores : Stores st r) :
    ∀ e ∈ (d.ownedAfter i r).leases, e.2.owner = (managers i).owner ∧ (i, e.1, e.2.fencingToken) ∈ d.grants := by
  have hkept := h.owned i
  match r with
  | .ok (.granted shard lease) =>
    obtain rfl : st = .acquired shard lease := hstores
    exact put_own hkept hst
  | .ok (.renewed shard (some lease)) =>
    obtain rfl : st = .read shard (some lease) := hstores
    exact put_own hkept (hst lease rfl)
  | .ok (.renewed shard none) => exact hkept
  | .ok (.released shard) => exact fun e he => hkept e (List.mem_filter.mp he).1
  | .error err =>
    simp only [Fleet.ownedAfter]
    split
    · split
      · exact fun e he => hkept e (List.mem_filter.mp he).1
      · exact hkept
    · exact hkept

theorem next_renew {c : Option Command} {leases : List (Nat × Int)} (h : Fleet.next c = some (.renew leases)) :
    ∃ all, c = some (.renew all) ∧ ∀ e ∈ leases, e ∈ all := by
  unfold Fleet.next at h
  split at h <;> cases h
  exact ⟨_, rfl, fun e he => List.mem_cons_of_mem _ he⟩

theorem fleet_finish {r : Except Err Outcome} (h : FleetOk d σ) (hσ : σ i = some st) (hstores : Stores st r) :
    FleetOk (d.finish i r) (update σ i none) := by
  unfold Fleet.finish
  split
  · rename_i halive
    refine ⟨leases_update h.owned (ownedAfter_own h (h.stage i st hσ halive) hstores), ?_, ?_⟩
    · intro j leases hj e he
      rcases Workers.update_cases hj with ⟨rfl, hnext⟩ | ⟨-, hj⟩
      · obtain ⟨all, hall, hsub⟩ := next_renew hnext
        exact h.pending j all hall e (hsub e he)
      · exact h.pending j leases hj e he
    · intro j st' hj hjalive
      rcases Workers.update_cases hj with ⟨-, hst'⟩ | ⟨hji, hj⟩
      · cases hst'
      · exact stageOk_frame (h.stage j st' hj hjalive) (fun _ hg => hg) (update_of_ne hji ..) (fun _ _ => rfl)
  · rename_i hdead
    refine ⟨h.owned, h.pending, ?_⟩
    intro j st' hj hjalive
    rcases Workers.update_cases hj with ⟨rfl, -⟩ | ⟨-, hj⟩
    · exact absurd hjalive hdead
    · exact h.stage j st' hj hjalive

theorem fleet_env {v : Fleet.Event n} (h : FleetOk d σ) (hv : d.env v = some d') : FleetOk d' σ := by
  cases v with
  | order i c =>
    simp only [Fleet.env] at hv
    split at hv
    · rename_i hready
      cases hv
      refine ⟨h.owned, ?_, h.stage⟩
      intro j leases hj e he
      rcases Workers.update_cases hj with ⟨rfl, hc⟩ | ⟨-, hj⟩
      · -- the pass begins with what is in the map
        cases hc
        have hperm := hready.2
        simp only [Fleet.takesUp, Bool.and_eq_true] at hperm
        obtain ⟨x, hx, rfl⟩ := List.mem_map.mp ((List.isPerm_iff.mp hperm.2).mem_iff.mp he)
        exact (h.owned j x hx).2
      · exact h.pending j leases hj e he
    · cases hv
  | stop i =>
    simp only [Fleet.env] at hv
    split at hv <;> cases hv
    exact ⟨leases_update h.owned (fun e he => by cases he), h.pending, h.stage⟩
  | crash i =>
    cases hv
    refine ⟨h.owned, h.pending, ?_⟩
    intro j st hj halive
    have hji : j ≠ i := by
      rintro rfl
      simp at halive
    simp only [update_of_ne hji] at halive
    exact h.stage j st hj halive
  | tick dt =>
    cases hv
    exact ⟨h.owned, h.pending, h.stage⟩

end

theorem fleet_sound : Workers.Sound (fleet managers) (fun i => proto (managers i).owner) (fun _ => Stores) FleetOk
    Undisturbed where
  start h _ hst := fleet_start h hst
  exec h hσ ha hund he := fleet_exec h hσ ha hund he
  finish h hσ hstores := fleet_finish h hσ hstores
  env h hv := fleet_env h hv

theorem undisturbed_own {now : Time} {as : List (FleetAct n)} {u : FleetWorld managers}
    (hund : Machine.Along (Workers.next (fleet managers)) (Workers.Meets Undisturbed)
      (Workers.init (Fleet.init managers now)) as)
    (h : Machine.run (Workers.next (fleet managers)) (Workers.init (Fleet.init managers now)) as = some u) :
    Own managers u.data.owned u.data.grants := by
  have hinit : FleetOk (Fleet.init managers now) (fun _ => none) := ⟨fun _ _ he => (nomatch he), nofun, nofun⟩
  obtain ⟨σ, hok, -⟩ := Workers.holds_along fleet_sound hinit hund h
  exact hok.owned

end

/-- In every state that any interleaving reaches, a lease in the map of a manager bears the
    manager's name and its token was granted to the manager. On PostgreSQL this holds of
    every run, where a grant to a manager of the same name counts as one to the manager; it is
    its own where no two managers have one name. On MongoDB it holds of the runs in which
    nobody disturbs a document that another manager has renewed and is still to read. -/
theorem snapshot_own {n : Nat} (managers : Fin n → LeaseManager) :
    (∀ now refs as u,
      Machine.run (Workers.next (recorded managers)) (Workers.init (Recorded.init managers now refs)) as = some u →
        OwnByName managers u.data.fleet.owned u.data.grants ∧
          (Injective (fun i => (managers i).owner) → Own managers u.data.fleet.owned u.data.grants)) ∧
    ∀ now as u,
      Machine.Along (Workers.next (fleet managers)) (Workers.Meets Undisturbed)
        (Workers.init (Fleet.init managers now)) as →
      Machine.run (Workers.next (fleet managers)) (Workers.init (Fleet.init managers now)) as = some u →
        Own managers u.data.owned u.data.grants := by
  constructor
  · intro now refs as u hrun
    exact ⟨recorded_own hrun, (recorded_own hrun).own⟩
  · intro now as u hund hrun
    exact undisturbed_own hund hrun

/-! Two workers, and a pause inside a renewal. -/

namespace Pause

def w1 : Fin 2 := ⟨0, Nat.two_pos⟩

def w2 : Fin 2 := ⟨1, Nat.one_lt_two⟩

def managers (i : Fin 2) : LeaseManager := newLeaseManager (if i = w1 then "w1" else "w2") 4 2 30000000

def start : Time := 63902822400000000

def ok : Answer := ⟨none, none⟩

def call (i : Fin 2) (c : Command) (n : Nat) : List (FleetAct 2) :=
  .env (.order i c) :: .start i :: (List.replicate n (.exec i ok)).concat (.finish i)

def update : List (FleetAct 2) := [.env (.order w1 (.renew [(0, 1)])), .start w1, .exec w1 ok, .exec w1 ok]

def read : List (FleetAct 2) := [.exec w1 ok, .finish w1]

/-- The first worker renews its lease on shard 0 while the second one acquires shard 1. -/
def calm : List (FleetAct 2) := call w1 (.acquire 0) 2 ++ update ++ call w2 (.acquire 1) 2 ++ read

/-- The first worker pauses after the update of its renewal. The lease runs out, and the second
    worker takes the shard. -/
def paused : List (FleetAct 2) :=
  call w1 (.acquire 0) 2 ++ update ++ .env (.tick 30000001) :: call w2 (.acquire 0) 2 ++ read

/-- On PostgreSQL, the first worker acquires shard 0 and renews it. -/
def postgres : List (Workers.Act (Fin 2) (Recorded.Event 2) Shard.Reply) :=
  [.env (.fleet (.order w1 (.acquire 0))), .start w1, .exec w1 Restart.ok, .exec w1 Restart.ok, .exec w1 Restart.ok,
    .exec w1 Restart.ok, .finish w1, .env (.fleet (.order w1 .renew)), .start w1, .exec w1 Restart.ok,
    .exec w1 Restart.ok, .finish w1]

end Pause

open Pause

theorem snapshot_own_pause :
    (∃ u ∈ Machine.run (Workers.next (recorded managers))
        (Workers.init (Recorded.init managers start Restart.refs)) postgres,
      (u.data.fleet.owned w1).shards = [0] ∧ Own managers u.data.fleet.owned u.data.grants) ∧
    ∃ u ∈ Machine.run (Workers.next (fleet managers)) (Workers.init (Fleet.init managers start))
        Pause.calm,
      (u.data.owned w1).shards = [0] ∧ (u.data.owned w2).shards = [1] ∧
        Own managers u.data.owned u.data.grants := by
  constructor
  · have hnames : Injective (fun i => (managers i).owner) := by decide +kernel
    have howned : ∃ u ∈ Machine.run (Workers.next (recorded managers))
        (Workers.init (Recorded.init managers start Restart.refs)) postgres,
        (u.data.fleet.owned w1).shards = [0] := by decide +kernel
    obtain ⟨u, hrun, hshards⟩ := howned
    exact ⟨u, hrun, hshards, ((snapshot_own managers).1 _ _ _ u hrun).2 hnames⟩
  · have hund : Machine.Along (Workers.next (fleet managers)) (Workers.Meets Undisturbed)
        (Workers.init (Fleet.init managers start)) Pause.calm := by decide +kernel
    have howned : ∃ u ∈ Machine.run (Workers.next (fleet managers))
        (Workers.init (Fleet.init managers start)) Pause.calm,
        (u.data.owned w1).shards = [0] ∧ (u.data.owned w2).shards = [1] := by decide +kernel
    obtain ⟨u, hrun, hfirst, hsecond⟩ := howned
    exact ⟨u, hrun, hfirst, hsecond, (snapshot_own managers).2 _ _ u hund hrun⟩

/-- The first worker has the lease of the second one in its map. -/
theorem read_of_another :
    ∃ u ∈ Machine.run (Workers.next (fleet managers)) (Workers.init (Fleet.init managers start))
        paused,
      ((u.data.owned w1).leases.map (fun e => (e.1, e.2.owner, e.2.fencingToken)) = [(0, "w2", 2)] ∧
        u.data.grants = [(w2, 0, 2), (w1, 0, 1)]) ∧ ¬ Own managers u.data.owned u.data.grants := by
  decide +kernel

end Managers

end Mongo

end FlowRule
