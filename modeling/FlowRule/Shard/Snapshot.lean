import FlowRule.Shard.Granted

/- Whose leases are in a manager's map of owned shards (ownedShards of
   internal/runtime/shard/lease.go), on the PostgreSQL repository.

   A grant is an acquire that has given the row a new token. `Recorded` is the fleet with the list of
   all grants so far, and with the step that empties the map of a manager that stops. A manager's
   calls come in any order. A lease in the map bears the manager's name whatever happens between two
   statements of a call, and its token was granted to a manager of that name (`recorded_own`); where
   no two have the same name, to the manager itself (`OwnByName.own`). -/
namespace FlowRule

open Prog Function Workers

namespace OwnedShards

theorem below_nil (n : Nat) : ∀ e ∈ ([] : List (Nat × ShardLease)), e.1 < n := by simp

def empty (n : Nat) : OwnedShards n := ⟨[], List.nodup_nil, below_nil n⟩

end OwnedShards

namespace Shard

section
variable {n : Nat} {managers : Fin n → LeaseManager}

/-- Every lease in a map bears the name of its manager, and the token was granted to it. -/
def Own (managers : Fin n → LeaseManager) (owned : (i : Fin n) → OwnedShards (managers i).numShards.toNat)
    (grants : List (Fin n × Nat × Int)) : Prop :=
  ∀ i, ∀ e ∈ (owned i).leases, e.2.owner = (managers i).owner ∧ (i, e.1, e.2.fencingToken) ∈ grants

instance {owned : (i : Fin n) → OwnedShards (managers i).numShards.toNat} {grants : List (Fin n × Nat × Int)} :
    Decidable (Own managers owned grants) :=
  inferInstanceAs (Decidable (∀ i : Fin n, ∀ e ∈ (owned i).leases, _))

/-- The token of the lease was granted to a manager with the owner's name. -/
def Credited (managers : Fin n → LeaseManager) (grants : List (Fin n × Nat × Int)) (shard : Nat)
    (l : ShardLease) : Prop :=
  ∃ j, (managers j).owner = l.owner ∧ (j, shard, l.fencingToken) ∈ grants

/-- As `Own`, where a manager is known by its name. -/
def OwnByName (managers : Fin n → LeaseManager) (owned : (i : Fin n) → OwnedShards (managers i).numShards.toNat)
    (grants : List (Fin n × Nat × Int)) : Prop :=
  ∀ i, ∀ e ∈ (owned i).leases, e.2.owner = (managers i).owner ∧ Credited managers grants e.1 e.2

theorem OwnByName.own {owned : (i : Fin n) → OwnedShards (managers i).numShards.toNat}
    {grants : List (Fin n × Nat × Int)} (h : OwnByName managers owned grants)
    (hnames : Injective (fun i => (managers i).owner)) : Own managers owned grants := by
  intro i e he
  obtain ⟨howner, j, hj, hgrant⟩ := h i e he
  obtain rfl : j = i := hnames (hj.trans howner)
  exact ⟨howner, hgrant⟩

theorem leases_update {owned : (i : Fin n) → OwnedShards (managers i).numShards.toNat}
    {P : Fin n → Nat × ShardLease → Prop} (h : ∀ i, ∀ e ∈ (owned i).leases, P i e) {i : Fin n}
    {after : OwnedShards (managers i).numShards.toNat} (hafter : ∀ e ∈ after.leases, P i e) :
    ∀ j, ∀ e ∈ (update owned i after j).leases, P j e := by
  intro j e he
  by_cases hji : j = i
  · subst hji
    rw [update_self] at he
    exact hafter e he
  · rw [update_of_ne hji] at he
    exact h j e he

/-- The grant of a statement that leaves the lease with another token than before. -/
def grantOf (i : Fin n) (shard : Nat) (before after : Option ShardLease) : List (Fin n × Nat × Int) :=
  match after with
  | none => []
  | some l => if before.map ShardLease.fencingToken = some l.fencingToken then [] else [(i, shard, l.fencingToken)]

theorem mem_grantOf {i : Fin n} {shard : Nat} {before : Option ShardLease} {l : ShardLease}
    (h : before.map ShardLease.fencingToken ≠ some l.fencingToken) :
    (i, shard, l.fencingToken) ∈ grantOf i shard before (some l) := by
  simp only [grantOf, if_neg h, List.mem_singleton]

structure Recorded (managers : Fin n → LeaseManager) where
  fleet : Fleet managers
  grants : List (Fin n × Nat × Int)

namespace Recorded

def start (d : Recorded managers) (i : Fin n) : Option (Recorded managers × Tx Outcome) :=
  (d.fleet.start i).map (fun r => ({ d with fleet := r.1 }, r.2))

def added (db db' : DB) (i : Fin n) (o : Op) : List (Fin n × Nat × Int) :=
  match o with
  | .leaseUpsert shard _ _ => grantOf i shard (db.leases shard) (db'.leases shard)
  | _ => []

def exec (d : Recorded managers) (i : Fin n) (o : Op) (x : Reply) : Option (Recorded managers × Except Err o.Res) :=
  (d.fleet.exec i o x).map (fun r => (⟨r.1, added d.fleet.db r.1.db i o ++ d.grants⟩, r.2))

def finish (d : Recorded managers) (i : Fin n) (r : Except Err Outcome) : Recorded managers :=
  { d with fleet := d.fleet.finish i r }

inductive Event (n : Nat) where
  | fleet (v : Fleet.Event n)
  | stop (i : Fin n)

/-- Stop waits for the call that is under way and empties the map; the releases that follow are
    calls as any others. -/
def env (d : Recorded managers) : Event n → Option (Recorded managers)
  | .fleet v => (d.fleet.env v).map (fun fleet => { d with fleet := fleet })
  | .stop i =>
    match d.fleet.command i with
    | none => some { d with fleet := { d.fleet with owned := update d.fleet.owned i (.empty _) } }
    | some _ => none

def init (managers : Fin n → LeaseManager) (now : Time) (refs : Reference) : Recorded managers :=
  ⟨Fleet.init managers now refs, []⟩

end Recorded

def recorded (managers : Fin n → LeaseManager) :
    Shop (Recorded managers) (Fin n) (Recorded.Event n) Reply Op Op.Res Err Outcome where
  start := Recorded.start
  exec := Recorded.exec
  finish := Recorded.finish
  env := Recorded.env

/-! The invariant. -/

def StageOwn (managers : Fin n → LeaseManager) (grants : List (Fin n × Nat × Int)) (i : Fin n) : Stage → Prop
  | .read shard _ lease => Credited managers grants shard lease
  | .renewed _ rows => ∀ e ∈ rows, e.2.owner = (managers i).owner ∧ Credited managers grants e.1 e.2
  | _ => True

structure RecordedOk (d : Recorded managers) (σ : Fin n → Option Stage) : Prop where
  rows : ∀ shard row, d.fleet.db.leases shard = some row → Credited managers d.grants shard row
  owned : OwnByName managers d.fleet.owned d.grants
  stage : ∀ i st, σ i = some st → StageOwn managers d.grants i st

section
variable {grants grants' : List (Fin n × Nat × Int)} {i : Fin n} {shard : Nat} {l l' : ShardLease} {st : Stage}

/-- What was granted stays granted, also when the lease is extended or ended. -/
theorem Credited.mono (h : Credited managers grants shard l) (hsub : ∀ g ∈ grants, g ∈ grants')
    (howner : l'.owner = l.owner) (htoken : l'.fencingToken = l.fencingToken) : Credited managers grants' shard l' := by
  obtain ⟨j, hj, hgrant⟩ := h
  exact ⟨j, hj.trans howner.symm, htoken ▸ hsub _ hgrant⟩

theorem OwnByName.mono {owned : (i : Fin n) → OwnedShards (managers i).numShards.toNat}
    (h : OwnByName managers owned grants) (hsub : ∀ g ∈ grants, g ∈ grants') : OwnByName managers owned grants' :=
  fun i e he => ⟨(h i e he).1, (h i e he).2.mono hsub rfl rfl⟩

theorem StageOwn.mono (h : StageOwn managers grants i st) (hsub : ∀ g ∈ grants, g ∈ grants') :
    StageOwn managers grants' i st := by
  cases st with
  | read shard now lease => exact Credited.mono h hsub rfl rfl
  | renewed expected rows => exact fun e he => ⟨(h e he).1, (h e he).2.mono hsub rfl rfl⟩
  | _ => trivial

end

/-! One statement. -/

section
variable {d d' : Recorded managers} {i : Fin n} {σ : Fin n → Option Stage} {st : Stage} {o : Op} {x : Reply}
  {db db' : DB} {s s' : Session} {grants' : List (Fin n × Nat × Int)}

/-- Where a row of the table comes from: it was there with its owner and token, or the manager's
    upsert has made it and the grant is on record. -/
inductive RowFrom (managers : Fin n → LeaseManager) (db db' : DB) (i : Fin n) (o : Op) (shard : Nat)
    (row : ShardLease) : Prop where
  | kept {before : ShardLease} (hrow : db.leases shard = some before) (howner : row.owner = before.owner)
      (htoken : row.fencingToken = before.fencingToken)
  | granted (howner : row.owner = (managers i).owner)
      (hgrant : (i, shard, row.fencingToken) ∈ Recorded.added db db' i o)

variable {shard k : Nat} {row : ShardLease} {ttl : Int} {now : Time} {owner : String}

theorem rowFrom_same (hleases : db'.leases = db.leases)
    (hrow : db'.leases shard = some row) : RowFrom managers db db' i o shard row :=
  .kept (hleases ▸ hrow) rfl rfl

/-- The upsert gives the row the manager's name and a new token, or leaves it. -/
theorem rowFrom_upsert
    (hleases : db'.leases = update db.leases shard (some (upsertLease now (managers i).owner ttl (db.leases shard))))
    (hrow : db'.leases k = some row) :
    RowFrom managers db db' i (.leaseUpsert shard (managers i).owner ttl) k row := by
  by_cases hk : k = shard
  · subst hk
    have hgrant : (db.leases k).map ShardLease.fencingToken ≠ some row.fencingToken →
        (i, k, row.fencingToken) ∈ Recorded.added db db' i (.leaseUpsert k (managers i).owner ttl) := by
      intro hne
      simp only [Recorded.added, hrow]
      exact mem_grantOf hne
    rw [hleases, update_self] at hrow
    cases hbefore : db.leases k with
    | none =>
      rw [hbefore] at hrow hgrant
      cases hrow
      exact .granted rfl (hgrant nofun)
    | some before =>
      rw [hbefore] at hrow hgrant
      simp only [upsertLease] at hrow
      split at hrow
      · -- an expired row is taken over with the next token
        cases hrow
        exact .granted rfl (hgrant (by simp))
      · cases hrow
        exact .kept hbefore rfl rfl
  · rw [hleases, update_of_ne hk] at hrow
    exact .kept hrow rfl rfl

theorem rowFrom_renew {expected : List (Nat × Int)}
    (hleases : ∀ k, db'.leases k = (db.leases k).map (renewLease now owner expected ttl k))
    (hrow : db'.leases k = some row) : RowFrom managers db db' i o k row := by
  rw [hleases] at hrow
  obtain ⟨before, hbefore, rfl⟩ := Option.map_eq_some_iff.mp hrow
  refine .kept hbefore ?_ ?_
  all_goals
    unfold renewLease
    split <;> rfl

theorem rowFrom_release
    (hleases : db'.leases = update db.leases shard ((db.leases shard).map (releaseLease now owner)))
    (hrow : db'.leases k = some row) : RowFrom managers db db' i o k row := by
  by_cases hk : k = shard
  · subst hk
    rw [hleases, update_self] at hrow
    obtain ⟨before, hbefore, rfl⟩ := Option.map_eq_some_iff.mp hrow
    refine .kept hbefore ?_ ?_
    all_goals
      unfold releaseLease
      split <;> rfl
  · rw [hleases, update_of_ne hk] at hrow
    exact .kept hrow rfl rfl

theorem rowFrom_exec {w : Oracle} {a : Except Err o.Res} (ha : Allowed (managers i).owner st o)
    (he : FlowRule.exec db [] s o w = some (db', s', a))
    (hrow : db'.leases k = some row) : RowFrom managers db db' i o k row := by
  rcases exec_cases he with ⟨rfl, -⟩ | ⟨rfl, -⟩ | ⟨rfl, -⟩ | hp
  · exact rowFrom_same rfl hrow
  · exact rowFrom_same rfl hrow
  · exact rowFrom_same rfl hrow
  · cases ha with
    | begin => cases hp
    | upsert =>
      rcases perform_upsert hp with ⟨hsame, -⟩ | hleases
      · exact rowFrom_same hsame hrow
      · exact rowFrom_upsert hleases hrow
    | get =>
      cases hp
      exact rowFrom_same rfl hrow
    | renew => exact rowFrom_renew (perform_renew hp).1 hrow
    | release =>
      cases hp
      exact rowFrom_release rfl hrow

theorem stageOwn_after {w : Oracle} {r : o.Res} (ha : Allowed (managers i).owner st o)
    (hst : StageOwn managers d.grants i st)
    (he : FlowRule.exec d.fleet.db [] (d.fleet.session i) o w = some (db', s', .ok r))
    (hrows : ∀ k row, db'.leases k = some row → Credited managers grants' k row)
    (hsub : ∀ g ∈ d.grants, g ∈ grants') : ∃ st', moves st o r st' ∧ StageOwn managers grants' i st' := by
  have hx : FlowRule.exec d.fleet.db [] (d.fleet.session i) o (Reply.mk w none).oracle = some (db', s', .ok r) := he
  cases ha with
  | begin =>
    refine ⟨st, ?_, hst.mono hsub⟩
    cases st <;> rfl
  | @upsert shard ttl => exact ⟨.asked shard 0, ⟨_, rfl⟩, trivial⟩
  | @get shard now =>
    have hp := performed_of_ok (by simp) (by simp) hx
    cases hp
    cases hrow : d.fleet.db.leases shard with
    | none => exact ⟨.ended, rfl, trivial⟩
    | some lease => exact ⟨.read shard now lease, rfl, hrows shard lease hrow⟩
  | @renew expected ttl =>
    have hp := (perform_renew (performed_of_ok (by simp) (by simp) hx)).2 r rfl
    exact ⟨.renewed expected r, rfl, fun e hmem => ⟨(hp e hmem).2.2, hrows e.1 e.2 (hp e hmem).2.1⟩⟩
  | release => exact ⟨.ended, rfl, trivial⟩

theorem stage_update {st' : Stage} (h : RecordedOk d σ) (hsub : ∀ g ∈ d.grants, g ∈ grants')
    (hst : StageOwn managers grants' i st') :
    ∀ j st, update σ i (some st') j = some st → StageOwn managers grants' j st := by
  intro j st hj
  rcases update_cases hj with ⟨rfl, hst'⟩ | ⟨hji, hj⟩
  · cases hst'
    exact hst
  · exact (h.stage j st hj).mono hsub

theorem recorded_exec {a : Except Err o.Res} (h : RecordedOk d σ) (hσ : σ i = some st)
    (ha : Allowed (managers i).owner st o) (he : d.exec i o x = some (d', a)) :
    ∃ st', untilError .ended moves st o a st' ∧ RecordedOk d' (update σ i (some st')) := by
  obtain ⟨⟨fleet, a'⟩, hfleet, heq⟩ := Option.map_eq_some_iff.mp he
  cases heq
  obtain ⟨-, db, s, a₀, hex, rfl, ha₀⟩ := Fleet.exec_some hfleet
  have hsub : ∀ g ∈ d.grants, g ∈ Recorded.added d.fleet.db db i o ++ d.grants :=
    fun g hg => List.mem_append_right _ hg
  have hrows : ∀ k row, db.leases k = some row →
      Credited managers (Recorded.added d.fleet.db db i o ++ d.grants) k row := by
    intro k row hrow
    cases rowFrom_exec ha hex hrow with
    | kept hbefore howner htoken => exact (h.rows k _ hbefore).mono hsub howner htoken
    | granted howner hgrant => exact ⟨i, howner.symm, List.mem_append_left _ hgrant⟩
  cases a' with
  | error e => exact ⟨.ended, rfl, hrows, h.owned.mono hsub, stage_update h hsub trivial⟩
  | ok r =>
    rw [Workers.unlessLost_ok ha₀] at hex
    obtain ⟨st', htr, hst'⟩ := stageOwn_after ha (h.stage i st hσ) hex hrows hsub
    exact ⟨st', htr, hrows, h.owned.mono hsub, stage_update h hsub hst'⟩

/-! The other steps. -/

theorem recorded_start {p : Tx Outcome} (h : RecordedOk d σ) (hst : d.start i = some (d', p)) :
    ∃ st, RecordedOk d' (update σ i (some st)) ∧ wp (proto (managers i).owner) p (Stores (managers i).owner) st := by
  obtain ⟨⟨fleet, p'⟩, hfleet, heq⟩ := Option.map_eq_some_iff.mp hst
  cases heq
  have hok : ∀ {st}, StageOwn managers d.grants i st →
      RecordedOk ⟨d.fleet.begins i, d.grants⟩ (update σ i (some st)) :=
    fun hst => ⟨h.rows, h.owned, stage_update h (fun _ hg => hg) hst⟩
  unfold Fleet.start at hfleet
  split at hfleet
  · split at hfleet
    · cases hfleet
    · rename_i shard _
      split at hfleet <;> cases hfleet
      exact ⟨.asking shard, hok trivial, wp_acquireLease⟩
    · cases hfleet
      exact ⟨.renewing _, hok trivial, wp_renewOwned⟩
    · rename_i shard _
      cases hfleet
      exact ⟨.releasing shard, hok trivial, wp_release⟩
  · cases hfleet

theorem recorded_finish {r : Except Err Outcome} (h : RecordedOk d σ) (hσ : σ i = some st)
    (hstores : Stores (managers i).owner st r) : RecordedOk (d.finish i r) (update σ i none) := by
  have hstage : ∀ j st, update σ i none j = some st → StageOwn managers d.grants j st := by
    intro j st' hj
    rcases update_cases hj with ⟨-, hst'⟩ | ⟨hji, hj⟩
    · cases hst'
    · exact h.stage j st' hj
  simp only [Recorded.finish, Fleet.finish]
  split
  · have hst := h.stage i st hσ
    refine ⟨h.rows, leases_update h.owned (ownedAfter_mem (h.owned i) ?_ ?_), hstage⟩
    · rintro expected rows rfl
      exact hstores.imp id (by rintro rfl; exact hst)
    · rintro shard lease rfl
      obtain ⟨now, rfl, howner⟩ := hstores
      exact ⟨howner, hst⟩
  · exact ⟨h.rows, h.owned, hstage⟩

theorem recorded_env {v : Recorded.Event n} (h : RecordedOk d σ) (hv : d.env v = some d') : RecordedOk d' σ := by
  cases v with
  | fleet v =>
    obtain ⟨fleet, hfleet, rfl⟩ := Option.map_eq_some_iff.mp hv
    cases v with
    | order i c =>
      simp only [Fleet.env] at hfleet
      split at hfleet <;> cases hfleet
      exact ⟨h.rows, h.owned, h.stage⟩
    | crash i | tick dt =>
      cases hfleet
      exact ⟨h.rows, h.owned, h.stage⟩
  | stop i =>
    simp only [Recorded.env] at hv
    split at hv <;> cases hv
    exact ⟨h.rows, leases_update h.owned (fun e he => by cases he), h.stage⟩

end

theorem recorded_sound : Sound (recorded managers) (fun i => proto (managers i).owner)
    (fun i => Stores (managers i).owner) RecordedOk (fun _ _ _ _ => True) where
  start h _ hst := recorded_start h hst
  exec h hσ ha _ he := recorded_exec h hσ ha he
  finish h hσ hstores := recorded_finish h hσ hstores
  env h hv := recorded_env h hv

/-- In every state that any interleaving reaches, the leases in a manager's map bear its name and
    were granted to that name. -/
theorem recorded_own {now : Time} {refs : Reference} {as : List (Act (Fin n) (Recorded.Event n) Reply)}
    {u : World (Recorded managers) (Fin n) Op Op.Res Err Outcome}
    (h : Machine.run (next (recorded managers)) (init (Recorded.init managers now refs)) as = some u) :
    OwnByName managers u.data.fleet.owned u.data.grants := by
  have hinit : RecordedOk (Recorded.init managers now refs) (fun _ => none) :=
    ⟨nofun, fun _ _ he => (nomatch he), nofun⟩
  have hmeets : Machine.Along (next (recorded managers)) (Meets (fun _ _ _ _ => True))
      (init (Recorded.init managers now refs)) as := by
    refine Machine.along_trivial (fun u a => ?_)
    unfold Meets
    repeat' split
    all_goals trivial
  obtain ⟨σ, hok, -⟩ := holds_along recorded_sound hinit hmeets h
  exact hok.owned

end

end Shard

end FlowRule
