import FlowRule.Events.ExactlyOnce

/- Fencing: a transaction that asserted an old token cannot commit.

   `perform_leases` is what any statement does to the lease rows: a row is never deleted, its
   token never decreases and grows whenever the owner changes, and the token of a row that
   another transaction holds FOR SHARE stays. `leaseProto` follows one call: the token it has
   read under the row lock, and the lease it was answered with. Nothing is assumed of sha256,
   of clocks or of pauses. -/
namespace FlowRule

open Machine Clients Prog

/-! Lease rows. -/

/-- A lease row goes on to a higher token, or keeps its token and its owner. -/
def LeaseLe (l l' : ShardLease) : Prop :=
  l.fencingToken < l'.fencingToken ∨ (l.fencingToken = l'.fencingToken ∧ l.owner = l'.owner)

def LeasesGrow (f f' : Nat → Option ShardLease) : Prop :=
  ∀ shard l, f shard = some l → ∃ l', f' shard = some l' ∧ LeaseLe l l'

theorem LeaseLe.refl (l : ShardLease) : LeaseLe l l := .inr ⟨rfl, rfl⟩

theorem LeaseLe.trans {a b c : ShardLease} (h₁ : LeaseLe a b) (h₂ : LeaseLe b c) : LeaseLe a c := by
  rcases h₁ with h₁ | ⟨t₁, o₁⟩ <;> rcases h₂ with h₂ | ⟨t₂, o₂⟩
  · exact .inl (Int.lt_trans h₁ h₂)
  · exact .inl (t₂ ▸ h₁)
  · exact .inl (t₁ ▸ h₂)
  · exact .inr ⟨t₁.trans t₂, o₁.trans o₂⟩

theorem LeaseLe.token_le {l l' : ShardLease} (h : LeaseLe l l') : l.fencingToken ≤ l'.fencingToken := by
  unfold LeaseLe at h
  omega

theorem LeasesGrow.refl (f : Nat → Option ShardLease) : LeasesGrow f f := fun _ l h => ⟨l, h, .refl l⟩

theorem LeasesGrow.trans {f g h : Nat → Option ShardLease} (h₁ : LeasesGrow f g) (h₂ : LeasesGrow g h) :
    LeasesGrow f h := by
  intro shard l hl
  obtain ⟨l', hl', hle⟩ := h₁ shard l hl
  obtain ⟨l'', hl'', hle'⟩ := h₂ shard l' hl'
  exact ⟨l'', hl'', hle.trans hle'⟩

theorem upsertLease_le {now : Time} {owner : String} {ttl : Int} {l : ShardLease} :
    LeaseLe l (upsertLease now owner ttl (some l)) := by
  simp only [upsertLease]
  split
  · exact .inl (by simp)
  · exact .refl l

theorem renewLease_token (now : Time) (owner : String) (leases : List (Nat × Int)) (ttl : Int) (shard : Nat)
    (l : ShardLease) : (renewLease now owner leases ttl shard l).fencingToken = l.fencingToken ∧
      (renewLease now owner leases ttl shard l).owner = l.owner := by
  unfold renewLease
  split <;> exact ⟨rfl, rfl⟩

theorem releaseLease_token (now : Time) (owner : String) (l : ShardLease) :
    (releaseLease now owner l).fencingToken = l.fencingToken ∧ (releaseLease now owner l).owner = l.owner := by
  unfold releaseLease
  split <;> exact ⟨rfl, rfl⟩

/-- The tokens of the rows that the sessions hold FOR SHARE are the same. -/
def LocksKept (os : List Session) (f f' : Nat → Option ShardLease) : Prop :=
  ∀ s ∈ os, ∀ shard ∈ s.share, ∀ l, f shard = some l →
    ∃ l', f' shard = some l' ∧ l'.fencingToken = l.fencingToken

section
variable {d d' : DB} {os : List Session} {s s' : Session}

theorem LocksKept.refl (os : List Session) (f : Nat → Option ShardLease) : LocksKept os f f :=
  fun _ _ _ _ l hl => ⟨l, hl, rfl⟩

theorem upsert_leases {shard : Nat} {owner : String} {ttl : Int} {a : Except Err (Op.leaseUpsert shard owner ttl).Res}
    (hp : perform d os s (.leaseUpsert shard owner ttl) = some (d', s', a)) :
    LeasesGrow d.leases d'.leases ∧ LocksKept os d.leases d'.leases ∧ ∀ l, a = .ok l → d'.leases shard = some l := by
  simp only [perform] at hp
  split at hp
  · cases hp
  rename_i hlock
  split at hp
  · simp only [Option.some.injEq, Prod.mk.injEq] at hp
    obtain ⟨rfl, rfl, rfl⟩ := hp
    exact ⟨.refl _, .refl _ _, fun l h => by cases h⟩
  · simp only [Option.some.injEq, Prod.mk.injEq] at hp
    obtain ⟨rfl, rfl, rfl⟩ := hp
    refine ⟨?_, ?_, ?_⟩
    · intro k l hl
      by_cases hk : k = shard
      · subst hk
        exact ⟨_, Function.update_self .., by rw [hl]; exact upsertLease_le⟩
      · exact ⟨l, by simp [hk, hl], .refl l⟩
    · -- nobody else holds the row: the update has waited for its locks
      intro s₂ hs₂ k hk l hl
      have hne : k ≠ shard := by
        rintro rfl
        apply hlock
        simp only [List.any_eq_true, List.contains_iff_mem]
        exact ⟨s₂, hs₂, hk⟩
      exact ⟨l, by simp [hne, hl], rfl⟩
    · intro l hl
      cases hl
      exact Function.update_self ..

theorem perform_leases {o : Op} {a : Except Err o.Res} (hp : perform d os s o = some (d', s', a)) :
    LeasesGrow d.leases d'.leases ∧ LocksKept os d.leases d'.leases := by
  -- rows that are rewritten with their token and owner
  have hmap : ∀ {f : Nat → Option ShardLease}, (∀ k l, d.leases k = some l →
      ∃ l', f k = some l' ∧ l'.fencingToken = l.fencingToken ∧ l'.owner = l.owner) →
      LeasesGrow d.leases f ∧ LocksKept os d.leases f := by
    intro f hf
    refine ⟨fun k l hl => ?_, fun _ _ k _ l hl => ?_⟩
    · obtain ⟨l', h, ht, ho⟩ := hf k l hl
      exact ⟨l', h, .inr ⟨ht.symm, ho.symm⟩⟩
    · obtain ⟨l', h, ht, -⟩ := hf k l hl
      exact ⟨l', h, ht⟩
  cases o with
  | leaseUpsert shard owner ttl =>
    obtain ⟨h₁, h₂, -⟩ := upsert_leases hp
    exact ⟨h₁, h₂⟩
  | leaseRenew owner leases ttl =>
    simp only [perform] at hp
    split at hp
    · cases hp
    simp only [Option.some.injEq, Prod.mk.injEq] at hp
    obtain ⟨rfl, rfl, rfl⟩ := hp
    refine hmap (fun k l hl => ⟨_, ?_, renewLease_token s.now owner leases ttl k l⟩)
    simp [hl]
  | leaseRelease shard owner =>
    simp only [perform] at hp
    split at hp
    · cases hp
    simp only [Option.some.injEq, Prod.mk.injEq] at hp
    obtain ⟨rfl, rfl, rfl⟩ := hp
    refine hmap (fun k l hl => ?_)
    by_cases hk : k = shard
    · subst hk
      exact ⟨_, by simp [hl], releaseLease_token s.now owner l⟩
    · exact ⟨l, by simp [hk, hl], rfl, rfl⟩
  | clock => cases hp
  | begin => cases hp
  | _ =>
    simp only [perform] at hp
    repeat' split at hp
    all_goals
      cases hp
      try exact ⟨.refl _, .refl _ _⟩

end

/-! The protocol of leases. -/

/-- The token a call has read under the row lock, and the lease it was answered with. -/
structure LeaseStage where
  lock : Option Int
  seen : Option (Nat × Int)

def LeaseStage.none : LeaseStage := ⟨.none, .none⟩

/-- A transaction checks its own shard, and commits under the lock of its own token. -/
def leaseAllowed (i : Call) (st : LeaseStage) : Op → Prop
  | .assertHeld shard _ => ∃ token, i.asserts = some (shard, token)
  | .commit => ∃ shard token, i.asserts = some (shard, token) ∧ st.lock = some token
  | _ => True

def leaseTrans (st : LeaseStage) : (o : Op) → Except Err o.Res → LeaseStage → Prop
  | _, .error _, st' => st' = .none
  | .begin, .ok _, st' => st' = .none
  | .commit, .ok _, st' => st' = .none
  | .leaseRenew _ _ _, .ok _, st' => st' = .none
  | .leaseRelease _ _, .ok _, st' => st' = .none
  | .assertHeld _ _, .ok (some (token, _, _)), st' => st' = ⟨some token, st.seen⟩
  | .leaseUpsert shard _ _, .ok l, st' => st' = ⟨none, some (shard, l.fencingToken)⟩
  | .leaseGet shard, .ok (some l), st' => st' = ⟨none, some (shard, l.fencingToken)⟩
  | _, .ok _, st' => st' = st

def leaseProto (i : Call) : Proto Op Op.Res Err LeaseStage := ⟨leaseAllowed i, leaseTrans⟩

/-- The token under the lock is the stored one, and a token that was seen is not above
    the stored one. -/
structure LeaseRep (i : Call) (d : DB) (s : Session) (st : LeaseStage) : Prop where
  lock : ∀ token, st.lock = some token → ∃ shard l, i.asserts.map Prod.fst = some shard ∧
    shard ∈ s.share ∧ d.leases shard = some l ∧ l.fencingToken = token
  seen : ∀ shard token, st.seen = some (shard, token) → ∃ l, d.leases shard = some l ∧ token ≤ l.fencingToken

def Reply.lease? (i : Call) : Reply → Option (Nat × Int)
  | .lease l => i.leaseShard.map (fun shard => (shard, l.fencingToken))
  | .token (some t) => i.leaseShard.map (fun shard => (shard, t))
  | _ => none

def LeaseFin (i : Call) (st : LeaseStage) (r : Except Err Reply) : Prop :=
  ∀ reply g, r = .ok reply → reply.lease? i = some g → st.seen = some g

def LeasePost (i : Call) (d : DB) (r : Except Err Reply) : Prop :=
  ∀ reply shard token, r = .ok reply → reply.lease? i = some (shard, token) →
    ∃ l, d.leases shard = some l ∧ token ≤ l.fencingToken

def leaseView : View DB Session Call Err Reply LeaseStage where
  glob _ := True
  rep := LeaseRep
  excl _ _ := True
  post := LeasePost
  fin := LeaseFin

section
variable {i : Call} {d d' : DB} {os : List Session} {s s' : Session} {st : LeaseStage}

theorem leaseRep_none : LeaseRep i d s .none := by
  constructor
  · intro token h
    cases h
  · intro shard token h
    cases h

theorem leaseKeeps (hg : LeasesGrow d.leases d'.leases) (hk : LocksKept os d.leases d'.leases) :
    Keeps leaseView d d' os := by
  have hseen : ∀ {shard : Nat} {token : Int}, (∃ l, d.leases shard = some l ∧ token ≤ l.fencingToken) →
      ∃ l, d'.leases shard = some l ∧ token ≤ l.fencingToken := by
    rintro shard token ⟨l, hl, hle⟩
    obtain ⟨l', hl', hg'⟩ := hg shard l hl
    exact ⟨l', hl', Int.le_trans hle hg'.token_le⟩
  refine ⟨fun i₂ st₂ s₂ hs₂ hr => ⟨?_, fun shard token h => hseen (hr.seen shard token h)⟩,
    fun i₂ r hp reply shard token hr hl => hseen (hp reply shard token hr hl)⟩
  intro token ht
  obtain ⟨shard, l, ha, hm, hl, rfl⟩ := hr.lock token ht
  obtain ⟨l', hl', ht'⟩ := hk s₂ hs₂ shard hm l hl
  exact ⟨shard, l', ha, hm, hl', ht'⟩

theorem perform_lease_moves {o : Op} {x : o.Res} (hr : LeaseRep i d s st) (ha : leaseAllowed i st o)
    (hp : perform d os s o = some (d', s', .ok x)) : ∃ st', leaseTrans st o (.ok x) st' ∧ LeaseRep i d' s' st' := by
  have hsame : ∀ {s' : Session}, s'.share = s.share → LeaseRep i d s' st := by
    intro s' hs
    refine ⟨fun token ht => ?_, hr.seen⟩
    rw [hs]
    exact hr.lock token ht
  have hseen : ∀ {d : DB} {s : Session} {shard : Nat} {l : ShardLease}, d.leases shard = some l →
      LeaseRep i d s ⟨none, some (shard, l.fencingToken)⟩ := by
    intro d s shard l hl
    constructor
    · intro token h
      cases h
    · intro shard' token h
      cases h
      exact ⟨l, hl, Int.le_refl _⟩
  cases o with
  | clock => cases hp
  | begin => cases hp
  | assertHeld shard owner =>
    obtain ⟨token, has⟩ := ha
    simp only [perform] at hp
    repeat' split at hp
    · rename_i l hl _
      cases hp
      refine ⟨⟨some l.fencingToken, st.seen⟩, rfl, ?_, hr.seen⟩
      rintro t ⟨⟩
      exact ⟨shard, l, by rw [has]; rfl, List.mem_cons_self, hl, rfl⟩
    · cases hp
      exact ⟨st, rfl, hr⟩
    · cases hp
      exact ⟨st, rfl, hr⟩
  | commit =>
    cases hp
    exact ⟨.none, rfl, leaseRep_none⟩
  | leaseUpsert shard owner ttl =>
    obtain ⟨-, -, hl⟩ := upsert_leases hp
    exact ⟨_, rfl, hseen (hl x rfl)⟩
  | leaseRenew owner leases ttl | leaseRelease shard owner => exact ⟨.none, rfl, leaseRep_none⟩
  | leaseGet shard =>
    cases hp
    cases hl : d.leases shard with
    | none => exact ⟨st, rfl, hr⟩
    | some l => exact ⟨_, rfl, hseen hl⟩
  | _ =>
    simp only [perform] at hp
    repeat' split at hp
    all_goals
      cases hp
      try exact ⟨st, rfl, hsame rfl⟩

end

variable {eng : Engine} {w : Store}

/-- The database keeps to the protocol of leases, for every call whose program does. -/
theorem lease_sound
    (hprog : ∀ i : Call, wp (leaseProto i) (i.program eng) (LeaseFin i) .none) :
    Sound (store eng) leaseProto leaseView where
  start := by
    intro d i d' s p os hd _ h
    simp only [store, Option.some.injEq, Prod.mk.injEq] at h
    obtain ⟨rfl, rfl, rfl⟩ := h
    exact ⟨hd, ⟨.none, leaseRep_none, hprog i⟩, fun _ _ => ⟨trivial, trivial⟩, leaseKeeps (.refl _) (.refl _ _)⟩
  exec := by
    intro i d os s st o x d' s' a hd hr ha _ he
    have hsame : Keeps leaseView d d os := leaseKeeps (.refl _) (.refl _ _)
    rcases exec_cases he with ⟨rfl, rfl, hcase⟩ | ⟨rfl, rfl, rfl, t, rfl⟩ | ⟨rfl, rfl, e, rfl⟩ | hp
    · rcases hcase with ⟨e, rfl, rfl⟩ | rfl
      · exact ⟨hd, ⟨.none, rfl, leaseRep_none⟩, fun _ _ => ⟨trivial, trivial⟩, hsame⟩
      · cases a with
        | ok t => exact ⟨hd, ⟨st, rfl, hr⟩, fun _ _ => ⟨trivial, trivial⟩, hsame⟩
        | error e => cases he
    · exact ⟨hd, ⟨.none, rfl, leaseRep_none⟩, fun _ _ => ⟨trivial, trivial⟩, hsame⟩
    · refine ⟨hd, ⟨.none, ?_, leaseRep_none⟩, fun _ _ => ⟨trivial, trivial⟩, hsame⟩
      cases o <;> rfl
    · obtain ⟨hg, hk⟩ := perform_leases hp
      refine ⟨hd, ?_, fun _ _ => ⟨trivial, trivial⟩, leaseKeeps hg hk⟩
      cases a with
      | ok x => exact perform_lease_moves hr ha hp
      | error e => exact ⟨.none, by cases o <;> rfl, leaseRep_none⟩
  fin := by
    intro i d s st r _ hr hf reply shard token hreply hl
    exact hr.seen shard token (hf reply _ hreply hl)
  env := by
    intro d os v d' hd h
    simp only [store, Option.some.injEq] at h
    subst h
    have hsame : (outside d v).leases = d.leases := by cases v <;> rfl
    exact ⟨hd, leaseKeeps (hsame ▸ .refl _) (hsame ▸ .refl _ _)⟩

/-! The programs. -/

def Unfenced : Op → Prop
  | .begin => False
  | .assertHeld _ _ => False
  | .commit => False
  | .leaseUpsert _ _ _ => False
  | .leaseRenew _ _ _ => False
  | .leaseRelease _ _ => False
  | .leaseGet _ => False
  | _ => True

/-- Such statements of a transaction whose rows are inserted with the batch. -/
def UnfencedIn (batchID : Option String) (o : Op) : Prop := Unfenced o ∧ Marked batchID o

theorem quiet_unfenced (o : Op) (h : QuietGo o) : UnfencedIn (some "") o := by
  refine ⟨?_, h.2⟩
  have hq := h.1
  cases o with
  | begin | assertHeld | commit | leaseUpsert | leaseRenew | leaseRelease | leaseGet | outboxInsert => cases hq
  | _ => trivial

/-- The program keeps to the protocol of leases; it may fail anywhere. -/
abbrev Fenced (i : Call) {R : Type} (st : LeaseStage) (p : Tx R) (Q : LeaseStage → R → Prop) : Prop :=
  Triple (leaseProto i) (fun _ _ => True) st p Q

section
variable {eng : Engine} {i : Call} {b : Option String} {R : Type} {p : Tx R} {Q : LeaseStage → R → Prop}
variable {st : LeaseStage} {o : Op} {g : Err → Err}

theorem fenced_sql (ha : leaseAllowed i st o) : Fenced i st (sql o) (fun st' x => leaseTrans st o (.ok x) st') :=
  triple_call ha (fun _ _ _ => trivial)

theorem fenced_only (hp : p.Only (UnfencedIn b)) : Fenced i st p (fun st' _ => st' = st) := by
  refine Only.triple hp rfl (fun o st' ho hst => ?_) (fun _ _ => trivial)
  replace ho := ho.1
  cases hst
  cases o with
  | begin | assertHeld | commit | leaseUpsert | leaseRenew | leaseRelease | leaseGet => cases ho
  | _ => exact ⟨trivial, fun x st' ht => ht⟩

theorem only_outboxInsert (efs : List Go.OutboxEffect) : (Go.outboxInsert efs).Only (UnfencedIn b) := by
  induction efs with
  | nil => trivial
  | cons ef rest ih =>
    unfold Go.outboxInsert
    split
    · trivial
    · exact Only.bind ((only_sql).wrap _) (fun _ => ih)

theorem only_persistExecutionAndOutbox (env : EventEnvelope) (revision : RuleRevision) (decision : Decision) :
    (Go.persistExecutionAndOutbox eng env revision decision).Only (UnfencedIn b) := by
  refine (only_sql).bind (fun now => (((only_sql).wrap _).wrap _).bind (fun _ => ?_))
  refine Only.bind (Only.wrap _ (((only_sql).wrap _).bind (fun items => ?_))) (fun subscribers => ?_)
  · split <;> trivial
  split
  · trivial
  refine (only_ofExcept _).bind (fun payload => ((only_outboxInsert _).wrap _).bind (fun _ => ?_))
  refine Only.bind (Only.wrap _ ((only_sql).bind (fun _ => ((only_sql).wrap _).bind (fun _ => ?_)))) (fun _ => ?_)
  all_goals trivial

/-- A Go event transaction keeps the lock of the token it asserted up to its commit. -/
theorem fenced_goProcess {env : EventEnvelope} {token : Int} {shard : Nat} {workerID : String}
    (h : i.asserts = some (shard, token)) :
    Fenced i .none (Go.process eng env token shard workerID) (fun _ _ => True) := by
  refine .bind (fenced_only (b := none) (only_ofExcept _)) ?_
  rintro _ _ rfl
  split
  · trivial
  refine .bind (.under (fenced_sql trivial)) ?_
  rintro _ _ rfl
  refine .bind (Q := fun st _ => st = ⟨some token, none⟩) (.under (.bind (.under (fenced_sql ⟨token, h⟩)) ?_)) ?_
  · rintro _ (_ | ⟨current, expires, active⟩) ht
    · trivial
    cases ht
    dsimp only
    split
    · trivial
    split
    · trivial
    split
    · trivial
    -- the token under the lock is the one that was asserted
    rename_i hcur
    rw [not_not] at hcur
    rw [hcur]
    rfl
  rintro _ _ rfl
  refine .bind (fenced_only ((only_deduplicateEvent env).mono quiet_unfenced)) ?_
  rintro _ (_ | existing) rfl
  · refine .bind (fenced_only ((only_loadActiveRevision env).mono quiet_unfenced)) ?_
    rintro _ revision rfl
    refine .bind (fenced_only (b := none) only_sql) ?_
    rintro _ now rfl
    refine .bind (fenced_only (b := none) (only_ofExcept _)) ?_
    rintro _ decision rfl
    refine .bind (fenced_only (b := none) (only_persistExecutionAndOutbox env _ _)) ?_
    rintro _ e rfl
    exact .bind (.under (fenced_sql ⟨shard, token, h, rfl⟩)) (fun _ _ _ => trivial)
  · trivial

theorem only_loadDuplicateExecution (env : EventEnvelope) : (Rust.loadDuplicateExecution env).Only (UnfencedIn b) := by
  refine (only_sql).bind (fun row => ?_)
  cases row.bind InboxRow.executionID with
  | none => trivial
  | some id =>
    refine (only_sql).bind (fun found => ?_)
    cases found <;> trivial

theorem only_persistOutboxEffects (id tenant : String) (now : Time) (efs : List Effect) :
    (Rust.persistOutboxEffects id tenant now efs).Only (UnfencedIn b) := by
  induction efs with
  | nil => trivial
  | cons ef rest ih => exact Only.bind ((only_sql).wrap _) (fun _ => ih)

theorem only_persistNewEvent (env : EventEnvelope) (now : Time) :
    (Rust.persistNewEvent eng env now).Only (UnfencedIn b) := by
  have hrevision : (Rust.loadActiveRevision env).Only (UnfencedIn b) := by
    refine ((only_sql).wrap _).bind (fun row => ?_)
    cases row <;> trivial
  have hsubscribers : (Rust.loadServiceSubscriberEffects eng env).Only (UnfencedIn b) := by
    refine ((only_sql).wrap _).bind (fun rows => ?_)
    split
    · trivial
    · exact (only_ofExcept _).bind (fun _ => trivial)
  have hmark : ∀ id, (Rust.markInboxCommitted env id now).Only (UnfencedIn b) := by
    intro id
    refine ((only_sql).wrap _).bind (fun affected => ?_)
    split <;> trivial
  refine hrevision.bind (fun revision => (only_sql).bind (fun clock => (only_ofExcept _).bind (fun decided => ?_)))
  refine hsubscribers.bind (fun subscribers => ((only_sql).wrap _).bind (fun _ => ?_))
  exact (only_persistOutboxEffects ..).bind (fun _ => (hmark _).bind (fun _ => trivial))

theorem shardColumn_ok {shard column : Nat} (h : Rust.shardColumn shard = .ok column) : shard = column := by
  unfold Rust.shardColumn at h
  split at h
  · cases h
    rfl
  · cases h

theorem fenced_rustProcess {env : EventEnvelope} {token : Int} {workerID : String} {numShards : UInt32}
    (h : i.asserts = some ((env.virtualShard numShards).toNat, token)) :
    Fenced i .none (Rust.processEvent eng env workerID token numShards) (fun _ _ => True) := by
  refine .bind (fenced_only (b := none) (only_ofExcept _)) ?_
  rintro _ _ rfl
  refine .bind (fenced_only (b := none) (only_ofExcept _)) ?_
  rintro _ _ rfl
  refine .bind (triple_ofExcept (fun _ _ => trivial)) ?_
  rintro _ shard ⟨rfl, hshard⟩
  obtain rfl : env.virtualShard numShards = shard := by
    unfold Rust.virtualShard at hshard
    split at hshard
    · cases hshard
    · cases hshard
      rfl
  refine .bind (.under (fenced_sql trivial)) ?_
  rintro _ now rfl
  refine .bind (Q := fun st _ => st = ⟨some token, none⟩) (.bind (triple_ofExcept (fun _ _ => trivial)) ?_) ?_
  · rintro _ column ⟨rfl, hcolumn⟩
    obtain rfl := shardColumn_ok hcolumn
    refine .bind (fenced_sql ⟨token, h⟩) ?_
    rintro _ (_ | ⟨current, expires, active⟩) ht
    · trivial
    cases ht
    dsimp only
    split
    · trivial
    rename_i hcheck
    simp only [Bool.or_eq_true, bne_iff_ne, not_or, not_not] at hcheck
    rw [hcheck.2]
    rfl
  rintro _ _ rfl
  refine .bind (fenced_only (b := none) ((only_sql).wrap _)) ?_
  rintro _ (_ | _) rfl
  · refine .bind (fenced_only (b := none) (only_loadDuplicateExecution env)) ?_
    rintro _ id rfl
    exact .bind (.under (fenced_sql ⟨_, token, h, rfl⟩)) (fun _ _ _ => trivial)
  · refine .bind (fenced_only (b := none) (only_persistNewEvent env now)) ?_
    rintro _ outcome rfl
    exact .bind (.under (fenced_sql ⟨_, token, h, rfl⟩)) (fun _ _ _ => trivial)

/-! The lease calls. -/

theorem fenced_getOwner {shard : Nat} : Fenced i st (do let _ ← (sql .begin).wrap g; Go.getOwner shard)
    (fun st' l => st' = ⟨none, some (shard, l.fencingToken)⟩) := by
  refine .bind (.under (fenced_sql trivial)) (fun _ _ _ => .bind (.under (fenced_sql trivial)) ?_)
  rintro _ (_ | lease) ht
  · trivial
  · exact ht

theorem Fenced.fin {f : R → Reply} (h : Fenced i .none p Q)
    (hf : ∀ st x g, Q st x → (f x).lease? i = some g → st.seen = some g) :
    wp (leaseProto i) (f <$> p) (LeaseFin i) .none := by
  refine wp_map.mpr (wp_mono (fun st r hr => ?_) h)
  rintro reply g hreply hl
  cases r with
  | ok x =>
    cases hreply
    exact hf st x g hr hl
  | error e => cases hreply

theorem program_lease_wp (eng : Engine) (i : Call) : wp (leaseProto i) (i.program eng) (LeaseFin i) .none := by
  cases i with
  | goProcess env token shard workerID => exact (fenced_goProcess rfl).fin (fun _ _ _ _ hl => by cases hl)
  | rustProcess env workerID token numShards => exact (fenced_rustProcess rfl).fin (fun _ _ _ _ hl => by cases hl)
  | goAcquire shard owner ttl =>
    refine Fenced.fin (.bind (.under (fenced_sql trivial)) (fun _ _ _ => .bind (.under (fenced_sql trivial))
      (fun _ _ _ => fenced_getOwner))) ?_
    rintro _ l g rfl hl
    exact hl
  | goRenew shard owner token ttl =>
    refine Fenced.fin (Q := fun st l => st = ⟨none, some (shard, l.fencingToken)⟩)
      (.bind (.under (fenced_sql trivial)) (fun _ _ _ => .bind (.under (fenced_sql trivial)) (fun _ rows _ => ?_))) ?_
    · split
      · trivial
      · exact fenced_getOwner
    · rintro _ l g rfl hl
      exact hl
  | goRenewOwned owner leases ttl =>
    refine Fenced.fin (Q := fun _ _ => True) ?_ (fun _ _ _ _ hl => by cases hl)
    unfold Go.renewOwned
    split
    · trivial
    · exact .bind (.under (fenced_sql trivial)) (fun _ _ _ => .mono (.under (fenced_sql trivial)) (fun _ _ h => h)
        (fun _ _ _ => trivial))
  | goRelease shard owner =>
    exact Fenced.fin (.bind (.under (fenced_sql trivial)) (fun _ _ _ => .under (fenced_sql trivial)))
      (fun _ _ _ _ hl => by cases hl)
  | rustAcquire shard owner ttl =>
    refine Fenced.fin (Q := fun st t => ∀ token, t = some token → st.seen = some (shard, token))
      (.bind (triple_ofExcept (fun _ _ => trivial)) ?_) ?_
    · rintro _ column ⟨rfl, hcolumn⟩
      obtain rfl := shardColumn_ok hcolumn
      refine .bind (fenced_sql trivial) ?_
      rintro _ now rfl
      refine .bind (fenced_sql trivial) ?_
      rintro _ (lease : ShardLease) rfl
      -- a token is answered only for the lease that was stored
      intro token ht
      obtain ⟨-, rfl⟩ : _ ∧ lease.fencingToken = token := by simpa using ht
      rfl
    · rintro _ (_ | token) g h hl
      · cases hl
      · cases hl
        exact h token rfl
  | rustRenew shard owner token ttl =>
    exact Fenced.fin (Q := fun _ _ => True) (.bind (triple_ofExcept (fun _ _ => trivial)) (fun _ _ _ =>
      .bind (fenced_sql trivial) (fun _ _ _ => .bind (fenced_sql trivial) (fun _ _ _ => trivial))))
      (fun _ _ _ _ hl => by cases hl)
  | rustRelease shard owner =>
    exact Fenced.fin (.bind (triple_ofExcept (fun _ _ => trivial)) (fun _ _ _ => .bind (fenced_sql trivial)
      (fun _ _ _ => fenced_sql trivial))) (fun _ _ _ _ hl => by cases hl)

end

/-! Fencing. -/

/-- Every step lets the lease rows only go on. -/
theorem step_leases {w' : Store} {a : StoreAct} (hn : storeNext eng w a = some w') :
    LeasesGrow w.db.leases w'.db.leases := by
  cases next_step hn with
  | start hst =>
    simp only [store, Option.some.injEq, Prod.mk.injEq] at hst
    obtain ⟨rfl, -, -⟩ := hst
    exact .refl _
  | exec hc he =>
    rcases exec_cases he with ⟨rfl, -⟩ | ⟨rfl, -⟩ | ⟨rfl, -⟩ | hp
    · exact .refl _
    · exact .refl _
    · exact .refl _
    · exact (perform_leases hp).1
  | stop => exact .refl _
  | @env v _ hv =>
    simp only [store, Option.some.injEq] at hv
    subst hv
    cases v <;> exact .refl _

theorem run_leases {w' : Store} {ls : List StoreAct}
    (h : run (storeNext eng) w ls = some w') : LeasesGrow w.db.leases w'.db.leases := by
  refine run_mono (fun _ => True) (fun a b => LeasesGrow a.db.leases b.db.leases) ?_ ?_ trivial ?_ ?_ h
  · exact fun a => .refl _
  · exact fun a b c h₁ h₂ => LeasesGrow.trans h₁ h₂
  · exact fun _ _ _ _ _ => trivial
  · exact fun a l b _ hn => step_leases hn

theorem holds_lease_run {now : Time} {refs : Reference} {ls : List StoreAct}
    (h : run (storeNext eng) (Store.init now refs) ls = some w) : Holds leaseProto leaseView w :=
  holds_reachable (lease_sound (program_lease_wp eng)) trivial ⟨ls, h⟩

/-- A call that is about to commit has asserted the token that is stored. -/
theorem commit_token (hw : Holds leaseProto leaseView w) {c : Nat} {i : Call} {s : Session}
    {k : Except Err Unit → Tx Reply} (hc : w.clients[c]? = some ⟨i, s, .running (.stmt .commit k)⟩) :
    ∃ shard token l, i.asserts = some (shard, token) ∧ w.db.leases shard = some l ∧ l.fencingToken = token := by
  obtain ⟨st, hrep, hwp⟩ := hw.running c i s _ hc
  obtain ⟨shard, token, ha, hlock⟩ := hwp.1
  obtain ⟨shard', l, hs, -, hl, ht⟩ := hrep.lock token hlock
  rw [ha] at hs
  cases hs
  exact ⟨shard, token, l, ha, hl, ht⟩

/-- Between any two states of a run the fencing token of a shard never decreases, and has
    grown if the owner is another one. A call that commits in the later state and asserted
    a token of the shard asserted none below the one stored, or returned with a lease, in
    the earlier state. -/
theorem fencing_token_safe {eng : Engine} {now : Time} {refs : Reference} {ls ms : List StoreAct} {w₁ w₂ : Store}
    (h₁ : run (storeNext eng) (Store.init now refs) ls = some w₁) (h₂ : run (storeNext eng) w₁ ms = some w₂) :
    (∀ shard l, w₁.db.leases shard = some l → ∃ l', w₂.db.leases shard = some l' ∧
      l.fencingToken ≤ l'.fencingToken ∧ (l.owner ≠ l'.owner → l.fencingToken < l'.fencingToken)) ∧
    (∀ (c : Nat) i s k shard token, w₂.clients[c]? = some ⟨i, s, .running (.stmt .commit k)⟩ →
      i.asserts = some (shard, token) →
      (∀ l, w₁.db.leases shard = some l → l.fencingToken ≤ token) ∧
      (∀ (c' : Nat) i' s' reply granted, w₁.clients[c']? = some ⟨i', s', .returned (.ok reply)⟩ →
        reply.lease? i' = some (shard, granted) → granted ≤ token)) := by
  have hgrow : LeasesGrow w₁.db.leases w₂.db.leases := run_leases h₂
  refine ⟨?_, ?_⟩
  · intro shard l hl
    obtain ⟨l', hl', hle⟩ := hgrow shard l hl
    refine ⟨l', hl', hle.token_le, fun hne => ?_⟩
    rcases hle with hlt | ⟨-, ho⟩
    · exact hlt
    · exact absurd ho hne
  · intro c i s k shard token hc ha
    have h₁₂ : run (storeNext eng) (Store.init now refs) (ls ++ ms) = some w₂ := by
      rw [run_append, h₁]
      exact h₂
    obtain ⟨shard', token', l₂, ha', hl₂, ht⟩ := commit_token (holds_lease_run h₁₂) hc
    rw [ha] at ha'
    cases ha'
    -- a token stored earlier is not above the one under the lock
    have hstored : ∀ l, w₁.db.leases shard = some l → l.fencingToken ≤ token := by
      intro l hl
      obtain ⟨l', hl', hle⟩ := hgrow shard l hl
      rw [hl₂] at hl'
      cases hl'
      exact ht ▸ hle.token_le
    refine ⟨hstored, ?_⟩
    intro c' i' s' reply granted hc' hg
    obtain ⟨l, hl, hle⟩ := (holds_lease_run h₁).returned c' i' s' _ hc' reply shard granted rfl hg
    exact Int.le_trans hle (hstored l hl)

/-! A lease that expires: the shard goes from the Go worker w1 to the Rust worker w2,
    and w2 processes an event up to its commit. -/

namespace Sample

def takeover : List StoreAct :=
  [.start (.goAcquire 12 "w1" 30000000)] ++ steps 0 4 ++ [.finish 0, .env (.tick 31000000),
    .start (.rustAcquire 12 "w2" 30000000)] ++ steps 1 2 ++ [.finish 1]

def untilCommit : List StoreAct := .start (.rustProcess event "w2" 2 16) :: steps 2 8

/-- The shard and the token asserted by the call whose next statement is its commit. -/
def committing (w : Store) (c : Nat) : Option (Nat × Int) :=
  match w.clients[c]? with
  | some ⟨i, _, .running (.stmt .commit _)⟩ => i.asserts
  | _ => none

end Sample

theorem fencing_token_safe_takeover :
    ∃ w₁ w₂ l, run (storeNext Sample.engine) (Store.init 63902822400000000 Sample.refs) Sample.takeover = some w₁ ∧
      run (storeNext Sample.engine) w₁ Sample.untilCommit = some w₂ ∧ w₁.db.leases 12 = some l ∧
      l.owner = "w2" ∧ Sample.committing w₂ 2 = some (12, 2) ∧ l.fencingToken ≤ 2 := by
  have hrun : ((run (storeNext Sample.engine) (Store.init 63902822400000000 Sample.refs) Sample.takeover).bind
      (fun w₁ => (run (storeNext Sample.engine) w₁ Sample.untilCommit).bind (fun w₂ => (w₁.db.leases 12).bind
        (fun l => if l.owner = "w2" then Sample.committing w₂ 2 else none)))) = some (12, 2) := by decide +kernel
  obtain ⟨w₁, h₁, hr⟩ := Option.bind_eq_some_iff.mp hrun
  obtain ⟨w₂, h₂, hr⟩ := Option.bind_eq_some_iff.mp hr
  obtain ⟨l, hl, hr⟩ := Option.bind_eq_some_iff.mp hr
  split at hr
  · rename_i howner
    refine ⟨w₁, w₂, l, h₁, h₂, hl, howner, hr, ?_⟩
    unfold Sample.committing at hr
    split at hr
    · rename_i i s k hc
      exact ((fencing_token_safe h₁ h₂).2 2 i s k 12 2 hc hr).1 l hl
    · cases hr
  · cases hr

end FlowRule
