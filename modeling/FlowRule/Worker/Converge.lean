import FlowRule.Lib.Handle
import FlowRule.Worker.Handover

/- What one reconciliation leaves in a worker's own map of consumers, when every call on the broker
   succeeds. The map before may be any that earlier calls have left, each of which may have failed
   part-way. A shard that is not owned and has only some of its consumers is not seen, and keeps
   them: `sync_converges_iff`. -/
namespace FlowRule.Worker

open Nats Prog

/-- One statement of a worker that nobody disturbs. The calls on the broker end as `fails`
    says, one entry a statement, and succeed behind its end. -/
def attempt (cfg : Config) (w : Nat) (o : SyncOp) (st : Fleet × List (Option Err)) :
    Except Err o.Res × (Fleet × List (Option Err)) :=
  match execSync cfg st.1 w o (st.2.headD none) with
  | some (d, a) => (a, (d, st.2.tail))
  | none => (.error (.msg "no answer"), st)

inductive MapCall where
  | ensure (shard : Nat) (fails : List (Option Err))
  | remove (shard : Nat) (fails : List (Option Err))

section
variable (sha256Hex : String → String) (cfg : Config) (w : Nat)

def mapNext (d : Fleet) : MapCall → Option Fleet
  | .ensure shard fails => some (handle (attempt cfg w) (ensureShardConsumer sha256Hex cfg shard) (d, fails)).2.1
  | .remove shard fails => some (handle (attempt cfg w) (removeShardConsumer shard) (d, fails)).2.1

def Fleet.keys (d : Fleet) : List ConsumerKey := (d.workers w).consumer.keys

def Fleet.owning (d : Fleet) (owned : List Nat) : Fleet := d.set w { d.workers w with owned := owned }

def reconciled (d : Fleet) : Fleet := (handle (attempt cfg w) (syncConsumers sha256Hex cfg) (d, [])).2.1

end

/-! The map holds keys of the configuration, each once. -/

def MapOk (cfg : Config) (w : Nat) (d : Fleet) : Prop := (d.keys w).Nodup ∧ ∀ k ∈ d.keys w, Configured cfg k

def recordProto (cfg : Config) : Proto SyncOp SyncOp.Res Err Unit where
  allowed _ o := ∀ key name, o = .record key name → Configured cfg key
  trans _ _ _ _ := True

section
variable {sha256Hex : String → String} {cfg : Config} {w : Nat} {d : Fleet}

theorem attempt_mapOk (o : SyncOp) (st : Fleet × List (Option Err)) (h : MapOk cfg w st.1)
    (ho : (recordProto cfg).allowed () o) : MapOk cfg w (attempt cfg w o st).2.1 := by
  obtain ⟨d, fails⟩ := st
  obtain ⟨hnd, hconf⟩ := h
  cases o with
  | record key name =>
    show MapOk cfg w (d.set w _)
    unfold MapOk Fleet.keys
    rw [Fleet.set_self]
    refine ⟨nodup_record hnd, ?_⟩
    intro k hk
    obtain ⟨name', hfind⟩ := mem_keys.mp hk
    rw [find_record] at hfind
    split at hfind
    · rename_i heq
      exact heq ▸ ho key name rfl
    · exact hconf k (mem_keys.mpr ⟨name', hfind⟩)
  | forget key name =>
    show MapOk cfg w (d.set w _)
    unfold MapOk Fleet.keys
    rw [Fleet.set_self]
    refine ⟨nodup_forget hnd, ?_⟩
    intro k hk
    obtain ⟨name', hfind⟩ := mem_keys.mp hk
    rw [find_forget] at hfind
    split at hfind
    · cases hfind
    · exact hconf k (mem_keys.mpr ⟨name', hfind⟩)
  | createConsumer name subject =>
    unfold attempt
    cases hfail : fails.headD none with
    | some e => simpa only [hfail, execSync] using ⟨hnd, hconf⟩
    | none =>
      simp only [execSync]
      unfold MapOk Fleet.keys
      rw [Fleet.set_self]
      exact ⟨hnd, hconf⟩
  | deleteConsumer name =>
    unfold attempt
    cases hfail : fails.headD none with
    | some e | none => simpa only [hfail, execSync] using ⟨hnd, hconf⟩
  | _ => exact ⟨hnd, hconf⟩

theorem handle_mapOk {p : Sync Unit} {fails : List (Option Err)} (h : MapOk cfg w d)
    (hp : Within (recordProto cfg) p) : MapOk cfg w (handle (attempt cfg w) p (d, fails)).2.1 := by
  obtain ⟨-, hok, -⟩ := @handle_sound _ _ _ _ _ (attempt cfg w) p Unit (recordProto cfg) (fun _ st => MapOk cfg w st.1)
    (fun _ st o hst ho => ⟨(), trivial, attempt_mapOk o st hst ho⟩) _ () (d, fails) hp h
  exact hok

theorem ensureConsumers_records {keys : List ConsumerKey} (h : ∀ k ∈ keys, Configured cfg k) :
    Within (recordProto cfg) (ensureConsumers sha256Hex cfg keys) := by
  induction keys with
  | nil => trivial
  | cons key rest ih =>
    refine Within.bind ?_ (fun _ => ih (fun k hk => h k (List.mem_cons_of_mem key hk)))
    refine Within.bind (within_call (by exact fun _ _ => nofun)) ?_
    rintro (_ | name)
    · refine Within.bind (within_call (by exact fun _ _ => nofun)).wrap (fun _ => within_call ?_)
      intro key' name heq
      cases heq
      exact h key List.mem_cons_self
    · exact within_pure ()

theorem removeShardConsumer_records (shard : Nat) : Within (recordProto cfg) (removeShardConsumer shard) := by
  have hloop : ∀ keys : List ConsumerKey, Within (recordProto cfg) (removeConsumers keys) := by
    intro keys
    induction keys with
    | nil => trivial
    | cons key rest ih =>
      refine Within.bind (within_call (by exact fun _ _ => nofun)) ?_
      rintro (_ | name)
      · exact ih
      refine Within.bind (within_call (by exact fun _ _ => nofun)).wrap.caught ?_
      rintro (e | _)
      · exact ih.bind (fun errs => within_pure _)
      · exact Within.bind (within_call (by exact fun _ _ => nofun)) (fun _ => ih)
  refine Within.bind (within_call (by exact fun _ _ => nofun)) (fun keys => (hloop keys).bind (fun errs => ?_))
  cases joinErrors errs <;> trivial

/-- Whatever the calls on the broker have answered. -/
theorem reachable_mapOk (h : Machine.Reachable (mapNext sha256Hex cfg w) Fleet.init d) : MapOk cfg w d := by
  refine h.invariant (MapOk cfg w) ⟨List.nodup_nil, fun k hk => nomatch hk⟩ ?_
  intro d call d' hd hn
  cases call with
  | ensure shard fails =>
    cases hn
    refine handle_mapOk hd (ensureConsumers_records (fun k hk => ?_))
    unfold Configured
    rw [shardKeys_shard hk]
    exact hk
  | remove shard fails =>
    cases hn
    exact handle_mapOk hd (removeShardConsumer_records shard)

end

/-! A reconciliation without errors. -/

/-- The program returns `r` and leaves the keys in the worker's map that `left` says. -/
def Leaves {R : Type} (cfg : Config) (w : Nat) (p : Sync R) (d : Fleet) (r : R) (left : ConsumerKey → Prop) : Prop :=
  ∃ d', handle (attempt cfg w) p (d, []) = (.ok r, (d', [])) ∧ (d'.workers w).owned = (d.workers w).owned ∧
    ∀ k, k ∈ d'.keys w ↔ left k

section
variable {sha256Hex : String → String} {cfg : Config} {w : Nat}

theorem leaves_bind {R T : Type} {p : Sync R} {f : R → Sync T} {d : Fleet} {r : R} {t : T}
    {left left' : ConsumerKey → Prop} (hp : Leaves cfg w p d r left)
    (hf : ∀ d' : Fleet, (d'.workers w).owned = (d.workers w).owned → (∀ k, k ∈ d'.keys w ↔ left k) →
      Leaves cfg w (f r) d' t left') : Leaves cfg w (p >>= f) d t left' := by
  obtain ⟨d₁, h₁, ho₁, hk₁⟩ := hp
  obtain ⟨d₂, h₂, ho₂, hk₂⟩ := hf d₁ ho₁ hk₁
  exact ⟨d₂, (handle_bind_ok h₁).trans h₂, ho₂.trans ho₁, hk₂⟩

theorem leaves_caught {R : Type} {p : Sync R} {d : Fleet} {r : R} {left : ConsumerKey → Prop}
    (hp : Leaves cfg w p d r left) : Leaves cfg w p.caught d (.ok r) left := by
  obtain ⟨d₁, h₁, ho₁, hk₁⟩ := hp
  exact ⟨d₁, by rw [handle_caught, h₁], ho₁, hk₁⟩

theorem leaves_pure {R : Type} {d : Fleet} {r : R} {left : ConsumerKey → Prop} (h : ∀ k, k ∈ d.keys w ↔ left k) :
    Leaves cfg w (pure r) d r left :=
  ⟨d, rfl, rfl, h⟩

theorem ensureConsumerLocked_leaves (d : Fleet) (key : ConsumerKey) :
    Leaves cfg w (ensureConsumerLocked sha256Hex cfg key) d () (fun k => k ∈ d.keys w ∨ k = key) := by
  have hread : handle (attempt cfg w) (stmt (.durableOf key)) (d, []) =
      (.ok ((d.workers w).consumer.find key), (d, [])) := handle_call
  cases hfind : (d.workers w).consumer.find key with
  | some name =>
    rw [hfind] at hread
    refine ⟨d, (handle_bind_ok hread).trans rfl, rfl, ?_⟩
    intro k
    constructor
    · exact .inl
    rintro (hk | rfl)
    · exact hk
    · exact mem_keys.mpr ⟨name, hfind⟩
  | none =>
    rw [hfind] at hread
    -- the durable is created and then written down
    let broker := Function.update d.broker (durable sha256Hex cfg key) (some (filterSubject sha256Hex key))
    let d₁ : Fleet := ({ d with broker := broker } : Fleet).set w
      { d.workers w with creating := some (durable sha256Hex cfg key) }
    let d₂ : Fleet := d₁.set w { d₁.workers w with
      consumer := (d₁.workers w).consumer.record key (durable sha256Hex cfg key), creating := none }
    have hl₁ : d₁.workers w = { d.workers w with creating := some (durable sha256Hex cfg key) } := Fleet.set_self ..
    have hl₂ : d₂.workers w = { d.workers w with
        consumer := (d.workers w).consumer.record key (durable sha256Hex cfg key), creating := none } := by
      refine (Fleet.set_self ..).trans ?_
      rw [hl₁]
    refine ⟨d₂, (handle_bind_ok hread).trans rfl, by rw [hl₂], ?_⟩
    intro k
    unfold Fleet.keys
    rw [hl₂]
    simp only [mem_keys, find_record]
    by_cases hk : k = key <;> simp [hk]

theorem ensureConsumers_leaves (keys : List ConsumerKey) : ∀ d : Fleet,
    Leaves cfg w (ensureConsumers sha256Hex cfg keys) d () (fun k => k ∈ d.keys w ∨ k ∈ keys) := by
  induction keys with
  | nil => exact fun d => leaves_pure (by simp)
  | cons key rest ih =>
    intro d
    refine leaves_bind (ensureConsumerLocked_leaves d key) (fun d₁ _ hk₁ => ?_)
    obtain ⟨d₂, h₂, ho₂, hk₂⟩ := ih d₁
    refine ⟨d₂, h₂, ho₂, ?_⟩
    intro k
    simp only [hk₂, hk₁, List.mem_cons, or_assoc]

theorem removeConsumers_leaves (keys : List ConsumerKey) : ∀ d : Fleet,
    Leaves cfg w (removeConsumers keys) d [] (fun k => k ∈ d.keys w ∧ k ∉ keys) := by
  induction keys with
  | nil => exact fun d => leaves_pure (by simp)
  | cons key rest ih =>
    intro d
    have hread : handle (attempt cfg w) (stmt (.durableOf key)) (d, []) =
        (.ok ((d.workers w).consumer.find key), (d, [])) := handle_call
    cases hfind : (d.workers w).consumer.find key with
    | none =>
      rw [hfind] at hread
      obtain ⟨d₂, h₂, ho₂, hk₂⟩ := ih d
      refine ⟨d₂, (handle_bind_ok hread).trans h₂, ho₂, ?_⟩
      intro k
      simp only [hk₂, List.mem_cons, not_or]
      refine and_congr_right (fun hk => ⟨fun hrest => ⟨?_, hrest⟩, And.right⟩)
      rintro rfl
      obtain ⟨name, hname⟩ := mem_keys.mp hk
      cases hfind.symm.trans hname
    | some name =>
      rw [hfind] at hread
      -- the durable is deleted, and the entry with it
      let d₁ : Fleet := ({ d with broker := Function.update d.broker name none } : Fleet).set w
        { d.workers w with consumer := (d.workers w).consumer.forget key name }
      have hl₁ : d₁.workers w = { d.workers w with consumer := (d.workers w).consumer.forget key name } :=
        Fleet.set_self ..
      have hkeys : ∀ k, k ∈ d₁.keys w ↔ k ∈ d.keys w ∧ k ≠ key := by
        intro k
        unfold Fleet.keys
        rw [hl₁]
        simp only [mem_keys, find_forget, hfind, and_true]
        by_cases hk : k = key <;> simp [hk]
      obtain ⟨d₂, h₂, ho₂, hk₂⟩ := ih d₁
      refine ⟨d₂, (handle_bind_ok hread).trans h₂, ?_, ?_⟩
      · rw [ho₂, hl₁]
      · intro k
        simp only [hk₂, hkeys, List.mem_cons, not_or, and_assoc, ne_eq]

theorem removeShardConsumer_leaves (d : Fleet) (shard : Nat) :
    Leaves cfg w (removeShardConsumer shard) d () (fun k => k ∈ d.keys w ∧ k.shard ≠ shard) := by
  have hread : Leaves cfg w (stmt (.keysOf shard)) d ((d.workers w).consumer.keysOf shard) (· ∈ d.keys w) :=
    ⟨d, handle_call, rfl, fun _ => Iff.rfl⟩
  refine leaves_bind hread (fun d₁ ho₁ hk₁ => ?_)
  refine leaves_bind (removeConsumers_leaves _ d₁) (fun d₂ ho₂ hk₂ => leaves_pure (fun k => ?_))
  simp only [hk₂, hk₁, mem_keysOf]
  exact and_congr_right (fun hk => not_congr (and_iff_right hk))

theorem removeUnownedShardConsumers_leaves (owned active : List Nat) : ∀ d : Fleet,
    Leaves cfg w (removeUnownedShardConsumers owned active) d (active.filter (· ∈ owned))
      (fun k => k ∈ d.keys w ∧ (k.shard ∈ active → k.shard ∈ owned)) := by
  induction active with
  | nil => exact fun d => leaves_pure (by simp)
  | cons shard rest ih =>
    intro d
    by_cases howned : shard ∈ owned
    · rw [removeUnownedShardConsumers, if_pos howned, List.filter_cons_of_pos (by simpa using howned)]
      refine leaves_bind (ih d) (fun d₁ _ hk₁ => leaves_pure (fun k => ?_))
      simp only [hk₁, List.mem_cons]
      refine and_congr_right (fun _ => ⟨?_, fun h hk => h (.inr hk)⟩)
      rintro h (rfl | hk)
      · exact howned
      · exact h hk
    · rw [removeUnownedShardConsumers, if_neg howned, List.filter_cons_of_neg (by simpa using howned)]
      refine leaves_bind (leaves_caught (removeShardConsumer_leaves d shard)) (fun d₁ _ hk₁ =>
        leaves_bind (ih d₁) (fun d₂ _ hk₂ => leaves_pure (fun k => ?_)))
      simp only [hk₂, hk₁, List.mem_cons, and_assoc]
      refine and_congr_right (fun _ => ⟨?_, ?_⟩)
      · rintro ⟨hne, h⟩ (heq | hk)
        · exact absurd heq hne
        · exact h hk
      · intro h
        refine ⟨?_, fun hk => h (.inr hk)⟩
        intro heq
        exact howned (heq ▸ h (.inl heq))

theorem ensureOwnedShardConsumers_leaves (active owned : List Nat) : ∀ d : Fleet,
    Leaves cfg w (ensureOwnedShardConsumers sha256Hex cfg active owned) d ()
      (fun k => k ∈ d.keys w ∨ (k.shard ∈ owned ∧ k.shard ∉ active ∧ Configured cfg k)) := by
  induction owned with
  | nil => exact fun d => leaves_pure (by simp)
  | cons shard rest ih =>
    intro d
    by_cases hactive : shard ∈ active
    · rw [ensureOwnedShardConsumers, if_pos hactive]
      obtain ⟨d₁, h₁, ho₁, hk₁⟩ := ih d
      refine ⟨d₁, h₁, ho₁, ?_⟩
      intro k
      simp only [hk₁, List.mem_cons]
      refine or_congr_right ⟨fun h => ⟨.inr h.1, h.2⟩, ?_⟩
      rintro ⟨heq | hk, hnot, hconf⟩
      · exact absurd (heq ▸ hactive) hnot
      · exact ⟨hk, hnot, hconf⟩
    · rw [ensureOwnedShardConsumers, if_neg hactive]
      refine leaves_bind (leaves_caught (ensureConsumers_leaves (shardKeys cfg shard) d)) (fun d₁ _ hk₁ => ?_)
      obtain ⟨d₂, h₂, ho₂, hk₂⟩ := ih d₁
      refine ⟨d₂, h₂, ho₂, ?_⟩
      intro k
      simp only [hk₂, hk₁, List.mem_cons, or_assoc]
      refine or_congr_right ⟨?_, ?_⟩
      · rintro (hk | ⟨hk, hrest⟩)
        · have hshard := shardKeys_shard hk
          exact ⟨.inl hshard, hshard ▸ hactive, by unfold Configured; rw [hshard]; exact hk⟩
        · exact ⟨.inr hk, hrest⟩
      · rintro ⟨heq | hk, hrest⟩
        · exact .inl (heq ▸ hrest.2)
        · exact .inr ⟨hk, hrest⟩

theorem reconciled_keys (d : Fleet) (k : ConsumerKey) :
    k ∈ (reconciled sha256Hex cfg w d).keys w ↔
      (k ∈ d.keys w ∧ (k.shard ∈ (d.workers w).consumer.ownedShards cfg → k.shard ∈ (d.workers w).owned)) ∨
        (k.shard ∈ (d.workers w).owned ∧ k.shard ∉ (d.workers w).consumer.ownedShards cfg ∧ Configured cfg k) := by
  have hread : handle (attempt cfg w) (stmt .ownedShards) (d, []) = (.ok (d.workers w).owned, (d, [])) := handle_call
  have hread' : handle (attempt cfg w) (stmt .activeShards) (d, []) =
      (.ok ((d.workers w).consumer.ownedShards cfg), (d, [])) := handle_call
  have hremove : Leaves cfg w (removeUnownedShardConsumers _ _) d _ _ :=
    removeUnownedShardConsumers_leaves (d.workers w).owned ((d.workers w).consumer.ownedShards cfg) d
  obtain ⟨d₁, h₁, -, hk₁⟩ := hremove
  have hensure : Leaves cfg w (ensureOwnedShardConsumers sha256Hex cfg _ _) d₁ () _ :=
    ensureOwnedShardConsumers_leaves (((d.workers w).consumer.ownedShards cfg).filter (· ∈ (d.workers w).owned))
      (d.workers w).owned d₁
  obtain ⟨d₂, h₂, -, hk₂⟩ := hensure
  have hsync : handle (attempt cfg w) (syncConsumers sha256Hex cfg) (d, []) = (.ok (), (d₂, [])) :=
    (handle_bind_ok hread).trans ((handle_bind_ok hread').trans ((handle_bind_ok h₁).trans h₂))
  unfold reconciled
  rw [hsync]
  simp only [hk₂, hk₁]
  -- an active shard that is left and owned is one that was active
  refine or_congr_right (and_congr_right (fun howned => and_congr_left (fun _ => not_congr ?_)))
  simp [howned]

/-- The shards a reconciliation sees in the map are those with all their consumers. -/
theorem mem_ownedShards_iff {d : Fleet} (h : MapOk cfg w d) {k : ConsumerKey} (hk : k ∈ d.keys w) :
    k.shard ∈ (d.workers w).consumer.ownedShards cfg ↔ ∀ k' ∈ shardKeys cfg k.shard, k' ∈ d.keys w := by
  refine ⟨ownedShards_complete h.1 h.2, ?_⟩
  intro hall
  unfold Consumer.ownedShards
  rw [(List.perm_insertionSort _ _).mem_iff, List.mem_filter, List.mem_dedup]
  refine ⟨List.mem_map_of_mem hk, ?_⟩
  have hperm : ((d.workers w).consumer.keys.filter (fun key => key.shard = k.shard)).Perm (shardKeys cfg k.shard) := by
    refine (List.perm_ext_iff_of_nodup (h.1.filter _) (shardKeys_nodup cfg k.shard)).mpr ?_
    intro k'
    rw [List.mem_filter]
    constructor
    · rintro ⟨hmem, hshard⟩
      have hs : k'.shard = k.shard := by simpa using hshard
      exact hs ▸ h.2 k' hmem
    · intro hk'
      exact ⟨hall k' hk', by simpa using shardKeys_shard hk'⟩
  rw [hperm.length_eq, length_shardKeys]
  simp

end

/-- One reconciliation without errors leaves the worker with exactly the consumers of the
    shards it owns if and only if every shard in its map that it does not own has all its
    consumers there. -/
theorem sync_converges_iff {sha256Hex : String → String} {cfg : Config} {w : Nat} {d : Fleet}
    (hd : Machine.Reachable (mapNext sha256Hex cfg w) Fleet.init d) (owned : List Nat) :
    (∀ k, k ∈ (reconciled sha256Hex cfg w (d.owning w owned)).keys w ↔ Configured cfg k ∧ k.shard ∈ owned) ↔
      ∀ k ∈ d.keys w, k.shard ∉ owned → ∀ k' ∈ shardKeys cfg k.shard, k' ∈ d.keys w := by
  have hok : MapOk cfg w d := reachable_mapOk hd
  have hlocal : (d.owning w owned).workers w = { d.workers w with owned := owned } := Fleet.set_self ..
  have hkeys : (d.owning w owned).keys w = d.keys w := by
    unfold Fleet.keys
    rw [hlocal]
  simp only [reconciled_keys, hkeys, hlocal]
  constructor
  · intro h k hk howned
    refine (mem_ownedShards_iff hok hk).mp ?_
    -- otherwise the key would still be there
    by_contra hnot
    exact howned ((h k).mp (.inl ⟨hk, fun hactive => absurd hactive hnot⟩)).2
  · intro h k
    constructor
    · rintro (⟨hk, hkept⟩ | ⟨howned, -, hconf⟩)
      · refine ⟨hok.2 k hk, ?_⟩
        by_contra howned
        exact howned (hkept ((mem_ownedShards_iff hok hk).mpr (h k hk howned)))
      · exact ⟨hconf, howned⟩
    · rintro ⟨hconf, howned⟩
      by_cases hactive : k.shard ∈ (d.workers w).consumer.ownedShards cfg
      · exact .inl ⟨ownedShards_complete hok.1 hok.2 hactive k hconf, fun _ => howned⟩
      · exact .inr ⟨howned, hactive, hconf⟩

/-! A worker with two subjects, whose calls for a shard may end half-way. -/

namespace Partly

def cfg : Config where
  stream := "flowrule"
  consumer := "flowrule-worker"
  subjects := ["events", "orders"]
  ruleSets := []
  ackWait := 30 * second
  maxDeliver := -1
  numShards := 16
  subjects_ne := by decide
  subjects_nodup := by decide
  ruleSets_nodup := List.nodup_nil
  ruleSets_ne := Nats.no_ruleSets

def lost : Option Err := some (.msg "nats: connection closed")

/-- The consumer of the second subject cannot be created: the statements are a read, a create
    and a write for the first subject, and a read and the failing create for the second. -/
def partly : List MapCall := [.ensure 3 [none, none, none, none, lost]]

def whole : List MapCall := [.ensure 3 [], .ensure 5 [none, none, none, none, lost], .ensure 5 []]

end Partly

theorem sync_converges_whole :
    ∃ d, Machine.run (mapNext id Partly.cfg 0) Fleet.init Partly.whole = some d ∧
      ∀ k, k ∈ (reconciled id Partly.cfg 0 (d.owning 0 [5, 7])).keys 0 ↔ Configured Partly.cfg k ∧
        k.shard ∈ [5, 7] := by
  refine ⟨_, rfl, ?_⟩
  refine (@sync_converges_iff id Partly.cfg 0 _ ⟨Partly.whole, rfl⟩ [5, 7]).mpr ?_
  decide +kernel

/-- The worker keeps a consumer of a shard it does not own. -/
theorem sync_keeps_partly :
    ∃ d, Machine.run (mapNext id Partly.cfg 0) Fleet.init Partly.partly = some d ∧
      (reconciled id Partly.cfg 0 (d.owning 0 [])).keys 0 = [⟨"events", "", 3⟩] :=
  ⟨_, rfl, rfl⟩

end FlowRule.Worker
