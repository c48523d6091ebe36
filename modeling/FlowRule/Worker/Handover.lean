import FlowRule.Worker.Sync

/- Handing a shard over between workers that reconcile on their own. All workers derive the same
   durable name for a key, and each keeps its own map of what it has created. A former owner that
   reconciles late deletes the durable of the new one (`late_removal`). Where no worker deletes a
   durable that another one has in its map or is just creating, every worker can fetch from every
   shard it has reconciled for (`owned_shard_consumable`). -/
namespace FlowRule.Worker

open Nats Prog Machine Function Workers

/-! The map. -/

section
variable {c : Consumer} {key k : ConsumerKey} {name name' : List UInt8}

theorem find_record : (c.record key name).find k = if k = key then some name else c.find k :=
  Assoc.lookup_put

theorem find_forget : (c.forget key name).find k = if k = key ∧ c.find key = some name then none else c.find k := by
  unfold Consumer.forget
  by_cases hf : c.find key = some name
  · rw [if_pos hf]
    show (Assoc.drop key c.consumers).lookup k = _
    rw [Assoc.lookup_drop]
    by_cases hk : k = key
    · simp [hk, hf]
    · simp [hk, Consumer.find]
  · rw [if_neg hf]
    simp [hf]

theorem mem_keys : k ∈ c.keys ↔ ∃ name, c.find k = some name := Assoc.mem_keys

theorem nodup_record (h : c.keys.Nodup) : (c.record key name).keys.Nodup := Assoc.nodup_put h

theorem nodup_forget (h : c.keys.Nodup) : (c.forget key name).keys.Nodup := by
  unfold Consumer.forget
  split
  · exact Assoc.nodup_drop h
  · exact h

theorem mem_keysOf {shard : Nat} : k ∈ c.keysOf shard ↔ k ∈ c.keys ∧ k.shard = shard := by
  unfold Consumer.keysOf
  rw [(List.perm_insertionSort _ _).mem_iff, List.mem_filter]
  simp

/-- A shard with as many keys in the map as it is configured to have has all of them. -/
theorem ownedShards_complete {cfg : Config} {shard : Nat} (hnd : c.keys.Nodup)
    (hconf : ∀ k ∈ c.keys, Configured cfg k) (h : shard ∈ c.ownedShards cfg) :
    ∀ k ∈ shardKeys cfg shard, k ∈ c.keys := by
  unfold Consumer.ownedShards at h
  rw [(List.perm_insertionSort _ _).mem_iff, List.mem_filter] at h
  have hlen : (c.keys.filter (fun key => key.shard = shard)).length = (shardKeys cfg shard).length := by
    rw [length_shardKeys]
    simpa using h.2
  have hsub : c.keys.filter (fun key => key.shard = shard) ⊆ shardKeys cfg shard := by
    intro k hk
    obtain ⟨hmem, hshard⟩ := List.mem_filter.mp hk
    have hs : k.shard = shard := by simpa using hshard
    exact hs ▸ hconf k hmem
  have hperm := (List.subperm_of_subset (hnd.filter _) hsub).perm_of_length_le (Nat.le_of_eq hlen.symm)
  intro k hk
  exact (List.mem_filter.mp (hperm.mem_iff.mpr hk)).1

end

/-! The protocol of a reconciliation in which no call fails. -/

/-- What a reconciliation knows: the shards it is to have, the shard whose consumers it is
    removing and which of its keys may still be in the map, the durable it has created and
    not written down, and keys that are in the map. -/
structure SyncStage where
  owned : Option (List Nat)
  removing : Option Nat
  left : List ConsumerKey
  created : Option (List UInt8)
  present : List ConsumerKey

def SyncStage.init : SyncStage := ⟨none, none, [], none, []⟩

def OfShard (shard : Nat) (keys : List ConsumerKey) : Prop := ∀ k ∈ keys, k.shard = shard

section
variable (sha256Hex : String → String) (cfg : Config)

def syncAllowed (st : SyncStage) : SyncOp → Prop
  | .ownedShards => st = .init
  | .activeShards => True
  | .keysOf shard => st.left = [] ∧ ∃ o, st.owned = some o ∧ shard ∉ o
  | .durableOf _ => True
  | .createConsumer name _ => ∃ key, Configured cfg key ∧ name = durable sha256Hex cfg key
  | .record key name => Configured cfg key ∧ name = durable sha256Hex cfg key ∧ st.created = some name ∧ st.left = []
  | .deleteConsumer name =>
    st.created = none ∧ ∃ key : ConsumerKey, st.removing = some key.shard ∧ name = durable sha256Hex cfg key
  | .forget key name => st.removing = some key.shard ∧ name = durable sha256Hex cfg key

def syncTrans (st : SyncStage) : (o : SyncOp) → Except Err o.Res → SyncStage → Prop
  | _, .error _, _ => False
  | .ownedShards, .ok owned, st' => st' = { st with owned := some owned }
  | .activeShards, .ok active, st' => st' = { st with present := active.flatMap (shardKeys cfg) ++ st.present }
  | .keysOf shard, .ok keys, st' =>
    OfShard shard keys ∧ st' = { st with removing := some shard, left := keys }
  | .durableOf key, .ok none, st' => st' = { st with left := st.left.filter (· ≠ key) }
  | .durableOf key, .ok (some name), st' =>
    name = durable sha256Hex cfg key ∧ st' = { st with present := key :: st.present }
  | .createConsumer name _, .ok _, st' => st' = { st with created := some name }
  | .record key _, .ok _, st' => st' = { st with removing := none, created := none, present := key :: st.present }
  | .deleteConsumer _, .ok _, st' => st' = st
  | .forget key _, .ok _, st' => st' = { st with left := st.left.filter (· ≠ key) }

def syncProto : Proto SyncOp SyncOp.Res Err SyncStage := ⟨syncAllowed sha256Hex cfg, syncTrans sha256Hex cfg⟩

def SyncFin (st : SyncStage) (_ : Except Err Unit) : Prop :=
  st.left = [] ∧ st.created = none ∧
    ∃ o, st.owned = some o ∧ ∀ shard ∈ o, ∀ k ∈ shardKeys cfg shard, k ∈ st.present

/-- A worker in a stage: what is in its map has the name the key gives it and exists on the
    broker, but for the shard it is removing; what it has just created exists; and a shard it
    has reconciled for is complete. -/
structure WorkerOk (broker : List UInt8 → Option String) (l : Local) (st : SyncStage) : Prop where
  names : ∀ k name, l.consumer.find k = some name → name = durable sha256Hex cfg k ∧ Configured cfg k
  nodup : l.consumer.keys.Nodup
  exist : ∀ k ∈ l.consumer.keys, (∃ subject, broker (durable sha256Hex cfg k) = some subject) ∨
    st.removing = some k.shard
  creating : ∀ name, l.creating = some name → ∃ subject, broker name = some subject
  synced : ∀ shard ∈ l.synced, shard ∈ l.owned → (∀ k ∈ shardKeys cfg shard, k ∈ l.consumer.keys) ∧
    ∀ o, st.owned = some o → shard ∈ o
  created : st.created = l.creating
  left : ∀ shard, st.removing = some shard → ∀ k ∈ l.consumer.keys, k.shard = shard → k ∈ st.left
  unowned : ∀ shard, st.removing = some shard → ∃ o, st.owned = some o ∧ shard ∉ o
  present : ∀ o, st.owned = some o → ∀ k ∈ st.present, k.shard ∈ o → k ∈ l.consumer.keys
  started : ∀ shard ∈ l.started, shard ∈ l.owned → ∀ o, st.owned = some o → shard ∈ o

/-- A worker that does not reconcile knows as little as one that begins to. -/
def FleetOk (d : Fleet) (σ : Nat → Option SyncStage) : Prop :=
  ∀ w, WorkerOk sha256Hex cfg d.broker (d.workers w) ((σ w).getD .init)

/-- The call does not fail, and a durable that is deleted is not one that another worker
    has in its map or has just created. -/
def Spared (d : Fleet) (w : Nat) (o : SyncOp) (fail : Option Err) : Prop :=
  fail = none ∧ ∀ name, o = .deleteConsumer name → ∀ w', w' ≠ w →
    (∀ k, (d.workers w').consumer.find k ≠ some name) ∧ (d.workers w').creating ≠ some name

end

/-! Every statement keeps to the protocol. -/

section
variable {sha256Hex : String → String} {cfg : Config} {d : Fleet} {σ : Nat → Option SyncStage} {w : Nat}
  {st st' : SyncStage}
variable {l : Local} {broker : List UInt8 → Option String} {shard : Nat} {o : List Nat}
variable {key : ConsumerKey} {Q : SyncStage → Except Err Unit → Prop}

theorem ownedShards_ok (h : WorkerOk sha256Hex cfg broker l .init) :
    WorkerOk sha256Hex cfg broker l { SyncStage.init with owned := some l.owned } :=
  { h with
    synced := fun shard hshard howned => ⟨(h.synced shard hshard howned).1, fun o ho => by cases ho; exact howned⟩
    unowned := fun _ hr => by cases hr
    present := fun _ _ _ hk => by cases hk
    started := fun _ _ howned o ho => by cases ho; exact howned }

section
variable (h : WorkerOk sha256Hex cfg broker l st)
include h

/-- With nothing left of the shard that was being removed, the durables of all keys exist. -/
theorem WorkerOk.exist_all (hleft : st.left = []) :
    ∀ k ∈ l.consumer.keys, ∃ subject, broker (durable sha256Hex cfg k) = some subject := by
  intro k hk
  rcases h.exist k hk with he | hr
  · exact he
  · have hmem := h.left k.shard hr k hk rfl
    rw [hleft] at hmem
    cases hmem

theorem activeShards_ok :
    WorkerOk sha256Hex cfg broker l { st with
      present := (l.consumer.ownedShards cfg).flatMap (shardKeys cfg) ++ st.present } :=
  { h with
    present := by
      intro o ho k hk hshard
      rcases List.mem_append.mp hk with hk | hk
      · obtain ⟨shard, hactive, hkey⟩ := List.mem_flatMap.mp hk
        refine ownedShards_complete h.nodup ?_ hactive k hkey
        intro k hk
        obtain ⟨name, hfind⟩ := mem_keys.mp hk
        exact (h.names k name hfind).2
      · exact h.present o ho k hk hshard }

theorem keysOf_ok (hleft : st.left = []) (ho : st.owned = some o) (hnot : shard ∉ o) :
    WorkerOk sha256Hex cfg broker l { st with removing := some shard, left := l.consumer.keysOf shard } :=
  { h with
    exist := fun k hk => .inl (h.exist_all hleft k hk)
    left := by
      intro shard' hr k hk hkshard
      cases hr
      exact mem_keysOf.mpr ⟨hk, hkshard⟩
    unowned := by
      intro shard' hr
      cases hr
      exact ⟨o, ho, hnot⟩ }

theorem durableOf_ok :
    ∃ st', syncTrans sha256Hex cfg st (.durableOf key) (.ok (l.consumer.find key)) st' ∧
      WorkerOk sha256Hex cfg broker l st' := by
  cases hfind : l.consumer.find key with
  | none =>
    refine ⟨_, rfl, { h with left := ?_ }⟩
    intro shard hr k hk hshard
    refine List.mem_filter.mpr ⟨h.left shard hr k hk hshard, ?_⟩
    -- a key of the map is not one that was not found
    have hne : k ≠ key := by
      intro heq
      obtain ⟨name, hname⟩ := mem_keys.mp hk
      rw [heq, hfind] at hname
      cases hname
    simpa using hne
  | some name =>
    refine ⟨_, ⟨(h.names key name hfind).1, rfl⟩, { h with present := ?_ }⟩
    intro o ho k hk hshard
    rcases List.mem_cons.mp hk with rfl | hk
    · exact mem_keys.mpr ⟨name, hfind⟩
    · exact h.present o ho k hk hshard

/-- More durables on the broker harm nobody. -/
theorem WorkerOk.more {broker' : List UInt8 → Option String}
    (hb : ∀ name subject, broker name = some subject → ∃ subject', broker' name = some subject')
    : WorkerOk sha256Hex cfg broker' l st :=
  { h with
    exist := by
      intro k hk
      rcases h.exist k hk with ⟨subject, he⟩ | hr
      · exact .inl (hb _ subject he)
      · exact .inr hr
    creating := by
      intro name hc
      obtain ⟨subject, he⟩ := h.creating name hc
      exact hb name subject he }

theorem record_ok (hconf : Configured cfg key)
    (hcreated : st.created = some (durable sha256Hex cfg key)) (hleft : st.left = []) :
    WorkerOk sha256Hex cfg broker { l with
        consumer := l.consumer.record key (durable sha256Hex cfg key), creating := none }
      { st with removing := none, created := none, present := key :: st.present } := by
  have hkeys : ∀ k, k ∈ (l.consumer.record key (durable sha256Hex cfg key)).keys ↔
      k = key ∨ k ∈ l.consumer.keys := by
    intro k
    rw [mem_keys, mem_keys]
    by_cases hk : k = key <;> simp [find_record, hk]
  exact { h with
    names := by
      intro k name hfind
      rw [find_record] at hfind
      split at hfind
      · rename_i hk
        cases hfind
        rw [hk]
        exact ⟨rfl, hconf⟩
      · exact h.names k name hfind
    nodup := nodup_record h.nodup
    exist := by
      intro k hk
      rcases (hkeys k).mp hk with rfl | hk
      · exact .inl (h.creating _ (h.created ▸ hcreated))
      · exact .inl (h.exist_all hleft k hk)
    creating := fun _ hname => by cases hname
    synced := by
      intro shard hshard howned
      obtain ⟨hall, hsnap⟩ := h.synced shard hshard howned
      exact ⟨fun k hk => (hkeys k).mpr (.inr (hall k hk)), hsnap⟩
    created := rfl
    left := fun _ hr => by cases hr
    unowned := fun _ hr => by cases hr
    present := by
      intro o ho k hk hshard
      rcases List.mem_cons.mp hk with rfl | hk
      · exact (hkeys k).mpr (.inl rfl)
      · exact (hkeys k).mpr (.inr (h.present o ho k hk hshard)) }

theorem forget_ok (hrem : st.removing = some key.shard) :
    WorkerOk sha256Hex cfg broker { l with consumer := l.consumer.forget key (durable sha256Hex cfg key) }
      { st with left := st.left.filter (· ≠ key) } := by
  obtain ⟨o, ho, hunowned⟩ := h.unowned _ hrem
  -- the key is gone and every other one stays
  have hfind : ∀ k, (l.consumer.forget key (durable sha256Hex cfg key)).find k =
      if k = key then none else l.consumer.find k := by
    intro k
    rw [find_forget]
    by_cases hk : k = key
    · subst hk
      cases hf : l.consumer.find k with
      | none => simp
      | some name => simp [(h.names k name hf).1]
    · simp [hk]
  have hkeys : ∀ k, k ∈ (l.consumer.forget key (durable sha256Hex cfg key)).keys ↔ k ≠ key ∧ k ∈ l.consumer.keys := by
    intro k
    rw [mem_keys, mem_keys, hfind]
    by_cases hk : k = key <;> simp [hk]
  have hother : ∀ k : ConsumerKey, k.shard ∈ o → k ≠ key := by
    intro k hk heq
    exact hunowned (heq ▸ hk)
  exact { h with
    names := by
      intro k name hf
      rw [hfind] at hf
      split at hf
      · cases hf
      · exact h.names k name hf
    nodup := nodup_forget h.nodup
    exist := fun k hk => h.exist k ((hkeys k).mp hk).2
    synced := by
      intro shard hshard howned
      obtain ⟨hall, hsnap⟩ := h.synced shard hshard howned
      refine ⟨fun k hk => (hkeys k).mpr ⟨hother k ?_, hall k hk⟩, hsnap⟩
      rw [shardKeys_shard hk]
      exact hsnap o ho
    left := by
      intro shard hr k hk hshard
      obtain ⟨hne, hold⟩ := (hkeys k).mp hk
      exact List.mem_filter.mpr ⟨h.left shard hr k hold hshard, by simpa using hne⟩
    present := by
      intro o' ho' k hk hshard
      rw [ho] at ho'
      cases ho'
      exact (hkeys k).mpr ⟨hother k hshard, h.present o ho k hk hshard⟩ }

/-- A lease that changes hands changes what is asked of a worker, never what it has. -/
theorem lease_ok {owned started synced : List Nat}
    (hstarted : ∀ shard ∈ started, shard ∈ owned → shard ∈ l.started ∧ shard ∈ l.owned)
    (hsynced : ∀ shard ∈ synced, shard ∈ owned → shard ∈ l.synced ∧ shard ∈ l.owned) :
    WorkerOk sha256Hex cfg broker { l with owned := owned, started := started, synced := synced } st :=
  { h with
    synced := by
      intro shard hshard howned
      obtain ⟨hsync, hown⟩ := hsynced shard hshard howned
      exact h.synced shard hsync hown
    started := by
      intro shard hshard howned
      obtain ⟨hstart, hown⟩ := hstarted shard hshard howned
      exact h.started shard hstart hown }

end

section
variable (h : FleetOk sha256Hex cfg d σ)
include h

/-- A step of one worker that leaves the broker alone concerns that worker only. -/
theorem fleetOk_set {s : Option SyncStage}
    (hw : WorkerOk sha256Hex cfg d.broker l (s.getD .init)) : FleetOk sha256Hex cfg (d.set w l) (update σ w s) := by
  intro w'
  by_cases hne : w' = w
  · subst hne
    rw [Fleet.set_self, update_self]
    exact hw
  · rw [Fleet.set_other d l hne, update_of_ne hne]
    exact h w'

theorem fleetOk_stage
    (hw : WorkerOk sha256Hex cfg d.broker (d.workers w) st) : FleetOk sha256Hex cfg d (update σ w (some st)) := by
  intro w'
  by_cases hne : w' = w
  · subst hne
    rw [update_self]
    exact hw
  · rw [update_of_ne hne]
    exact h w'

theorem stage_ok (hσ : σ w = some st) : WorkerOk sha256Hex cfg d.broker (d.workers w) st := by
  have hw := h w
  rwa [hσ] at hw

theorem start_ok (hσ : σ w = none) :
    FleetOk sha256Hex cfg (d.set w { d.workers w with started := (d.workers w).owned })
      (update σ w (some .init)) := by
  have hw : WorkerOk sha256Hex cfg d.broker (d.workers w) .init := by
    have hw := h w
    rwa [hσ] at hw
  exact fleetOk_set h { hw with started := fun _ _ _ _ ho => by cases ho }

theorem createConsumer_ok {name : List UInt8} {subject : String} (hσ : σ w = some st) :
    FleetOk sha256Hex cfg ({ d with broker := update d.broker name (some subject) }.set w
      { d.workers w with creating := some name }) (update σ w (some { st with created := some name })) := by
  have hmore : ∀ n s, d.broker n = some s → ∃ s', update d.broker name (some subject) n = some s' := by
    intro n s hn
    by_cases hne : n = name
    · exact ⟨subject, by rw [hne, update_self]⟩
    · exact ⟨s, by rw [update_of_ne hne, hn]⟩
  have h' : FleetOk sha256Hex cfg { d with broker := update d.broker name (some subject) } σ :=
    fun w' => (h w').more hmore
  refine fleetOk_set h' { stage_ok h' hσ with created := rfl, creating := ?_ }
  intro n hn
  cases hn
  exact ⟨subject, update_self ..⟩

theorem deleteConsumer_ok (hσ : σ w = some st)
    (hcreated : st.created = none) (hrem : st.removing = some key.shard)
    (hspared : ∀ w', w' ≠ w → (∀ k, (d.workers w').consumer.find k ≠ some (durable sha256Hex cfg key)) ∧
      (d.workers w').creating ≠ some (durable sha256Hex cfg key)) :
    FleetOk sha256Hex cfg { d with broker := update d.broker (durable sha256Hex cfg key) none } σ := by
  intro w'
  have hw' := h w'
  refine { hw' with exist := ?_, creating := ?_ }
  · intro k hk
    by_cases hname : durable sha256Hex cfg k = durable sha256Hex cfg key
    · by_cases hne : w' = w
      · -- one of the worker's own keys: it is of the shard that is being removed
        subst hne
        rw [hσ]
        exact .inr (hrem.trans (congrArg some (durable_shard hname).symm))
      · obtain ⟨name, hfind⟩ := mem_keys.mp hk
        refine absurd ?_ ((hspared w' hne).1 k)
        rw [hfind, (hw'.names k name hfind).1, hname]
    · rcases hw'.exist k hk with ⟨subject, he⟩ | hr
      · refine .inl ⟨subject, ?_⟩
        show update d.broker (durable sha256Hex cfg key) none (durable sha256Hex cfg k) = some subject
        rw [update_of_ne hname, he]
      · exact .inr hr
  · intro name hc
    have hne : name ≠ durable sha256Hex cfg key := by
      intro heq
      by_cases hww : w' = w
      · subst hww
        have hst := hw'.created
        rw [hσ, Option.getD_some, hcreated, hc] at hst
        cases hst
      · exact (hspared w' hww).2 (heq ▸ hc)
    obtain ⟨subject, he⟩ := hw'.creating name hc
    refine ⟨subject, ?_⟩
    show update d.broker (durable sha256Hex cfg key) none name = some subject
    rw [update_of_ne hne, he]

/-- Every statement that meets the condition keeps to the protocol. -/
theorem execSync_ok {o : SyncOp} {x : Option Err} {d' : Fleet} {a : Except Err o.Res} (hσ : σ w = some st)
    (ha : syncAllowed sha256Hex cfg st o) (hG : Spared d w o x) (he : execSync cfg d w o x = some (d', a)) :
    ∃ st', syncTrans sha256Hex cfg st o a st' ∧ FleetOk sha256Hex cfg d' (update σ w (some st')) := by
  obtain ⟨rfl, hspared⟩ := hG
  cases o with
  | ownedShards =>
    cases he
    obtain rfl : st = .init := ha
    exact ⟨_, rfl, fleetOk_stage h (ownedShards_ok (stage_ok h hσ))⟩
  | activeShards =>
    cases he
    exact ⟨_, rfl, fleetOk_stage h (activeShards_ok (stage_ok h hσ))⟩
  | keysOf shard =>
    cases he
    obtain ⟨hleft, o, ho, hnot⟩ := ha
    exact ⟨_, ⟨fun k hk => (mem_keysOf.mp hk).2, rfl⟩, fleetOk_stage h (keysOf_ok (stage_ok h hσ) hleft ho hnot)⟩
  | durableOf key =>
    cases he
    obtain ⟨st', htrans, hw⟩ := durableOf_ok (stage_ok h hσ)
    exact ⟨st', htrans, fleetOk_stage h hw⟩
  | createConsumer name subject =>
    cases he
    exact ⟨_, rfl, createConsumer_ok h hσ⟩
  | record key name =>
    cases he
    obtain ⟨hconf, rfl, hcreated, hleft⟩ := ha
    exact ⟨_, rfl, fleetOk_set h (record_ok (stage_ok h hσ) hconf hcreated hleft)⟩
  | deleteConsumer name =>
    cases he
    obtain ⟨hcreated, key, hrem, rfl⟩ := ha
    have h' := deleteConsumer_ok h hσ hcreated hrem (hspared _ rfl)
    exact ⟨st, rfl, fleetOk_stage h' (stage_ok h' hσ)⟩
  | forget key name =>
    cases he
    obtain ⟨hrem, rfl⟩ := ha
    exact ⟨_, rfl, fleetOk_set h (forget_ok (stage_ok h hσ) hrem)⟩

theorem finish_ok (hσ : σ w = some st) {r : Except Err Unit} (hfin : SyncFin cfg st r) :
    FleetOk sha256Hex cfg (d.set w { d.workers w with
        started := [], synced := (d.workers w).started ++ (d.workers w).synced })
      (update σ w none) := by
  have hw := stage_ok h hσ
  obtain ⟨hleft, hcre, o, ho, hall⟩ := hfin
  refine fleetOk_set h { hw with
    exist := fun k hk => .inl (hw.exist_all hleft k hk)
    synced := ?_
    created := hcre.symm.trans hw.created
    left := fun _ hr => by cases hr
    unowned := fun _ hr => by cases hr
    present := fun _ hno => by cases hno
    started := fun _ hs => by cases hs }
  intro shard hshard howned
  refine ⟨?_, fun o hno => by cases hno⟩
  rcases List.mem_append.mp hshard with hstart | hsync
  · have hmem : shard ∈ o := hw.started shard hstart howned o ho
    intro k hk
    exact hw.present o ho k (hall shard hmem k hk) (shardKeys_shard hk ▸ hmem)
  · exact (hw.synced shard hsync howned).1

theorem changeLease_ok {v : LeaseChange} {d' : Fleet}
    (hv : changeLease d v = some d') : FleetOk sha256Hex cfg d' σ := by
  have hset : ∀ {w : Nat} {l : Local}, WorkerOk sha256Hex cfg d.broker l ((σ w).getD .init) →
      FleetOk sha256Hex cfg (d.set w l) σ := by
    intro w l hw
    have hup : FleetOk sha256Hex cfg (d.set w l) (update σ w (σ w)) := fleetOk_set h hw
    rwa [update_eq_self] at hup
  -- a shard other than the gained one that is among the owned was owned before
  have hkept : ∀ {gained shard : Nat} {rest owned : List Nat}, shard ∈ rest.filter (· ≠ gained) →
      shard ∈ gained :: owned → shard ∈ rest ∧ shard ∈ owned := by
    intro gained shard rest owned hshard howned
    obtain ⟨hmem, hne⟩ := List.mem_filter.mp hshard
    have hne' : shard ≠ gained := by simpa using hne
    exact ⟨hmem, (List.mem_cons.mp howned).resolve_left hne'⟩
  cases v with
  | gain w shard =>
    simp only [changeLease] at hv
    split at hv <;> cases hv
    exact hset (lease_ok (h w) (fun _ hs ho => hkept hs ho) (fun _ hs ho => hkept hs ho))
  | lose w shard =>
    cases hv
    exact hset (lease_ok (h w) (fun _ hs ho => ⟨hs, (List.mem_filter.mp ho).1⟩)
      (fun _ hs ho => ⟨hs, (List.mem_filter.mp ho).1⟩))

end

/-! The programs follow the protocol. -/

theorem wp_sync {o : SyncOp} {Q : SyncStage → Except Err o.Res → Prop} (ha : syncAllowed sha256Hex cfg st o)
    (hok : ∀ x st', syncTrans sha256Hex cfg st o (.ok x) st' → Q st' (.ok x)) :
    wp (syncProto sha256Hex cfg) (stmt o) Q st := by
  refine wp_call.mpr ⟨ha, fun a st' ht => ?_⟩
  cases a with
  | ok x => exact hok x st' ht
  | error e => cases o <;> exact ht.elim

/-- Nothing is half done. -/
def SyncStage.Idle (st : SyncStage) : Prop := st.left = [] ∧ st.created = none

/-- Later in the same reconciliation, with nothing half done. -/
structure Later (st st' : SyncStage) : Prop where
  owned : st'.owned = st.owned
  idle : st'.Idle
  present : st.present ⊆ st'.present

theorem later_refl (h : st.Idle) : Later st st := ⟨rfl, h, List.Subset.refl _⟩

theorem Later.trans {st₂ : SyncStage} (h : Later st st') (h' : Later st' st₂) : Later st st₂ :=
  ⟨h'.owned.trans h.owned, h'.idle, List.Subset.trans h.present h'.present⟩

theorem wp_ensureConsumerLocked (hconf : Configured cfg key) (hidle : st.Idle)
    (hok : ∀ st', Later st st' → key ∈ st'.present → Q st' (.ok ())) :
    wp (syncProto sha256Hex cfg) (ensureConsumerLocked sha256Hex cfg key) Q st := by
  obtain ⟨hleft, hcreated⟩ := hidle
  refine wp_bind.mpr (wp_sync trivial ?_)
  rintro (_ | name) st₁ ht
  · obtain rfl : st₁ = { st with left := st.left.filter (· ≠ key) } := ht
    refine wp_bind.mpr (wp_wrap.mpr (wp_sync ⟨key, hconf, rfl⟩ ?_))
    rintro _ st₂ rfl
    have hleft' : st.left.filter (· ≠ key) = [] := by
      rw [hleft]
      rfl
    refine wp_sync ⟨hconf, rfl, rfl, hleft'⟩ ?_
    rintro _ st₃ rfl
    exact hok _ ⟨rfl, ⟨hleft', rfl⟩, List.subset_cons_self _ _⟩ List.mem_cons_self
  · obtain ⟨-, rfl⟩ := ht
    exact hok _ ⟨rfl, ⟨hleft, hcreated⟩, List.subset_cons_self _ _⟩ List.mem_cons_self

theorem wp_ensureConsumers {keys : List ConsumerKey} : ∀ {st : SyncStage}, (∀ k ∈ keys, Configured cfg k) → st.Idle →
    (∀ st', Later st st' → (∀ k ∈ keys, k ∈ st'.present) → Q st' (.ok ())) →
    wp (syncProto sha256Hex cfg) (ensureConsumers sha256Hex cfg keys) Q st := by
  induction keys with
  | nil => exact fun _ hidle hok => hok _ (later_refl hidle) (List.forall_mem_nil _)
  | cons key rest ih =>
    intro st hconf hidle hok
    refine wp_bind.mpr (wp_ensureConsumerLocked (hconf key List.mem_cons_self) hidle ?_)
    intro st₁ hlater hkey
    refine ih (fun k hk => hconf k (List.mem_cons_of_mem _ hk)) hlater.idle ?_
    intro st₂ hlater₂ hkeys
    exact hok st₂ (hlater.trans hlater₂) (List.forall_mem_cons.mpr ⟨hlater₂.present hkey, hkeys⟩)

theorem wp_removeConsumers {keys : List ConsumerKey} {Q : SyncStage → Except Err (List Err) → Prop} :
    ∀ {st : SyncStage}, OfShard shard keys → st.removing = some shard → st.created = none → st.left ⊆ keys →
    (∀ st', Later st st' → Q st' (.ok [])) → wp (syncProto sha256Hex cfg) (removeConsumers keys) Q st := by
  induction keys with
  | nil => exact fun _ _ hcre hleft hok => hok _ (later_refl ⟨List.subset_nil.mp hleft, hcre⟩)
  | cons key rest ih =>
    intro st hof hrem hcre hleft hok
    have hof' : OfShard shard rest := fun k hk => hof k (List.mem_cons_of_mem _ hk)
    have hshard : st.removing = some key.shard := by rw [hrem, hof key List.mem_cons_self]
    have hfilter : st.left.filter (· ≠ key) ⊆ rest := by
      intro k hk
      obtain ⟨hmem, hne⟩ := List.mem_filter.mp hk
      have hne' : k ≠ key := by simpa using hne
      exact (List.mem_cons.mp (hleft hmem)).resolve_left hne'
    refine wp_bind.mpr (wp_sync trivial ?_)
    rintro (_ | name) st₁ ht
    · obtain rfl : st₁ = { st with left := st.left.filter (· ≠ key) } := ht
      exact ih hof' hrem hcre hfilter (fun st' h => hok st' ⟨h.owned, h.idle, h.present⟩)
    · obtain ⟨rfl, rfl⟩ : name = durable sha256Hex cfg key ∧ st₁ = { st with present := key :: st.present } := ht
      refine wp_bind.mpr (wp_caught.mpr (wp_wrap.mpr (wp_sync ⟨hcre, key, hshard, rfl⟩ ?_)))
      rintro _ st₂ rfl
      refine wp_bind.mpr (wp_sync ⟨hshard, rfl⟩ ?_)
      rintro _ st₃ rfl
      exact ih hof' hrem hcre hfilter
        (fun st' h => hok st' ⟨h.owned, h.idle, List.Subset.trans (List.subset_cons_self _ _) h.present⟩)

/-- A shard that the worker does not own is removed whole. -/
theorem wp_removeShardConsumer (ho : st.owned = some o) (hnot : shard ∉ o) (hidle : st.Idle)
    (hok : ∀ st', Later st st' → Q st' (.ok ())) : wp (syncProto sha256Hex cfg) (removeShardConsumer shard) Q st := by
  refine wp_bind.mpr (wp_sync ⟨hidle.1, o, ho, hnot⟩ ?_)
  rintro keys st₁ ⟨hof, rfl⟩
  exact wp_bind.mpr (wp_removeConsumers hof rfl hidle.2 (List.Subset.refl _)
    (fun st' h => hok st' ⟨h.owned, h.idle, h.present⟩))

/-- The shards that stay active are among those the worker owns and that were active. -/
theorem wp_removeUnownedShardConsumers {active : List Nat} {Q : SyncStage → Except Err (List Nat) → Prop} :
    ∀ {st : SyncStage}, st.owned = some o → st.Idle →
    (∀ st' rest, Later st st' → rest ⊆ active → Q st' (.ok rest)) →
    wp (syncProto sha256Hex cfg) (removeUnownedShardConsumers o active) Q st := by
  induction active generalizing Q with
  | nil => exact fun _ hidle hok => hok _ [] (later_refl hidle) (List.Subset.refl _)
  | cons shard rest ih =>
    intro st ho hidle hok
    unfold removeUnownedShardConsumers
    split
    · refine wp_bind.mpr (ih ho hidle ?_)
      intro st₁ more hlater hmore
      exact hok st₁ _ hlater (List.cons_subset_cons shard hmore)
    · refine wp_bind.mpr (wp_caught.mpr (wp_removeShardConsumer ho ‹_› hidle ?_))
      intro st₁ hlater
      refine wp_bind.mpr (ih (hlater.owned.trans ho) hlater.idle ?_)
      intro st₂ more hlater₂ hmore
      exact hok st₂ more (hlater.trans hlater₂) (List.Subset.trans hmore (List.subset_cons_self _ _))

/-- What was complete stays so, and every shard of the loop is complete at its end. -/
theorem wp_ensureOwnedShardConsumers {active shards : List Nat} : ∀ {st : SyncStage}, st.Idle →
    (∀ shard ∈ active, ∀ k ∈ shardKeys cfg shard, k ∈ st.present) →
    (∀ st', Later st st' → (∀ shard ∈ shards, ∀ k ∈ shardKeys cfg shard, k ∈ st'.present) → Q st' (.ok ())) →
    wp (syncProto sha256Hex cfg) (ensureOwnedShardConsumers sha256Hex cfg active shards) Q st := by
  induction shards with
  | nil => exact fun hidle _ hok => hok _ (later_refl hidle) (List.forall_mem_nil _)
  | cons shard rest ih =>
    intro st hidle hact hok
    unfold ensureOwnedShardConsumers
    split
    · refine ih hidle hact (fun st₁ hlater hall => hok st₁ hlater ?_)
      exact List.forall_mem_cons.mpr ⟨fun k hk => hlater.present (hact shard ‹_› k hk), hall⟩
    · have hconf : ∀ k ∈ shardKeys cfg shard, Configured cfg k := by
        intro k hk
        show k ∈ shardKeys cfg k.shard
        rw [shardKeys_shard hk]
        exact hk
      refine wp_bind.mpr (wp_caught.mpr (wp_ensureConsumers hconf hidle ?_))
      intro st₁ hlater hkeys
      refine ih hlater.idle (fun s hs k hk => hlater.present (hact s hs k hk)) (fun st₂ hlater₂ hall => ?_)
      exact hok st₂ (hlater.trans hlater₂)
        (List.forall_mem_cons.mpr ⟨fun k hk => hlater₂.present (hkeys k hk), hall⟩)

theorem wp_syncConsumers : wp (syncProto sha256Hex cfg) (syncConsumers sha256Hex cfg) (SyncFin cfg) .init := by
  refine wp_bind.mpr (wp_sync rfl ?_)
  rintro owned st₁ rfl
  refine wp_bind.mpr (wp_sync trivial ?_)
  rintro active st₂ rfl
  refine wp_bind.mpr (wp_removeUnownedShardConsumers rfl ⟨rfl, rfl⟩ ?_)
  intro st₃ rest hlater hrest
  refine wp_ensureOwnedShardConsumers hlater.idle ?_ ?_
  · intro shard hshard k hk
    exact hlater.present (List.mem_append_left _ (List.mem_flatMap.mpr ⟨shard, hrest hshard, hk⟩))
  · intro st₄ hlater₄ hall
    exact ⟨hlater₄.idle.1, hlater₄.idle.2, owned, (hlater.trans hlater₄).owned, hall⟩

/-! Whole runs. -/

theorem fleet_sound : Sound (fleet sha256Hex cfg) (fun _ => syncProto sha256Hex cfg)
    (fun _ => SyncFin cfg) (FleetOk sha256Hex cfg) Spared where
  start := by
    intro d σ w d' p h hσ hstart
    cases hstart
    exact ⟨.init, start_ok h hσ, wp_syncConsumers⟩
  exec := fun h hσ ha hG he => execSync_ok h hσ ha hG he
  finish := fun h hσ hfin => finish_ok h hσ hfin
  env := fun h hv => changeLease_ok h hv

theorem init_ok : FleetOk sha256Hex cfg Fleet.init (fun _ => none) := by
  intro w
  refine ⟨?_, List.nodup_nil, ?_, ?_, ?_, rfl, ?_, ?_, ?_, ?_⟩
  · exact fun _ _ hfind => by cases hfind
  · exact fun _ hk => by cases hk
  · exact fun _ hc => by cases hc
  · exact fun _ hshard => by cases hshard
  · exact fun _ hr => by cases hr
  · exact fun _ hr => by cases hr
  · exact fun _ ho => by cases ho
  · exact fun _ hs => by cases hs

end

/-- Every run of any number of workers in which no call on the broker fails and no worker
    deletes a durable that another one has in its map or has just created: a worker that
    has reconciled since it last gained a shard, and owns it still, has a durable for each
    key of the shard in its map, and that durable exists. -/
theorem owned_shard_consumable (sha256Hex : String → String) (cfg : Config) (ls : List FleetAct) (u : FleetWorld)
    (hG : Along (fleetNext sha256Hex cfg) (Meets Spared) (init Fleet.init) ls)
    (h : run (fleetNext sha256Hex cfg) (init Fleet.init) ls = some u)
    (w shard : Nat) (howned : shard ∈ (u.data.workers w).owned) (hsynced : shard ∈ (u.data.workers w).synced) :
    ∀ key ∈ shardKeys cfg shard, ∃ name subject,
      (u.data.workers w).consumer.find key = some name ∧ u.data.broker name = some subject := by
  obtain ⟨σ, hok, -⟩ := holds_along fleet_sound init_ok hG h
  have hw := hok w
  obtain ⟨hall, hsnap⟩ := hw.synced shard hsynced howned
  intro key hkey
  have hmem := hall key hkey
  obtain ⟨name, hfind⟩ := mem_keys.mp hmem
  obtain ⟨rfl, -⟩ := hw.names key name hfind
  rcases hw.exist key hmem with ⟨subject, he⟩ | hr
  · exact ⟨_, subject, hfind, he⟩
  -- the shard is not one that is being removed: it was among the owned ones that were read
  obtain ⟨o, ho, hnot⟩ := hw.unowned key.shard hr
  exact absurd (hsnap o ho) (shardKeys_shard hkey ▸ hnot)

namespace HandoverSample

def cfg : Config where
  stream := "flowrule"
  consumer := "flowrule-worker"
  subjects := ["events"]
  ruleSets := []
  ackWait := 30 * second
  maxDeliver := -1
  numShards := 16
  subjects_ne := by simp
  subjects_nodup := List.nodup_singleton "events"
  ruleSets_nodup := List.nodup_nil
  ruleSets_ne := Nats.no_ruleSets

abbrev next : FleetWorld → FleetAct → Option FleetWorld := fleetNext (Text.digest []) cfg

/-- A worker gains the shard 0 and reconciles: it reads what it owns and has, finds no
    consumer, creates it and writes it down. -/
def takes (w : Nat) : List FleetAct :=
  [.env (.gain w 0), .start w, .exec w none, .exec w none, .exec w none, .exec w none, .exec w none, .finish w]

def keeps (u : FleetWorld) : FleetAct → Bool
  | .exec w x =>
    match u.tasks w with
    | some (.stmt (.deleteConsumer _) _) => false
    | _ => x.isNone
  | _ => true

theorem keeps_spared (u : FleetWorld) (a : FleetAct) (h : keeps u a = true) : Meets Spared u a := by
  cases a with
  | exec w x =>
    simp only [keeps] at h
    simp only [Meets]
    split
    · rename_i o k ht
      rw [ht] at h
      cases o with
      | deleteConsumer name => cases h
      | _ => exact ⟨Option.isNone_iff_eq_none.mp h, fun name hn => by cases hn⟩
    · trivial
  | _ => trivial

/-- A worker loses the shard 0 and starts to reconcile: it reads what it owns and has, and finds
    the consumer. -/
def finds (w : Nat) : List FleetAct :=
  [.env (.lose w 0), .start w, .exec w none, .exec w none, .exec w none, .exec w none]

/-- The worker is about to delete its consumer, and no other has one. -/
def alone : FleetWorld := (run next (init Fleet.init) (takes 0 ++ finds 0)).get (by decide +kernel)

/-- It deletes it and ends, and another worker gains the shard. -/
def hands : List FleetAct := .exec 0 none :: [.exec 0 none, .finish 0] ++ takes 1

theorem alone_others (w : Nat) (h : w ≠ 0) : alone.data.workers w = ⟨[], ⟨[], 0⟩, none, [], []⟩ := by
  obtain ⟨n, rfl⟩ := Nat.exists_eq_succ_of_ne_zero h
  rfl

/-- Whether the worker owns the shard, has reconciled for it, and has durables in its map that
    all exist. -/
def served (u : FleetWorld) (w shard : Nat) : Bool × Bool × Bool :=
  (shard ∈ (u.data.workers w).owned, shard ∈ (u.data.workers w).synced,
    (shardKeys cfg shard).all (fun key =>
      ((u.data.workers w).consumer.find key).any (fun name => (u.data.broker name).isSome)))

end HandoverSample

open HandoverSample

/-- The first worker loses the shard and deletes its durable, and then the second gains the shard
    and creates the durable anew. -/
theorem owned_shard_consumable_shared :
    ∃ u : FleetWorld, run next (init Fleet.init) (takes 0 ++ finds 0 ++ hands) = some u ∧
      ∀ key ∈ shardKeys cfg 0, ∃ name subject,
        (u.data.workers 1).consumer.find key = some name ∧ u.data.broker name = some subject := by
  have hrun : (run next (init Fleet.init) (takes 0 ++ finds 0 ++ hands)).any (fun u =>
      0 ∈ (u.data.workers 1).owned ∧ 0 ∈ (u.data.workers 1).synced) = true := by decide +kernel
  have hG : Along next (Meets Spared) (init Fleet.init) (takes 0 ++ finds 0 ++ hands) := by
    refine along_append (along_of_check keeps_spared (by decide +kernel)) (fun t ht => ?_)
    obtain rfl : t = alone := Option.some.inj (ht.symm.trans (Option.some_get _).symm)
    refine ⟨⟨rfl, fun name _ w hw => ?_⟩, fun u hu => ?_⟩
    · rw [alone_others w hw]
      exact ⟨fun _ => nofun, nofun⟩
    · have hnext : next alone (.exec 0 none) = some ((next alone (.exec 0 none)).get (by decide +kernel)) :=
        (Option.some_get _).symm
      cases hu.symm.trans hnext
      exact along_of_check keeps_spared (by decide +kernel)
  cases hu : run next (init Fleet.init) (takes 0 ++ finds 0 ++ hands) with
  | none =>
    rw [hu] at hrun
    cases hrun
  | some u =>
    rw [hu] at hrun
    obtain ⟨howned, hsynced⟩ := of_decide_eq_true hrun
    exact ⟨u, rfl, owned_shard_consumable _ cfg _ u hG hu 1 0 howned hsynced⟩

/-- The second worker gains the shard and reconciles while the first still has its durable, then the
    first loses the shard and reconciles: the second owns the shard and has reconciled for it, and
    the durable in its map does not exist. -/
theorem late_removal :
    (run next (init Fleet.init) (takes 0 ++ takes 1 ++ finds 0 ++ [.exec 0 none])).map (served · 1 0) =
      some (true, true, false) := by
  decide +kernel

end FlowRule.Worker
