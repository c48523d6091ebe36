import FlowRule.KeyQueue.HotKeys

/- What the numbers of Stats are (Stats, nextEvent and finishEvent of
   internal/runtime/keyqueue/queue.go), stated by the Submit calls that are registered, the
   items in channels and the workers that have taken an item. Depth and number of keys are
   right; what Stats calls processing are the keys that wait for a worker (`stats_counts`). -/
namespace FlowRule.KeyQueue

variable {Delivery : Type}

/-! What there is to count. -/

def WorkerPc.itemKey? : WorkerPc Delivery → Option String
  | inside item => some item.key
  | finishing item => some item.key
  | _ => none

namespace Core

def registeredKeys (c : Core Delivery) : List String :=
  c.submits.filterMap (fun sub => if sub.pc.queue?.isSome then sub.item.event.map EventEnvelope.partitionKey else none)

def queuedKeys (c : Core Delivery) : List String :=
  ((List.range c.fresh).filter (fun o => !(c.objs o).ch.isEmpty)).map (fun o => (c.objs o).partitionKey)

def processedKeys (c : Core Delivery) : List String := c.workers.filterMap WorkerPc.itemKey?

def workerKeys (c : Core Delivery) : List String := c.workers.filterMap WorkerPc.key?

def pendingKeys (c : Core Delivery) : List String := c.queuedKeys.filter (fun k => k ∉ c.workerKeys)

end Core

def distinct (keys : List String) : Nat := keys.dedup.length

def lengths (c : Core Delivery) : Lengths where
  depth o := (c.objs o).ch.length
  pending o := (c.objs o).ch.length
  hot o := (c.objs o).ch.length

theorem distinct_eq {keys ks : List String} (hks : ks.Nodup) (h : ∀ k, k ∈ ks ↔ k ∈ keys) :
    distinct keys = ks.length := by
  have hperm : keys.dedup.Perm ks :=
    (List.perm_ext_iff_of_nodup (List.nodup_dedup keys) hks).mpr (fun k => by rw [List.mem_dedup, h k])
  exact hperm.length_eq

/-! The map and those who use it. -/

section
variable {c : Core Delivery} {k : String}

theorem mem_registeredKeys (hinv : Inv c) :
    k ∈ c.registeredKeys ↔ ∃ o, c.queues.lookup k = some o ∧ 0 < (c.objs o).submitters := by
  unfold Core.registeredKeys
  rw [List.mem_filterMap]
  constructor
  · rintro ⟨sub, hsub, hkey⟩
    split at hkey
    · rename_i hqueue
      obtain ⟨o, ho⟩ := Option.isSome_iff_exists.mp hqueue
      obtain ⟨i, hi⟩ := List.mem_iff_getElem?.mp hsub
      obtain ⟨env, henv, hk⟩ := hinv.registered i sub o hi ho
      rw [henv] at hkey
      obtain rfl : env.partitionKey = k := Option.some.inj hkey
      refine ⟨o, hk, ?_⟩
      have hcount := hinv.submitters o (hinv.mapped _ o hk).1
      have hpos : 0 < c.submits.countP (fun sub => sub.pc.queue? = some o) :=
        List.countP_pos_iff.mpr ⟨sub, hsub, by simpa using ho⟩
      omega
    · cases hkey
  · rintro ⟨o, hk, hpos⟩
    have hcount := hinv.submitters o (hinv.mapped k o hk).1
    obtain ⟨sub, hsub, ho⟩ := List.countP_pos_iff.mp
      (show 0 < c.submits.countP (fun sub => sub.pc.queue? = some o) by omega)
    have ho : sub.pc.queue? = some o := by simpa using ho
    obtain ⟨i, hi⟩ := List.mem_iff_getElem?.mp hsub
    obtain ⟨env, henv, hk'⟩ := hinv.registered i sub o hi ho
    refine ⟨sub, hsub, ?_⟩
    rw [ho, henv]
    have hsame : env.partitionKey = k := by rw [← (hinv.mapped k o hk).2, (hinv.mapped _ o hk').2]
    simp [hsame]

theorem mem_queuedKeys (hinv : Inv c) (hkept : Kept c) :
    k ∈ c.queuedKeys ↔ ∃ o, c.queues.lookup k = some o ∧ (c.objs o).ch ≠ [] := by
  unfold Core.queuedKeys
  rw [List.mem_map]
  constructor
  · rintro ⟨o, ho, rfl⟩
    obtain ⟨hlt, hch⟩ := List.mem_filter.mp ho
    have hne : (c.objs o).ch ≠ [] := by simpa using hch
    exact ⟨o, (hkept.live o (List.mem_range.mp hlt)).mpr (.inr (.inl hne)), hne⟩
  · rintro ⟨o, hk, hne⟩
    obtain ⟨hlt, hpk⟩ := hinv.mapped k o hk
    refine ⟨o, List.mem_filter.mpr ⟨List.mem_range.mpr hlt, ?_⟩, hpk⟩
    simpa using hne

/-- A marked queue of the map has a worker, and a worker's key has a marked queue. -/
theorem mem_workerKeys (hinv : Inv c) (hkept : Kept c) :
    k ∈ c.workerKeys ↔ ∃ o, c.queues.lookup k = some o ∧ (c.objs o).processing = true := by
  unfold Core.workerKeys
  rw [List.mem_filterMap]
  constructor
  · rintro ⟨pc, hpc, hkey⟩
    obtain ⟨w, hw⟩ := List.mem_iff_getElem?.mp hpc
    exact hinv.busy w pc k hw hkey
  · rintro ⟨o, hk, hproc⟩
    obtain ⟨w, pc, hw, hkey⟩ := hkept.served k o hk hproc
    exact ⟨pc, List.mem_of_getElem? hw, hkey⟩

/-- A worker with a key has an item of it, or has yet to take one from the channel. -/
theorem workerKeys_cases (hinv : Inv c) (h : k ∈ c.workerKeys) :
    k ∈ c.processedKeys ∨ ∃ o, c.queues.lookup k = some o ∧ (c.objs o).ch ≠ [] := by
  obtain ⟨pc, hpc, hkey⟩ := List.mem_filterMap.mp h
  cases pc with
  | selected key o =>
    obtain ⟨w, hw⟩ := List.mem_iff_getElem?.mp hpc
    cases hkey
    exact .inr ⟨o, hinv.selected w k o hw⟩
  | inside item | finishing item => exact .inl (List.mem_filterMap.mpr ⟨_, hpc, hkey⟩)
  | _ => cases hkey

theorem processedKeys_subset (h : k ∈ c.processedKeys) : k ∈ c.workerKeys := by
  obtain ⟨pc, hpc, hkey⟩ := List.mem_filterMap.mp h
  refine List.mem_filterMap.mpr ⟨pc, hpc, ?_⟩
  cases pc <;> first | exact hkey | cases hkey

theorem mem_keys_iff (hinv : Inv c) (hkept : Kept c) :
    k ∈ c.queues.map Prod.fst ↔ k ∈ c.registeredKeys ++ c.queuedKeys ++ c.processedKeys := by
  rw [Assoc.mem_keys, List.mem_append, List.mem_append, mem_registeredKeys hinv, mem_queuedKeys hinv hkept]
  constructor
  · rintro ⟨o, hk⟩
    obtain ⟨hlt, hpk⟩ := hinv.mapped k o hk
    rcases (hkept.live o hlt).mp (hpk ▸ hk) with hsub | hch | hproc
    · exact .inl (.inl ⟨o, hk, hsub⟩)
    · exact .inl (.inr ⟨o, hk, hch⟩)
    · rcases workerKeys_cases hinv ((mem_workerKeys hinv hkept).mpr ⟨o, hk, hproc⟩) with hitem | hwait
      · exact .inr hitem
      · exact .inl (.inr hwait)
  · rintro ((⟨o, hk, -⟩ | ⟨o, hk, -⟩) | hproc)
    · exact ⟨o, hk⟩
    · exact ⟨o, hk⟩
    · obtain ⟨o, hk, -⟩ := (mem_workerKeys hinv hkept).mp (processedKeys_subset hproc)
      exact ⟨o, hk⟩

/-! The counts. -/

theorem activeKeys_eq (hinv : Inv c) (hkept : Kept c) (hkeys : (c.queues.map Prod.fst).Nodup) :
    c.queues.length = distinct (c.registeredKeys ++ c.queuedKeys ++ c.processedKeys) := by
  rw [distinct_eq hkeys (fun k => mem_keys_iff hinv hkept), List.length_map]

/-- Stats takes the queues that are not marked and have an item: no worker has their key. -/
theorem unmarked_eq (hinv : Inv c) (hkept : Kept c) (hkeys : (c.queues.map Prod.fst).Nodup) :
    c.queues.countP (fun e => decide (0 < (c.objs e.2).ch.length) && !(c.objs e.2).processing) =
      distinct c.pendingKeys := by
  rw [List.countP_eq_length_filter, distinct_eq ((List.filter_sublist.map Prod.fst).nodup hkeys), List.length_map]
  intro k
  rw [List.mem_map, Core.pendingKeys, List.mem_filter, decide_eq_true_iff, mem_queuedKeys hinv hkept,
    mem_workerKeys hinv hkept]
  constructor
  · rintro ⟨e, he, rfl⟩
    obtain ⟨hmem, hunmarked⟩ := List.mem_filter.mp he
    have hk := Assoc.lookup_of_mem hkeys hmem
    simp only [Bool.and_eq_true, decide_eq_true_eq, Bool.not_eq_true'] at hunmarked
    refine ⟨⟨e.2, hk, List.length_pos_iff.mp hunmarked.1⟩, ?_⟩
    rintro ⟨o, ho, hproc⟩
    rw [hk] at ho
    cases ho
    rw [hunmarked.2] at hproc
    cases hproc
  · rintro ⟨⟨o, hk, hch⟩, hfree⟩
    refine ⟨(k, o), List.mem_filter.mpr ⟨Assoc.mem_of_lookup hk, ?_⟩, rfl⟩
    have hproc : (c.objs o).processing = false := by
      rw [Bool.eq_false_iff]
      exact fun hproc => hfree ⟨o, hk, hproc⟩
    simp [hproc, List.length_pos_iff.mpr hch]

/-- Objects that are not in the map are empty, and no object is in it twice. -/
theorem depth_eq (hinv : Inv c) (hkept : Kept c) (hkeys : (c.queues.map Prod.fst).Nodup) :
    (c.queues.map (fun e => (c.objs e.2).ch.length)).sum = c.items := by
  have hobjs : (c.queues.map Prod.snd).Nodup := by
    apply List.Nodup.map_on _ (List.Nodup.of_map Prod.fst hkeys)
    intro e he e' he' hsame
    have hk := hinv.mapped e.1 e.2 (Assoc.lookup_of_mem hkeys he)
    have hk' := hinv.mapped e'.1 e'.2 (Assoc.lookup_of_mem hkeys he')
    rw [hsame] at hk
    exact Prod.ext (hk.2.symm.trans hk'.2) hsame
  calc (c.queues.map (fun e => (c.objs e.2).ch.length)).sum
      = ((c.queues.map Prod.snd).map (fun o => (c.objs o).ch.length)).sum := by rw [List.map_map]; rfl
    _ = ∑ o ∈ (c.queues.map Prod.snd).toFinset, (c.objs o).ch.length :=
        (List.sum_toFinset (fun o => (c.objs o).ch.length) hobjs).symm
    _ = c.items := by
        apply Finset.sum_subset
        · intro o ho
          obtain ⟨e, he, rfl⟩ := List.mem_map.mp (List.mem_toFinset.mp ho)
          exact Finset.mem_range.mpr (hinv.mapped e.1 e.2 (Assoc.lookup_of_mem hkeys he)).1
        · intro o ho hnot
          by_contra hlen
          have hch : (c.objs o).ch ≠ [] := fun hnil => hlen (by rw [hnil, List.length_nil])
          have hk := (hkept.live o (Finset.mem_range.mp ho)).mpr (.inr (.inl hch))
          exact hnot (List.mem_toFinset.mpr (List.mem_map.mpr ⟨_, Assoc.mem_of_lookup hk, rfl⟩))

end

/-! Reachable states. -/

theorem watching_run {cfg : Config} {ls : List (WatchAct Delivery)} {s : Watched Delivery}
    (h : Machine.run (watchNext cfg) watchedInit ls = some s) : Watching cfg s :=
  Machine.run_invariant (Watching cfg) watching_init (fun _ _ _ hs hn => (watchNext_covered hs hn).1) h

/-- In every reachable state without hot keys the depth and the number of keys that Stats
    reports are right; what it reports as processing is right exactly if as many keys wait
    for a worker as have an item that a worker is at. -/
theorem stats_counts (cfg : Config) (ls : List (WatchAct Delivery)) (s : Watched Delivery)
    (h : Machine.run (watchNext cfg) watchedInit ls = some s) (hhot : s.hotKeys = []) :
    ∃ st, stats cfg s (lengths s.toCore) = some st ∧ st.globalDepth = s.items ∧
      st.activeKeys = distinct (s.registeredKeys ++ s.queuedKeys ++ s.processedKeys) ∧
      (st.processing = distinct s.processedKeys ↔ distinct s.pendingKeys = distinct s.processedKeys) := by
  have hw := watching_run h
  have hkept := hw.books.kept
  refine ⟨⟨s.queues.length,
    s.queues.countP (fun e => decide (0 < (s.objs e.2).ch.length) && !(s.objs e.2).processing), [],
    (s.queues.map (fun e => (s.objs e.2).ch.length)).sum, cfg.maxGlobalInFlight⟩, ?_, ?_, ?_, ?_⟩
  · rw [stats, hhot]
    rfl
  · exact depth_eq hw.inv hkept hw.keys
  · exact activeKeys_eq hw.inv hkept hw.keys
  · rw [unmarked_eq hw.inv hkept hw.keys]

namespace Sample

def taken : List (WatchAct String) :=
  [.queue .start, .queue (.submit (item "first") .live)] ++ (submits 0).map .queue ++
    List.replicate 4 (.queue (.worker 0 ["k"] .proceed))

/-- An item of another key is submitted while the worker is at the first. -/
def waiting : List (WatchAct String) :=
  taken ++ [.queue (.submit ⟨some ⟨"second", "order.placed", "tenant", "j", "", 1, "", []⟩, "second", 1, 0, "worker"⟩
    .live)] ++ (submits 1).map .queue

end Sample

/-- One key waits and another is processed: Stats reports one, as it should. -/
theorem stats_counts_waiting :
    ∃ s st, Machine.run (watchNext Sample.watched) watchedInit Sample.waiting = some s ∧ s.pendingKeys = ["j"] ∧
      s.processedKeys = ["k"] ∧ stats Sample.watched s (lengths s.toCore) = some st ∧
      st.processing = distinct s.processedKeys := by
  have hrun : (Machine.run (watchNext Sample.watched) watchedInit Sample.waiting).map (fun s =>
      (s.hotKeys, s.pendingKeys, s.processedKeys)) = some ([], ["j"], ["k"]) := by decide +kernel
  obtain ⟨s, hs, hfacts⟩ := Option.map_eq_some_iff.mp hrun
  simp only [Prod.mk.injEq] at hfacts
  obtain ⟨hhot, hpending, hprocessed⟩ := hfacts
  obtain ⟨st, hst, -, -, hproc⟩ := stats_counts Sample.watched Sample.waiting s hs hhot
  exact ⟨s, st, hs, hpending, hprocessed, hst, hproc.mpr (by rw [hpending, hprocessed]; rfl)⟩

/-- A worker is at an item, nothing waits, and Stats reports that nothing is processed. -/
theorem stats_processing_wrong :
    ∃ s st, Machine.run (watchNext Sample.watched) watchedInit Sample.taken = some s ∧ s.mu = none ∧ s.hotKeys = [] ∧
      stats Sample.watched s (lengths s.toCore) = some st ∧ st.processing = 0 ∧ distinct s.processedKeys = 1 := by
  have hrun : (Machine.run (watchNext Sample.watched) watchedInit Sample.taken).map (fun s =>
      (s.mu, s.hotKeys, (stats Sample.watched s (lengths s.toCore)).map QueueStats.processing,
        distinct s.processedKeys)) =
      some ((none : Option Nat), ([] : List (String × Int)), some 0, 1) := by decide +kernel
  obtain ⟨s, hs, hfacts⟩ := Option.map_eq_some_iff.mp hrun
  simp only [Prod.mk.injEq] at hfacts
  obtain ⟨hmu, hhot, hstats, hproc⟩ := hfacts
  obtain ⟨st, hst, hzero⟩ := Option.map_eq_some_iff.mp hstats
  exact ⟨s, st, hs, hmu, hhot, hst, hzero, hproc⟩

end FlowRule.KeyQueue
