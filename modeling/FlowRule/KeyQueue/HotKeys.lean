import FlowRule.KeyQueue.Accounting

/- The hot keys of the queue, and Stats.

   The checker goroutine copies the map under the mutex of the queue, and then goes over the
   copy under a mutex of its own, reading each length in a step of its own. Stats holds both
   mutexes and reads the queue of every hot key, without a look whether there is one. A queue
   leaves the map when its last user does; nobody tells the checker. `notified` is not in the
   source: the notices the callback was given. -/
namespace FlowRule.KeyQueue

variable {Delivery : Type}

/-- The sizes of a queue with hot-key detection; NewKeyQueue leaves no threshold of zero. -/
structure Config extends Limits where
  hotKeyThreshold : Nat
  hotKeyThreshold_pos : 0 < hotKeyThreshold

def newConfig (maxGlobalInFlight maxPerKeyQueue workerCount hotKeyThreshold : Int) : Config where
  toLimits := newKeyQueue maxGlobalInFlight maxPerKeyQueue workerCount
  hotKeyThreshold := if hotKeyThreshold ≤ 0 then 1000 else hotKeyThreshold.toNat
  hotKeyThreshold_pos := by split <;> omega

structure HotKeyNotice where
  key : String
  depth : Nat
  deriving DecidableEq

/-- Where the checker is. In `updating` it holds the mutex of the hot keys. -/
inductive CheckPc where
  | off
  | waiting
  | copied (queues : List (String × Nat))
  | updating (queues rest : List (String × Nat)) (now : Int) (notices : List HotKeyNotice)
  | notifying (notices : List HotKeyNotice)
  deriving DecidableEq

structure Watched (Delivery : Type) extends State Delivery where
  hotKeys : List (String × Int)
  checker : CheckPc
  stopHotKeyCheck : Bool
  notified : List HotKeyNotice

def watchedInit : Watched Delivery where
  toState := init
  hotKeys := []
  checker := .off
  stopHotKeyCheck := false
  notified := []

/-- updateHotKeyState on one key of the copy, with the length of its channel. -/
def updateHotKey (threshold : Nat) (now : Int) (hotKeys : List (String × Int)) (key : String) (depth : Nat) :
    List (String × Int) × List HotKeyNotice :=
  if threshold ≤ depth then
    match hotKeys.lookup key with
    | none => (Assoc.put key now hotKeys, [⟨key, depth⟩])
    | some _ => (hotKeys, [])
  else (Assoc.drop key hotKeys, [])

/-- One step of the checker; `order` is the order in which it goes over its copy. -/
def checkStep (cfg : Config) (s : Watched Delivery) (order : List (String × Nat)) (now : Int) (case : Case) :
    Option (Watched Delivery) :=
  match s.checker with
  | .off => none
  | .waiting =>
    match case with
    | .proceed => if s.mu = none then some { s with checker := .copied s.queues } else none
    | .cancelled => if s.ctxDone then some { s with checker := .off } else none
    | .stopping => if s.stopHotKeyCheck then some { s with checker := .off } else none
  | .copied queues => if order.Perm queues then some { s with checker := .updating queues order now [] } else none
  | .updating queues ((key, o) :: rest) now notices =>
    let (hotKeys, new) := updateHotKey cfg.hotKeyThreshold now s.hotKeys key (s.objs o).ch.length
    some { s with hotKeys := hotKeys, checker := .updating queues rest now (notices ++ new) }
  | .updating queues [] _ notices =>
    some { s with hotKeys := s.hotKeys.filter (fun e => (queues.lookup e.1).isSome), checker := .notifying notices }
  | .notifying notices => some { s with checker := .waiting, notified := s.notified ++ notices }

inductive WatchAct (Delivery : Type) where
  | queue (act : Act Delivery)
  | closeHotKeyCheck
  | check (order : List (String × Nat)) (now : Int) (case : Case)

def launches (s : State Delivery) : Act Delivery → Bool
  | .start => !s.started && !s.stopped
  | _ => false

def watchNext (cfg : Config) (s : Watched Delivery) : WatchAct Delivery → Option (Watched Delivery)
  | .queue act => (next cfg.toLimits s.toState act).map (fun t =>
      { s with toState := t, checker := if launches s.toState act then .waiting else s.checker })
  | .closeHotKeyCheck => if s.stopWorkers then some { s with stopHotKeyCheck := true } else none
  | .check order now case => checkStep cfg s order now case

/-! Stats. -/

structure HotKeyInfo where
  partitionKey : String
  depth : Nat
  since : Int

structure QueueStats where
  activeKeys : Nat
  processing : Nat
  hotKeys : List HotKeyInfo
  globalDepth : Nat
  maxGlobalDepth : Nat

/-- The lengths of the channels as the three places of Stats that read them find them. -/
structure Lengths where
  depth : Nat → Nat
  pending : Nat → Nat
  hot : Nat → Nat

/-- The queue of a hot key is read as it is in the map: where there is none, this panics. -/
def hotKeyInfo (queues : List (String × Nat)) (len : Lengths) (e : String × Int) : Option HotKeyInfo :=
  (queues.lookup e.1).map (fun o => ⟨e.1, len.hot o, e.2⟩)

/-- Stats, which holds both mutexes; `none` is the panic. -/
def stats (cfg : Config) (s : Watched Delivery) (len : Lengths) : Option QueueStats :=
  (s.hotKeys.mapM (hotKeyInfo s.queues len)).map (fun infos =>
    { activeKeys := s.queues.length
      processing := s.queues.countP (fun e => decide (0 < len.pending e.2) && !(s.objs e.2).processing)
      hotKeys := infos
      globalDepth := (s.queues.map (fun e => len.depth e.2)).sum
      maxGlobalDepth := cfg.maxGlobalInFlight })

/-- The mutex of the hot keys is free, so that Stats gets to read them. -/
def CheckPc.muHotFree : CheckPc → Bool
  | updating _ _ _ _ => false
  | _ => true

theorem mapM_some_iff {α β : Type} {f : α → Option β} {l : List α} :
    (∃ m, l.mapM f = some m) ↔ ∀ a ∈ l, ∃ b, f a = some b := by
  induction l with
  | nil => simp
  | cons a l ih =>
    rw [List.mapM_cons]
    cases hf : f a with
    | none => simp [hf]
    | some b =>
      rw [List.forall_mem_cons, ← ih]
      cases l.mapM f <;> simp [hf]

def Watched.Covered (s : Watched Delivery) : Prop :=
  ∀ k ∈ s.hotKeys.map Prod.fst, ∃ o, s.queues.lookup k = some o

theorem stats_iff {cfg : Config} {s : Watched Delivery} (len : Lengths) :
    (∃ st, stats cfg s len = some st) ↔ s.Covered := by
  have hinfos : (∃ st, stats cfg s len = some st) ↔ ∃ infos, s.hotKeys.mapM (hotKeyInfo s.queues len) = some infos := by
    unfold stats
    cases s.hotKeys.mapM (hotKeyInfo s.queues len) <;> simp
  rw [hinfos, mapM_some_iff]
  unfold Watched.Covered
  rw [List.forall_mem_map]
  constructor
  · intro h e he
    obtain ⟨info, hinfo⟩ := h e he
    obtain ⟨o, ho, -⟩ := Option.map_eq_some_iff.mp hinfo
    exact ⟨o, ho⟩
  · intro h e he
    obtain ⟨o, ho⟩ := h e he
    exact ⟨_, Option.map_eq_some_iff.mpr ⟨o, ho, rfl⟩⟩

/-! What a step of the queue does to the map. -/

def Core.finishSubmitRemoves (c : Core Delivery) (o : Nat) : Option String :=
  let q := c.objs o
  let less := q.submitters - 1
  let submitters := if less < 0 then 0 else less
  if c.queues.lookup q.partitionKey = some o ∧ q.processing = false ∧ submitters = 0 ∧ q.ch.length = 0 then
    some q.partitionKey
  else none

/-- The key that finishEvent takes from the map, if the queue is idle. -/
def Core.finishEventRemoves (c : Core Delivery) (partitionKey : String) : Option String :=
  match c.queues.lookup partitionKey with
  | none => none
  | some o => if (c.objs o).submitters = 0 ∧ (c.objs o).ch.length = 0 then some partitionKey else none

def removes (s : State Delivery) : Act Delivery → Option String
  | .submission i _ =>
    match s.submits[i]? with
    | some ⟨_, _, .finishing o _⟩ => s.toCore.finishSubmitRemoves o
    | _ => none
  | .worker w _ _ =>
    match s.workers[w]? with
    | some (.finishing item) => s.toCore.finishEventRemoves item.key
    | _ => none
  | _ => none

/-- Objects stay what they are, and the map loses no key but the one that is removed. -/
structure Tracks (c c' : Core Delivery) (removed : Option String) : Prop where
  objs : ∀ o, o < c.fresh → o < c'.fresh ∧ (c'.objs o).partitionKey = (c.objs o).partitionKey
  stays : ∀ k o, c.queues.lookup k = some o → removed ≠ some k → c'.queues.lookup k = some o
  gone : ∀ k, removed = some k → c'.queues.lookup k = none
  keys : (c.queues.map Prod.fst).Nodup → (c'.queues.map Prod.fst).Nodup

section
variable {c : Core Delivery} {o : Nat} {q : Obj Delivery}

theorem tracks_same {c' : Core Delivery} (hq : c'.queues = c.queues) (hf : c'.fresh = c.fresh) (ho : c'.objs = c.objs) :
    Tracks c c' none where
  objs := by
    intro o hlt
    rw [hf, ho]
    exact ⟨hlt, rfl⟩
  stays := by
    intro k o hk _
    rw [hq, hk]
  gone := by
    intro k hk
    cases hk
  keys := by
    rw [hq]
    exact id

theorem tracks_setObj (hpk : q.partitionKey = (c.objs o).partitionKey) : Tracks c (c.setObj o q) none where
  objs := fun o' hlt => ⟨hlt, setObj_get Obj.partitionKey hpk o'⟩
  stays := fun _ _ hk _ => hk
  gone := fun _ hk => nomatch hk
  keys := id

theorem tracks_drop (hpk : q.partitionKey = (c.objs o).partitionKey) (k : String) :
    Tracks c { c.setObj o q with queues := Assoc.drop k c.queues } (some k) where
  objs := fun o' hlt => ⟨hlt, setObj_get Obj.partitionKey hpk o'⟩
  stays := by
    intro k' o' hk' hne
    show (Assoc.drop k c.queues).lookup k' = some o'
    rw [Assoc.lookup_drop, if_neg (fun he => hne (congrArg some he.symm)), hk']
  gone := by
    intro k' hk'
    cases hk'
    show (Assoc.drop k c.queues).lookup k = none
    rw [Assoc.lookup_drop, if_pos rfl]
  keys := Assoc.nodup_drop

theorem tracks_register (key : String) : Tracks c (c.registerQueueSubmitter key).1 none := by
  simp only [Core.registerQueueSubmitter, Core.queueFor]
  cases hk : c.queues.lookup key with
  | some o => exact tracks_setObj rfl
  | none =>
    refine ⟨?_, ?_, ?_, Assoc.nodup_put⟩
    · intro o' hlt
      have hne : o' ≠ c.fresh := Nat.ne_of_lt hlt
      refine ⟨Nat.lt_succ_of_lt hlt, ?_⟩
      rw [objs_other hne, objs_other hne]
    · intro k' o' hk' _
      show (Assoc.put key c.fresh c.queues).lookup k' = some o'
      rw [Assoc.lookup_put, if_neg, hk']
      intro he
      rw [he, hk] at hk'
      cases hk'
    · intro k' hk'
      cases hk'

theorem tracks_finishSubmit (o : Nat) : Tracks c (c.finishSubmit o) (c.finishSubmitRemoves o) := by
  unfold Core.finishSubmit Core.finishSubmitRemoves
  simp only
  generalize (if (c.objs o).submitters - 1 < 0 then 0 else (c.objs o).submitters - 1) = m
  split
  · exact tracks_drop (q := { c.objs o with submitters := m }) rfl _
  · exact tracks_setObj (q := { c.objs o with submitters := m }) rfl

theorem tracks_finishEvent (key : String) : Tracks c (c.finishEvent key) (c.finishEventRemoves key) := by
  unfold Core.finishEvent Core.finishEventRemoves
  cases c.queues.lookup key with
  | none => exact tracks_same rfl rfl rfl
  | some o =>
    simp only
    split
    · exact tracks_drop (q := { c.objs o with processing := false }) rfl key
    · exact tracks_setObj (q := { c.objs o with processing := false }) rfl

end

section
variable {limits : Limits} {s t : State Delivery}

theorem Tracks.core {c d e : Core Delivery} {k : Option String} (h : Tracks c d k) (hq : e.queues = d.queues)
    (hf : e.fresh = d.fresh) (ho : e.objs = d.objs) : Tracks c e k := by
  obtain ⟨hobjs, hstays, hgone, hkeys⟩ := h
  refine ⟨?_, ?_, ?_, ?_⟩
  · rw [hf, ho]
    exact hobjs
  · rw [hq]
    exact hstays
  · rw [hq]
    exact hgone
  · rw [hq]
    exact hkeys

theorem removes_call {i : Nat} {case : Case} {sub : Submission Delivery} (hi : s.submits[i]? = some sub)
    (h : ∀ o r, sub.pc ≠ .finishing o r) : removes s (.submission i case) = none := by
  obtain ⟨item, ctx, pc⟩ := sub
  simp only [removes, hi]
  cases pc with
  | finishing o r => exact absurd rfl (h o r)
  | _ => rfl

theorem removes_worker {w : Nat} {order : List String} {case : Case} {pc : WorkerPc Delivery}
    (hw : s.workers[w]? = some pc) (h : ∀ item, pc ≠ .finishing item) : removes s (.worker w order case) = none := by
  simp only [removes, hw]
  cases pc with
  | finishing item => exact absurd rfl (h item)
  | _ => rfl

theorem next_tracks {a : Act Delivery} (hn : next limits s a = some t) : Tracks s.toCore t.toCore (removes s a) := by
  have hs := next_steps hn
  generalize t.toCore = d at hs
  generalize t.globalSem = m at hs
  cases hs with
  | quiet h => rcases h with rfl | rfl | rfl | rfl <;> exact tracks_same rfl rfl rfl
  | launch | submit | cancel => exact tracks_same rfl rfl rfl
  | call hi hgo =>
    rw [removes_call hi (fun o r he => by rw [he] at hgo; cases hgo)]
    exact tracks_same rfl rfl rfl
  | acquire hi hpc | giveBack hi hpc =>
    rw [removes_call hi (by simp [hpc])]
    exact tracks_same rfl rfl rfl
  | register hi hpc =>
    rw [removes_call hi (by simp [hpc])]
    exact (tracks_register _).core rfl rfl rfl
  | put hi hpc =>
    rename_i i o sub _ env _
    rw [removes_call hi (by simp [hpc])]
    exact (tracks_setObj (q := { s.objs o with ch := (s.objs o).ch ++ [queued i sub.item env] }) rfl).core rfl rfl rfl
  | finishSubmit hi hpc =>
    rename_i o sub _ _
    obtain ⟨item, ctx, pc⟩ := sub
    cases hpc
    simp only [removes, hi]
    exact (tracks_finishSubmit o).core rfl rfl rfl
  | turn hw hidle =>
    rw [removes_worker hw (fun item he => by rw [he] at hidle; cases hidle)]
    exact tracks_same rfl rfl rfl
  | select hw hk =>
    rename_i o _ _ _ _ _
    rw [removes_worker hw (by simp)]
    exact (tracks_setObj (q := { s.objs o with processing := true }) rfl).core rfl rfl rfl
  | receive hw =>
    rename_i o _ _ _ _ rest _
    rw [removes_worker hw (by simp)]
    exact (tracks_setObj (q := { s.objs o with ch := rest }) rfl).core rfl rfl rfl
  | processed hw | release hw =>
    rw [removes_worker hw (by simp)]
    exact tracks_same rfl rfl rfl
  | finishEvent hw =>
    simp only [removes, hw]
    exact (tracks_finishEvent _).core rfl rfl rfl

end

/-! Runs. -/

def KeepsHot (s : Watched Delivery) : WatchAct Delivery → Prop
  | .queue act => ∀ k, removes s.toState act = some k → k ∉ s.hotKeys.map Prod.fst
  | _ => True

def CheckPc.copy : CheckPc → List (String × Nat)
  | copied queues => queues
  | updating _ rest _ _ => rest
  | _ => []

structure Watching (cfg : Config) (s : Watched Delivery) : Prop where
  inv : Inv s.toCore
  books : Books cfg.toLimits s.toCore s.globalSem
  keys : (s.queues.map Prod.fst).Nodup
  copy : ∀ e ∈ s.checker.copy, e.2 < s.fresh ∧ (s.objs e.2).partitionKey = e.1

section
variable {cfg : Config} {s t : Watched Delivery}

theorem updateHotKey_mem {threshold depth : Nat} {now : Int} {hotKeys : List (String × Int)} {key k : String}
    (h : k ∈ (updateHotKey threshold now hotKeys key depth).1.map Prod.fst) :
    k ∈ hotKeys.map Prod.fst ∨ k = key ∧ threshold ≤ depth := by
  have hdrop : ∀ k, k ∈ (Assoc.drop key hotKeys).map Prod.fst → k ∈ hotKeys.map Prod.fst := fun k hk =>
    (List.filter_sublist.map Prod.fst).subset hk
  unfold updateHotKey at h
  split at h
  · rename_i hdepth
    split at h
    · rcases List.mem_cons.mp h with hk | hk
      · exact .inr ⟨hk, hdepth⟩
      · exact .inl (hdrop k hk)
    · exact .inl h
  · exact .inl (hdrop k h)

/-- A step of the queue: what the checker has copied stays what it is. -/
theorem queue_watching {act : Act Delivery} {q : State Delivery} (h : Watching cfg s)
    (hn : next cfg.toLimits s.toState act = some q) {pc : CheckPc}
    (hpc : ∀ e ∈ pc.copy, e ∈ s.checker.copy) : Watching cfg { s with toState := q, checker := pc } := by
  refine ⟨(next_steps hn).inv h.inv, (next_steps hn).books h.inv h.books, (next_tracks hn).keys h.keys, ?_⟩
  intro e he
  obtain ⟨hlt, hpk⟩ := h.copy e (hpc e he)
  obtain ⟨hlt', hpk'⟩ := (next_tracks hn).objs e.2 hlt
  exact ⟨hlt', hpk'.trans hpk⟩

/-- A key that is marked as hot has an item in the channel of its object, which is therefore
    the one the map has. -/
theorem marked_mapped (h : Watching cfg s) {e : String × Nat} (he : e ∈ s.checker.copy)
    (hdepth : cfg.hotKeyThreshold ≤ (s.objs e.2).ch.length) : s.queues.lookup e.1 = some e.2 := by
  obtain ⟨hlt, hpk⟩ := h.copy e he
  have hfull : (s.objs e.2).ch ≠ [] := by
    intro hnil
    have hpos := cfg.hotKeyThreshold_pos
    rw [hnil, List.length_nil] at hdepth
    omega
  rw [← hpk]
  exact (h.books.kept.live e.2 hlt).mpr (.inr (.inl hfull))

theorem checkStep_watching (h : Watching cfg s) {order : List (String × Nat)} {now : Int} {case : Case}
    (hn : checkStep cfg s order now case = some t) : Watching cfg t ∧ (s.Covered → t.Covered) := by
  unfold checkStep at hn
  split at hn
  · cases hn
  · -- waiting
    split at hn
    · split at hn <;> cases hn
      refine ⟨⟨h.inv, h.books, h.keys, ?_⟩, id⟩
      intro e he
      exact h.inv.mapped e.1 e.2 (Assoc.lookup_of_mem h.keys he)
    · split at hn <;> cases hn
      exact ⟨⟨h.inv, h.books, h.keys, List.forall_mem_nil _⟩, id⟩
    · split at hn <;> cases hn
      exact ⟨⟨h.inv, h.books, h.keys, List.forall_mem_nil _⟩, id⟩
  · -- the copy is made
    rename_i queues hpc
    split at hn
    · rename_i hperm
      cases hn
      refine ⟨⟨h.inv, h.books, h.keys, ?_⟩, id⟩
      intro e he
      exact h.copy e (by rw [hpc]; exact hperm.mem_iff.mp he)
    · cases hn
  · -- one key
    rename_i queues key o rest now notices hpc
    cases hn
    refine ⟨⟨h.inv, h.books, h.keys, ?_⟩, ?_⟩
    · intro e he
      exact h.copy e (by rw [hpc]; exact List.mem_cons_of_mem _ he)
    · intro hs k hk
      rcases updateHotKey_mem hk with hold | ⟨rfl, hdepth⟩
      · exact hs k hold
      · exact ⟨o, marked_mapped h (e := (k, o)) (by rw [hpc]; exact List.mem_cons_self) hdepth⟩
  · -- the keys that are not in the copy
    cases hn
    refine ⟨⟨h.inv, h.books, h.keys, List.forall_mem_nil _⟩, ?_⟩
    intro hs k hk
    exact hs k ((List.filter_sublist.map Prod.fst).subset hk)
  · cases hn
    exact ⟨⟨h.inv, h.books, h.keys, List.forall_mem_nil _⟩, id⟩

/-- A step that removes no queue of a hot key keeps the queues of the hot keys. -/
theorem watchNext_covered {a : WatchAct Delivery} (h : Watching cfg s) (hn : watchNext cfg s a = some t) :
    Watching cfg t ∧ (s.Covered → KeepsHot s a → t.Covered) := by
  cases a with
  | queue act =>
    obtain ⟨q, hq, rfl⟩ := Option.map_eq_some_iff.mp hn
    refine ⟨queue_watching h hq ?_, ?_⟩
    · intro e he
      split at he
      · cases he
      · exact he
    · intro hs hkeep k hk
      obtain ⟨o, ho⟩ := hs k hk
      exact ⟨o, (next_tracks hq).stays k o ho (fun hrem => hkeep k hrem hk)⟩
  | closeHotKeyCheck =>
    simp only [watchNext] at hn
    split at hn <;> cases hn
    exact ⟨⟨h.inv, h.books, h.keys, h.copy⟩, fun hs _ => hs⟩
  | check order now case =>
    obtain ⟨ht, hcov⟩ := checkStep_watching h hn
    exact ⟨ht, fun hs _ => hcov hs⟩

theorem watching_init : Watching cfg (watchedInit : Watched Delivery) :=
  ⟨init_inv, init_books, List.nodup_nil, List.forall_mem_nil _⟩

end

/-- In every run whose steps never take the queue of a hot key from the map Stats returns;
    and a step that takes one, while the checker is not at the hot keys, leaves a state in
    which Stats panics, whatever the lengths it reads. -/
theorem stats_returns_while_kept (cfg : Config) (ls : List (WatchAct Delivery)) (s : Watched Delivery)
    (h : Machine.run (watchNext cfg) watchedInit ls = some s) :
    (Machine.Along (watchNext cfg) KeepsHot watchedInit ls → ∀ len, ∃ st, stats cfg s len = some st) ∧
    (s.checker.muHotFree = true → ∀ a t, watchNext cfg s a = some t → ¬KeepsHot s a →
      t.checker.muHotFree = true ∧ ∀ len, stats cfg t len = none) := by
  constructor
  · intro halong len
    have hcov : Watching cfg s ∧ s.Covered :=
      Machine.run_along (fun s => Watching cfg s ∧ s.Covered)
        (fun a l b ha hl hb => ⟨(watchNext_covered ha.1 hb).1, (watchNext_covered ha.1 hb).2 ha.2 hl⟩)
        ⟨watching_init, List.forall_mem_nil _⟩ halong h
    exact (stats_iff len).mpr hcov.2
  · intro hfree a t ht hlose
    cases a with
    | queue act =>
      simp only [KeepsHot, not_forall] at hlose
      obtain ⟨k, hrem, hhot⟩ := hlose
      obtain ⟨q, hq, rfl⟩ := Option.map_eq_some_iff.mp ht
      refine ⟨?_, ?_⟩
      · show (if launches s.toState act then CheckPc.waiting else s.checker).muHotFree = true
        split
        · rfl
        · exact hfree
      · intro len
        rw [Option.eq_none_iff_forall_ne_some]
        intro st hst
        obtain ⟨o, ho⟩ := (stats_iff len).mp ⟨st, hst⟩ k (not_not.mp hhot)
        have hgone : q.queues.lookup k = none := (next_tracks hq).gone k hrem
        have hsome : q.queues.lookup k = some o := ho
        rw [hgone] at hsome
        cases hsome
    | closeHotKeyCheck | check order now case => exact absurd trivial hlose

instance decidableKeepsHot (s : Watched Delivery) : (a : WatchAct Delivery) → Decidable (KeepsHot s a)
  | .queue act =>
    match h : removes s.toState act with
    | none => .isTrue (fun _ hk => nomatch h.symm.trans hk)
    | some k => decidable_of_iff (k ∉ s.hotKeys.map Prod.fst)
        ⟨fun hk _ hk' => Option.some.inj (h.symm.trans hk') ▸ hk, fun hk => hk k h⟩
  | .closeHotKeyCheck => .isTrue trivial
  | .check _ _ _ => .isTrue trivial

namespace Sample

def watched : Config := newConfig 10 10 2 1

/-- One item is submitted, the checker finds its key hot, and a worker processes the item up to
    finishEvent. -/
def hot : List (WatchAct String) :=
  [.queue .start, .queue (.submit (item "first") .live)] ++ (submits 0).map .queue ++
    List.replicate 5 (.check [("k", 0)] 100 .proceed) ++
    List.replicate 5 (.queue (.worker 0 ["k"] .proceed))

def drain : WatchAct String := .queue (.worker 0 ["k"] .proceed)

end Sample

open Sample

theorem stats_returns_until_drained :
    ∃ s t, Machine.run (watchNext watched) watchedInit hot = some s ∧
      watchNext watched s drain = some t ∧
      (∃ st, stats watched s ⟨fun _ => 0, fun _ => 0, fun _ => 0⟩ = some st) ∧
      stats watched t ⟨fun _ => 0, fun _ => 0, fun _ => 0⟩ = none := by
  have hrun : (Machine.run (watchNext watched) watchedInit hot).map (fun s =>
      (s.checker.muHotFree, decide (KeepsHot s drain), (watchNext watched s drain).isSome)) =
      some (true, false, true) := by decide +kernel
  obtain ⟨s, hs, hfacts⟩ := Option.map_eq_some_iff.mp hrun
  simp only [Prod.mk.injEq] at hfacts
  obtain ⟨hfree, hlose, hsome⟩ := hfacts
  obtain ⟨t, ht⟩ := Option.isSome_iff_exists.mp hsome
  obtain ⟨hkept, hlost⟩ := stats_returns_while_kept watched hot s hs
  exact ⟨s, t, hs, ht, hkept (by decide +kernel) _, (hlost hfree _ t ht (of_decide_eq_false hlose)).2 _⟩

/-- A key is hot when it is checked, its item is processed before the next check, and Stats
    panics. -/
theorem stats_panics :
    ∃ s, Machine.run (watchNext watched) watchedInit (hot ++ [drain]) = some s ∧ s.mu = none ∧
      s.checker.muHotFree = true ∧ ∀ len, stats watched s len = none := by
  have hrun : (Machine.run (watchNext watched) watchedInit (hot ++ [drain])).map (fun s =>
      (s.mu, s.checker.muHotFree, s.hotKeys, s.queues.isEmpty)) =
      some ((none : Option Nat), true, [("k", (100 : Int))], true) := by decide +kernel
  obtain ⟨s, hs, hfacts⟩ := Option.map_eq_some_iff.mp hrun
  simp only [Prod.mk.injEq] at hfacts
  obtain ⟨hmu, hfree, hhot, hqueues⟩ := hfacts
  refine ⟨s, hs, hmu, hfree, ?_⟩
  intro len
  simp [stats, hotKeyInfo, hhot, List.isEmpty_iff.mp hqueues]

end FlowRule.KeyQueue
