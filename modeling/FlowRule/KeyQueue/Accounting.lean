import FlowRule.KeyQueue.Callers

/- The books of the queue. A global slot is held by a Submit call until its item is in a channel
   or the call has given the slot back, then by the item, and then by the worker that took the
   item. An object is in the map exactly as long as it is in use: while a call is registered
   with it, an item is in its channel or it is marked as processed. -/
namespace FlowRule.KeyQueue

variable {Delivery : Type}

/-- The Submit call has a slot and has neither put its item into a channel nor given up. -/
def SubmitPc.holds : SubmitPc → Bool
  | registering => true
  | enqueuing _ => true
  | givingBack _ _ => true
  | _ => false

/-- The worker has taken an item out of its channel and processQueuedItem has not returned. -/
def WorkerPc.taken : WorkerPc Delivery → Bool
  | inside _ => true
  | finishing _ => true
  | releasing => true
  | _ => false

def Obj.InUse (q : Obj Delivery) : Prop := 0 < q.submitters ∨ q.ch ≠ [] ∨ q.processing = true

namespace Core

def holding (c : Core Delivery) : Nat := c.submits.countP (fun sub => sub.pc.holds)

def items (c : Core Delivery) : Nat := ∑ o ∈ Finset.range c.fresh, (c.objs o).ch.length

def taken (c : Core Delivery) : Nat := c.workers.countP (fun pc => pc.taken)

def HasWorker (c : Core Delivery) (k : String) : Prop :=
  ∃ (w : Nat) (pc : WorkerPc Delivery), c.workers[w]? = some pc ∧ pc.key? = some k

end Core

structure Kept (c : Core Delivery) : Prop where
  live : ∀ o, o < c.fresh → (c.queues.lookup (c.objs o).partitionKey = some o ↔ (c.objs o).InUse)
  served : ∀ k o, c.queues.lookup k = some o → (c.objs o).processing = true → c.HasWorker k

/-! The map and the objects in use. -/

section
variable {c : Core Delivery} {i w o : Nat} {k : String} {q : Obj Delivery} {sub : Submission Delivery}

theorem kept_setObj (hmapped : ∀ k o, c.queues.lookup k = some o → o < c.fresh ∧ (c.objs o).partitionKey = k)
    (h : Kept c) (hk : c.queues.lookup k = some o) (hpk : q.partitionKey = (c.objs o).partitionKey) (huse : q.InUse)
    (hproc : q.processing = true → c.HasWorker k) : Kept (c.setObj o q) where
  live := by
    intro o' ho'
    show c.queues.lookup ((c.setObj o q).objs o').partitionKey = some o' ↔ _
    rw [setObj_get Obj.partitionKey hpk o']
    by_cases he : o' = o
    · subst he
      rw [objs_self, (hmapped k o' hk).2]
      exact ⟨fun _ => huse, fun _ => hk⟩
    · rw [objs_other he]
      exact h.live o' ho'
  served := by
    intro k' o' hk' hp
    by_cases he : o' = o
    · subst he
      rw [objs_self] at hp
      have hkk : k' = k := by
        rw [← (hmapped k o' hk).2, ← (hmapped k' o' hk').2]
      rw [hkk]
      exact hproc hp
    · rw [objs_other he] at hp
      exact h.served k' o' hk' hp

/-- An object of the map has a new value, is not in use and leaves the map. -/
theorem kept_drop (hinv : Inv c) (h : Kept c) (hk : c.queues.lookup k = some o)
    (hpk : q.partitionKey = (c.objs o).partitionKey) (huse : ¬q.InUse) :
    Kept { c.setObj o q with queues := Assoc.drop k c.queues } where
  live := by
    intro o' ho'
    show (Assoc.drop k c.queues).lookup ((c.setObj o q).objs o').partitionKey = some o' ↔
      ((c.setObj o q).objs o').InUse
    rw [setObj_get Obj.partitionKey hpk o', Assoc.lookup_drop]
    by_cases he : o' = o
    · subst he
      rw [objs_self, (hinv.mapped k o' hk).2, if_pos rfl]
      exact ⟨fun hnone => (nomatch hnone), fun huse' => absurd huse' huse⟩
    · rw [objs_other he]
      by_cases hkey : (c.objs o').partitionKey = k
      · -- an object that had been replaced under the key
        rw [if_pos hkey, ← h.live o' ho', hkey, hk]
        exact ⟨fun hnone => (nomatch hnone), fun heq => absurd (Option.some.inj heq).symm he⟩
      · rw [if_neg hkey]
        exact h.live o' ho'
  served := by
    intro k' o' hk' hp
    have hdrop : (Assoc.drop k c.queues).lookup k' = some o' := hk'
    rw [Assoc.lookup_drop] at hdrop
    split at hdrop
    · cases hdrop
    rename_i hne
    have hp' : ((c.setObj o q).objs o').processing = true := hp
    rw [objs_other (mapped_ne hinv hk hdrop hne)] at hp'
    exact h.served k' o' hdrop hp'

theorem kept_register (hinv : Inv c) (h : Kept c) (key : String) : Kept (c.registerQueueSubmitter key).1 := by
  simp only [Core.registerQueueSubmitter, Core.queueFor]
  cases hk : c.queues.lookup key with
  | some o =>
    have hcount := hinv.submitters o (hinv.mapped key o hk).1
    refine kept_setObj hinv.mapped h hk rfl (.inl ?_) (h.served key o hk)
    show 0 < (c.objs o).submitters + 1
    omega
  | none =>
    simp only [objs_self]
    refine ⟨?_, ?_⟩
    · intro o' ho'
      by_cases he : o' = c.fresh
      · subst he
        rw [objs_self]
        show (Assoc.put key c.fresh c.queues).lookup key = some c.fresh ↔ _
        rw [Assoc.lookup_put, if_pos rfl]
        exact ⟨fun _ => .inl Int.one_pos, fun _ => rfl⟩
      · have hlt : o' < c.fresh := by
          have hle : o' < c.fresh + 1 := ho'
          omega
        rw [objs_other he, objs_other he]
        show (Assoc.put key c.fresh c.queues).lookup (c.objs o').partitionKey = some o' ↔ (c.objs o').InUse
        rw [Assoc.lookup_put, ← h.live o' hlt]
        by_cases hkey : (c.objs o').partitionKey = key
        · rw [if_pos hkey, hkey, hk]
          exact ⟨fun heq => absurd (Option.some.inj heq).symm he, fun hnone => by cases hnone⟩
        · rw [if_neg hkey]
    · intro k' o' hk' hp
      have hput : (Assoc.put key c.fresh c.queues).lookup k' = some o' := hk'
      rw [Assoc.lookup_put] at hput
      split at hput
      · cases hput
        rw [objs_self] at hp
        cases hp
      · have hne : o' ≠ c.fresh := Nat.ne_of_lt (hinv.mapped k' o' hput).1
        rw [objs_other hne, objs_other hne] at hp
        exact h.served k' o' hput hp

theorem kept_finishSubmit (hinv : Inv c) (h : Kept c) (hi : c.submits[i]? = some sub) (hq : sub.pc.queue? = some o) :
    Kept (c.finishSubmit o) := by
  obtain ⟨env, -, hk⟩ := hinv.registered i sub o hi hq
  obtain ⟨hlt, hpk⟩ := hinv.mapped _ o hk
  have hcount := hinv.submitters o hlt
  have hpos : 0 < c.submits.countP (fun x => x.pc.queue? = some o) :=
    List.countP_pos_iff.mpr ⟨sub, List.mem_of_getElem? hi, by simpa using hq⟩
  have hless : (if (c.objs o).submitters - 1 < 0 then 0 else (c.objs o).submitters - 1) =
      (c.objs o).submitters - 1 := if_neg (by omega)
  unfold Core.finishSubmit
  simp only [hless, hpk]
  split
  · rename_i hdrop
    obtain ⟨-, hproc, hzero, hlen⟩ := hdrop
    refine kept_drop hinv h hk hpk.symm ?_
    intro huse
    rcases huse with hsub | hch | hp
    · exact absurd hsub (by show ¬0 < (c.objs o).submitters - 1; omega)
    · exact hch (List.length_eq_zero_iff.mp hlen)
    · rw [hproc] at hp
      cases hp
  · rename_i hstay
    refine kept_setObj hinv.mapped h hk hpk.symm ?_ (h.served _ o hk)
    show 0 < (c.objs o).submitters - 1 ∨ (c.objs o).ch ≠ [] ∨ (c.objs o).processing = true
    by_cases hzero : (c.objs o).submitters - 1 = 0
    · right
      by_cases hch : (c.objs o).ch = []
      · right
        cases hp : (c.objs o).processing with
        | true => rfl
        | false => exact absurd ⟨hk, hp, hzero, by rw [hch]; rfl⟩ hstay
      · exact .inl hch
    · exact .inl (by omega)

theorem kept_worker (h : Kept c) {pc pc' : WorkerPc Delivery} (hw : c.workers[w]? = some pc)
    (hkey : ∀ k o, c.queues.lookup k = some o → (c.objs o).processing = true → pc.key? = some k → pc'.key? = some k) :
    Kept (c.setWorker w pc') := by
  refine ⟨h.live, ?_⟩
  intro k' o' hk' hp
  obtain ⟨v, x, hv, hx⟩ := h.served k' o' hk' hp
  by_cases he : v = w
  · subst he
    rw [hw] at hv
    cases hv
    exact ⟨v, pc', Pool.get_self hw, hkey k' o' hk' hp hx⟩
  · exact ⟨v, x, (Pool.get_other he).trans hv, hx⟩

theorem kept_select (hinv : Inv c) (h : Kept c) {pc : WorkerPc Delivery} (hw : c.workers[w]? = some pc)
    (hkey : pc.key? = none) (hk : c.queues.lookup k = some o) :
    Kept ((c.startProcessing o).setWorker w (.selected k o)) := by
  have hworker : Kept (c.setWorker w (.selected k o)) := by
    refine kept_worker h hw ?_
    intro k' o' _ _ hx
    rw [hkey] at hx
    cases hx
  have hmarked : (c.setWorker w (.selected k o)).HasWorker k := ⟨w, .selected k o, Pool.get_self hw, rfl⟩
  exact kept_setObj (c := c.setWorker w (.selected k o)) (q := { c.objs o with processing := true }) hinv.mapped
    hworker hk rfl (.inr (.inr rfl)) (fun _ => hmarked)

theorem kept_receive (hinv : Inv c) (h : Kept c) (hw : c.workers[w]? = some (.selected k o))
    {item : QueuedItem Delivery} {rest : List (QueuedItem Delivery)} (hch : (c.objs o).ch = item :: rest) :
    Kept ((c.receive o item rest).setWorker w (.inside item)) := by
  obtain ⟨hk, -⟩ := hinv.selected w k o hw
  obtain ⟨o', hk', hp⟩ := hinv.busy w _ k hw rfl
  rw [hk] at hk'
  cases hk'
  have hitem : item.key = k := by
    apply waiting_key hinv
    rw [waiting_eq hk, hch]
    exact List.mem_cons_self
  have hobj : Kept (c.setObj o { c.objs o with ch := rest }) :=
    kept_setObj hinv.mapped h hk rfl (.inr (.inr hp)) (h.served k o hk)
  refine kept_worker (c := c.receive o item rest) ⟨hobj.live, hobj.served⟩ hw ?_
  intro k' o' _ _ hx
  rw [← hx]
  exact congrArg some hitem

theorem kept_finishEvent (hinv : Inv c) (h : Kept c) {item : QueuedItem Delivery}
    (hw : c.workers[w]? = some (.finishing item)) : Kept ((c.finishEvent item.key).setWorker w .releasing) := by
  obtain ⟨o, hk, -⟩ := hinv.busy w _ item.key hw rfl
  unfold Core.finishEvent
  rw [hk]
  simp only
  split
  · rename_i hdrop
    have hobj := kept_drop (q := { c.objs o with processing := false }) hinv h hk rfl (by
      rintro (hsub | hch | hp)
      · exact absurd hsub (by show ¬0 < (c.objs o).submitters; omega)
      · exact hch (List.length_eq_zero_iff.mp hdrop.2)
      · cases hp)
    refine kept_worker hobj hw ?_
    intro k' o' hk' _ hx
    -- the key of the worker is not in the map any more
    cases hx
    have hnone : (Assoc.drop item.key c.queues).lookup item.key = some o' := hk'
    rw [Assoc.lookup_drop, if_pos rfl] at hnone
    cases hnone
  · rename_i hstay
    have huse : ({ c.objs o with processing := false } : Obj Delivery).InUse := by
      have hcount := hinv.submitters o (hinv.mapped _ o hk).1
      by_cases hzero : (c.objs o).submitters = 0
      · exact .inr (.inl fun hch => hstay ⟨hzero, by rw [List.length_eq_zero_iff]; exact hch⟩)
      · exact .inl (by show 0 < (c.objs o).submitters; omega)
    have hobj := kept_setObj (q := { c.objs o with processing := false }) hinv.mapped h hk rfl huse
      (fun hp => nomatch hp)
    refine kept_worker hobj hw ?_
    intro k' o' hk' hp hx
    cases hx
    have ho : some o = some o' := hk.symm.trans hk'
    cases ho
    rw [objs_self] at hp
    cases hp

end

/-! The slots. -/

structure Books (limits : Limits) (c : Core Delivery) (globalSem : Nat) : Prop where
  kept : Kept c
  slots : globalSem = c.holding + c.items + c.taken
  within : globalSem ≤ limits.maxGlobalInFlight

section
variable {limits : Limits} {c : Core Delivery} {n i w o : Nat} {k : String} {q : Obj Delivery}
  {sub : Submission Delivery} {pc : WorkerPc Delivery}

theorem items_setObj (ho : o < c.fresh) : (c.setObj o q).items + (c.objs o).ch.length = c.items + q.ch.length :=
  Pool.sum_update (fun x : Obj Delivery => x.ch.length) ho

theorem items_same (hch : q.ch = (c.objs o).ch) : (c.setObj o q).items = c.items := by
  apply Finset.sum_congr rfl
  intro o' _
  rw [setObj_get Obj.ch hch o']

theorem items_put (ho : o < c.fresh) (item : QueuedItem Delivery) : (c.put o item).items = c.items + 1 := by
  have hset : (c.put o item).items + (c.objs o).ch.length = c.items + ((c.objs o).ch ++ [item]).length :=
    items_setObj ho
  rw [List.length_append, List.length_singleton] at hset
  omega

variable {item : QueuedItem Delivery}

theorem items_receive (ho : o < c.fresh) {rest : List (QueuedItem Delivery)}
    (hch : (c.objs o).ch = item :: rest) : (c.receive o item rest).items + 1 = c.items := by
  have hset : (c.receive o item rest).items + (c.objs o).ch.length = c.items + rest.length := items_setObj ho
  rw [hch, List.length_cons] at hset
  omega

theorem items_queueFor (key : String) : (c.queueFor key).1.items = c.items := by
  unfold Core.queueFor
  split
  · rfl
  -- the new object is the last one, with an empty channel
  show ∑ o ∈ Finset.range (c.fresh + 1), (Function.update c.objs c.fresh _ o).ch.length = c.items
  rw [Finset.sum_range_succ, Function.update_self, List.length_nil, Nat.add_zero]
  apply Finset.sum_congr rfl
  intro o' ho'
  rw [Function.update_of_ne (Nat.ne_of_lt (Finset.mem_range.mp ho'))]

theorem items_register (key : String) : (c.registerQueueSubmitter key).1.items = c.items := by
  calc (c.registerQueueSubmitter key).1.items
      = (c.queueFor key).1.items := items_same rfl
    _ = c.items := items_queueFor key

theorem items_finishSubmit (o : Nat) : (c.finishSubmit o).items = c.items := by
  unfold Core.finishSubmit
  simp only
  generalize (if (c.objs o).submitters - 1 < 0 then 0 else (c.objs o).submitters - 1) = m
  split <;> exact items_same (c := c) (q := { c.objs o with submitters := m }) rfl

theorem items_finishEvent (key : String) : (c.finishEvent key).items = c.items := by
  unfold Core.finishEvent
  split
  · rfl
  rename_i o _
  simp only
  split <;> exact items_same (c := c) (q := { c.objs o with processing := false }) rfl

variable (h : Books limits c n)
include h

theorem books_call (hi : c.submits[i]? = some sub) {pc : SubmitPc} (hh : pc.holds = sub.pc.holds) :
    Books limits (c.setSubmit i sub pc) n := by
  refine ⟨⟨h.kept.live, h.kept.served⟩, ?_, h.within⟩
  have hcount : (c.setSubmit i sub pc).holding = c.holding := Pool.count_keep hi hh
  show n = (c.setSubmit i sub pc).holding + c.items + c.taken
  rw [hcount]
  exact h.slots

theorem books_acquire (hi : c.submits[i]? = some sub) (hpc : sub.pc = .acquiring)
    (hn : n < limits.maxGlobalInFlight) : Books limits (c.setSubmit i sub .registering) (n + 1) := by
  refine ⟨⟨h.kept.live, h.kept.served⟩, ?_, hn⟩
  have hcount : (c.setSubmit i sub .registering).holding = c.holding + 1 :=
    Pool.count_enter hi (by rw [hpc]; rfl) rfl
  have hslots := h.slots
  show n + 1 = (c.setSubmit i sub .registering).holding + c.items + c.taken
  omega

theorem books_giveBack (hi : c.submits[i]? = some sub) {err : Err}
    (hpc : sub.pc = .givingBack o err) : Books limits (c.setSubmit i sub (.finishing o (some err))) (n - 1) := by
  refine ⟨⟨h.kept.live, h.kept.served⟩, ?_, Nat.le_trans (Nat.sub_le n 1) h.within⟩
  have hcount : (c.setSubmit i sub (.finishing o (some err))).holding + 1 = c.holding :=
    Pool.count_leave hi (by rw [hpc]; rfl) rfl
  have hslots := h.slots
  show n - 1 = (c.setSubmit i sub (.finishing o (some err))).holding + c.items + c.taken
  omega

theorem books_register (hinv : Inv c) (hi : c.submits[i]? = some sub)
    (hpc : sub.pc = .registering) (key : String) : Books limits ((c.registerQueueSubmitter key).1.setSubmit i sub
      (.enqueuing (c.registerQueueSubmitter key).2)) n := by
  obtain ⟨hsub, hworkers, -⟩ := registerQueueSubmitter_same (c := c) key
  refine books_call ⟨kept_register hinv h.kept key, ?_, h.within⟩ (by rw [hsub]; exact hi) (by rw [hpc]; rfl)
  rw [items_register, Core.holding, Core.taken, hsub, hworkers]
  exact h.slots

/-- The slot goes from the call to the item. -/
theorem books_put (hinv : Inv c) (hi : c.submits[i]? = some sub) (hpc : sub.pc = .enqueuing o)
    (item : QueuedItem Delivery) : Books limits ((c.put o item).setSubmit i sub (.finishing o none)) n := by
  obtain ⟨env, -, hk⟩ := hinv.registered i sub o hi (by rw [hpc]; rfl)
  have hobj : Kept (c.setObj o { c.objs o with ch := (c.objs o).ch ++ [item] }) :=
    kept_setObj hinv.mapped h.kept hk rfl (.inr (.inl (by simp))) (h.kept.served _ o hk)
  refine ⟨⟨hobj.live, hobj.served⟩, ?_, h.within⟩
  have hcount : (c.setSubmit i sub (.finishing o none)).holding + 1 = c.holding :=
    Pool.count_leave hi (by rw [hpc]; rfl) rfl
  have hitems := items_put (hinv.mapped _ o hk).1 item
  have hslots := h.slots
  show n = (c.setSubmit i sub (.finishing o none)).holding + (c.put o item).items + c.taken
  omega

theorem books_finishSubmit (hinv : Inv c) (hi : c.submits[i]? = some sub) {r : Option Err}
    (hpc : sub.pc = .finishing o r) : Books limits ((c.finishSubmit o).setSubmit i sub (.leaving r)) n := by
  obtain ⟨hsub, hworkers, -⟩ := finishSubmit_same (c := c) o
  refine books_call ⟨kept_finishSubmit hinv h.kept hi (by rw [hpc]; rfl), ?_, h.within⟩ (by rw [hsub]; exact hi)
    (by rw [hpc]; rfl)
  rw [items_finishSubmit, Core.holding, Core.taken, hsub, hworkers]
  exact h.slots

theorem books_worker {pc' : WorkerPc Delivery} (hw : c.workers[w]? = some pc) (ht : pc'.taken = pc.taken)
    (hkey : ∀ k, pc.key? = some k → pc'.key? = some k) : Books limits (c.setWorker w pc') n := by
  refine ⟨kept_worker h.kept hw (fun k _ _ _ hx => hkey k hx), ?_, h.within⟩
  have hcount : (c.setWorker w pc').taken = c.taken := Pool.count_keep hw ht
  show n = c.holding + c.items + (c.setWorker w pc').taken
  rw [hcount]
  exact h.slots

theorem books_select (hinv : Inv c) (hw : c.workers[w]? = some pc) (hkey : pc.key? = none) (ht : pc.taken = false)
    (hk : c.queues.lookup k = some o) : Books limits ((c.startProcessing o).setWorker w (.selected k o)) n := by
  refine ⟨kept_select hinv h.kept hw hkey hk, ?_, h.within⟩
  have hcount : (c.setWorker w (.selected k o)).taken = c.taken := Pool.count_keep hw ht.symm
  have hitems : (c.startProcessing o).items = c.items := items_same rfl
  show n = c.holding + (c.startProcessing o).items + (c.setWorker w (.selected k o)).taken
  rw [hitems, hcount]
  exact h.slots

/-- The slot goes from the item to the worker. -/
theorem books_receive (hinv : Inv c) (hw : c.workers[w]? = some (.selected k o)) {rest : List (QueuedItem Delivery)}
    (hch : (c.objs o).ch = item :: rest) : Books limits ((c.receive o item rest).setWorker w (.inside item)) n := by
  refine ⟨kept_receive hinv h.kept hw hch, ?_, h.within⟩
  obtain ⟨hk, -⟩ := hinv.selected w k o hw
  have hcount : (c.setWorker w (.inside item)).taken = c.taken + 1 := Pool.count_enter hw rfl rfl
  have hitems := items_receive (hinv.mapped k o hk).1 hch
  have hslots := h.slots
  show n = c.holding + (c.receive o item rest).items + (c.setWorker w (.inside item)).taken
  omega

theorem books_finishEvent (hinv : Inv c) (hw : c.workers[w]? = some (.finishing item)) :
    Books limits ((c.finishEvent item.key).setWorker w .releasing) n := by
  obtain ⟨hsub, hworkers, -⟩ := finishEvent_same (c := c) item.key
  refine ⟨kept_finishEvent hinv h.kept hw, ?_, h.within⟩
  have hcount : ((c.finishEvent item.key).setWorker w .releasing).taken = c.taken := by
    show ((c.finishEvent item.key).workers.set w .releasing).countP _ = _
    rw [hworkers]
    exact Pool.count_keep hw rfl
  have hholding : ((c.finishEvent item.key).setWorker w .releasing).holding = c.holding := by
    show (c.finishEvent item.key).submits.countP _ = _
    rw [hsub]
    rfl
  have hitems : ((c.finishEvent item.key).setWorker w .releasing).items = c.items := items_finishEvent item.key
  rw [hholding, hitems, hcount]
  exact h.slots

theorem books_release (hw : c.workers[w]? = some .releasing) : Books limits (c.setWorker w .ready) (n - 1) := by
  refine ⟨kept_worker h.kept hw (fun _ _ _ _ hx => nomatch hx), ?_, Nat.le_trans (Nat.sub_le n 1) h.within⟩
  have hcount : (c.setWorker w .ready).taken + 1 = c.taken := Pool.count_leave hw rfl rfl
  have hslots := h.slots
  show n - 1 = c.holding + c.items + (c.setWorker w .ready).taken
  omega

end

/-! Steps and runs. -/

theorem SubmitPc.Goes.holds {pc pc' : SubmitPc} (h : pc.Goes pc') : pc'.holds = pc.holds := by
  cases h <;> rfl

theorem WorkerPc.idle_taken {pc : WorkerPc Delivery} (h : pc.idle = true) : pc.taken = false := by
  cases pc <;> first | rfl | cases h

section
variable {limits : Limits} {s : State Delivery}

theorem books_launch {c : Core Delivery} {n : Nat} (h : Books limits c n) (m : Nat) :
    Books limits { c with workers := c.workers ++ List.replicate m .ready } n := by
  refine ⟨⟨h.kept.live, ?_⟩, ?_, h.within⟩
  · intro k o hk hp
    obtain ⟨w, pc, hw, hkey⟩ := h.kept.served k o hk hp
    exact ⟨w, pc, Pool.get_append_of hw, hkey⟩
  · have hnone : (List.replicate m (WorkerPc.ready : WorkerPc Delivery)).countP (fun pc => pc.taken) = 0 := by
      rw [List.countP_eq_zero]
      intro pc hpc
      rw [List.eq_of_mem_replicate hpc]
      simp [WorkerPc.taken]
    show n = c.holding + c.items + List.countP (fun pc => pc.taken) (c.workers ++ List.replicate m .ready)
    rw [List.countP_append, hnone, Nat.add_zero]
    exact h.slots

theorem Steps.books {c d : Core Delivery} {n m : Nat} {a : Act Delivery} (hinv : Inv c) (h : Books limits c n)
    (hs : Steps limits c n a d m) : Books limits d m := by
  cases hs with
  | quiet => exact h
  | launch => exact books_launch h limits.workerCount
  | submit item ctx =>
    refine ⟨⟨h.kept.live, h.kept.served⟩, ?_, h.within⟩
    show n = List.countP (fun sub => sub.pc.holds) (c.submits ++ [⟨item, ctx, .validating⟩]) + c.items + c.taken
    rw [List.countP_append]
    exact h.slots
  | cancel hi err =>
    rename_i i sub
    refine ⟨⟨h.kept.live, h.kept.served⟩, ?_, h.within⟩
    have hcount : (c.submits.set i { sub with ctx := .done err }).countP (fun sub => sub.pc.holds) = c.holding :=
      Pool.count_keep hi rfl
    show n = (c.submits.set i { sub with ctx := .done err }).countP (fun sub => sub.pc.holds) + c.items + c.taken
    rw [hcount]
    exact h.slots
  | call hi hgo => exact books_call h hi hgo.holds
  | acquire hi hpc hfree => exact books_acquire h hi hpc hfree
  | register hi hpc => exact books_register h hinv hi hpc _
  | put hi hpc => exact books_put h hinv hi hpc _
  | giveBack hi hpc => exact books_giveBack h hi hpc
  | finishSubmit hi hpc => exact books_finishSubmit h hinv hi hpc
  | turn hw hidle hidle' =>
    refine books_worker h hw ((WorkerPc.idle_taken hidle').trans (WorkerPc.idle_taken hidle).symm) ?_
    intro k hk
    rw [WorkerPc.idle_key hidle] at hk
    cases hk
  | select hw hk => exact books_select h hinv hw rfl rfl hk
  | receive hw hch => exact books_receive h hinv hw hch
  | processed hw => exact books_worker h hw rfl (fun _ hk => hk)
  | finishEvent hw => exact books_finishEvent h hinv hw
  | release hw => exact books_release h hw

theorem init_books : Books limits (init : State Delivery).toCore (init : State Delivery).globalSem := by
  refine ⟨⟨?_, ?_⟩, rfl, Nat.zero_le _⟩
  · intro o ho
    cases ho
  · intro k o hk
    cases hk

theorem run_books {ls : List (Act Delivery)} (h : Machine.run (next limits) init ls = some s) :
    Inv s.toCore ∧ Books limits s.toCore s.globalSem :=
  Machine.run_invariant (fun s => Inv s.toCore ∧ Books limits s.toCore s.globalSem) ⟨init_inv, init_books⟩
    (fun _ _ _ hs hn => ⟨(next_steps hn).inv hs.1, (next_steps hn).books hs.1 hs.2⟩) h

end

/-- An object that is neither registered with nor full nor worked on is not in the map. -/
theorem empty_of_idle {c : Core Delivery} (hinv : Inv c) (h : Kept c) (hcalls : ∀ sub ∈ c.submits, sub.pc.queue? = none)
    (hworkers : ∀ pc ∈ c.workers, pc.key? = none) (hch : ∀ o, o < c.fresh → (c.objs o).ch = []) : c.queues = [] := by
  have hnone : ∀ k o, c.queues.lookup k ≠ some o := by
    intro k o hk
    obtain ⟨hlt, hpk⟩ := hinv.mapped k o hk
    have huse := (h.live o hlt).mp (by rw [hpk]; exact hk)
    rcases huse with hsub | hfull | hp
    · rw [hinv.submitters o hlt] at hsub
      obtain ⟨sub, hmem, hq⟩ := List.countP_pos_iff.mp (Int.natCast_pos.mp hsub)
      rw [hcalls sub hmem] at hq
      cases hq
    · exact hfull (hch o hlt)
    · obtain ⟨w, pc, hw, hkey⟩ := h.served k o hk hp
      rw [hworkers pc (List.mem_of_getElem? hw)] at hkey
      cases hkey
  cases hq : c.queues with
  | nil => rfl
  | cons e rest =>
    obtain ⟨k, o⟩ := e
    have hfirst : c.queues.lookup k = some o := by rw [hq, List.lookup_cons_self]
    exact absurd hfirst (hnone k o)

/-- In every state of every run, whatever the limits and the interleaving: the slots in use are
    the Submit calls that hold one for an item in no channel, the items in the channels and
    the workers with an item, and are no more than there are; an object with a registered
    call, an item in its channel or the mark of a worker is the one the map has for its key,
    and a worker has marked the object of its key; and where no call is registered, no
    worker has a key and the channels are empty, so is the map. -/
theorem queue_accounts (limits : Limits) (ls : List (Act Delivery)) (s : State Delivery)
    (h : Machine.run (next limits) init ls = some s) :
    s.globalSem = s.submits.countP (fun sub => sub.pc.holds) +
      ∑ o ∈ Finset.range s.fresh, (s.objs o).ch.length + s.workers.countP (fun pc => pc.taken) ∧
    s.globalSem ≤ limits.maxGlobalInFlight ∧
    (∀ (i : Nat) sub o, s.submits[i]? = some sub → sub.pc.queue? = some o →
      s.queues.lookup (s.objs o).partitionKey = some o) ∧
    (∀ o, o < s.fresh → (0 < (s.objs o).submitters ∨ (s.objs o).ch ≠ [] ∨ (s.objs o).processing = true) →
      s.queues.lookup (s.objs o).partitionKey = some o) ∧
    (∀ (w : Nat) pc k, s.workers[w]? = some pc → pc.key? = some k →
      ∃ o, o < s.fresh ∧ (s.objs o).partitionKey = k ∧ (s.objs o).processing = true ∧ s.queues.lookup k = some o) ∧
    ((∀ sub ∈ s.submits, sub.pc.queue? = none) → (∀ pc ∈ s.workers, pc.key? = none) →
      (∀ o, o < s.fresh → (s.objs o).ch = []) → s.queues = []) := by
  obtain ⟨hinv, hbooks⟩ := run_books h
  refine ⟨hbooks.slots, hbooks.within, ?_, ?_, ?_, empty_of_idle hinv hbooks.kept⟩
  · intro i sub o hi hq
    obtain ⟨env, -, hk⟩ := hinv.registered i sub o hi hq
    rw [(hinv.mapped _ o hk).2]
    exact hk
  · intro o ho huse
    exact (hbooks.kept.live o ho).mpr huse
  · intro w pc k hw hkey
    obtain ⟨o, hk, hp⟩ := hinv.busy w pc k hw hkey
    obtain ⟨hlt, hpk⟩ := hinv.mapped k o hk
    exact ⟨o, hlt, hpk, hp, hk⟩

/-- Two items of one key, of which a worker has the first: two slots. -/
theorem queue_accounts_two_items :
    ∃ s, Machine.run (next Sample.limits) init Sample.twoItems = some s ∧ s.globalSem = 2 ∧
      s.submits.countP (fun sub => sub.pc.holds) + ∑ o ∈ Finset.range s.fresh, (s.objs o).ch.length +
        s.workers.countP (fun pc => pc.taken) = 2 := by
  have hrun : (Machine.run (next Sample.limits) init Sample.twoItems).map (fun s => s.globalSem) = some 2 := by
    decide +kernel
  obtain ⟨s, hs, hsem⟩ := Option.map_eq_some_iff.mp hrun
  exact ⟨s, hs, hsem, (queue_accounts Sample.limits Sample.twoItems s hs).1.symm.trans hsem⟩

/-- A Submit call that has returned an error leaves nothing behind. -/
theorem refused_leaves_nothing {limits : Limits} {ls : List (Act Delivery)} {s : State Delivery}
    (h : Machine.run (next limits) init ls = some s) {i : Nat} {sub : Submission Delivery} {err : Err}
    (hi : s.submits[i]? = some sub) (hpc : sub.pc = .returned (some err)) :
    (∀ q ∈ s.entered, q.id ≠ i) ∧ ∀ k, ∀ q ∈ s.waiting k, q.id ≠ i := by
  have hinv := run_inv h
  have hsent : ∀ q ∈ s.sent, q.id ≠ i := by
    rintro q hq rfl
    obtain ⟨sub', hi', hplaced⟩ := hinv.origin q hq
    cases hi.symm.trans hi'
    rw [hpc] at hplaced
    cases hplaced
  refine ⟨fun q hq => hsent q (entered_mem hinv hq), fun k q hq => hsent q ?_⟩
  have hmem : q ∈ s.sent.filter (·.key = k) := by
    rw [hinv.order k]
    exact List.mem_append_right _ hq
  exact (List.mem_filter.mp hmem).1

/-- The caller of a third item gives up when the call has a slot and is registered with the key. -/
def Sample.third : State String :=
  (Machine.run (next limits) init (twoItems ++ [.submit (item "third") .live] ++
    List.replicate 4 (.submission 2 .proceed) ++
      [.cancelSubmit 2 (.msg "context canceled"), .submission 2 .cancelled] ++
    List.replicate 3 (.submission 2 .proceed))).get (by decide +kernel)

theorem third_leaves_nothing :
    (∀ q ∈ Sample.third.entered, q.id ≠ 2) ∧ ∀ k, ∀ q ∈ Sample.third.waiting k, q.id ≠ 2 :=
  refused_leaves_nothing (Option.some_get _).symm (show Sample.third.submits[2]? = some ⟨_, _, _⟩ by rfl) rfl

end FlowRule.KeyQueue
