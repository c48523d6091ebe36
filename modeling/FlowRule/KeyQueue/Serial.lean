import FlowRule.Lib.Pool
import FlowRule.KeyQueue.Queue

/- One item of a key at a time, and in order. A Submit call between its registration and its
   deregistration, and a worker between its selection of a queue and finishEvent, keep the
   queue object they use in the map. So no object in use is ever replaced, and for each key what
   was put into channels is what was given to the processor followed by what is in the channel. -/
namespace FlowRule.KeyQueue

open Pool

variable {Delivery : Type}

def SubmitPc.queue? : SubmitPc → Option Nat
  | enqueuing queue => some queue
  | givingBack queue _ => some queue
  | finishing queue _ => some queue
  | _ => none

def SubmitPc.placed : SubmitPc → Bool
  | finishing _ none => true
  | leaving none => true
  | returned none => true
  | _ => false

def WorkerPc.key? : WorkerPc Delivery → Option String
  | selected key _ => some key
  | inside item => some item.key
  | finishing item => some item.key
  | _ => none

def Core.waiting (c : Core Delivery) (k : String) : List (QueuedItem Delivery) :=
  match c.queues.lookup k with
  | some o => (c.objs o).ch
  | none => []

structure Inv (c : Core Delivery) : Prop where
  mapped : ∀ k o, c.queues.lookup k = some o → o < c.fresh ∧ (c.objs o).partitionKey = k
  registered : ∀ (i : Nat) sub o, c.submits[i]? = some sub → sub.pc.queue? = some o →
    ∃ env, sub.item.event = some env ∧ c.queues.lookup env.partitionKey = some o
  submitters : ∀ o, o < c.fresh →
    (c.objs o).submitters = (c.submits.countP (fun sub => sub.pc.queue? = some o) : Nat)
  busy : ∀ (w : Nat) pc k, c.workers[w]? = some pc → pc.key? = some k →
    ∃ o, c.queues.lookup k = some o ∧ (c.objs o).processing = true
  selected : ∀ (w : Nat) k o, c.workers[w]? = some (.selected k o) →
    c.queues.lookup k = some o ∧ (c.objs o).ch ≠ []
  alone : ∀ (w w' : Nat) pc pc' k, c.workers[w]? = some pc → c.workers[w']? = some pc' →
    pc.key? = some k → pc'.key? = some k → w = w'
  order : ∀ k, c.sent.filter (·.key = k) = c.entered.filter (·.key = k) ++ c.waiting k
  ids : (c.sent.map QueuedItem.id).Nodup
  origin : ∀ q ∈ c.sent, ∃ sub, c.submits[q.id]? = some sub ∧ sub.pc.placed = true
  placed : ∀ (i : Nat) sub, c.submits[i]? = some sub → sub.pc.placed = true →
    ∃ env, sub.item.event = some env ∧ queued i sub.item env ∈ c.sent

section
variable {c : Core Delivery} {i w o : Nat} {k : String} {q : Obj Delivery} {sub sub' : Submission Delivery}
  {pc pc' : WorkerPc Delivery}

theorem objs_self : (c.setObj o q).objs o = q := Function.update_self ..

theorem objs_other {o' : Nat} (h : o' ≠ o) : (c.setObj o q).objs o' = c.objs o' := Function.update_of_ne h ..

theorem setObj_get {α : Type} (f : Obj Delivery → α) (hf : f q = f (c.objs o)) (o' : Nat) :
    f ((c.setObj o q).objs o') = f (c.objs o') := by
  by_cases he : o' = o
  · subst he
    rw [objs_self, hf]
  · rw [objs_other he]

theorem waiting_eq (h : c.queues.lookup k = some o) : c.waiting k = (c.objs o).ch := by
  unfold Core.waiting
  rw [h]

theorem waiting_self (h : c.queues.lookup k = some o) : (c.setObj o q).waiting k = q.ch := by
  have hset : (c.setObj o q).queues.lookup k = some o := h
  rw [waiting_eq hset, objs_self]

theorem waiting_congr {c d : Core Delivery} (hqueues : d.queues.lookup k = c.queues.lookup k)
    (hch : ∀ o, c.queues.lookup k = some o → (d.objs o).ch = (c.objs o).ch) : d.waiting k = c.waiting k := by
  unfold Core.waiting
  rw [hqueues]
  split
  · exact hch _ ‹_›
  · rfl

theorem filter_snoc (l : List (QueuedItem Delivery)) (x : QueuedItem Delivery) (k : String) :
    (l ++ [x]).filter (·.key = k) = l.filter (·.key = k) ++ if x.key = k then [x] else [] := by
  rw [List.filter_append]
  by_cases hx : x.key = k <;> simp [hx]

theorem queued_set (hi : c.submits[i]? = some sub) (hq : sub'.pc.queue? = sub.pc.queue?) (o : Nat) :
    (c.submits.set i sub').countP (fun x => decide (x.pc.queue? = some o)) =
      c.submits.countP (fun x => decide (x.pc.queue? = some o)) :=
  count_keep hi (by rw [hq])

/-! Steps that leave the queues alone. -/

variable (h : Inv c)
include h

theorem inv_worker (hw : c.workers[w]? = some pc) (hkey : ∀ k, pc'.key? = some k → pc.key? = some k)
    (hsel : ∀ k o, pc' ≠ .selected k o) : Inv (c.setWorker w pc') := by
  -- whoever has a key after the step had it before
  have hold : ∀ {v : Nat} {x : WorkerPc Delivery} {k}, (c.workers.set w pc')[v]? = some x → x.key? = some k →
      ∃ y : WorkerPc Delivery, c.workers[v]? = some y ∧ y.key? = some k := by
    intro v x k hv hx
    rcases get_step hv with ⟨rfl, rfl⟩ | ⟨-, hv⟩
    · exact ⟨pc, hw, hkey k hx⟩
    · exact ⟨x, hv, hx⟩
  exact { h with
    busy := by
      intro v x k hv hx
      obtain ⟨y, hy, hyk⟩ := hold hv hx
      exact h.busy v y k hy hyk
    selected := by
      intro v k o hv
      rcases get_step hv with ⟨-, hx⟩ | ⟨-, hv⟩
      · exact absurd hx.symm (hsel k o)
      · exact h.selected v k o hv
    alone := by
      intro v v' x x' k hv hv' hx hx'
      obtain ⟨y, hy, hyk⟩ := hold hv hx
      obtain ⟨y', hy', hyk'⟩ := hold hv' hx'
      exact h.alone v v' y y' k hy hy' hyk hyk' }

theorem inv_submit (hpc : sub.pc = .validating) : Inv { c with submits := c.submits ++ [sub] } := by
  -- the new call has no queue and has placed nothing
  have hold : ∀ {j : Nat} {x}, (c.submits ++ [sub])[j]? = some x → c.submits[j]? = some x ∨ x.pc = .validating := by
    intro j x hj
    exact (get_append hj).imp_right (fun hnew => by rw [List.mem_singleton.mp hnew, hpc])
  exact { h with
    registered := by
      intro j x o hj hx
      rcases hold hj with hj | hnew
      · exact h.registered j x o hj hx
      · rw [hnew] at hx
        cases hx
    submitters := by
      intro o ho
      rw [h.submitters o ho, List.countP_append]
      simp [hpc, SubmitPc.queue?]
    origin := by
      intro q hq
      obtain ⟨x, hx, hplaced⟩ := h.origin q hq
      exact ⟨x, get_append_of hx, hplaced⟩
    placed := by
      intro j x hj hx
      rcases hold hj with hj | hnew
      · exact h.placed j x hj hx
      · rw [hnew] at hx
        cases hx }

theorem inv_launch (n : Nat) : Inv { c with workers := c.workers ++ List.replicate n .ready } := by
  -- whoever has a key is not one of the new ones
  have hold : ∀ (v : Nat) (x : WorkerPc Delivery) k, (c.workers ++ List.replicate n .ready)[v]? = some x →
      x.key? = some k → c.workers[v]? = some x := by
    intro v x k hv hx
    rcases get_append hv with hv | hnew
    · exact hv
    · rw [List.eq_of_mem_replicate hnew] at hx
      cases hx
  exact { h with
    busy := fun v x k hv hx => h.busy v x k (hold v x k hv hx) hx
    selected := fun v k o hv => h.selected v k o (hold v _ k hv rfl)
    alone := fun v v' x x' k hv hv' hx hx' => h.alone v v' x x' k (hold v x k hv hx) (hold v' x' k hv' hx') hx hx' }

/-! Steps on a queue object. -/

theorem mapped_ne {k' : String} {o' : Nat} (hk : c.queues.lookup k = some o)
    (hk' : c.queues.lookup k' = some o') (hne : k' ≠ k) : o' ≠ o := by
  intro ho
  apply hne
  rw [← (h.mapped k o hk).2, ← (h.mapped k' o' hk').2, ho]

theorem mapped_setObj (hkey : q.partitionKey = (c.objs o).partitionKey) :
    ∀ k o', (c.setObj o q).queues.lookup k = some o' →
      o' < (c.setObj o q).fresh ∧ ((c.setObj o q).objs o').partitionKey = k := by
  intro k o' hk
  obtain ⟨hlt, hpk⟩ := h.mapped k o' hk
  exact ⟨hlt, (setObj_get Obj.partitionKey hkey o').trans hpk⟩

theorem waiting_setObj {k' : String} (hk : c.queues.lookup k = some o) (hne : k' ≠ k) :
    (c.setObj o q).waiting k' = c.waiting k' :=
  waiting_congr rfl (fun _ hk' => by rw [objs_other (mapped_ne h hk hk' hne)])

theorem inv_drop (hk : c.queues.lookup k = some o) (hproc : (c.objs o).processing = false)
    (hsub : (c.objs o).submitters = 0) (hch : (c.objs o).ch = []) :
    Inv { c with queues := Assoc.drop k c.queues } := by
  have hother : ∀ {k' o'}, c.queues.lookup k' = some o' → k' ≠ k → (Assoc.drop k c.queues).lookup k' = some o' := by
    intro k' o' hk' hne
    rw [Assoc.lookup_drop, if_neg hne, hk']
  have hback : ∀ {k' o'}, (Assoc.drop k c.queues).lookup k' = some o' → c.queues.lookup k' = some o' := by
    intro k' o' hk'
    rw [Assoc.lookup_drop] at hk'
    split at hk'
    · cases hk'
    · exact hk'
  -- nobody is registered with the object or works on it
  have hfree : ∀ (i : Nat) (sub : Submission Delivery), c.submits[i]? = some sub → sub.pc.queue? ≠ some o := by
    intro i sub hi hq
    have hcount := h.submitters o (h.mapped k o hk).1
    rw [hsub] at hcount
    have hpos : 0 < c.submits.countP (fun sub => sub.pc.queue? = some o) :=
      List.countP_pos_iff.mpr ⟨sub, List.mem_of_getElem? hi, by simpa using hq⟩
    omega
  have hidle : ∀ (w : Nat) (pc : WorkerPc Delivery), c.workers[w]? = some pc → pc.key? ≠ some k := by
    intro w pc hw hkey
    obtain ⟨o', ho', hp⟩ := h.busy w pc k hw hkey
    rw [hk] at ho'
    cases ho'
    rw [hproc] at hp
    cases hp
  refine ⟨fun k' o' hk' => h.mapped k' o' (hback hk'), ?_, h.submitters, ?_, ?_, h.alone, ?_, h.ids, h.origin, h.placed⟩
  · intro i sub o' hi hq
    obtain ⟨env, henv, hl⟩ := h.registered i sub o' hi hq
    refine ⟨env, henv, hother hl ?_⟩
    intro he
    rw [he, hk] at hl
    cases hl
    exact hfree i sub hi hq
  · intro w pc k' hw hkey
    obtain ⟨o', ho', hp⟩ := h.busy w pc k' hw hkey
    refine ⟨o', hother ho' ?_, hp⟩
    intro he
    exact hidle w pc hw (he ▸ hkey)
  · intro w k' o' hw
    obtain ⟨hl, hne⟩ := h.selected w k' o' hw
    refine ⟨hother hl ?_, hne⟩
    intro he
    exact hidle w _ hw (congrArg some he)
  · intro k'
    rw [h.order k']
    congr 1
    by_cases he : k' = k
    · unfold Core.waiting
      rw [he, hk, Assoc.lookup_drop, if_pos rfl]
      exact hch
    · refine Eq.symm (waiting_congr ?_ (fun _ _ => rfl))
      rw [Assoc.lookup_drop, if_neg he]

theorem inv_queueFor (key : String) :
    Inv (c.queueFor key).1 ∧ (c.queueFor key).1.queues.lookup key = some (c.queueFor key).2 ∧
      (c.queueFor key).1.submits = c.submits := by
  unfold Core.queueFor
  cases hk : c.queues.lookup key with
  | some o => exact ⟨h, hk, rfl⟩
  | none =>
    refine ⟨?_, by show (Assoc.put key c.fresh c.queues).lookup key = _; rw [Assoc.lookup_put, if_pos rfl], rfl⟩
    have hother : ∀ {k' o'}, c.queues.lookup k' = some o' → (Assoc.put key c.fresh c.queues).lookup k' = some o' := by
      intro k' o' hk'
      rw [Assoc.lookup_put, if_neg, hk']
      intro he
      rw [he, hk] at hk'
      cases hk'
    have hobj : ∀ {k' o'}, c.queues.lookup k' = some o' →
        Function.update c.objs c.fresh ⟨[], key, false, 0⟩ o' = c.objs o' := by
      intro k' o' hk'
      exact Function.update_of_ne (Nat.ne_of_lt (h.mapped k' o' hk').1) ..
    refine ⟨?_, ?_, ?_, ?_, ?_, h.alone, ?_, h.ids, h.origin, h.placed⟩
    · intro k' o' hk'
      have hk'' : (Assoc.put key c.fresh c.queues).lookup k' = some o' := hk'
      rw [Assoc.lookup_put] at hk''
      show o' < c.fresh + 1 ∧ (Function.update c.objs c.fresh ⟨[], key, false, 0⟩ o').partitionKey = k'
      split at hk''
      · cases hk''
        rename_i he
        exact ⟨Nat.lt_succ_self _, by rw [Function.update_self, he]⟩
      · rw [hobj hk'']
        obtain ⟨hlt, hpk⟩ := h.mapped k' o' hk''
        exact ⟨Nat.lt_succ_of_lt hlt, hpk⟩
    · intro i sub o' hi hq
      obtain ⟨env, henv, hl⟩ := h.registered i sub o' hi hq
      exact ⟨env, henv, hother hl⟩
    · intro o' ho'
      show (Function.update c.objs c.fresh ⟨[], key, false, 0⟩ o').submitters = _
      by_cases he : o' = c.fresh
      · -- nobody can be registered with an object that did not exist
        subst he
        rw [Function.update_self]
        symm
        rw [Int.natCast_eq_zero, List.countP_eq_zero]
        intro sub hmem hq
        obtain ⟨i, hi⟩ := List.mem_iff_getElem?.mp hmem
        obtain ⟨env, -, hl⟩ := h.registered i sub c.fresh hi (of_decide_eq_true hq)
        exact Nat.lt_irrefl _ (h.mapped _ _ hl).1
      · rw [Function.update_of_ne he]
        have hlt : o' < c.fresh + 1 := ho'
        exact h.submitters o' (by omega)
    · intro w pc k' hw hkey
      obtain ⟨o', ho', hp⟩ := h.busy w pc k' hw hkey
      refine ⟨o', hother ho', ?_⟩
      show (Function.update c.objs c.fresh ⟨[], key, false, 0⟩ o').processing = true
      rw [hobj ho']
      exact hp
    · intro w k' o' hw
      obtain ⟨hl, hne⟩ := h.selected w k' o' hw
      refine ⟨hother hl, ?_⟩
      show (Function.update c.objs c.fresh ⟨[], key, false, 0⟩ o').ch ≠ []
      rw [hobj hl]
      exact hne
    · intro k'
      show c.sent.filter (·.key = k') = c.entered.filter (·.key = k') ++ _
      rw [h.order k']
      congr 1
      by_cases he : k' = key
      · subst he
        have hput : (Assoc.put k' c.fresh c.queues).lookup k' = some c.fresh := by rw [Assoc.lookup_put, if_pos rfl]
        simp only [Core.waiting, Core.setObj, hk, hput, Function.update_self]
      · refine Eq.symm (waiting_congr ?_ (fun _ hk' => congrArg Obj.ch (hobj hk')))
        exact (Assoc.lookup_put ..).trans (if_neg he)

theorem submitters_setObj (hq : q.submitters = (c.objs o).submitters) : ∀ o', o' < c.fresh →
    ((c.setObj o q).objs o').submitters = (c.submits.countP (fun sub => sub.pc.queue? = some o') : Nat) :=
  fun o' ho' => (setObj_get Obj.submitters hq o').trans (h.submitters o' ho')

theorem busy_setObj (hq : q.processing = (c.objs o).processing) : ∀ (w : Nat) pc k,
    c.workers[w]? = some pc → pc.key? = some k →
      ∃ o', c.queues.lookup k = some o' ∧ ((c.setObj o q).objs o').processing = true := by
  intro w pc k hw hkey
  obtain ⟨o', ho', hbusy⟩ := h.busy w pc k hw hkey
  exact ⟨o', ho', (setObj_get Obj.processing hq o').trans hbusy⟩

theorem selected_setObj (hq : q.ch = (c.objs o).ch) : ∀ (w : Nat) k o',
    c.workers[w]? = some (.selected k o') → c.queues.lookup k = some o' ∧ ((c.setObj o q).objs o').ch ≠ [] := by
  intro w k o' hw
  obtain ⟨hl, hne⟩ := h.selected w k o' hw
  exact ⟨hl, fun hnil => hne ((setObj_get Obj.ch hq o').symm.trans hnil)⟩

theorem order_setObj (hq : q.ch = (c.objs o).ch) (k : String) :
    c.sent.filter (·.key = k) = c.entered.filter (·.key = k) ++ (c.setObj o q).waiting k := by
  rw [h.order k, waiting_congr (c := c) (d := c.setObj o q) rfl (fun _ _ => setObj_get Obj.ch hq _)]

theorem inv_select (hw : c.workers[w]? = some pc) (hk : c.queues.lookup k = some o)
    (hsel : c.selectable o = true) : Inv ((c.startProcessing o).setWorker w (.selected k o)) := by
  have hidle : (c.objs o).processing = false ∧ (c.objs o).ch ≠ [] := by
    simp only [Core.selectable, Bool.and_eq_true, Bool.not_eq_true', decide_eq_true_eq] at hsel
    exact ⟨hsel.1, List.ne_nil_of_length_pos hsel.2⟩
  -- nobody else has the key: its queue would be marked
  have hfree : ∀ (v : Nat) (x : WorkerPc Delivery), c.workers[v]? = some x → x.key? ≠ some k := by
    intro v x hv hx
    obtain ⟨o', ho', hproc⟩ := h.busy v x k hv hx
    rw [hk] at ho'
    cases ho'
    rw [hidle.1] at hproc
    cases hproc
  have hch : ∀ o', ((c.startProcessing o).objs o').ch = (c.objs o').ch := fun o' =>
    setObj_get (q := { c.objs o with processing := true }) Obj.ch rfl o'
  refine ⟨mapped_setObj h rfl, h.registered, submitters_setObj h rfl, ?_, ?_, ?_, order_setObj h rfl, h.ids, h.origin,
    h.placed⟩
  · intro v x k' hv hx
    rcases get_step hv with ⟨rfl, rfl⟩ | ⟨-, hv⟩
    · cases hx
      exact ⟨o, hk, congrArg Obj.processing objs_self⟩
    · obtain ⟨o', ho', hproc⟩ := h.busy v x k' hv hx
      refine ⟨o', ho', ?_⟩
      show ((c.setObj o _).objs o').processing = true
      by_cases he : o' = o
      · rw [he, objs_self]
      · rw [objs_other he, hproc]
  · intro v k' o' hv
    rcases get_step hv with ⟨-, hx⟩ | ⟨-, hv⟩
    · cases hx
      exact ⟨hk, fun hnil => hidle.2 ((hch o).symm.trans hnil)⟩
    · exact selected_setObj (q := { c.objs o with processing := true }) h rfl v k' o' hv
  · intro v v' x x' k' hv hv' hx hx'
    rcases get_step hv with ⟨rfl, rfl⟩ | ⟨-, hold⟩
    · rcases get_step hv' with ⟨rfl, -⟩ | ⟨-, hold'⟩
      · rfl
      · cases hx
        exact absurd hx' (hfree v' x' hold')
    · rcases get_step hv' with ⟨rfl, rfl⟩ | ⟨-, hold'⟩
      · cases hx'
        exact absurd hx (hfree v x hold)
      · exact h.alone v v' x x' k' hold hold' hx hx'

theorem waiting_key {x : QueuedItem Delivery} (hx : x ∈ c.waiting k) : x.key = k := by
  have hmem : x ∈ c.sent.filter (·.key = k) := by
    rw [h.order k]
    exact List.mem_append_right _ hx
  exact of_decide_eq_true (List.mem_filter.mp hmem).2

/-- The item at the head of the channel is given to the processor. -/
theorem inv_receive (hw : c.workers[w]? = some (.selected k o)) {item : QueuedItem Delivery}
    {rest : List (QueuedItem Delivery)} (hch : (c.objs o).ch = item :: rest) :
    Inv ((c.receive o item rest).setWorker w (.inside item)) := by
  obtain ⟨hk, -⟩ := h.selected w k o hw
  have hwait : c.waiting k = item :: rest := (waiting_eq hk).trans hch
  have hkey : item.key = k := by
    apply waiting_key h
    rw [hwait]
    exact List.mem_cons_self
  have hold : ∀ k', (WorkerPc.inside item).key? = some k' →
      (WorkerPc.selected k o : WorkerPc Delivery).key? = some k' := by
    intro k' hk'
    rw [← hk']
    exact congrArg some hkey.symm
  -- the worker keeps the key, so only the channel and the history move
  have hthreads := inv_worker h hw hold (fun _ _ => by simp)
  refine ⟨mapped_setObj h rfl, h.registered, submitters_setObj h rfl, busy_setObj hthreads rfl, ?_, hthreads.alone, ?_,
    h.ids, h.origin, h.placed⟩
  · intro v k' o' hv
    rcases get_step hv with ⟨-, hx⟩ | ⟨hne, hv⟩
    · cases hx
    obtain ⟨hl, hfull⟩ := h.selected v k' o' hv
    refine ⟨hl, ?_⟩
    have hk' : k' ≠ k := by
      intro he
      exact hne (h.alone v w _ _ k hv hw (congrArg some he) rfl)
    show ((c.setObj o _).objs o').ch ≠ []
    rw [objs_other (mapped_ne h hk hl hk')]
    exact hfull
  · intro k'
    show c.sent.filter (·.key = k') = (c.entered ++ [item]).filter (·.key = k') ++ (c.setObj o _).waiting k'
    rw [h.order k', filter_snoc, hkey]
    by_cases he : k = k'
    · subst he
      rw [if_pos rfl, waiting_self hk, hwait, List.append_assoc]
      rfl
    · rw [if_neg he, List.append_nil, waiting_setObj h hk (Ne.symm he)]

/-- The worker gives its key up; where the queue is then unused, the key is deleted. -/
theorem inv_finishEvent {item : QueuedItem Delivery} (hw : c.workers[w]? = some (.finishing item)) :
    Inv ((c.finishEvent item.key).setWorker w .releasing) := by
  obtain ⟨o, hk, -⟩ := h.busy w _ item.key hw rfl
  have hthreads : Inv (c.setWorker w .releasing) := inv_worker h hw (fun _ hk' => by cases hk') (fun _ _ => by simp)
  -- no other worker has the key
  have hfree : ∀ (v : Nat) (x : WorkerPc Delivery), (c.workers.set w .releasing)[v]? = some x →
      x.key? ≠ some item.key := by
    intro v x hv hx
    rcases get_step hv with ⟨-, rfl⟩ | ⟨hne, hv⟩
    · cases hx
    · exact hne (h.alone v w x _ item.key hv hw hx rfl)
  have hcore : ∀ q, q = { c.objs o with processing := false } → Inv ((c.setObj o q).setWorker w .releasing) := by
    intro q hq
    have hch : q.ch = (c.objs o).ch := by rw [hq]
    have hsub : q.submitters = (c.objs o).submitters := by rw [hq]
    refine ⟨mapped_setObj h (by rw [hq]), h.registered, submitters_setObj h hsub, ?_, selected_setObj hthreads hch,
      hthreads.alone, order_setObj h hch, h.ids, h.origin, h.placed⟩
    · intro v x k' hv hx
      obtain ⟨o', ho', hbusy⟩ := hthreads.busy v x k' hv hx
      refine ⟨o', ho', ?_⟩
      have hne : k' ≠ item.key := by
        intro he
        exact hfree v x hv (he ▸ hx)
      show ((c.setObj o _).objs o').processing = true
      rw [objs_other (mapped_ne h hk ho' hne)]
      exact hbusy
  unfold Core.finishEvent
  rw [hk]
  simp only
  split
  · rename_i hdrop
    have hdel := inv_drop (hcore _ rfl) (k := item.key) (o := o) hk
    simp only [Core.setWorker, objs_self] at hdel
    exact hdel trivial hdrop.1 (List.length_eq_zero_iff.mp hdrop.2)
  · exact hcore _ rfl

/-! Steps of a Submit call. -/

variable {env : EventEnvelope} (hi : c.submits[i]? = some sub)
include hi

theorem origin_set (hp : sub'.pc.placed = sub.pc.placed) :
    ∀ q ∈ c.sent, ∃ x, (c.submits.set i sub')[q.id]? = some x ∧ x.pc.placed = true := by
  intro q hq
  obtain ⟨x, hx, hplaced⟩ := h.origin q hq
  by_cases hqi : q.id = i
  · refine ⟨sub', by rw [hqi]; exact get_self hi, ?_⟩
    rw [hqi, hi] at hx
    cases hx
    exact hp.trans hplaced
  · exact ⟨x, by rw [← hx]; exact get_other hqi, hplaced⟩

theorem placed_set (hitem : sub'.item = sub.item) (hp : sub'.pc.placed = sub.pc.placed) :
    ∀ (j : Nat) x, (c.submits.set i sub')[j]? = some x → x.pc.placed = true →
      ∃ env, x.item.event = some env ∧ queued j x.item env ∈ c.sent := by
  intro j x hj hx
  rcases get_step hj with ⟨rfl, rfl⟩ | ⟨-, hj⟩
  · rw [hitem]
    exact h.placed j sub hi (hp ▸ hx)
  · exact h.placed j x hj hx

theorem registered_set (hitem : sub'.item = sub.item) (hq : ∀ o, sub'.pc.queue? = some o → sub.pc.queue? = some o) :
    ∀ (j : Nat) x o, (c.submits.set i sub')[j]? = some x → x.pc.queue? = some o →
      ∃ env, x.item.event = some env ∧ c.queues.lookup env.partitionKey = some o := by
  intro j x o hj hx
  rcases get_step hj with ⟨rfl, rfl⟩ | ⟨-, hj⟩
  · rw [hitem]
    exact h.registered j sub o hi (hq o hx)
  · exact h.registered j x o hj hx

theorem inv_submission (hitem : sub'.item = sub.item) (hq : sub'.pc.queue? = sub.pc.queue?)
    (hp : sub'.pc.placed = sub.pc.placed) : Inv { c with submits := c.submits.set i sub' } :=
  { h with
    registered := registered_set h hi hitem (fun _ hx => hq ▸ hx)
    submitters := fun o ho => (h.submitters o ho).trans (congrArg _ (queued_set hi hq o).symm)
    origin := origin_set h hi hp
    placed := placed_set h hi hitem hp }

/-- A step of a Submit call and of the object it uses: the count of the object changes with
    the call, and the object is the same otherwise. -/
theorem inv_count (hitem : sub'.item = sub.item)
    (hp : sub'.pc.placed = sub.pc.placed) (henv : sub.item.event = some env)
    (hk : c.queues.lookup env.partitionKey = some o) (hreg : ∀ o', sub'.pc.queue? = some o' → o' = o)
    (hold : ∀ o', sub.pc.queue? = some o' → o' = o) (hpk : q.partitionKey = (c.objs o).partitionKey)
    (hch : q.ch = (c.objs o).ch) (hproc : q.processing = (c.objs o).processing)
    (hq : q.submitters = ((c.submits.set i sub').countP (fun x => x.pc.queue? = some o) : Nat)) :
    Inv { c.setObj o q with submits := c.submits.set i sub' } := by
  have hcounts : ∀ o', o' ≠ o → (c.submits.set i sub').countP (fun x => decide (x.pc.queue? = some o')) =
      c.submits.countP (fun x => decide (x.pc.queue? = some o')) := by
    intro o' hne
    apply count_keep hi
    have hno : sub.pc.queue? ≠ some o' := fun he => hne (hold o' he)
    have hno' : sub'.pc.queue? ≠ some o' := fun he => hne (hreg o' he)
    simp only [hno, hno']
  refine ⟨mapped_setObj h hpk, ?_, ?_, busy_setObj h hproc, selected_setObj h hch, h.alone, order_setObj h hch, h.ids,
    origin_set h hi hp, placed_set h hi hitem hp⟩
  · intro j x o' hj hx
    rcases get_step hj with ⟨rfl, rfl⟩ | ⟨-, hj⟩
    · obtain rfl := hreg o' hx
      exact ⟨env, hitem ▸ henv, hk⟩
    · exact h.registered j x o' hj hx
  · intro o' ho'
    show ((c.setObj o q).objs o').submitters =
      (((c.submits.set i sub').countP (fun x => decide (x.pc.queue? = some o')) : Nat) : Int)
    by_cases he : o' = o
    · subst he
      rw [objs_self, hq]
    · rw [objs_other he, hcounts o' he]
      exact h.submitters o' ho'

theorem inv_increment (hpc : sub.pc = .registering)
    (henv : sub.item.event = some env) (hk : c.queues.lookup env.partitionKey = some o) :
    Inv ((c.setObj o { c.objs o with submitters := (c.objs o).submitters + 1 }).setSubmit i sub (.enqueuing o)) := by
  refine inv_count h hi rfl (by rw [hpc]; rfl) henv hk ?_ ?_ rfl rfl rfl ?_
  · intro o' ho'
    exact (Option.some.inj ho').symm
  · intro o' ho'
    rw [hpc] at ho'
    cases ho'
  · have hcount : (c.submits.set i { sub with pc := .enqueuing o }).countP (fun x => decide (x.pc.queue? = some o)) =
        c.submits.countP (fun x => decide (x.pc.queue? = some o)) + 1 :=
      count_enter hi (by rw [hpc]; rfl) (decide_eq_true rfl)
    show (c.objs o).submitters + 1 = _
    rw [hcount, h.submitters o (h.mapped _ _ hk).1]
    rfl

theorem inv_register (hpc : sub.pc = .registering) (henv : sub.item.event = some env) :
    Inv ((c.registerQueueSubmitter env.partitionKey).1.setSubmit i sub
      (.enqueuing (c.registerQueueSubmitter env.partitionKey).2)) := by
  obtain ⟨h', hk, hsame⟩ := inv_queueFor h env.partitionKey
  have hi' : (c.queueFor env.partitionKey).1.submits[i]? = some sub := by rw [hsame, hi]
  exact inv_increment h' hi' hpc henv hk

theorem registered_queue (hq : sub.pc.queue? = some o)
    (henv : sub.item.event = some env) : c.queues.lookup env.partitionKey = some o := by
  obtain ⟨env', henv', hk⟩ := h.registered i sub o hi hq
  rw [henv] at henv'
  cases henv'
  exact hk

/-- A call deregisters; where the queue is then unused, its key is deleted. -/
theorem inv_finishSubmit {r : Option Err} (hpc : sub.pc = .finishing o r) :
    Inv ((c.finishSubmit o).setSubmit i sub (.leaving r)) := by
  obtain ⟨env, henv, hk⟩ := h.registered i sub o hi (by rw [hpc]; rfl)
  have hcount : (c.submits.set i { sub with pc := .leaving r }).countP (fun x => decide (x.pc.queue? = some o)) + 1 =
      c.submits.countP (fun x => decide (x.pc.queue? = some o)) :=
    count_leave hi (by rw [hpc]; exact decide_eq_true rfl) rfl
  have hobj := h.submitters o (h.mapped _ _ hk).1
  have hless : (if (c.objs o).submitters - 1 < 0 then 0 else (c.objs o).submitters - 1) =
      (((c.submits.set i { sub with pc := .leaving r }).countP (fun x => x.pc.queue? = some o) : Nat) : Int) := by
    rw [hobj]
    split <;> omega
  have hplaced : (SubmitPc.leaving r).placed = sub.pc.placed := by
    rw [hpc]
    cases r <;> rfl
  have hcore : Inv ((c.setObj o { c.objs o with
      submitters := if (c.objs o).submitters - 1 < 0 then 0 else (c.objs o).submitters - 1 }).setSubmit i sub
        (.leaving r)) := by
    refine inv_count h hi rfl hplaced henv hk ?_ ?_ rfl rfl rfl hless
    · intro o' ho'
      cases ho'
    · intro o' ho'
      rw [hpc] at ho'
      exact (Option.some.inj ho').symm
  unfold Core.finishSubmit
  simp only
  generalize (if (c.objs o).submitters - 1 < 0 then 0 else (c.objs o).submitters - 1) = n at hcore ⊢
  split
  · rename_i hdrop
    obtain ⟨hl, hproc, hzero, hlen⟩ := hdrop
    have hdel := inv_drop hcore (k := (c.objs o).partitionKey) (o := o) hl
    simp only [Core.setSubmit, objs_self] at hdel
    exact hdel hproc hzero (List.length_eq_zero_iff.mp hlen)
  · exact hcore

theorem inv_put (hpc : sub.pc = .enqueuing o) (henv : sub.item.event = some env) :
    Inv ((c.put o (queued i sub.item env)).setSubmit i sub (.finishing o none)) := by
  have hk := registered_queue h hi (by rw [hpc]; rfl) henv
  have hplaced : sub.pc.placed = false := by
    rw [hpc]
    rfl
  -- the item is new: only calls that have placed their item are in the history
  have hnew : ∀ x ∈ c.sent, x.id ≠ i := by
    intro x hx hxi
    obtain ⟨y, hy, hyp⟩ := h.origin x hx
    rw [hxi, hi] at hy
    cases hy
    rw [hplaced] at hyp
    cases hyp
  have hnotin : i ∉ c.sent.map QueuedItem.id := by
    intro hmem
    obtain ⟨x, hx, hxi⟩ := List.mem_map.mp hmem
    exact hnew x hx hxi
  have hset : sub.pc.queue? = ({ sub with pc := .finishing o none } : Submission Delivery).pc.queue? := by
    rw [hpc]
    rfl
  refine ⟨mapped_setObj h rfl, registered_set (c := c) h hi rfl (fun _ hx => hset ▸ hx), ?_, busy_setObj h rfl, ?_,
    h.alone, ?_, ?_, ?_, ?_⟩
  · intro o' ho'
    exact (submitters_setObj (q := { c.objs o with ch := (c.objs o).ch ++ [queued i sub.item env] }) h rfl o' ho').trans
      (congrArg _ (queued_set hi hset.symm o').symm)
  · intro w k' o' hw
    obtain ⟨hl, hne⟩ := h.selected w k' o' hw
    refine ⟨hl, ?_⟩
    show ((c.setObj o _).objs o').ch ≠ []
    by_cases he : o' = o
    · subst he
      rw [objs_self]
      simp
    · rw [objs_other he]
      exact hne
  · intro k'
    show (c.sent ++ [queued i sub.item env]).filter (·.key = k') = c.entered.filter (·.key = k') ++
      (c.setObj o _).waiting k'
    rw [filter_snoc, h.order k']
    by_cases he : env.partitionKey = k'
    · subst he
      rw [if_pos (by rfl), waiting_self hk, waiting_eq hk, List.append_assoc]
    · rw [if_neg (by exact he), List.append_nil, waiting_setObj h hk (Ne.symm he)]
  · show ((c.sent ++ [queued i sub.item env]).map QueuedItem.id).Nodup
    rw [List.map_append, List.map_singleton]
    exact List.nodup_append.mpr ⟨h.ids, List.nodup_singleton _, by
      intro a ha b hb hab
      rw [List.mem_singleton] at hb
      subst hab
      subst hb
      exact hnotin ha⟩
  · intro x hx
    rcases List.mem_append.mp hx with hx | hx
    · obtain ⟨y, hy, hyp⟩ := h.origin x hx
      exact ⟨y, by rw [← hy]; exact get_other (hnew x hx), hyp⟩
    · rw [List.mem_singleton.mp hx]
      exact ⟨_, get_self hi, rfl⟩
  · intro j x hj hx
    rcases get_step hj with ⟨rfl, rfl⟩ | ⟨-, hj⟩
    · exact ⟨env, henv, List.mem_append_right _ (List.mem_singleton_self _)⟩
    · obtain ⟨env', henv', hmem⟩ := h.placed j x hj hx
      exact ⟨env', henv', List.mem_append_left _ hmem⟩

end

/-! Steps and runs. -/

inductive SubmitPc.Goes : SubmitPc → SubmitPc → Prop
  | refused (err : Err) : Goes .validating (.returned (some err))
  | valid : Goes .validating .beginning
  | notRunning (err : Err) : Goes .beginning (.returned (some err))
  | begun : Goes .beginning .acquiring
  | gaveUp (err : Err) : Goes .acquiring (.leaving (some err))
  | interrupted (queue : Nat) (err : Err) : Goes (.enqueuing queue) (.givingBack queue err)
  | left (r : Option Err) : Goes (.leaving r) (.returned r)

def WorkerPc.idle : WorkerPc Delivery → Bool
  | selected _ _ => false
  | inside _ => false
  | finishing _ => false
  | releasing => false
  | _ => true

inductive Steps (limits : Limits) (c : Core Delivery) (n : Nat) : Act Delivery → Core Delivery → Nat → Prop
  | quiet {a : Act Delivery} (h : a = .start ∨ a = .stop ∨ a = .closeWorkers ∨ a = .cancelWorkers) :
      Steps limits c n a c n
  | launch : Steps limits c n .start { c with workers := c.workers ++ List.replicate limits.workerCount .ready } n
  | submit (item : QueueItem Delivery) (ctx : Ctx) :
    Steps limits c n (.submit item ctx) { c with submits := c.submits ++ [⟨item, ctx, .validating⟩] } n
  | cancel {i : Nat} {sub : Submission Delivery} (hi : c.submits[i]? = some sub) (err : Err) :
    Steps limits c n (.cancelSubmit i err) { c with submits := c.submits.set i { sub with ctx := .done err } } n
  | call {i : Nat} {sub : Submission Delivery} {case : Case} {pc : SubmitPc} (hi : c.submits[i]? = some sub)
    (h : sub.pc.Goes pc) : Steps limits c n (.submission i case) (c.setSubmit i sub pc) n
  | acquire {i : Nat} {sub : Submission Delivery} {case : Case} (hi : c.submits[i]? = some sub)
      (hpc : sub.pc = .acquiring)
    (h : n < limits.maxGlobalInFlight) : Steps limits c n (.submission i case) (c.setSubmit i sub .registering) (n + 1)
  | register {i : Nat} {sub : Submission Delivery} {case : Case} {env : EventEnvelope} (hi : c.submits[i]? = some sub)
    (hpc : sub.pc = .registering) (henv : sub.item.event = some env) :
    Steps limits c n (.submission i case) ((c.registerQueueSubmitter env.partitionKey).1.setSubmit i sub
      (.enqueuing (c.registerQueueSubmitter env.partitionKey).2)) n
  | put {i o : Nat} {sub : Submission Delivery} {case : Case} {env : EventEnvelope} (hi : c.submits[i]? = some sub)
    (hpc : sub.pc = .enqueuing o) (henv : sub.item.event = some env) :
    Steps limits c n (.submission i case) ((c.put o (queued i sub.item env)).setSubmit i sub (.finishing o none)) n
  | giveBack {i o : Nat} {sub : Submission Delivery} {case : Case} {err : Err} (hi : c.submits[i]? = some sub)
    (hpc : sub.pc = .givingBack o err) :
    Steps limits c n (.submission i case) (c.setSubmit i sub (.finishing o (some err))) (n - 1)
  | finishSubmit {i o : Nat} {sub : Submission Delivery} {case : Case} {r : Option Err} (hi : c.submits[i]? = some sub)
    (hpc : sub.pc = .finishing o r) :
    Steps limits c n (.submission i case) ((c.finishSubmit o).setSubmit i sub (.leaving r)) n
  | turn {w : Nat} {order : List String} {case : Case} {pc pc' : WorkerPc Delivery} (hw : c.workers[w]? = some pc)
    (h : pc.idle = true) (h' : pc'.idle = true) : Steps limits c n (.worker w order case) (c.setWorker w pc') n
  | select {w o : Nat} {order rest : List String} {case : Case} {k : String}
      (hw : c.workers[w]? = some (.scanning rest))
    (hk : c.queues.lookup k = some o) (hsel : c.selectable o = true) :
    Steps limits c n (.worker w order case) ((c.startProcessing o).setWorker w (.selected k o)) n
  | receive {w o : Nat} {order : List String} {case : Case} {k : String} {item : QueuedItem Delivery}
    {rest : List (QueuedItem Delivery)} (hw : c.workers[w]? = some (.selected k o))
      (hch : (c.objs o).ch = item :: rest) :
    Steps limits c n (.worker w order case) ((c.receive o item rest).setWorker w (.inside item)) n
  | processed {w : Nat} {order : List String} {case : Case} {item : QueuedItem Delivery}
    (hw : c.workers[w]? = some (.inside item)) :
      Steps limits c n (.worker w order case) (c.setWorker w (.finishing item)) n
  | finishEvent {w : Nat} {order : List String} {case : Case} {item : QueuedItem Delivery}
    (hw : c.workers[w]? = some (.finishing item)) :
    Steps limits c n (.worker w order case) ((c.finishEvent item.key).setWorker w .releasing) n
  | release {w : Nat} {order : List String} {case : Case} (hw : c.workers[w]? = some .releasing) :
    Steps limits c n (.worker w order case) (c.setWorker w .ready) (n - 1)

section
variable {limits : Limits} {s t : State Delivery} {i w : Nat} {sub : Submission Delivery} {case : Case}

theorem submitStep_steps (hi : s.submits[i]? = some sub) (hn : submitStep limits s i sub case = some t) :
    Steps limits s.toCore s.globalSem (.submission i case) t.toCore t.globalSem := by
  unfold submitStep at hn
  split at hn
  · -- validating
    rename_i hpc
    split at hn <;> cases hn
    · exact .call hi (hpc ▸ .refused _)
    · exact .call hi (hpc ▸ .valid)
  · -- beginning
    rename_i hpc
    cases hn
    unfold beginSubmission
    split
    · exact .call hi (hpc ▸ .notRunning _)
    · exact .call hi (hpc ▸ .begun)
  · -- acquiring
    rename_i hpc
    unfold acquireGlobalSlot at hn
    split at hn
    · split at hn <;> cases hn
      exact .acquire hi hpc ‹_›
    · obtain ⟨err, -, rfl⟩ := Option.map_eq_some_iff.mp hn
      exact .call hi (hpc ▸ .gaveUp err)
  · -- registering
    rename_i env hpc henv
    split at hn <;> cases hn
    exact .register hi hpc henv
  · -- enqueuing
    rename_i o env hpc henv
    unfold enqueueItem at hn
    split at hn
    · split at hn <;> cases hn
      exact .put hi hpc henv
    · obtain ⟨err, -, rfl⟩ := Option.map_eq_some_iff.mp hn
      exact .call hi (hpc ▸ .interrupted o err)
  · rename_i o err hpc
    split at hn <;> cases hn
    exact .giveBack hi hpc
  · rename_i o r hpc
    split at hn <;> cases hn
    exact .finishSubmit hi hpc
  · rename_i r hpc
    cases hn
    exact .call hi (hpc ▸ .left r)
  · cases hn

theorem scanStep_steps {rest order : List String} (hw : s.workers[w]? = some (.scanning rest)) :
    Steps limits s.toCore s.globalSem (.worker w order case) (scanStep s w rest).toCore
      (scanStep s w rest).globalSem := by
  cases rest with
  | nil => exact .turn hw rfl rfl
  | cons key rest =>
    simp only [scanStep]
    split
    · exact .turn hw rfl rfl
    rename_i o hk
    split
    · exact .select hw hk ‹_›
    · exact .turn hw rfl rfl

theorem workerStep_steps {pc : WorkerPc Delivery} (hw : s.workers[w]? = some pc) {order : List String}
    (hn : workerStep s w pc order case = some t) :
    Steps limits s.toCore s.globalSem (.worker w order case) t.toCore t.globalSem := by
  cases pc with
  | ready =>
    cases hn
    refine .turn hw rfl ?_
    split <;> rfl
  | polling =>
    simp only [workerStep] at hn
    split at hn <;> cases hn
    exact .turn hw rfl rfl
  | scanning rest =>
    cases hn
    exact scanStep_steps hw
  | selected k o =>
    simp only [workerStep] at hn
    split at hn <;> cases hn
    exact .receive hw ‹_›
  | inside item =>
    cases hn
    exact .processed hw
  | finishing item =>
    simp only [workerStep] at hn
    split at hn <;> cases hn
    exact .finishEvent hw
  | releasing =>
    simp only [workerStep] at hn
    split at hn <;> cases hn
    exact .release hw
  | waiting =>
    simp only [workerStep, waitForQueueWork] at hn
    split at hn
    · cases hn
      exact .turn hw rfl rfl
    · split at hn <;> cases hn
      exact .turn hw rfl rfl
    · split at hn <;> cases hn
      exact .turn hw rfl rfl
  | gone => cases hn

theorem next_steps {a : Act Delivery} (hn : next limits s a = some t) :
    Steps limits s.toCore s.globalSem a t.toCore t.globalSem := by
  cases a with
  | start =>
    cases hn
    unfold start
    split
    · exact .quiet (by simp)
    · exact .launch
  | stop => cases hn; exact .quiet (by simp)
  | closeWorkers =>
    simp only [next] at hn
    split at hn <;> cases hn
    exact .quiet (by simp)
  | cancelWorkers => cases hn; exact .quiet (by simp)
  | submit item ctx => cases hn; exact .submit item ctx
  | cancelSubmit i err =>
    simp only [next] at hn
    split at hn
    · rename_i sub hi
      split at hn <;> cases hn
      exact .cancel hi err
    · cases hn
  | submission i case =>
    simp only [next] at hn
    split at hn
    · exact submitStep_steps ‹_› hn
    · cases hn
  | worker w order case =>
    simp only [next] at hn
    split at hn
    · exact workerStep_steps ‹_› hn
    · cases hn

theorem SubmitPc.Goes.same {pc pc' : SubmitPc} (h : pc.Goes pc') : pc'.queue? = pc.queue? ∧ pc'.placed = pc.placed := by
  cases h with
  | left r => cases r <;> exact ⟨rfl, rfl⟩
  | _ => exact ⟨rfl, rfl⟩

theorem WorkerPc.idle_key {pc : WorkerPc Delivery} (h : pc.idle = true) : pc.key? = none := by
  cases pc <;> first | rfl | cases h

theorem inv_free {c : Core Delivery} {pc pc' : WorkerPc Delivery} (h : Inv c) (hw : c.workers[w]? = some pc)
    (hidle : pc'.idle = true) : Inv (c.setWorker w pc') := by
  have hkey := WorkerPc.idle_key hidle
  refine inv_worker h hw ?_ ?_
  · intro k hk
    rw [hkey] at hk
    cases hk
  · intro k o he
    rw [he] at hkey
    cases hkey

theorem Steps.inv {c d : Core Delivery} {n m : Nat} {a : Act Delivery} (h : Inv c) (hs : Steps limits c n a d m) :
    Inv d := by
  cases hs with
  | quiet => exact h
  | launch => exact inv_launch h limits.workerCount
  | submit => exact inv_submit h rfl
  | cancel hi => exact inv_submission h hi rfl rfl rfl
  | call hi hgo => exact inv_submission h hi rfl hgo.same.1 hgo.same.2
  | acquire hi hpc => exact inv_submission h hi rfl (by rw [hpc]; rfl) (by rw [hpc]; rfl)
  | register hi hpc henv => exact inv_register h hi hpc henv
  | put hi hpc henv => exact inv_put h hi hpc henv
  | giveBack hi hpc => exact inv_submission h hi rfl (by rw [hpc]; rfl) (by rw [hpc]; rfl)
  | finishSubmit hi hpc => exact inv_finishSubmit h hi hpc
  | turn hw _ hidle => exact inv_free h hw hidle
  | select hw hk hsel => exact inv_select h hw hk hsel
  | receive hw hch => exact inv_receive h hw hch
  | processed hw => exact inv_worker h hw (fun _ hk => hk) (fun _ _ => by simp)
  | finishEvent hw => exact inv_finishEvent h hw
  | release hw => exact inv_free h hw rfl

theorem init_inv : Inv (init : State Delivery).toCore := by
  have hnil : ∀ {α : Type} {i : Nat} {x : α}, ([] : List α)[i]? ≠ some x := by simp
  exact {
    mapped := fun k o hk => by cases hk
    registered := fun i sub o hi => absurd hi hnil
    submitters := fun o ho => by cases ho
    busy := fun w pc k hw => absurd hw hnil
    selected := fun w k o hw => absurd hw hnil
    alone := fun w w' pc pc' k hw => absurd hw hnil
    order := fun k => rfl
    ids := List.nodup_nil
    origin := fun q hq => by cases hq
    placed := fun i sub hi => absurd hi hnil }

end

theorem run_inv {limits : Limits} {ls : List (Act Delivery)} {s : State Delivery}
    (h : Machine.run (next limits) init ls = some s) : Inv s.toCore :=
  Machine.run_invariant (fun s => Inv s.toCore) init_inv (fun _ _ _ ha hn => (next_steps hn).inv ha) h

theorem entered_mem {c : Core Delivery} (h : Inv c) {q : QueuedItem Delivery} (hq : q ∈ c.entered) : q ∈ c.sent := by
  have hmem : q ∈ c.sent.filter (·.key = q.key) := by
    rw [h.order q.key]
    exact List.mem_append_left _ (List.mem_filter.mpr ⟨hq, decide_eq_true rfl⟩)
  exact (List.mem_filter.mp hmem).1

/-- Nothing is given to the processor twice: an item is put once, and the entered items of
    its key are a prefix of the put ones. -/
theorem entered_nodup {c : Core Delivery} (h : Inv c) : (c.entered.map QueuedItem.id).Nodup := by
  classical
  have hsent : c.sent.Nodup := h.ids.of_map
  have honce : c.entered.Nodup := by
    rw [List.nodup_iff_count_le_one]
    intro q
    have hcount : c.entered.count q = (c.entered.filter (·.key = q.key)).count q :=
      (List.count_filter (p := fun x : QueuedItem Delivery => decide (x.key = q.key)) (decide_eq_true rfl)).symm
    have hpart : (c.entered.filter (·.key = q.key)).count q ≤ (c.sent.filter (·.key = q.key)).count q := by
      rw [h.order q.key, List.count_append]
      omega
    have hall : (c.sent.filter (·.key = q.key)).count q = c.sent.count q :=
      List.count_filter (p := fun x : QueuedItem Delivery => decide (x.key = q.key)) (decide_eq_true rfl)
    have hone := List.nodup_iff_count_le_one.mp hsent q
    omega
  apply honce.map_on
  intro x hx y hy hid
  exact List.inj_on_of_nodup_map h.ids (entered_mem h hx) (entered_mem h hy) hid

/-- In every run, whatever the limits and the interleaving: no two workers have items of one
    key in the processor; the items of a key enter the processor in the order in which they
    were put into channels; nothing enters twice; and an item whose Submit returned nil has
    entered or is in the channel that the map has for its key. -/
theorem per_key_serialization (limits : Limits) (ls : List (Act Delivery)) (s : State Delivery)
    (h : Machine.run (next limits) init ls = some s) :
    (∀ (w w' : Nat) a b, s.workers[w]? = some (.inside a) → s.workers[w']? = some (.inside b) →
      a.key = b.key → w = w') ∧
    (∀ k, s.entered.filter (·.key = k) <+: s.sent.filter (·.key = k)) ∧
    (s.entered.map QueuedItem.id).Nodup ∧
    ∀ (i : Nat) sub, s.submits[i]? = some sub → sub.pc = .returned none →
      ∃ env, sub.item.event = some env ∧ (queued i sub.item env ∈ s.entered ∨
        ∃ o, s.queues.lookup env.partitionKey = some o ∧ queued i sub.item env ∈ (s.objs o).ch) := by
  have hinv := run_inv h
  refine ⟨?_, ?_, entered_nodup hinv, ?_⟩
  · intro w w' a b hw hw' hkey
    exact hinv.alone w w' _ _ a.key hw hw' rfl (congrArg some hkey.symm)
  · intro k
    rw [hinv.order k]
    exact List.prefix_append _ _
  · intro i sub hi hpc
    obtain ⟨env, henv, hmem⟩ := hinv.placed i sub hi (by rw [hpc]; rfl)
    refine ⟨env, henv, ?_⟩
    have hkey : queued i sub.item env ∈ s.sent.filter (·.key = env.partitionKey) :=
      List.mem_filter.mpr ⟨hmem, decide_eq_true rfl⟩
    rw [hinv.order env.partitionKey] at hkey
    rcases List.mem_append.mp hkey with hin | hwait
    · exact .inl (List.mem_filter.mp hin).1
    unfold Core.waiting at hwait
    split at hwait
    · rename_i o ho
      exact .inr ⟨o, ho, hwait⟩
    · cases hwait

namespace Sample

def limits : Limits := newKeyQueue 10 10 2

def item (id : String) : QueueItem String :=
  ⟨some ⟨id, "order.placed", "tenant", "k", "", 1, "", []⟩, id, 1, 0, "worker"⟩

def submits (i : Nat) : List (Act String) := List.replicate 7 (.submission i .proceed)

/-- Two items of one key are submitted. One worker takes the first, and the other finds the
    queue taken. -/
def twoItems : List (Act String) :=
  [.start, .submit (item "first") .live, .submit (item "second") .live] ++ submits 0 ++ submits 1 ++
    List.replicate 4 (.worker 0 ["k"] .proceed) ++ List.replicate 4 (.worker 1 ["k"] .proceed)

end Sample

theorem per_key_serialization_two_items :
    ∃ s, Machine.run (next Sample.limits) init Sample.twoItems = some s ∧ s.sent.map QueuedItem.id = [0, 1] ∧
      s.entered.map QueuedItem.id = [0] ∧ s.entered.filter (·.key = "k") <+: s.sent.filter (·.key = "k") := by
  have hrun : ((Machine.run (next Sample.limits) init Sample.twoItems).map (fun s =>
      (s.sent.map QueuedItem.id, s.entered.map QueuedItem.id))) = some ([0, 1], [0]) := by decide +kernel
  obtain ⟨s, hs, hids⟩ := Option.map_eq_some_iff.mp hrun
  simp only [Prod.mk.injEq] at hids
  exact ⟨s, hs, hids.1, hids.2, (per_key_serialization Sample.limits Sample.twoItems s hs).2.1 "k"⟩

end FlowRule.KeyQueue
