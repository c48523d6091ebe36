import FlowRule.KeyQueue.Serial

/- The queue as those who use it see it: what a step of the queue does to the Submit calls
   and to the items in the processor. A call keeps its item and its result, an item is
   put into a channel by a call that is under way, and an item enters the processor in a
   worker that had none and never entered before. -/
namespace FlowRule.KeyQueue

variable {Delivery : Type}

structure Later (sub sub' : Submission Delivery) : Prop where
  item : sub'.item = sub.item
  returned : ∀ r, sub.pc = .returned r → sub'.pc = .returned r
  placed : sub.pc.placed = true → sub'.pc.placed = true

theorem Later.unplaced {sub sub' : Submission Delivery} (h : Later sub sub') (hp : sub'.pc.placed = false) :
    sub.pc.placed = false := by
  cases hplaced : sub.pc.placed with
  | false => rfl
  | true =>
    rw [h.placed hplaced] at hp
    cases hp

theorem later_refl (sub : Submission Delivery) : Later sub sub := ⟨rfl, fun _ h => h, id⟩

structure Moves (c c' : Core Delivery) : Prop where
  calls : ∀ (i : Nat) sub', c'.submits[i]? = some sub' → ∃ sub, c.submits[i]? = some sub ∧ Later sub sub'
  kept : ∀ (i : Nat) sub, c.submits[i]? = some sub → ∃ sub', c'.submits[i]? = some sub' ∧ Later sub sub'
  sent : c'.sent = c.sent ∨ ∃ i sub env, c.submits[i]? = some sub ∧ sub.pc.placed = false ∧
    (∀ r, sub.pc ≠ .returned r) ∧ sub.item.event = some env ∧ c'.sent = c.sent ++ [queued i sub.item env]
  entered : (c'.entered = c.entered ∧
      ∀ (w : Nat) q, c'.workers[w]? = some (.inside q) ↔ c.workers[w]? = some (.inside q)) ∨
    ∃ (w : Nat) (q : QueuedItem Delivery), q ∈ c.sent ∧ q ∉ c.entered ∧
      (∀ q', c.workers[w]? ≠ some (.inside q')) ∧ c'.entered = c.entered ++ [q] ∧
      ∀ (w' : Nat) q', c'.workers[w']? = some (.inside q') ↔
        (w' = w ∧ q' = q) ∨ c.workers[w']? = some (.inside q')

section
variable {c : Core Delivery} {i w : Nat} {sub : Submission Delivery}

theorem moves_call {c' : Core Delivery} {sub' : Submission Delivery} (hi : c.submits[i]? = some sub)
    (hsub : c'.submits = c.submits.set i sub') (hl : Later sub sub')
    (hsent : c'.sent = c.sent ∨ ∃ env, sub.pc.placed = false ∧ (∀ r, sub.pc ≠ .returned r) ∧
      sub.item.event = some env ∧ c'.sent = c.sent ++ [queued i sub.item env])
    (hentered : c'.entered = c.entered) (hworkers : c'.workers = c.workers) : Moves c c' where
  calls := by
    intro j x hj
    rw [hsub] at hj
    rcases Pool.get_step hj with ⟨rfl, rfl⟩ | ⟨-, hj⟩
    · exact ⟨sub, hi, hl⟩
    · exact ⟨x, hj, later_refl x⟩
  kept := by
    intro j x hj
    rw [hsub]
    by_cases hji : j = i
    · subst hji
      rw [hi] at hj
      cases hj
      exact ⟨sub', Pool.get_self hi, hl⟩
    · exact ⟨x, by rw [← hj]; exact Pool.get_other hji, later_refl x⟩
  sent := by
    rcases hsent with h | ⟨env, hp, hr, henv, h⟩
    · exact .inl h
    · exact .inr ⟨i, sub, env, hi, hp, hr, henv, h⟩
  entered := .inl ⟨hentered, fun w q => by rw [hworkers]⟩

theorem moves_worker {c' : Core Delivery} {pc pc' : WorkerPc Delivery} (hw : c.workers[w]? = some pc)
    (hpc : ∀ q, pc ≠ .inside q) (hpc' : ∀ q, pc' ≠ .inside q) (hworkers : c'.workers = c.workers.set w pc')
    (hsub : c'.submits = c.submits) (hsent : c'.sent = c.sent) (hentered : c'.entered = c.entered) : Moves c c' where
  calls := by
    rw [hsub]
    exact fun _ x h => ⟨x, h, later_refl x⟩
  kept := by
    rw [hsub]
    exact fun _ x h => ⟨x, h, later_refl x⟩
  sent := .inl hsent
  entered := by
    refine .inl ⟨hentered, ?_⟩
    intro v q
    rw [hworkers]
    by_cases hv : v = w
    · subst hv
      rw [Pool.get_self hw, hw]
      constructor
      · intro h
        exact absurd (Option.some.inj h) (hpc' q)
      · intro h
        exact absurd (Option.some.inj h) (hpc q)
    · rw [Pool.get_other hv]

/-! The critical sections touch nothing but the map and the objects. -/

theorem registerQueueSubmitter_same (key : String) : (c.registerQueueSubmitter key).1.submits = c.submits ∧
    (c.registerQueueSubmitter key).1.workers = c.workers ∧ (c.registerQueueSubmitter key).1.sent = c.sent ∧
    (c.registerQueueSubmitter key).1.entered = c.entered := by
  simp only [Core.registerQueueSubmitter, Core.queueFor]
  split <;> exact ⟨rfl, rfl, rfl, rfl⟩

theorem finishSubmit_same (o : Nat) : (c.finishSubmit o).submits = c.submits ∧
    (c.finishSubmit o).workers = c.workers ∧ (c.finishSubmit o).sent = c.sent ∧
    (c.finishSubmit o).entered = c.entered := by
  unfold Core.finishSubmit
  simp only
  generalize (if (c.objs o).submitters - 1 < 0 then 0 else (c.objs o).submitters - 1) = n
  split <;> exact ⟨rfl, rfl, rfl, rfl⟩

theorem finishEvent_same (key : String) : (c.finishEvent key).submits = c.submits ∧
    (c.finishEvent key).workers = c.workers ∧ (c.finishEvent key).sent = c.sent ∧
    (c.finishEvent key).entered = c.entered := by
  unfold Core.finishEvent
  split
  · exact ⟨rfl, rfl, rfl, rfl⟩
  · simp only
    split <;> exact ⟨rfl, rfl, rfl, rfl⟩

theorem waiting_not_entered (h : Inv c) {k : String} {q : QueuedItem Delivery} (hq : q ∈ c.waiting k) :
    q ∈ c.sent ∧ q ∉ c.entered := by
  have hsent : (c.sent.filter (·.key = k)).Nodup := (h.ids.of_map).filter _
  rw [h.order k, List.nodup_append] at hsent
  have hmem : q ∈ c.sent.filter (·.key = k) := by
    rw [h.order k]
    exact List.mem_append_right _ hq
  refine ⟨(List.mem_filter.mp hmem).1, ?_⟩
  intro hin
  exact hsent.2.2 q (List.mem_filter.mpr ⟨hin, (List.mem_filter.mp hmem).2⟩) q hq rfl

end

/-! Steps. -/

theorem SubmitPc.Goes.running {pc pc' : SubmitPc} (h : pc.Goes pc') (r : Option Err) : pc ≠ .returned r := by
  cases h <;> simp

section
variable {limits : Limits} {c d : Core Delivery} {n m i w : Nat} {sub : Submission Delivery}

theorem moves_pc (hi : c.submits[i]? = some sub) (pc : SubmitPc) (hret : ∀ r, sub.pc ≠ .returned r)
    (hplaced : pc.placed = sub.pc.placed) (hsub : d.submits = c.submits.set i { sub with pc := pc })
    (hsent : d.sent = c.sent) (hentered : d.entered = c.entered) (hworkers : d.workers = c.workers) : Moves c d :=
  moves_call hi hsub ⟨rfl, fun r h => absurd h (hret r), fun h => hplaced.trans h⟩ (.inl hsent) hentered hworkers

theorem moves_receive (h : Inv c) {k : String} {o : Nat} (hw : c.workers[w]? = some (.selected k o))
    {item : QueuedItem Delivery} {rest : List (QueuedItem Delivery)} (hch : (c.objs o).ch = item :: rest) :
    Moves c ((c.receive o item rest).setWorker w (.inside item)) := by
  obtain ⟨hk, -⟩ := h.selected w k o hw
  have hwait : item ∈ c.waiting k := by
    rw [waiting_eq hk, hch]
    exact List.mem_cons_self
  obtain ⟨hsent, hnot⟩ := waiting_not_entered h hwait
  refine ⟨fun _ x hx => ⟨x, hx, later_refl x⟩, fun _ x hx => ⟨x, hx, later_refl x⟩, .inl rfl,
    .inr ⟨w, item, hsent, hnot, ?_, rfl, ?_⟩⟩
  · intro q' hq'
    rw [hw] at hq'
    cases hq'
  · intro w' q'
    show (c.workers.set w (.inside item))[w']? = some (.inside q') ↔ _
    by_cases hv : w' = w
    · subst hv
      rw [Pool.get_self hw, hw]
      constructor
      · intro he
        cases he
        exact .inl ⟨rfl, rfl⟩
      · intro he
        rcases he with ⟨-, rfl⟩ | he
        · rfl
        · cases he
    · rw [Pool.get_other hv]
      constructor
      · exact .inr
      · intro he
        exact he.resolve_left (fun hx => hv hx.1)

theorem WorkerPc.idle_outside {pc : WorkerPc Delivery} (h : pc.idle = true) (q : QueuedItem Delivery) :
    pc ≠ .inside q := by
  intro he
  rw [he] at h
  cases h

theorem Steps.moves {a : Act Delivery} (h : Inv c) (hs : Steps limits c n a d m)
    (hsubmit : ∀ item ctx, a ≠ .submit item ctx)
    (hinside : ∀ w order case q, a = .worker w order case → c.workers[w]? ≠ some (.inside q)) : Moves c d := by
  have hsame : Moves c c :=
    ⟨fun _ x hx => ⟨x, hx, later_refl x⟩, fun _ x hx => ⟨x, hx, later_refl x⟩, .inl rfl, .inl ⟨rfl, fun _ _ => Iff.rfl⟩⟩
  cases hs with
  | quiet => exact hsame
  | launch =>
    refine ⟨hsame.calls, hsame.kept, .inl rfl, .inl ⟨rfl, ?_⟩⟩
    intro w q
    constructor
    · intro hw
      rcases Pool.get_append hw with hw | hw
      · exact hw
      · cases List.eq_of_mem_replicate hw
    · exact Pool.get_append_of
  | submit item ctx => exact absurd rfl (hsubmit item ctx)
  | cancel hi => exact moves_call hi rfl ⟨rfl, fun _ hr => hr, id⟩ (.inl rfl) rfl rfl
  | call hi hgo => exact moves_pc hi _ hgo.running hgo.same.2 rfl rfl rfl rfl
  | acquire hi hpc => exact moves_pc hi _ (by simp [hpc]) (by rw [hpc]; rfl) rfl rfl rfl rfl
  | register hi hpc henv =>
    rename_i env
    obtain ⟨hsub, hw, hsent, hent⟩ := registerQueueSubmitter_same (c := c) env.partitionKey
    refine moves_pc hi (.enqueuing (c.registerQueueSubmitter env.partitionKey).2) (by simp [hpc])
      (by rw [hpc]; rfl) ?_ hsent hent hw
    simp only [Core.setSubmit, hsub]
  | put hi hpc henv =>
    refine moves_call hi rfl ⟨rfl, fun r h => ?_, fun _ => rfl⟩ (.inr ⟨_, ?_, ?_, henv, rfl⟩) rfl rfl
    · rw [hpc] at h
      cases h
    · rw [hpc]
      rfl
    · simp [hpc]
  | giveBack hi hpc => exact moves_pc hi _ (by simp [hpc]) (by rw [hpc]; rfl) rfl rfl rfl rfl
  | finishSubmit hi hpc =>
    rename_i o _ _ r
    obtain ⟨hsub, hw, hsent, hent⟩ := finishSubmit_same (c := c) o
    refine moves_pc hi (.leaving r) (by simp [hpc]) ?_ ?_ hsent hent hw
    · rw [hpc]
      cases r <;> rfl
    · simp only [Core.setSubmit, hsub]
  | turn hw hidle hidle' =>
    exact moves_worker hw (WorkerPc.idle_outside hidle) (WorkerPc.idle_outside hidle') rfl rfl rfl rfl
  | select hw => exact moves_worker hw (by simp) (by simp) rfl rfl rfl rfl
  | receive hw hch => exact moves_receive h hw hch
  | processed hw => exact absurd hw (hinside _ _ _ _ rfl)
  | finishEvent hw =>
    rename_i item
    obtain ⟨hsub, hwk, hsent, hent⟩ := finishEvent_same (c := c) item.key
    have hout : ∀ q, (WorkerPc.releasing : WorkerPc Delivery) ≠ .inside q := by simp
    refine moves_worker hw (by simp) hout ?_ hsub hsent hent
    simp only [Core.setWorker, hwk]
  | release hw => exact moves_worker hw (by simp) (by simp) rfl rfl rfl rfl

end

end FlowRule.KeyQueue
