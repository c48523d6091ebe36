import FlowRule.KeyQueue.Callers
import FlowRule.Events.ExactlyOnce
import FlowRule.Worker.Delivery

/- No delivery is acknowledged before its event is safe, and every delivery is settled once. A
   handler in the fetch loop settles a delivery only while no Submit of it has been accepted, and a
   processor only for the item it is inside with; the queue gives an accepted item to one processor,
   once. -/
namespace FlowRule.Worker

open KeyQueue Machine Prog Workers Handle KeyQueue Function

def Plant.settlesOf (d : Plant) (n : Nat) : List SettleKind := (d.settles.filter (·.1 = n)).map Prod.snd

theorem settlesOf_self (d : Plant) (n : Nat) (k : SettleKind) : (d.settle n k).settlesOf n = d.settlesOf n ++ [k] := by
  simp [Plant.settlesOf, Plant.settle]

theorem settlesOf_other (d : Plant) {m n : Nat} (k : SettleKind) (h : m ≠ n) :
    (d.settle n k).settlesOf m = d.settlesOf m := by
  simp [Plant.settlesOf, Plant.settle, h.symm]

/-! Stages. -/

inductive Phase where
  | fetched
  | submitting (call : Nat)
  | refused
  | accepted
  | picked
  | processing (call : Nat)
  | committed
  | failed
  | recorded
  | settled

structure Stage where
  delivery : Nat
  phase : Phase

section
variable (sha256Hex : String → String) (messages : Nat → Message)

/-- An entry about a delivery: about its event, or about its bytes where it has none. -/
def RecordOf (n : Nat) (entry : QuarantineEntry) : Prop :=
  entry.sourceType = "event" ∧
    match (messages n).event with
    | .ok (some env) => entry.sourceID = env.id ∧ entry.eventID = env.id ∧ entry.tenantID = env.tenantID
    | _ => entry.sourceID = sha256Hex (messages n).raw ∧ entry.eventID = "" ∧ entry.tenantID = ""

def handleAllowed (st : Stage) : HandleOp → Prop
  | .isOwner _ => True
  | .getFencingToken _ => True
  | .clockNow => True
  | .random _ => True
  | .submit item => st.phase = .fetched ∧ item.delivery = st.delivery ∧
    ∃ env, (messages st.delivery).event = .ok (some env) ∧ item.event = some env
  | .submitted call => st.phase = .submitting call
  | .process env _ _ _ => st.phase = .picked ∧ (messages st.delivery).event = .ok (some env)
  | .processed call => st.phase = .processing call
  | .save entry => (st.phase = .fetched ∨ st.phase = .failed) ∧ RecordOf sha256Hex messages st.delivery entry
  | .ack n => n = st.delivery ∧ (st.phase = .committed ∨ st.phase = .recorded)
  | .nak n => n = st.delivery ∧ (st.phase = .fetched ∨ st.phase = .refused)
  | .retry n _ => n = st.delivery ∧ (st.phase = .fetched ∨ st.phase = .failed)

def handleTrans (st : Stage) : (o : HandleOp) → Except Err o.Res → Stage → Prop
  | .isOwner _, a, st' => ∃ owner : Bool, a = .ok owner ∧ st' = st
  | .getFencingToken _, a, st' => ∃ token : Option Int, a = .ok token ∧ st' = st
  | .clockNow, a, st' => ∃ now : Time, a = .ok now ∧ st' = st
  | .random _, a, st' => ∃ draw : Int, a = .ok draw ∧ st' = st
  | .submit _, a, st' => ∃ call : Nat, a = .ok call ∧ st' = ⟨st.delivery, .submitting call⟩
  | .submitted _, a, st' => (a = .ok (none : Option Err) ∧ st' = ⟨st.delivery, .accepted⟩) ∨
    ∃ err : Err, a = .ok (some err : Option Err) ∧ st' = ⟨st.delivery, .refused⟩
  | .process _ _ _ _, a, st' => ∃ call : Nat, a = .ok call ∧ st' = ⟨st.delivery, .processing call⟩
  | .processed _, a, st' => (∃ e : Execution, a = .ok (some e : Option Execution) ∧ st' = ⟨st.delivery, .committed⟩) ∨
    ∃ err, a = .error err ∧ st' = ⟨st.delivery, .failed⟩
  | .save _, a, st' => (a = .ok () ∧ st' = ⟨st.delivery, .recorded⟩) ∨ ∃ err, a = .error err ∧ st' = st
  | .ack _, _, st' => st' = ⟨st.delivery, .settled⟩
  | .nak _, _, st' => st' = ⟨st.delivery, .settled⟩
  | .retry _ _, _, st' => st' = ⟨st.delivery, .settled⟩

def handleProto : Proto HandleOp HandleOp.Res Err Stage := ⟨handleAllowed sha256Hex messages, handleTrans⟩

end

/-- The fetch loop ends with a delivery that the queue has accepted or that is settled, the
    processor with one that is settled. -/
def HandleFin : Task → Stage → Except Err Unit → Prop
  | .single _, st, _ => st.phase = .accepted ∨ st.phase = .settled
  | .processor _, st, _ => st.phase = .settled

/-! The programs keep to the stages. -/

section
variable {sha256Hex : String → String} {messages : Nat → Message} {cfg : Settings} {n : Nat} {message : Message}
  {st : Stage}

theorem wp_handle {o : HandleOp} {Q : Stage → Except Err o.Res → Prop} (ha : handleAllowed sha256Hex messages st o)
    (hQ : ∀ a st', handleTrans st o a st' → Q st' a) : wp (handleProto sha256Hex messages) (stmt o) Q st :=
  wp_call.mpr ⟨ha, hQ⟩

variable {Q : Stage → Except Err Unit → Prop} {env : EventEnvelope}

theorem wp_retry (hn : n = st.delivery) (hp : st.phase = .fetched ∨ st.phase = .failed)
    (hQ : ∀ r, Q ⟨st.delivery, .settled⟩ r) : wp (handleProto sha256Hex messages) (retry cfg n message) Q st := by
  have hcall : ∀ delay, wp (handleProto sha256Hex messages) (stmt (.retry n delay)) Q st := by
    intro delay
    refine wp_handle ⟨hn, hp⟩ ?_
    intro a st' ht
    obtain rfl : st' = ⟨st.delivery, .settled⟩ := ht
    exact hQ a
  refine wp_bind.mpr ?_
  unfold retryDelayForDelivery
  simp only
  split
  · exact hcall _
  refine wp_bind.mpr (wp_handle trivial ?_)
  intro a st' ht
  obtain ⟨x, rfl, rfl⟩ := ht
  exact hcall _

theorem wp_quarantineEvent {sourceID eventID tenantID : String} {c : ErrorClass}
    {msg : String} (hp : st.phase = .fetched ∨ st.phase = .failed)
    (hrec : ∀ id now, RecordOf sha256Hex messages st.delivery
      ⟨id, "event", sourceID, c.text, "jetstream:flowrule", eventID, tenantID, msg, now⟩)
    (hok : Q ⟨st.delivery, .recorded⟩ (.ok ())) (herr : ∀ err, Q st (.error err)) :
    wp (handleProto sha256Hex messages) (quarantineEvent sha256Hex sourceID eventID tenantID c msg) Q st := by
  refine wp_bind.mpr (wp_handle trivial ?_)
  intro a st' ht
  obtain ⟨now, rfl, rfl⟩ := ht
  refine wp_handle ⟨hp, hrec _ now⟩ ?_
  intro a st'' ht
  rcases ht with ⟨rfl, rfl⟩ | ⟨err, rfl, rfl⟩
  · exact hok
  · exact herr err

/-- An acknowledgement settles, whatever the broker answers. -/
theorem wp_ack (hn : n = st.delivery) (hp : st.phase = .committed ∨ st.phase = .recorded)
    (hQ : ∀ r, Q ⟨st.delivery, .settled⟩ r) : wp (handleProto sha256Hex messages) (stmt (.ack n)) Q st := by
  refine wp_handle ⟨hn, hp⟩ ?_
  intro a st' ht
  obtain rfl : st' = ⟨st.delivery, .settled⟩ := ht
  exact hQ a

theorem wp_settleNak (hn : n = st.delivery) (hp : st.phase = .fetched ∨ st.phase = .refused)
    (hQ : Q ⟨st.delivery, .settled⟩ (.ok ())) : wp (handleProto sha256Hex messages) (settleNak n) Q st := by
  refine wp_bind.mpr (wp_caught.mpr (wp_handle ⟨hn, hp⟩ ?_))
  intro a st' ht
  obtain rfl : st' = ⟨st.delivery, .settled⟩ := ht
  exact hQ

theorem wp_throwJoined (errs : List Err) (hQ : ∀ r, Q st r) :
    wp (handleProto sha256Hex messages) (throwJoined errs) Q st := by
  unfold throwJoined
  split <;> exact hQ _

theorem wp_quarantinePermanentEvent {processErr : Err}
    (hn : n = st.delivery) (hev : (messages st.delivery).event = .ok (some env)) (hp : st.phase = .failed)
    (hQ : ∀ r, Q ⟨st.delivery, .settled⟩ r) :
    wp (handleProto sha256Hex messages) (quarantinePermanentEvent sha256Hex cfg n message env processErr) Q st := by
  refine wp_bind.mpr (wp_caught.mpr (wp_quarantineEvent (.inr hp) ?_ ?_ ?_))
  · intro id now
    unfold RecordOf
    rw [hev]
    exact ⟨rfl, rfl, rfl, rfl⟩
  · exact wp_wrap.mpr (wp_ack hn (.inr rfl) (fun r => hQ _))
  · intro err
    refine wp_bind.mpr (wp_caught.mpr (wp_retry hn (.inr hp) ?_))
    intro r
    cases r with
    | error e | ok _ => exact wp_throwJoined _ hQ

theorem wp_settleEventResult {result : Except Err Execution} (hn : n = st.delivery)
    (hev : (messages st.delivery).event = .ok (some env)) (hok : ∀ e, result = .ok e → st.phase = .committed)
    (herr : ∀ err, result = .error err → st.phase = .failed) (hQ : ∀ r, Q ⟨st.delivery, .settled⟩ r) :
    wp (handleProto sha256Hex messages) (settleEventResult sha256Hex cfg n message env result) Q st := by
  cases result with
  | ok e => exact wp_wrap.mpr (wp_ack hn (.inl (hok e rfl)) (fun r => hQ _))
  | error err =>
    have hp := herr err rfl
    show wp _ (handleEventProcessingFailure sha256Hex cfg n message env err) Q st
    unfold handleEventProcessingFailure
    split
    · exact wp_quarantinePermanentEvent hn hev hp hQ
    refine wp_bind.mpr (wp_caught.mpr (wp_retry hn (.inr hp) ?_))
    intro r
    cases r with
    | error e => exact wp_throwJoined _ hQ
    | ok _ => exact hQ _

/-- The processor: whatever Process returns, one call settles the delivery. -/
theorem wp_processDelivery {w : Nat} (hev : (messages n).event = .ok (some env))
    {fencingToken : Int} {vshard : UInt32} {workerID : String} :
    wp (handleProto sha256Hex messages)
      (processDelivery sha256Hex cfg n message (some env) fencingToken vshard workerID)
      (HandleFin (.processor w)) ⟨n, .picked⟩ := by
  refine wp_bind.mpr (wp_handle ⟨rfl, hev⟩ ?_)
  intro a st₁ ht
  obtain ⟨call, rfl, rfl⟩ := ht
  refine wp_bind.mpr (wp_caught.mpr (wp_handle rfl ?_))
  intro a st₂ ht
  rcases ht with ⟨e, rfl, rfl⟩ | ⟨err, rfl, rfl⟩
  · exact wp_settleEventResult rfl hev (fun _ _ => rfl) (fun err h => nomatch h) (fun _ => rfl)
  · exact wp_settleEventResult rfl hev (fun e h => nomatch h) (fun _ _ => rfl) (fun _ => rfl)

/-- The fetch loop: the delivery is quarantined, given back or submitted. -/
theorem wp_processSingleDelivery :
    wp (handleProto sha256Hex messages) (processSingleDelivery sha256Hex cfg n (messages n))
      (HandleFin (.single n)) ⟨n, .fetched⟩ := by
  unfold processSingleDelivery
  split
  · rename_i env hev
    refine wp_bind.mpr (wp_handle trivial ?_)
    intro a st₁ ht
    obtain ⟨owner, rfl, rfl⟩ := ht
    show wp _ (if owner = true then _ else _) _ _
    split
    · refine wp_bind.mpr (wp_handle trivial ?_)
      intro a st₂ ht
      obtain ⟨token, rfl, rfl⟩ := ht
      refine wp_bind.mpr (wp_handle ⟨rfl, rfl, env, hev, rfl⟩ ?_)
      intro a st₃ ht
      obtain ⟨call, rfl, rfl⟩ := ht
      refine wp_bind.mpr (wp_handle rfl ?_)
      intro a st₄ ht
      rcases ht with ⟨rfl, rfl⟩ | ⟨err, rfl, rfl⟩
      · exact .inl rfl
      · exact wp_bind.mpr (wp_settleNak rfl (.inr rfl) (.inr rfl))
    · exact wp_settleNak rfl (.inl rfl) (.inr rfl)
  · rename_i hev
    refine wp_bind.mpr (wp_caught.mpr (wp_quarantineEvent (.inl rfl) ?_ ?_ ?_))
    · intro id now
      unfold RecordOf
      split
      · rename_i env henv
        exact absurd henv (hev env)
      · exact ⟨rfl, rfl, rfl, rfl⟩
    · exact wp_bind.mpr (wp_caught.mpr (wp_ack rfl (.inr rfl) (fun _ => .inr rfl)))
    · intro err
      exact wp_bind.mpr (wp_caught.mpr (wp_retry rfl (.inl rfl) (fun _ => .inr rfl)))

end

/-! The invariant. -/

def NoSubmit (d : Plant) (n : Nat) : Prop :=
  ∀ (i : Nat) sub, d.queue.submits[i]? = some sub → sub.item.delivery ≠ n

def Refused (d : Plant) (n : Nat) : Prop :=
  ∀ (i : Nat) sub, d.queue.submits[i]? = some sub → sub.item.delivery = n → ∃ err, sub.pc = .returned (some err)

def Accepted (d : Plant) (n : Nat) : Prop :=
  ∃ (i : Nat) (sub : Submission Nat), d.queue.submits[i]? = some sub ∧ sub.item.delivery = n ∧ sub.pc = .returned none

section
variable (sha256Hex : String → String) (messages : Nat → Message)

def Recorded (d : Plant) (n : Nat) : Prop := ∃ entry ∈ d.quarantine, RecordOf sha256Hex messages n entry

def Called (s : Store) (n call : Nat) : Prop :=
  ∃ env fencingToken shard workerID sess ph, (messages n).event = .ok (some env) ∧
    s.clients[call]? = some ⟨.goProcess env fencingToken shard workerID, sess, ph⟩

def Committed (s : Store) (n : Nat) : Prop :=
  ∃ env fencingToken shard workerID, ∃ call : Nat, ∃ sess execution, (messages n).event = .ok (some env) ∧
    s.clients[call]? =
      some ⟨.goProcess env fencingToken shard workerID, sess, .returned (.ok (.execution execution))⟩

def SingleOk (d : Plant) (n : Nat) : Phase → Prop
  | .fetched => NoSubmit d n ∧ d.settlesOf n = []
  | .submitting call => ∃ sub, d.queue.submits[call]? = some sub ∧ sub.item.delivery = n ∧
    (sub.pc.placed = false → d.settlesOf n = [])
  | .refused => Refused d n ∧ d.settlesOf n = []
  | .accepted => Accepted d n
  | .recorded => NoSubmit d n ∧ d.settlesOf n = [] ∧ Recorded sha256Hex messages d n
  | .settled => Refused d n ∧ ∃ k, d.settlesOf n = [k]
  | _ => False

/-- What a stage of a processor says of the delivery it is inside with. -/
def ProcessorOk (d : Plant) (n : Nat) : Phase → Prop
  | .picked => d.settlesOf n = []
  | .processing call => d.settlesOf n = [] ∧ Called messages d.store n call
  | .committed => d.settlesOf n = [] ∧ Committed messages d.store n
  | .failed => d.settlesOf n = []
  | .recorded => d.settlesOf n = [] ∧ Recorded sha256Hex messages d n
  | .settled => ∃ k, d.settlesOf n = [k] ∧ k ≠ .nak
  | _ => False

end

/-- The worker as a whole. The queue and the database are in states that they reach on their
    own, so that what is known of those holds here. -/
structure PlantOk (eng : Engine) (cfg : Settings) (messages : Nat → Message) (now : Time) (refs : Reference)
    (d : Plant) (σ : Task → Option Stage) : Prop where
  queue : Reachable (KeyQueue.next cfg.limits) KeyQueue.init d.queue
  store : Reachable (storeNext eng) (Store.init now refs) d.store
  unbegun : ∀ n, n ∉ d.begun → NoSubmit d n ∧ d.settlesOf n = []
  unique : ∀ (i j : Nat) sub sub', d.queue.submits[i]? = some sub → d.queue.submits[j]? = some sub' →
    sub.item.delivery = sub'.item.delivery → i = j
  event : ∀ (i : Nat) sub, d.queue.submits[i]? = some sub →
    ∃ env, (messages sub.item.delivery).event = .ok (some env) ∧ sub.item.event = some env
  single : ∀ n st, σ (.single n) = some st →
    n ∈ d.begun ∧ st.delivery = n ∧ SingleOk eng.sha256Hex messages d n st.phase
  ended : ∀ n ∈ d.begun, σ (.single n) = none → Accepted d n ∨ (Refused d n ∧ ∃ k, d.settlesOf n = [k])
  pending : ∀ (i : Nat) sub, d.queue.submits[i]? = some sub → sub.pc.placed = false →
    (∀ err, sub.pc ≠ .returned (some err)) → d.settlesOf sub.item.delivery = []
  waiting : ∀ q ∈ d.queue.sent, q ∉ d.queue.entered → d.settlesOf q.delivery = []
  held : ∀ (w : Nat) q, d.queue.workers[w]? = some (.inside q) → q ∈ d.queue.entered
  entered : ∀ q ∈ d.queue.entered, (∃ w : Nat, d.queue.workers[w]? = some (.inside q)) ∨
    ∃ k, d.settlesOf q.delivery = [k] ∧ k ≠ .nak
  idle : ∀ (w : Nat) q, d.queue.workers[w]? = some (.inside q) → σ (.processor w) = none →
    d.settlesOf q.delivery = []
  processor : ∀ (w : Nat) st, σ (.processor w) = some st → ∃ q, d.queue.workers[w]? = some (.inside q) ∧
    st.delivery = q.delivery ∧ ProcessorOk eng.sha256Hex messages d q.delivery st.phase
  acks : ∀ n, (n, SettleKind.ack) ∈ d.settles → Committed messages d.store n ∨ Recorded eng.sha256Hex messages d n

section
variable {eng : Engine} {cfg : Settings} {messages : Nat → Message} {now : Time} {refs : Reference}
  {d : Plant} {σ : Task → Option Stage} {n w : Nat} {st st' : Stage} {q q' : QueuedItem Nat}

variable {d' : Plant} {p : Phase} {k : SettleKind} {s : State Nat}

theorem refused_of_noSubmit (h : NoSubmit d n) : Refused d n :=
  fun i sub hi hn => absurd hn (h i sub hi)

/-- What a stage says stays true while only the entries and the database grow. -/
theorem singleOk_mono (hq : d'.queue = d.queue) (hs : d'.settles = d.settles)
    (hrec : ∀ n, Recorded eng.sha256Hex messages d n → Recorded eng.sha256Hex messages d' n)
    (h : SingleOk eng.sha256Hex messages d n p) : SingleOk eng.sha256Hex messages d' n p := by
  cases p <;> simp only [SingleOk, NoSubmit, Refused, Accepted, Plant.settlesOf, hq, hs] at h ⊢
  case recorded => exact ⟨h.1, h.2.1, hrec n h.2.2⟩
  all_goals exact h

theorem processorOk_mono (hs : d'.settles = d.settles)
    (hrec : ∀ n, Recorded eng.sha256Hex messages d n → Recorded eng.sha256Hex messages d' n)
    (hcall : ∀ n call, Called messages d.store n call → Called messages d'.store n call)
    (hcom : ∀ n, Committed messages d.store n → Committed messages d'.store n)
    (h : ProcessorOk eng.sha256Hex messages d n p) : ProcessorOk eng.sha256Hex messages d' n p := by
  cases p <;> simp only [ProcessorOk, Plant.settlesOf, hs] at h ⊢
  case processing call => exact ⟨h.1, hcall n call h.2⟩
  case committed => exact ⟨h.1, hcom n h.2⟩
  case recorded => exact ⟨h.1, hrec n h.2⟩
  all_goals exact h

theorem singleOk_settle {m : Nat} (hmn : m ≠ n)
    (h : SingleOk eng.sha256Hex messages d m p) : SingleOk eng.sha256Hex messages (d.settle n k) m p := by
  cases p <;> simp only [SingleOk, settlesOf_other d k hmn] at h ⊢ <;> exact h

theorem processorOk_settle {m : Nat} (hmn : m ≠ n)
    (h : ProcessorOk eng.sha256Hex messages d m p) : ProcessorOk eng.sha256Hex messages (d.settle n k) m p := by
  cases p <;> simp only [ProcessorOk, settlesOf_other d k hmn] at h ⊢ <;> exact h

structure Goes (d : Plant) (s : State Nat) (n : Nat) : Prop where
  calls : ∀ (i : Nat) sub', s.submits[i]? = some sub' → sub'.item.delivery = n →
    ∃ sub, d.queue.submits[i]? = some sub ∧ Later sub sub'
  kept : ∀ (i : Nat) sub, d.queue.submits[i]? = some sub → ∃ sub', s.submits[i]? = some sub' ∧ Later sub sub'

theorem goes_of_moves (hm : Moves d.queue.toCore s.toCore) (n : Nat) : Goes d s n :=
  ⟨fun i sub' hi _ => hm.calls i sub' hi, hm.kept⟩

theorem Goes.noSubmit (hg : Goes d s n) (h : NoSubmit d n) : NoSubmit { d with queue := s } n := by
  intro i sub' hi hn
  obtain ⟨sub, hsub, hl⟩ := hg.calls i sub' hi hn
  exact h i sub hsub (hl.item ▸ hn)

theorem Goes.refused (hg : Goes d s n) (h : Refused d n) : Refused { d with queue := s } n := by
  intro i sub' hi hn
  obtain ⟨sub, hsub, hl⟩ := hg.calls i sub' hi hn
  obtain ⟨err, hpc⟩ := h i sub hsub (hl.item ▸ hn)
  exact ⟨err, hl.returned _ hpc⟩

theorem Goes.accepted (hg : Goes d s n) (h : Accepted d n) : Accepted { d with queue := s } n := by
  obtain ⟨i, sub, hi, hn, hpc⟩ := h
  obtain ⟨sub', hsub', hl⟩ := hg.kept i sub hi
  exact ⟨i, sub', hsub', hl.item ▸ hn, hl.returned _ hpc⟩

theorem Goes.singleOk (hg : Goes d s n) (h : SingleOk eng.sha256Hex messages d n p) :
    SingleOk eng.sha256Hex messages { d with queue := s } n p := by
  cases p
  case fetched => exact ⟨hg.noSubmit h.1, h.2⟩
  case submitting call =>
    obtain ⟨sub, hi, hn, hnone⟩ := h
    obtain ⟨sub', hsub', hl⟩ := hg.kept call sub hi
    refine ⟨sub', hsub', hl.item ▸ hn, fun hplaced => hnone (hl.unplaced hplaced)⟩
  case refused => exact ⟨hg.refused h.1, h.2⟩
  case accepted => exact hg.accepted h
  case recorded => exact ⟨hg.noSubmit h.1, h.2⟩
  case settled => exact ⟨hg.refused h.1, h.2⟩
  all_goals exact h.elim

/-- The processors do not look at the queue. -/
theorem processorOk_queue (h : ProcessorOk eng.sha256Hex messages d n p) :
    ProcessorOk eng.sha256Hex messages { d with queue := s } n p :=
  processorOk_mono rfl (fun _ hr => hr) (fun _ _ hc => hc) (fun _ hc => hc) h

theorem submitReturned_iff {call : Nat} {r : Option Err} (h : submitReturned s call = some r) :
    ∃ sub, s.submits[call]? = some sub ∧ sub.pc = .returned r := by
  unfold submitReturned at h
  split at h
  · rename_i sub hsub
    split at h
    · rename_i r' hpc
      cases h
      exact ⟨sub, hsub, hpc⟩
    · cases h
  · cases h

theorem same_stage {t : Task} (hσ : σ t = some st) : update σ t (some st) = σ := by
  rw [← hσ, update_eq_self]

theorem processReturned_cases {s : Store} {call : Nat} {r : Except Err (Option Execution)}
    (h : processReturned s call = some r) :
    (∃ i sess e, s.clients[call]? = some ⟨i, sess, .returned (.ok (.execution e))⟩ ∧ r = .ok (some e)) ∨
      ∃ err, r = .error err := by
  unfold processReturned at h
  split at h
  · rename_i i sess e hcl
    cases h
    exact .inl ⟨i, sess, e, hcl, rfl⟩
  · rename_i err hcl
    cases h
    exact .inr ⟨err, rfl⟩
  · cases h

variable (h : PlantOk eng cfg messages now refs d σ)
include h

theorem queue_inv : Inv d.queue.toCore := by
  obtain ⟨ls, hls⟩ := h.queue
  exact run_inv hls

/-- An item in the history is what its Submit call put there. -/
theorem sent_call (hq : q ∈ d.queue.sent) :
    ∃ sub env, d.queue.submits[q.id]? = some sub ∧ sub.pc.placed = true ∧ sub.item.event = some env ∧
      q = queued q.id sub.item env := by
  have hinv := queue_inv h
  obtain ⟨sub, hsub, hplaced⟩ := hinv.origin q hq
  obtain ⟨env, henv, hmem⟩ := hinv.placed q.id sub hsub hplaced
  exact ⟨sub, env, hsub, hplaced, henv, List.inj_on_of_nodup_map hinv.ids hq hmem rfl⟩

theorem sent_event (hq : q ∈ d.queue.sent) : (messages q.delivery).event = .ok (some q.env) := by
  obtain ⟨sub, env, hsub, -, henv, heq⟩ := sent_call h hq
  obtain ⟨env', hev, henv'⟩ := h.event q.id sub hsub
  rw [henv] at henv'
  cases henv'
  rw [heq]
  exact hev

/-- A delivery is put into a channel once. -/
theorem sent_unique (hq : q ∈ d.queue.sent) (hq' : q' ∈ d.queue.sent) (hn : q.delivery = q'.delivery) : q = q' := by
  obtain ⟨sub, env, hsub, -, -, heq⟩ := sent_call h hq
  obtain ⟨sub', env', hsub', -, -, heq'⟩ := sent_call h hq'
  have hdel : sub.item.delivery = q.delivery := by rw [heq]; rfl
  have hdel' : sub'.item.delivery = q'.delivery := by rw [heq']; rfl
  have hid : q.id = q'.id := h.unique q.id q'.id sub sub' hsub hsub' (hdel.trans (hn.trans hdel'.symm))
  exact List.inj_on_of_nodup_map (queue_inv h).ids hq hq' hid

/-- A refused delivery is never put into a channel. -/
theorem refused_not_sent (hr : Refused d n) (hq : q ∈ d.queue.sent) : q.delivery ≠ n := by
  intro hn
  obtain ⟨sub, env, hsub, hplaced, -, heq⟩ := sent_call h hq
  have hdel : sub.item.delivery = n := by rw [← hn, heq]; rfl
  obtain ⟨err, hpc⟩ := hr q.id sub hsub hdel
  rw [hpc] at hplaced
  cases hplaced

theorem inside_sent (hw : d.queue.workers[w]? = some (.inside q)) : q ∈ d.queue.sent :=
  entered_mem (queue_inv h) (h.held w q hw)

/-! A handler moves on without settling. -/

theorem ok_single (hσ : σ (.single n) = some st)
    (hst : st'.delivery = n) (hok : SingleOk eng.sha256Hex messages d n st'.phase) :
    PlantOk eng cfg messages now refs d (update σ (.single n) (some st')) :=
  { h with
    single := by
      intro m s hm
      rcases update_cases hm with ⟨he, hv⟩ | ⟨-, hm⟩
      · cases he
        cases hv
        exact ⟨(h.single n st hσ).1, hst, hok⟩
      · exact h.single m s hm
    ended := by
      intro m hm hnone
      rcases update_cases hnone with ⟨-, hs⟩ | ⟨-, hnone⟩
      · cases hs
      · exact h.ended m hm hnone }

theorem ok_processor (hw : d.queue.workers[w]? = some (.inside q))
    (hst : st'.delivery = q.delivery) (hok : ProcessorOk eng.sha256Hex messages d q.delivery st'.phase) :
    PlantOk eng cfg messages now refs d (update σ (.processor w) (some st')) :=
  { h with
    idle := by
      intro v x hv hnone
      rcases update_cases hnone with ⟨-, hs⟩ | ⟨-, hnone⟩
      · cases hs
      · exact h.idle v x hv hnone
    processor := by
      intro v s hs
      rcases update_cases hs with ⟨he, hv⟩ | ⟨-, hs⟩
      · cases he
        cases hv
        exact ⟨q, hw, hst, hok⟩
      · exact h.processor v s hs }

theorem ok_mono (hq : d'.queue = d.queue) (hs : d'.settles = d.settles)
    (hb : d'.begun = d.begun) (hstore : Reachable (storeNext eng) (Store.init now refs) d'.store)
    (hrec : ∀ n, Recorded eng.sha256Hex messages d n → Recorded eng.sha256Hex messages d' n)
    (hcall : ∀ n call, Called messages d.store n call → Called messages d'.store n call)
    (hcom : ∀ n, Committed messages d.store n → Committed messages d'.store n) :
    PlantOk eng cfg messages now refs d' σ := by
  have hof : ∀ n, d'.settlesOf n = d.settlesOf n := fun n => by simp only [Plant.settlesOf, hs]
  constructor
  case store => exact hstore
  case single =>
    intro m s hm
    obtain ⟨hbegun, hst, hok⟩ := h.single m s hm
    exact ⟨hb ▸ hbegun, hst, singleOk_mono hq hs hrec hok⟩
  case processor =>
    intro v s hv
    obtain ⟨x, hx, hst, hok⟩ := h.processor v s hv
    exact ⟨x, hq ▸ hx, hst, processorOk_mono hs hrec hcall hcom hok⟩
  case acks =>
    intro m hm
    rw [hs] at hm
    rcases h.acks m hm with hc | hr
    · exact .inl (hcom m hc)
    · exact .inr (hrec m hr)
  all_goals simp only [hq, hb, hof, NoSubmit, Refused, Accepted]
  · exact h.queue
  · exact h.unbegun
  · exact h.unique
  · exact h.event
  · exact h.ended
  · exact h.pending
  · exact h.waiting
  · exact h.held
  · exact h.entered
  · exact h.idle

/-! A delivery is settled. -/

theorem acks_settle (hack : k = .ack → Committed messages d.store n ∨ Recorded eng.sha256Hex messages d n) :
    ∀ m, (m, SettleKind.ack) ∈ (d.settle n k).settles →
      Committed messages d.store m ∨ Recorded eng.sha256Hex messages d m := by
  intro m hm
  rcases List.mem_append.mp hm with hm | hm
  · exact h.acks m hm
  · cases List.mem_singleton.mp hm
    exact hack rfl

/-- By the fetch loop: no processor can ever have the delivery. -/
theorem ok_settle_single (hσ : σ (.single n) = some st) (hr : Refused d n)
    (hnone : d.settlesOf n = []) (hack : k = .ack → Recorded eng.sha256Hex messages d n) :
    PlantOk eng cfg messages now refs (d.settle n k) (update σ (.single n) (some ⟨n, .settled⟩)) := by
  have hbegun : n ∈ d.begun := (h.single n st hσ).1
  have hout : ∀ {q}, q ∈ d.queue.sent → (d.settle n k).settlesOf q.delivery = d.settlesOf q.delivery :=
    fun hq => settlesOf_other d k (refused_not_sent h hr hq)
  exact { h with
    acks := acks_settle h (fun hk => .inr (hack hk))
    unbegun := by
      intro m hm
      rw [settlesOf_other d k (fun (he : m = n) => hm (he ▸ hbegun))]
      exact h.unbegun m hm
    single := by
      intro m s hm
      rcases update_cases hm with ⟨he, hv⟩ | ⟨hmn, hm⟩
      · cases he
        cases hv
        exact ⟨hbegun, rfl, hr, k, by rw [settlesOf_self, hnone]; rfl⟩
      · obtain ⟨hb, hst, hok⟩ := h.single m s hm
        exact ⟨hb, hst, singleOk_settle (by simpa using hmn) hok⟩
    ended := by
      intro m hm hend
      rcases update_cases hend with ⟨-, hv⟩ | ⟨hmn, hend⟩
      · cases hv
      · rw [settlesOf_other d k (by simpa using hmn)]
        exact h.ended m hm hend
    pending := by
      intro i sub hi hplaced hpc
      rw [settlesOf_other d k (fun he => (hr i sub hi he).elim hpc)]
      exact h.pending i sub hi hplaced hpc
    waiting := fun x hx hnot => (hout hx).trans (h.waiting x hx hnot)
    entered := by
      intro x hx
      rw [hout (entered_mem (queue_inv h) hx)]
      exact h.entered x hx
    idle := fun v x hv hidle => (hout (inside_sent h hv)).trans (h.idle v x hv hidle)
    processor := by
      intro v s hv
      obtain ⟨x, hx, hst, hok⟩ := h.processor v s hv
      exact ⟨x, hx, hst, processorOk_settle (refused_not_sent h hr (inside_sent h hx)) hok⟩ }

/-- By a processor: its item is the only one of the delivery, and its Submit was not refused. -/
theorem ok_settle_processor (hw : d.queue.workers[w]? = some (.inside q)) (hnone : d.settlesOf q.delivery = [])
    (hk : k ≠ .nak)
    (hack : k = .ack → Committed messages d.store q.delivery ∨ Recorded eng.sha256Hex messages d q.delivery) :
    PlantOk eng cfg messages now refs (d.settle q.delivery k)
      (update σ (.processor w) (some ⟨q.delivery, .settled⟩)) := by
  have hsent := inside_sent h hw
  have hnotRefused : ¬ Refused d q.delivery := fun hr => refused_not_sent h hr hsent rfl
  obtain ⟨sub₀, env₀, hsub₀, hplaced₀, -, heq₀⟩ := sent_call h hsent
  have hdel₀ : sub₀.item.delivery = q.delivery := by rw [heq₀]; rfl
  -- the only Submit call of the delivery is the one that has put the item
  have hplaced : ∀ {i : Nat} {sub}, d.queue.submits[i]? = some sub → sub.item.delivery = q.delivery →
      sub.pc.placed ≠ false := by
    intro i sub hi he hpl
    rw [h.unique i q.id sub sub₀ hi hsub₀ (he.trans hdel₀.symm), hsub₀] at hi
    cases hi
    rw [hplaced₀] at hpl
    cases hpl
  -- and the only worker that is inside with it is this one
  have hworker : ∀ {v : Nat} {x}, d.queue.workers[v]? = some (.inside x) → x.delivery = q.delivery → v = w := by
    intro v x hv he
    rw [sent_unique h (inside_sent h hv) hsent he] at hv
    exact (queue_inv h).alone v w _ _ q.key hv hw rfl rfl
  exact { h with
    acks := acks_settle h hack
    unbegun := by
      intro m hm
      rw [settlesOf_other d k (fun he => (h.unbegun m hm).1 q.id sub₀ hsub₀ (hdel₀.trans he.symm))]
      exact h.unbegun m hm
    single := by
      intro m s hm
      obtain ⟨hb, hst, hok⟩ := h.single m s hm
      refine ⟨hb, hst, ?_⟩
      by_cases hmn : m = q.delivery
      · subst hmn
        -- the fetch loop can only be waiting for its Submit, or be done with it
        cases hp : s.phase <;> rw [hp] at hok
        case submitting call =>
          obtain ⟨y, hy, hd, -⟩ := hok
          exact ⟨y, hy, hd, fun hpl => absurd hpl (hplaced hy hd)⟩
        case accepted => exact hok
        case fetched => exact absurd (refused_of_noSubmit hok.1) hnotRefused
        case refused => exact absurd hok.1 hnotRefused
        case recorded => exact absurd (refused_of_noSubmit hok.1) hnotRefused
        case settled => exact absurd hok.1 hnotRefused
        all_goals exact hok.elim
      · exact singleOk_settle hmn hok
    ended := by
      intro m hm hend
      by_cases hmn : m = q.delivery
      · subst hmn
        exact .inl ((h.ended _ hm hend).resolve_right (fun hr => hnotRefused hr.1))
      · rw [settlesOf_other d k hmn]
        exact h.ended m hm hend
    pending := by
      intro i sub hi hpl hpc
      rw [settlesOf_other d k (fun he => hplaced hi he hpl)]
      exact h.pending i sub hi hpl hpc
    waiting := by
      intro x hx hnot
      rw [settlesOf_other d k (fun he => hnot (sent_unique h hx hsent he ▸ h.held w q hw))]
      exact h.waiting x hx hnot
    entered := by
      intro x hx
      by_cases hd : x.delivery = q.delivery
      · rw [sent_unique h (entered_mem (queue_inv h) hx) hsent hd]
        exact .inl ⟨w, hw⟩
      · rw [settlesOf_other d k hd]
        exact h.entered x hx
    idle := by
      intro v x hv hidle
      rcases update_cases hidle with ⟨-, hs⟩ | ⟨hvw, hidle⟩
      · cases hs
      · rw [settlesOf_other d k (fun he => hvw (congrArg Task.processor (hworker hv he)))]
        exact h.idle v x hv hidle
    processor := by
      intro v s hv
      rcases update_cases hv with ⟨he, hs⟩ | ⟨hvw, hv⟩
      · cases he
        cases hs
        exact ⟨q, hw, rfl, k, by rw [settlesOf_self, hnone]; rfl, hk⟩
      · obtain ⟨x, hx, hst, hok⟩ := h.processor v s hv
        exact ⟨x, hx, hst, processorOk_settle (fun he => hvw (congrArg Task.processor (hworker hx he))) hok⟩ }

/-! The database and the queue move on. -/

/-- A step of the database keeps every call and every result. -/
theorem ok_store {a : StoreAct} {s : Store}
    (hn : storeNext eng d.store a = some s) : PlantOk eng cfg messages now refs { d with store := s } σ := by
  refine ok_mono h rfl rfl rfl (h.store.step hn) (fun _ hr => hr) ?_ ?_
  · intro m call hc
    obtain ⟨env, token, shard, wid, sess, ph, hev, hcl⟩ := hc
    obtain ⟨sess', ph', hcl', -⟩ := Clients.client_later hn hcl
    exact ⟨env, token, shard, wid, sess', ph', hev, hcl'⟩
  · intro m hc
    obtain ⟨env, token, shard, wid, call, sess, e, hev, hcl⟩ := hc
    obtain ⟨sess', ph', hcl', hl⟩ := Clients.client_later hn hcl
    obtain rfl : ph' = .returned (.ok (.execution e)) := hl
    exact ⟨env, token, shard, wid, call, sess', e, hev, hcl'⟩

/-- A step of the queue settles nothing: an item that is put or that enters was not settled. -/
theorem ok_queue {a : Act Nat} (hn : KeyQueue.next cfg.limits d.queue a = some s)
    (hm : Moves d.queue.toCore s.toCore) : PlantOk eng cfg messages now refs { d with queue := s } σ := by
  exact { h with
    queue := h.queue.step hn
    unbegun := by
      intro m hmb
      obtain ⟨hno, hset⟩ := h.unbegun m hmb
      exact ⟨(goes_of_moves hm m).noSubmit hno, hset⟩
    unique := by
      intro i j x x' hi hj hd
      obtain ⟨y, hy, hl⟩ := hm.calls i x hi
      obtain ⟨y', hy', hl'⟩ := hm.calls j x' hj
      rw [hl.item, hl'.item] at hd
      exact h.unique i j y y' hy hy' hd
    event := by
      intro i x hi
      obtain ⟨y, hy, hl⟩ := hm.calls i x hi
      rw [hl.item]
      exact h.event i y hy
    single := by
      intro m x hx
      obtain ⟨hb, hst, hok⟩ := h.single m x hx
      exact ⟨hb, hst, (goes_of_moves hm m).singleOk hok⟩
    ended := by
      intro m hmb hend
      rcases h.ended m hmb hend with hacc | ⟨hr, hset⟩
      · exact .inl ((goes_of_moves hm m).accepted hacc)
      · exact .inr ⟨(goes_of_moves hm m).refused hr, hset⟩
    pending := by
      intro i x hi hplaced hpc
      obtain ⟨y, hy, hl⟩ := hm.calls i x hi
      rw [hl.item]
      exact h.pending i y hy (hl.unplaced hplaced) (fun err herr => hpc err (hl.returned _ herr))
    waiting := by
      intro x hx hnot
      have hnot' : x ∉ d.queue.entered := by
        intro hin
        rcases hm.entered with ⟨he, -⟩ | ⟨v, y, -, -, -, he, -⟩
        · exact hnot (he ▸ hin)
        · exact hnot (he ▸ List.mem_append_left _ hin)
      rcases hm.sent with he | ⟨i, y, env, hi, hplaced, hret, henv, he⟩
      · exact h.waiting x (he ▸ hx) hnot'
      rcases List.mem_append.mp (he ▸ hx) with hx | hx
      · exact h.waiting x hx hnot'
      · rw [List.mem_singleton.mp hx]
        exact h.pending i y hi hplaced (fun err => hret _)
    held := by
      intro v x hv
      rcases hm.entered with ⟨he, hiff⟩ | ⟨u, y, -, -, -, he, hiff⟩
      · exact he ▸ h.held v x ((hiff v x).mp hv)
      rw [he]
      rcases (hiff v x).mp hv with ⟨-, rfl⟩ | hold
      · exact List.mem_append_right _ (List.mem_singleton_self _)
      · exact List.mem_append_left _ (h.held v x hold)
    entered := by
      intro x hx
      rcases hm.entered with ⟨he, hiff⟩ | ⟨u, y, -, -, -, he, hiff⟩
      · exact (h.entered x (he ▸ hx)).imp (fun ⟨v, hv⟩ => ⟨v, (hiff v x).mpr hv⟩) id
      rcases List.mem_append.mp (he ▸ hx) with hx | hx
      · exact (h.entered x hx).imp (fun ⟨v, hv⟩ => ⟨v, (hiff v x).mpr (.inr hv)⟩) id
      · rw [List.mem_singleton.mp hx]
        exact .inl ⟨u, (hiff u y).mpr (.inl ⟨rfl, rfl⟩)⟩
    idle := by
      intro v x hv hidle
      rcases hm.entered with ⟨-, hiff⟩ | ⟨u, y, hsent, hnot, -, -, hiff⟩
      · exact h.idle v x ((hiff v x).mp hv) hidle
      rcases (hiff v x).mp hv with ⟨-, rfl⟩ | hold
      · exact h.waiting x hsent hnot
      · exact h.idle v x hold hidle
    processor := by
      intro v x hv
      obtain ⟨y, hy, hst, hok⟩ := h.processor v x hv
      refine ⟨y, ?_, hst, processorOk_queue hok⟩
      rcases hm.entered with ⟨-, hiff⟩ | ⟨u, z, -, -, -, -, hiff⟩
      · exact (hiff v y).mpr hy
      · exact (hiff v y).mpr (.inr hy) }

theorem ok_submit {item : QueueItem Nat} {env : EventEnvelope}
    (hσ : σ (.single n) = some ⟨n, .fetched⟩) (hitem : item.delivery = n) (hev : (messages n).event = .ok (some env))
    (henv : item.event = some env) (hn : KeyQueue.next cfg.limits d.queue (.submit item .live) = some s) :
    PlantOk eng cfg messages now refs { d with queue := s }
      (update σ (.single n) (some ⟨n, .submitting d.queue.submits.length⟩)) := by
  obtain ⟨hbegun, -, hno, hnone⟩ := h.single n _ hσ
  have hreach := h.queue.step hn
  cases hn
  -- the new call is the only one of the delivery
  have hold : ∀ {i : Nat} {x}, (d.queue.submits ++ [⟨item, .live, .validating⟩])[i]? = some x →
      d.queue.submits[i]? = some x ∨ (x = ⟨item, .live, .validating⟩ ∧ i = d.queue.submits.length) := by
    intro i x hi
    rcases Pool.get_concat hi with ⟨hlen, hx⟩ | ⟨-, hi⟩
    · exact .inr ⟨hx, hlen⟩
    · exact .inl hi
  have hgoes : ∀ {m}, m ≠ n →
      Goes d { d.queue with submits := d.queue.submits ++ [⟨item, .live, .validating⟩] } m := by
    intro m hmn
    constructor
    · intro i x hi hd
      rcases hold hi with hi | ⟨rfl, -⟩
      · exact ⟨x, hi, later_refl x⟩
      · exact absurd (hd.symm.trans hitem) hmn
    · exact fun i x hi => ⟨x, Pool.get_append_of hi, later_refl x⟩
  exact { h with
    queue := hreach
    processor := by
      intro v x hv
      obtain ⟨y, hy, hst, hok⟩ := h.processor v x hv
      exact ⟨y, hy, hst, processorOk_queue hok⟩
    unbegun := by
      intro m hmb
      obtain ⟨hno', hset⟩ := h.unbegun m hmb
      have hmn : m ≠ n := fun he => hmb (he ▸ hbegun)
      exact ⟨(hgoes hmn).noSubmit hno', hset⟩
    unique := by
      intro i j x x' hi hj hd
      rcases hold hi with hi | ⟨rfl, rfl⟩
      · rcases hold hj with hj | ⟨rfl, rfl⟩
        · exact h.unique i j x x' hi hj hd
        · exact absurd (hd.trans hitem) (hno i x hi)
      · rcases hold hj with hj | ⟨-, rfl⟩
        · exact absurd (hd.symm.trans hitem) (hno j x' hj)
        · rfl
    event := by
      intro i x hi
      rcases hold hi with hi | ⟨rfl, -⟩
      · exact h.event i x hi
      · exact ⟨env, by rw [hitem]; exact hev, henv⟩
    single := by
      intro m x hx
      rcases update_cases hx with ⟨he, hv⟩ | ⟨hmn, hx⟩
      · cases he
        cases hv
        exact ⟨hbegun, rfl, ⟨item, .live, .validating⟩, List.getElem?_concat_length, hitem, fun _ => hnone⟩
      · obtain ⟨hb, hst, hok⟩ := h.single m x hx
        exact ⟨hb, hst, (hgoes (by simpa using hmn)).singleOk hok⟩
    ended := by
      intro m hmb hend
      rcases update_cases hend with ⟨-, hv⟩ | ⟨hmn, hend⟩
      · cases hv
      have hg : Goes d _ m := hgoes (by simpa using hmn)
      rcases h.ended m hmb hend with hacc | ⟨hr, hset⟩
      · exact .inl (hg.accepted hacc)
      · exact .inr ⟨hg.refused hr, hset⟩
    pending := by
      intro i x hi hplaced hpc
      rcases hold hi with hi | ⟨rfl, -⟩
      · exact h.pending i x hi hplaced hpc
      show d.settlesOf item.delivery = []
      rw [hitem]
      exact hnone }

/-! Every statement keeps to the protocol. -/

theorem ok_save (entry : QuarantineEntry) :
    PlantOk eng cfg messages now refs { d with quarantine := d.quarantine ++ [entry] } σ := by
  refine ok_mono h rfl rfl rfl h.store ?_ (fun _ _ hc => hc) (fun _ hc => hc)
  intro m hr
  obtain ⟨e, he, hrec⟩ := hr
  exact ⟨e, List.mem_append_left _ he, hrec⟩

theorem exec_single {o : HandleOp} {x : Choice} {a : Except Err o.Res} (hσ : σ (.single n) = some st)
    (ha : handleAllowed eng.sha256Hex messages st o) (he : execHandle eng cfg d o x = some (d', a)) :
    ∃ st', handleTrans st o a st' ∧ PlantOk eng cfg messages now refs d' (update σ (.single n) (some st')) := by
  obtain ⟨hbegun, hst, hok⟩ := h.single n st hσ
  obtain ⟨m, p⟩ := st
  obtain rfl : m = n := hst
  have hstay := same_stage hσ
  cases o with
  | isOwner _ | getFencingToken _ | clockNow | random _ =>
    cases he
    exact ⟨_, ⟨_, rfl, rfl⟩, by rw [hstay]; exact h⟩
  | submit item =>
    obtain ⟨(rfl : p = .fetched), hitem, env, hev, henv⟩ := ha
    simp only [execHandle, Option.map_eq_some_iff] at he
    obtain ⟨s, hs, heq⟩ := he
    cases heq
    exact ⟨_, ⟨_, rfl, rfl⟩, ok_submit h hσ hitem hev henv hs⟩
  | submitted call =>
    obtain rfl : p = .submitting call := ha
    obtain ⟨r, hr, heq⟩ := Option.map_eq_some_iff.mp he
    cases heq
    obtain ⟨sub, hsub, hpc⟩ := submitReturned_iff hr
    obtain ⟨sub', hsub', hdel, hnone⟩ := hok
    rw [hsub] at hsub'
    cases hsub'
    cases r with
    | none => exact ⟨_, .inl ⟨rfl, rfl⟩, ok_single h hσ rfl ⟨call, sub, hsub, hdel, hpc⟩⟩
    | some err =>
      refine ⟨_, .inr ⟨err, rfl, rfl⟩, ok_single h hσ rfl ⟨?_, hnone (by rw [hpc]; rfl)⟩⟩
      intro i y hi hd
      rw [h.unique i call y sub hi hsub (hd.trans hdel.symm), hsub] at hi
      cases hi
      exact ⟨err, hpc⟩
  | process env token v wid =>
    obtain ⟨(rfl : p = .picked), -⟩ := ha
    exact hok.elim
  | processed call =>
    obtain rfl : p = .processing call := ha
    exact hok.elim
  | save entry =>
    obtain ⟨(rfl : p = .fetched) | (rfl : p = .failed), hrec⟩ := ha
    · simp only [execHandle] at he
      split at he
      · cases he
        refine ⟨_, .inl ⟨rfl, rfl⟩, ok_single (ok_save h entry) hσ rfl ⟨hok.1, hok.2, entry, ?_, hrec⟩⟩
        exact List.mem_append_right _ (List.mem_singleton_self _)
      · rename_i err _
        cases he
        exact ⟨_, .inr ⟨err, rfl, rfl⟩, by rw [hstay]; exact h⟩
    · exact hok.elim
  | ack k =>
    obtain ⟨(rfl : k = m), (rfl : p = .committed) | (rfl : p = .recorded)⟩ := ha
    · exact hok.elim
    · cases he
      exact ⟨_, rfl, ok_settle_single h hσ (refused_of_noSubmit hok.1) hok.2.1 (fun _ => hok.2.2)⟩
  | nak k =>
    obtain ⟨(rfl : k = m), (rfl : p = .fetched) | (rfl : p = .refused)⟩ := ha
    · cases he
      exact ⟨_, rfl, ok_settle_single h hσ (refused_of_noSubmit hok.1) hok.2 (fun hk => by cases hk)⟩
    · cases he
      exact ⟨_, rfl, ok_settle_single h hσ hok.1 hok.2 (fun hk => by cases hk)⟩
  | retry k delay =>
    obtain ⟨(rfl : k = m), (rfl : p = .fetched) | (rfl : p = .failed)⟩ := ha
    · cases he
      exact ⟨_, rfl, ok_settle_single h hσ (refused_of_noSubmit hok.1) hok.2 (fun hk => by cases hk)⟩
    · exact hok.elim

theorem exec_processor {o : HandleOp} {x : Choice} {a : Except Err o.Res} (hσ : σ (.processor w) = some st)
    (ha : handleAllowed eng.sha256Hex messages st o) (he : execHandle eng cfg d o x = some (d', a)) :
    ∃ st', handleTrans st o a st' ∧ PlantOk eng cfg messages now refs d' (update σ (.processor w) (some st')) := by
  obtain ⟨q, hw, hst, hok⟩ := h.processor w st hσ
  obtain ⟨m, p⟩ := st
  obtain rfl : m = q.delivery := hst
  have hstay := same_stage hσ
  cases o with
  | isOwner _ | getFencingToken _ | clockNow | random _ =>
    cases he
    exact ⟨_, ⟨_, rfl, rfl⟩, by rw [hstay]; exact h⟩
  | submit item =>
    obtain ⟨(rfl : p = .fetched), -⟩ := ha
    exact hok.elim
  | submitted call =>
    obtain rfl : p = .submitting call := ha
    exact hok.elim
  | process env token v wid =>
    obtain ⟨(rfl : p = .picked), hev⟩ := ha
    simp only [execHandle, Option.map_eq_some_iff] at he
    obtain ⟨s, hs, heq⟩ := he
    cases heq
    refine ⟨_, ⟨_, rfl, rfl⟩, ok_processor (ok_store h hs) hw rfl ⟨hok, env, token, v.toNat, wid, ?_⟩⟩
    cases hs
    exact ⟨.idle, .running (Call.program eng (.goProcess env token v.toNat wid)), hev, List.getElem?_concat_length⟩
  | processed call =>
    obtain rfl : p = .processing call := ha
    obtain ⟨hnone, env, token, v, wid, sess, ph, hev, hcl⟩ := hok
    obtain ⟨r, hr, heq⟩ := Option.map_eq_some_iff.mp he
    cases heq
    rcases processReturned_cases hr with ⟨i, sess', e, hcl', rfl⟩ | ⟨err, rfl⟩
    · rw [hcl] at hcl'
      cases hcl'
      exact ⟨_, .inl ⟨e, rfl, rfl⟩, ok_processor h hw rfl ⟨hnone, env, token, v, wid, call, sess, e, hev, hcl⟩⟩
    · exact ⟨_, .inr ⟨err, rfl, rfl⟩, ok_processor h hw rfl hnone⟩
  | save entry =>
    obtain ⟨(rfl : p = .fetched) | (rfl : p = .failed), hrec⟩ := ha
    · exact hok.elim
    simp only [execHandle] at he
    split at he
    · cases he
      refine ⟨_, .inl ⟨rfl, rfl⟩, ok_processor (ok_save h entry) hw rfl ⟨hok, entry, ?_, hrec⟩⟩
      exact List.mem_append_right _ (List.mem_singleton_self _)
    · rename_i err _
      cases he
      exact ⟨_, .inr ⟨err, rfl, rfl⟩, by rw [hstay]; exact h⟩
  | ack k =>
    obtain ⟨(rfl : k = q.delivery), (rfl : p = .committed) | (rfl : p = .recorded)⟩ := ha
    · cases he
      exact ⟨_, rfl, ok_settle_processor h hw hok.1 (fun hk => by cases hk) (fun _ => .inl hok.2)⟩
    · cases he
      exact ⟨_, rfl, ok_settle_processor h hw hok.1 (fun hk => by cases hk) (fun _ => .inr hok.2)⟩
  | nak k =>
    obtain ⟨-, (rfl : p = .fetched) | (rfl : p = .refused)⟩ := ha <;> exact hok.elim
  | retry k delay =>
    obtain ⟨(rfl : k = q.delivery), (rfl : p = .fetched) | (rfl : p = .failed)⟩ := ha
    · exact hok.elim
    · cases he
      exact ⟨_, rfl, ok_settle_processor h hw hok (fun hk => by cases hk) (fun hk => by cases hk)⟩

/-! Handlers start and end. -/

theorem start_single (hn : n ∉ d.begun) :
    PlantOk eng cfg messages now refs { d with begun := n :: d.begun } (update σ (.single n) (some ⟨n, .fetched⟩)) :=
  { h with
    unbegun := fun m hm => h.unbegun m (fun hin => hm (List.mem_cons_of_mem _ hin))
    processor := by
      intro v s hs
      obtain ⟨x, hx, hst, hok⟩ := h.processor v s hs
      exact ⟨x, hx, hst, processorOk_mono rfl (fun _ hr => hr) (fun _ _ hc => hc) (fun _ hc => hc) hok⟩
    single := by
      intro m s hs
      rcases update_cases hs with ⟨he, hv⟩ | ⟨-, hs⟩
      · cases he
        cases hv
        exact ⟨List.mem_cons_self, rfl, h.unbegun n hn⟩
      · obtain ⟨hb, hst, hok⟩ := h.single m s hs
        exact ⟨List.mem_cons_of_mem _ hb, hst, singleOk_mono rfl rfl (fun _ hr => hr) hok⟩
    ended := by
      intro m hm hend
      rcases update_cases hend with ⟨-, hv⟩ | ⟨hmn, hend⟩
      · cases hv
      · exact h.ended m ((List.mem_cons.mp hm).resolve_left (by simpa using hmn)) hend }

theorem finish_single (hσ : σ (.single n) = some st) (hfin : st.phase = .accepted ∨ st.phase = .settled) :
    PlantOk eng cfg messages now refs d (update σ (.single n) none) :=
  { h with
    single := by
      intro m s hs
      rcases update_cases hs with ⟨-, hv⟩ | ⟨-, hs⟩
      · cases hv
      · exact h.single m s hs
    ended := by
      intro m hm hend
      rcases update_cases hend with ⟨he, -⟩ | ⟨-, hend⟩
      · cases he
        obtain ⟨-, -, hok⟩ := h.single n st hσ
        rcases hfin with hp | hp
        · exact .inl (by rwa [hp] at hok)
        · exact .inr (by rwa [hp] at hok)
      · exact h.ended m hm hend }

theorem finish_processor (hσ : σ (.processor w) = some st)
    (hfin : st.phase = .settled) (hn : KeyQueue.next cfg.limits d.queue (.worker w [] .proceed) = some s) :
    PlantOk eng cfg messages now refs { d with queue := s } (update σ (.processor w) none) := by
  obtain ⟨q, hw, -, hok⟩ := h.processor w st hσ
  rw [hfin] at hok
  have hreach := h.queue.step hn
  simp only [KeyQueue.next, hw, workerStep] at hn
  cases hn
  have hinside : ∀ {v : Nat} {x}, (d.queue.workers.set w (.finishing q))[v]? = some (.inside x) ↔
      v ≠ w ∧ d.queue.workers[v]? = some (.inside x) := by
    intro v x
    constructor
    · intro hv
      rcases Pool.get_step hv with ⟨-, he⟩ | hv
      · cases he
      · exact hv
    · intro hv
      rw [Pool.get_other hv.1]
      exact hv.2
  exact { h with
    queue := hreach
    held := fun v x hv => h.held v x (hinside.mp hv).2
    entered := by
      intro x hx
      rcases h.entered x hx with ⟨v, hv⟩ | hset
      · by_cases hvw : v = w
        · subst hvw
          rw [hw] at hv
          cases hv
          exact .inr hok
        · exact .inl ⟨v, hinside.mpr ⟨hvw, hv⟩⟩
      · exact .inr hset
    idle := by
      intro v x hv hidle
      obtain ⟨hvw, hold⟩ := hinside.mp hv
      rcases update_cases hidle with ⟨he, -⟩ | ⟨-, hidle⟩
      · cases he
        exact absurd rfl hvw
      · exact h.idle v x hold hidle
    processor := by
      intro v x hv
      rcases update_cases hv with ⟨-, hs⟩ | ⟨hvw, hv⟩
      · cases hs
      · obtain ⟨y, hy, hst, hok⟩ := h.processor v x hv
        exact ⟨y, hinside.mpr ⟨by simpa using hvw, hy⟩, hst, processorOk_queue hok⟩ }

end

/-! Whole runs. -/

section
variable {eng : Engine} {cfg : Settings} {messages : Nat → Message} {now : Time} {refs : Reference}

theorem plant_sound : Sound (plant eng cfg messages) (fun _ => handleProto eng.sha256Hex messages) HandleFin
    (PlantOk eng cfg messages now refs) (fun _ _ _ _ => True) where
  start := by
    intro d σ t d' p h hσ hs
    cases t with
    | single n =>
      simp only [plant, plantStart] at hs
      split at hs
      · cases hs
      rename_i hn
      cases hs
      exact ⟨⟨n, .fetched⟩, start_single h hn, wp_processSingleDelivery⟩
    | processor w =>
      simp only [plant, plantStart] at hs
      split at hs
      · rename_i q hw
        cases hs
        exact ⟨⟨q.delivery, .picked⟩, ok_processor h hw rfl (h.idle w q hw hσ),
          wp_processDelivery (sent_event h (inside_sent h hw))⟩
      · cases hs
  exec := by
    intro d σ t st o x d' a h hσ ha _ he
    cases t with
    | single n => exact exec_single h hσ ha he
    | processor w => exact exec_processor h hσ ha he
  finish := by
    intro d σ t st r h hσ hfin
    cases t with
    | single n => exact finish_single h hσ hfin
    | processor w =>
      obtain ⟨q, hw, -⟩ := h.processor w st hσ
      have hn : KeyQueue.next cfg.limits d.queue (.worker w [] .proceed) =
          some (d.queue.goWorker w (.finishing q)) := by
        simp only [KeyQueue.next, hw, workerStep]
      show PlantOk eng cfg messages now refs (plantFinish cfg d (.processor w)) _
      simp only [plantFinish, hn]
      exact finish_processor h hσ hfin hn
  env := by
    intro d σ v d' h hv
    cases v with
    | store a =>
      obtain ⟨s, hs, rfl⟩ := Option.map_eq_some_iff.mp hv
      exact ok_store h hs
    | queue a =>
      simp only [plant, plantEnv] at hv
      split at hv
      · cases hv
      rename_i hby
      obtain ⟨s, hs, rfl⟩ := Option.map_eq_some_iff.mp hv
      refine ok_queue h hs ((next_steps hs).moves (queue_inv h) ?_ ?_)
      · intro item ctx ha
        rw [ha] at hby
        exact hby rfl
      · intro w order case q ha hw
        rw [ha] at hby
        simp only [byHandler, hw] at hby
        exact hby trivial

/-- A worker that has fetched nothing, on a database with the given rules. -/
def Plant.init (now : Time) (refs : Reference) : Plant := ⟨Store.init now refs, KeyQueue.init, [], [], []⟩

theorem init_plantOk : PlantOk eng cfg messages now refs (Plant.init now refs) (fun _ => none) := by
  have hnil : ∀ {α : Type} {i : Nat} {x : α}, ([] : List α)[i]? ≠ some x := by simp
  constructor
  case queue => exact Reachable.refl _
  case store => exact Reachable.refl _
  case unbegun =>
    intro n _
    exact ⟨fun i sub hi => absurd hi hnil, rfl⟩
  case unique => exact fun i j sub sub' hi => absurd hi hnil
  case event => exact fun i sub hi => absurd hi hnil
  case single => exact fun n st hn => by cases hn
  case ended => exact fun n hn => absurd hn List.not_mem_nil
  case pending => exact fun i sub hi => absurd hi hnil
  case waiting => exact fun q hq => absurd hq List.not_mem_nil
  case held => exact fun w q hw => absurd hw hnil
  case entered => exact fun q hq => absurd hq List.not_mem_nil
  case idle => exact fun w q hw => absurd hw hnil
  case processor => exact fun w st hw => by cases hw
  case acks => exact fun n hn => absurd hn List.not_mem_nil

abbrev PlantWorld := World Plant Task HandleOp HandleOp.Res Err Unit

abbrev PlantAct := Act Task PlantStep Choice

abbrev plantNext (eng : Engine) (cfg : Settings) (messages : Nat → Message) :
    PlantWorld → PlantAct → Option PlantWorld :=
  next (plant eng cfg messages)

theorem plant_run {ls : List PlantAct} {u : PlantWorld}
    (h : run (plantNext eng cfg messages) (init (Plant.init now refs)) ls = some u) :
    Holds (fun _ => handleProto eng.sha256Hex messages) HandleFin (PlantOk eng cfg messages now refs) u := by
  refine holds_along plant_sound init_plantOk ?_ h
  exact along_trivial (fun s a => by
    cases a with
    | exec w x =>
      simp only [Meets]
      split <;> trivial
    | _ => trivial)

/-- An event of which Process returned an execution has it in the committed tables. -/
theorem committed_execution (hsha : Injective eng.sha256Hex) {s : Store} {n : Nat}
    (hs : Reachable (storeNext eng) (Store.init now refs) s) (h : Committed messages s n) :
    ∃ env id r, (messages n).event = .ok (some env) ∧ s.db.tables.executions id = some r ∧ r.key = env.key := by
  obtain ⟨env, token, shard, wid, call, sess, e, hev, hcl⟩ := h
  obtain ⟨ls, hls⟩ := hs
  obtain ⟨id, r, -, hr, hk, -⟩ := returned_execution (holds_run hsha hls) hcl rfl
  exact ⟨env, id, r, hev, hr, hk⟩

end

/-- In every run of a worker, with every answer of the database, the quarantine repository,
    the queue and the broker: a delivery that was acknowledged has an execution of its event
    in the committed tables, returned by a call of Process for that event, or an entry of its
    own whose save succeeded; a delivery that a processor picked up has at most one call that
    settles it, an Ack or a Retry, and exactly one once the processor is done; and one that is
    through the fetch loop and was not accepted by the queue has exactly one, and is never
    picked up. -/
theorem ack_safety {eng : Engine} (hsha : Injective eng.sha256Hex) {cfg : Settings} {messages : Nat → Message}
    {now : Time} {refs : Reference} {ls : List PlantAct} {u : PlantWorld}
    (h : run (plantNext eng cfg messages) (init (Plant.init now refs)) ls = some u) :
    (∀ n, (n, SettleKind.ack) ∈ u.data.settles →
      (Committed messages u.data.store n ∧ ∃ env id r, (messages n).event = .ok (some env) ∧
        u.data.store.db.tables.executions id = some r ∧ r.key = env.key) ∨
      Recorded eng.sha256Hex messages u.data n) ∧
    (∀ q ∈ u.data.queue.entered,
      ((∃ w : Nat, u.data.queue.workers[w]? = some (.inside q)) ∧ (u.data.settlesOf q.delivery = [] ∨
        ∃ k, u.data.settlesOf q.delivery = [k] ∧ (k = .ack ∨ k = .retry))) ∨
      ∃ k, u.data.settlesOf q.delivery = [k] ∧ (k = .ack ∨ k = .retry)) ∧
    (∀ n ∈ u.data.begun, u.tasks (.single n) = none → ¬ Accepted u.data n →
      (∃ k, u.data.settlesOf n = [k]) ∧ ∀ q ∈ u.data.queue.entered, q.delivery ≠ n) := by
  obtain ⟨σ, hok, hfol⟩ := plant_run h
  have hkind : ∀ {k : SettleKind}, k ≠ .nak → k = .ack ∨ k = .retry := by
    intro k hk
    cases k with
    | ack => exact .inl rfl
    | nak => exact absurd rfl hk
    | retry => exact .inr rfl
  refine ⟨?_, ?_, ?_⟩
  · intro n hn
    rcases hok.acks n hn with hc | hr
    · exact .inl ⟨hc, committed_execution hsha hok.store hc⟩
    · exact .inr hr
  · intro q hq
    rcases hok.entered q hq with ⟨w, hw⟩ | ⟨k, hone, hk⟩
    · refine .inl ⟨⟨w, hw⟩, ?_⟩
      cases hσ : σ (.processor w) with
      | none => exact .inl (hok.idle w q hw hσ)
      | some st =>
        obtain ⟨q', hw', -, hst⟩ := hok.processor w st hσ
        rw [hw] at hw'
        cases hw'
        cases hp : st.phase <;> rw [hp] at hst
        case settled =>
          obtain ⟨k, hone, hk⟩ := hst
          exact .inr ⟨k, hone, hkind hk⟩
        case picked => exact .inl hst
        case processing call => exact .inl hst.1
        case committed => exact .inl hst.1
        case failed => exact .inl hst
        case recorded => exact .inl hst.1
        all_goals exact hst.elim
    · exact .inr ⟨k, hone, hkind hk⟩
  · intro n hn htask hacc
    have hσ : σ (.single n) = none := by
      have hf := hfol (.single n)
      rw [htask] at hf
      cases hσ : σ (.single n) with
      | none => rfl
      | some st =>
        rw [hσ] at hf
        exact hf.elim
    rcases hok.ended n hn hσ with ha | ⟨hr, hone⟩
    · exact absurd ha hacc
    · exact ⟨hone, fun q hq => refused_not_sent hok hr (entered_mem (queue_inv hok) hq)⟩

namespace AckSample

def cfg : Settings where
  numShards := 16
  retryDelay := 5 * 1000000000
  workerID := "w1"
  limits := newKeyQueue 10 10 2

def sha256Hex : String → String := Text.digest (FlowRule.Sample.digests ++
  [("garbage", "795b6904e54f82411df4b0e27a373a55eea3f9d66dac5a9bce1dd92f7b401da5"),
   ("event-quarantine|0:|64:795b6904e54f82411df4b0e27a373a55eea3f9d66dac5a9bce1dd92f7b401da5|0:|validation",
    "5b0bd1464a4c19d34fd527b233df38741b25ce0d4710590633e4aa827122fc95")])

theorem sha256Hex_injective : Injective sha256Hex :=
  Text.digest_injective (by decide) (by decide)

def engine : Engine := FlowRule.Sample.engineOf sha256Hex FlowRule.Sample.semantics

/-- The delivery 0 has an event, the others are not JSON. -/
def messages (n : Nat) : Message :=
  if n = 0 then ⟨"event", .ok (some FlowRule.Sample.event), none⟩
  else ⟨"garbage", .error (.msg "invalid character 'g' looking for beginning of value"), none⟩

def yes : Choice := ⟨none, true, some 1, 63902822401000000, 0⟩

def onStore (as : List StoreAct) : List PlantAct := as.map (fun a => .env (.store a))

def onQueue (as : List (Act Nat)) : List PlantAct := as.map (fun a => .env (.queue a))

/-- The worker has the lease of the shard. The first delivery goes through the queue and is
    processed; the second one is quarantined. -/
def deliveries : List PlantAct :=
  onStore (([.start (.goAcquire 12 "w1" 30000000)] : List StoreAct) ++ FlowRule.Sample.steps 0 4 ++
    ([.finish 0] : List StoreAct)) ++
  onQueue [.start] ++
  ([.start (.single 0), .exec (.single 0) yes, .exec (.single 0) yes, .exec (.single 0) yes] : List PlantAct) ++
  onQueue (List.replicate 7 (.submission 0 .proceed)) ++
  ([.exec (.single 0) yes, .finish (.single 0)] : List PlantAct) ++
  onQueue (List.replicate 4 (.worker 0 ["k"] .proceed)) ++
  ([.start (.processor 0), .exec (.processor 0) yes] : List PlantAct) ++
  onStore (FlowRule.Sample.steps 1 14 ++ ([.finish 1] : List StoreAct)) ++
  ([.exec (.processor 0) yes, .exec (.processor 0) yes, .finish (.processor 0)] : List PlantAct) ++
  ([.start (.single 1), .exec (.single 1) yes, .exec (.single 1) yes, .exec (.single 1) yes,
    .finish (.single 1)] : List PlantAct)

end AckSample

open AckSample

theorem ack_safety_two_deliveries :
    ∃ u : PlantWorld, run (plantNext engine cfg messages)
        (init (Plant.init 63902822400000000 FlowRule.Sample.refs)) deliveries = some u ∧
      u.data.settles = [(0, .ack), (1, .ack)] ∧
      ((Committed messages u.data.store 0 ∧ ∃ env id r, (messages 0).event = .ok (some env) ∧
        u.data.store.db.tables.executions id = some r ∧ r.key = env.key) ∨
      Recorded engine.sha256Hex messages u.data 0) := by
  have hrun : (run (plantNext engine cfg messages)
      (init (Plant.init 63902822400000000 FlowRule.Sample.refs)) deliveries).map
        (fun u => u.data.settles) = some [(0, .ack), (1, .ack)] := by decide +kernel
  obtain ⟨u, hu, hsettles⟩ := Option.map_eq_some_iff.mp hrun
  have hack : (0, SettleKind.ack) ∈ u.data.settles := by
    rw [hsettles]
    exact List.mem_cons_self
  exact ⟨u, hu, hsettles, (ack_safety sha256Hex_injective hu).1 0 hack⟩

end FlowRule.Worker
