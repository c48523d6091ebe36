import FlowRule.Lib.Handle
import FlowRule.Outbox.Publisher

/- One pass of a publisher over the batch it has claimed. What each statement is answered is given
   in advance, for each effect. An effect was attempted if the trace has a part of its own for
   it, which begins with its only send and goes on to settle it.

   The Go worker attempts every effect that it can read. The Rust worker attempts the effects up
   to the first whose settlement fails or, after a failed send, finds the claim lost
   (`passes_attempt_all_iff`). -/
namespace FlowRule

open Prog

namespace Outbox

/-- The answers of one pass; those to statements about an effect are by the effect. -/
structure Outcomes where
  clock : List Op → Time
  newID : List Op → String
  claim : Except Err (List (String × OutboxRow))
  send : String → Except Err Unit
  settle : String → Except Err Nat
  quarantineSave : String → Except Err Unit
  quarantineDelete : String → Except Err Nat
  begin : String → Except Err Unit
  commit : String → Except Err Unit

structure Pass where
  trace : List Op
  effect : String

def Pass.init : Pass := ⟨[], ""⟩

def Pass.after (p : Pass) (op : Op) : Pass where
  trace := p.trace ++ [op]
  effect := match op with
    | .send _ id _ => id
    | _ => p.effect

def Outcomes.answer (o : Outcomes) (p : Pass) : (op : Op) → Except Err op.Res
  | .clock => .ok (o.clock p.trace)
  | .newID => .ok (o.newID p.trace)
  | .claim _ _ _ _ => o.claim
  | .send _ id _ => o.send id
  | .settle _ _ _ => o.settle p.effect
  | .quarantineSave _ _ => o.quarantineSave p.effect
  | .quarantineSaveNow _ _ => o.quarantineSave p.effect
  | .quarantineDelete _ _ => o.quarantineDelete p.effect
  | .begin => o.begin p.effect
  | .commit => o.commit p.effect

def Outcomes.step (o : Outcomes) (op : Op) (p : Pass) : Except Err op.Res × Pass := (o.answer p op, p.after op)

/-! What it is to attempt an effect. -/

def Op.sent? : Op → Option (String × OutboxRow)
  | .send _ id row => some (id, row)
  | _ => none

def Op.settles (id : String) : Op → Bool
  | .settle ids _ _ => ids == [id]
  | .quarantineSave _ row => row.sourceType == "effect" && row.sourceID == id
  | .begin => true
  | _ => false

structure Attempted (e : String × OutboxRow) (ops : List Op) : Prop where
  send : ∃ waits rest, ops = .send waits e.1 e.2 :: rest ∧ ∀ op ∈ rest, op.sent? = none
  settle : ∃ op ∈ ops, op.settles e.1 = true

def Covers (rows : List (String × OutboxRow)) (ops : List Op) : Prop :=
  ∃ parts : List (List Op), ops = parts.flatten ∧ List.Forall₂ Attempted rows parts

variable {ops : List Op}

theorem Attempted.sends {e : String × OutboxRow} (h : Attempted e ops) : ops.filterMap Op.sent? = [e] := by
  obtain ⟨waits, rest, rfl, hrest⟩ := h.send
  have hnone : rest.filterMap Op.sent? = [] := List.filterMap_eq_nil_iff.mpr hrest
  have hfirst : (Op.send waits e.1 e.2).sent? = some e := rfl
  rw [List.filterMap_cons_some hfirst, hnone]

theorem Covers.sends {rows : List (String × OutboxRow)} (h : Covers rows ops) : ops.filterMap Op.sent? = rows := by
  obtain ⟨parts, rfl, hparts⟩ := h
  induction hparts with
  | nil => rfl
  | cons hfirst _ ih => rw [List.flatten_cons, List.filterMap_append, hfirst.sends, ih, List.singleton_append]

theorem covers_nil : Covers [] [] := ⟨[], rfl, .nil⟩

theorem covers_cons {e : String × OutboxRow} {rows : List (String × OutboxRow)} {more : List Op}
    (he : Attempted e ops) (h : Covers rows more) : Covers (e :: rows) (ops ++ more) := by
  obtain ⟨parts, rfl, hparts⟩ := h
  exact ⟨ops :: parts, rfl, .cons he hparts⟩

def AttemptsAll (rows : List (String × OutboxRow)) (trace : List Op) : Prop :=
  ∃ batch owner ttl atOnce ops, trace = .newID :: .claim batch owner ttl atOnce :: ops ∧ Covers rows ops

/-! Parts of a pass without a send. -/

/-- The pass has gone on from `p` to `p'` with these statements, of which none is a send. -/
structure Goes (p p' : Pass) (ops : List Op) : Prop where
  trace : p'.trace = p.trace ++ ops
  effect : p'.effect = p.effect
  sends : ∀ op ∈ ops, op.sent? = none

def After (p p' : Pass) : Prop := ∃ ops, Goes p p' ops

def Settled (id : String) (p p' : Pass) : Prop := ∃ ops, Goes p p' ops ∧ ∃ op ∈ ops, op.settles id = true

section
variable {p p' q : Pass} {op : Op} {ops : List Op} {id : String}

theorem goes_refl (p : Pass) : Goes p p [] := ⟨(List.append_nil _).symm, rfl, List.forall_mem_nil _⟩

theorem Goes.step (h : Goes p q ops) (hop : op.sent? = none) : Goes p (q.after op) (ops ++ [op]) where
  trace := by
    show q.trace ++ [op] = p.trace ++ (ops ++ [op])
    rw [h.trace, List.append_assoc]
  effect := by
    cases op with
    | send waits id row => cases hop
    | _ => exact h.effect
  sends := by
    intro x hx
    rcases List.mem_append.mp hx with hx | hx
    · exact h.sends x hx
    · rw [List.mem_singleton.mp hx]
      exact hop

theorem After.step (h : After p q) (hop : op.sent? = none) : After p (q.after op) := by
  obtain ⟨ops, h⟩ := h
  exact ⟨_, h.step hop⟩

theorem After.settle (h : After p q) (hop : op.sent? = none) (hs : op.settles id = true) :
    Settled id p (q.after op) := by
  obtain ⟨ops, h⟩ := h
  exact ⟨_, h.step hop, op, List.mem_append_right _ (List.mem_singleton_self _), hs⟩

theorem Settled.step (h : Settled id p q) (hop : op.sent? = none) : Settled id p (q.after op) := by
  obtain ⟨ops, h, x, hx, hs⟩ := h
  exact ⟨_, h.step hop, x, List.mem_append_left _ hx, hs⟩

/-- The pass has gone on with one attempt for each of the effects. -/
def CoversFrom (rows : List (String × OutboxRow)) (p p' : Pass) : Prop :=
  ∃ ops, p'.trace = p.trace ++ ops ∧ Covers rows ops

theorem coversFrom_nil (p : Pass) : CoversFrom [] p p := ⟨[], (List.append_nil _).symm, covers_nil⟩

variable {e : String × OutboxRow} {rows : List (String × OutboxRow)} {waits : Bool}

theorem Settled.covers (h : Settled e.1 (p.after (.send waits e.1 e.2)) q) (hrest : CoversFrom rows q p') :
    CoversFrom (e :: rows) p p' := by
  obtain ⟨ops, hgoes, x, hx, hs⟩ := h
  obtain ⟨more, hmore, hcov⟩ := hrest
  refine ⟨(.send waits e.1 e.2 :: ops) ++ more, ?_,
    covers_cons ⟨⟨waits, ops, rfl, hgoes.sends⟩, x, List.mem_cons_of_mem _ hx, hs⟩ hcov⟩
  rw [hmore, hgoes.trace]
  simp [Pass.after]

/-! What a statement is answered. -/

variable {o : Outcomes} {R : Type}

theorem wp_sql {Q : Pass → Except Err op.Res → Prop} :
    wp (handler o.step) (sql op) Q q ↔ Q (q.after op) (o.answer q op) := by
  refine wp_call.trans ⟨fun h => h.2 _ _ rfl, fun h => ⟨trivial, ?_⟩⟩
  intro a q' ha
  cases ha
  exact h

theorem wp_answered {g : Err → Err} {k : op.Res → Tx R} {Q : Pass → Except Err R → Prop}
    (herror : ∀ err, o.answer q op = .error err → Q (q.after op) (.error (g err)))
    (hok : ∀ r, o.answer q op = .ok r → wp (handler o.step) (k r) Q (q.after op)) :
    wp (handler o.step) ((sql op).wrap g >>= k) Q q := by
  refine wp_bind.mpr (wp_wrap.mpr (wp_sql.mpr ?_))
  cases ha : o.answer q op with
  | error err => exact herror err ha
  | ok r => exact hok r ha

end

end Outbox

/-! The Go worker. -/

namespace Go

open Outbox (Outcomes Pass Op CoversFrom After Settled goes_refl wp_sql wp_answered)

section
variable {o : Outcomes} {p q : Pass} {id : String}

theorem wp_settle {action claimant : String} {how : Outbox.Settlement} {Q : Pass → Except Err Unit → Prop}
    (hq : ∀ r, Q (q.after (.settle [id] claimant how)) r) :
    wp (handler o.step) (settleEffects action [id] claimant how) Q q := by
  refine wp_answered (fun _ _ => hq _) (fun n _ => ?_)
  change Nat at n
  show wp _ (if n ≠ 1 then _ else _) _ _
  split <;> exact hq _

theorem wp_quarantineDelete {tenantID qid : String} (h : Settled id p q) :
    wp (handler o.step) (quarantineDelete tenantID qid) (fun q' _ => Settled id p q') q := by
  unfold quarantineDelete
  split
  · exact h
  have hq : Settled id p (q.after (.quarantineDelete tenantID qid)) := h.step rfl
  refine wp_answered (fun _ _ => hq) (fun n _ => ?_)
  change Nat at n
  show wp _ (if n = 0 then _ else _) _ _
  split <;> exact hq

/-- A failure is noted, and the effect counts as settled. -/
def Noted (id : String) (p : Pass) (q : Pass) (r : Except Err (List Err)) : Prop :=
  Settled id p q ∧ ∃ fs, r = .ok fs

theorem wp_quarantineEffect {claimToken : String} {row : OutboxRow} {sendErr : Err} :
    wp (handler o.step) (quarantineEffect claimToken (id, row) sendErr) (Noted id p) p := by
  refine wp_bind.mpr (wp_sql.mpr (wp_bind.mpr (wp_sql.mpr (wp_bind.mpr (wp_caught.mpr (wp_wrap.mpr (wp_sql.mpr ?_)))))))
  -- the record is the first part of the settlement
  have hsave : ∀ row, row.sourceType = "effect" → row.sourceID = id → ∀ qid,
      Settled id p (((p.after .newID).after .clock).after (.quarantineSave qid row)) := by
    intro row htype hid qid
    refine ((After.step ⟨_, goes_refl p⟩ rfl).step rfl).settle rfl ?_
    simp [Op.settles, htype, hid]
  cases o.answer _ (.quarantineSave _ _) with
  | error e => exact ⟨hsave _ rfl rfl _, _, rfl⟩
  | ok u =>
    refine wp_bind.mpr (wp_caught.mpr (wp_settle ?_))
    rintro (e | u)
    · refine wp_bind.mpr (wp_caught.mpr (wp_mono ?_ (wp_quarantineDelete (Settled.step (hsave _ rfl rfl _) rfl))))
      rintro q' (e | u) hq' <;> exact ⟨hq', _, rfl⟩
    · exact ⟨Settled.step (hsave _ rfl rfl _) rfl, _, rfl⟩

theorem wp_publishEffect {svc : EffectsService} (hq : svc.quarantine = true) (claimToken : String)
    (ef : String × OutboxRow) :
    wp (handler o.step) (publishEffect svc claimToken ef) (Noted ef.1 (p.after (.send true ef.1 ef.2))) p := by
  refine wp_bind.mpr (wp_caught.mpr (wp_sql.mpr ?_))
  have hsettle : ∀ how, Settled ef.1 (p.after (.send true ef.1 ef.2))
      ((p.after (.send true ef.1 ef.2)).after (.settle [ef.1] claimToken how)) := by
    intro how
    exact After.settle ⟨_, goes_refl _⟩ rfl (by simp [Op.settles])
  cases o.answer p (.send true ef.1 ef.2) with
  | error sendErr =>
    show wp _ (if ef.2.maxAttempts ≤ ef.2.attempts + 1 then _ else _) _ _
    rw [hq]
    split
    · exact wp_quarantineEffect
    · refine wp_bind.mpr (wp_caught.mpr (wp_settle ?_))
      rintro (e | u) <;> exact ⟨hsettle _, _, rfl⟩
  | ok u =>
    refine wp_bind.mpr (wp_caught.mpr (wp_settle ?_))
    rintro (e | u) <;> exact ⟨hsettle _, _, rfl⟩

theorem wp_publishEffects (svc : EffectsService) (hq : svc.quarantine = true) (claimToken : String)
    (rows : List (String × OutboxRow)) : ∀ p, wp (handler o.step) (publishEffects svc claimToken rows)
      (fun q r => CoversFrom rows p q ∧ ∃ fs, r = .ok fs) p := by
  induction rows with
  | nil => exact fun p => ⟨Outbox.coversFrom_nil p, _, rfl⟩
  | cons ef rest ih =>
    intro p
    refine wp_bind.mpr (wp_mono ?_ (wp_publishEffect hq claimToken ef))
    rintro q - ⟨hsettled, fs, rfl⟩
    refine wp_bind.mpr (wp_mono ?_ (ih q))
    rintro q' - ⟨hcovers, more, rfl⟩
    exact ⟨hsettled.covers hcovers, _, rfl⟩

variable {rows : List (String × OutboxRow)} {batchSize : Int}

theorem scanOutboxEffects_ok (h : ∀ e ∈ rows, e.2.lastError ≠ none) : scanOutboxEffects rows = .ok rows := by
  unfold scanOutboxEffects
  induction rows with
  | nil => rfl
  | cons e rest ih =>
    obtain ⟨hfirst, hrest⟩ := List.forall_mem_cons.mp h
    have hscan : scanOutboxEffect e = .ok e := by
      unfold scanOutboxEffect
      split
      · rename_i hnull
        exact absurd hnull hfirst
      · rfl
    rw [List.mapM_cons, hscan, ih hrest]
    rfl

theorem scanOutboxEffects_error {e : String × OutboxRow} (he : e ∈ rows)
    (hnull : e.2.lastError = none) : ∃ err, scanOutboxEffects rows = .error err := by
  cases hscan : scanOutboxEffects rows with
  | error err => exact ⟨err, rfl⟩
  | ok effects =>
    obtain ⟨x, hx⟩ := (Checks.mapM_ok hscan).2 e he
    simp [scanOutboxEffect, hnull] at hx

theorem claim_valid (hpos : 0 < batchSize) (hmax : batchSize ≤ 1000) (claimant uuid : String) :
    validateClaimArguments batchSize (claimant ++ "-" ++ uuid) Outbox.claimTTL = .ok () := by
  have howner : Text.trimSpace (claimant ++ "-" ++ uuid) ≠ "" := by
    apply Text.trimSpace_ne_empty (c := '-') _ (by decide)
    rw [String.toList_append, String.toList_append]
    simp
  unfold validateClaimArguments
  rw [if_neg (by omega), if_neg howner, if_neg (by decide)]

theorem handle_claimPending (hclaim : o.claim = .ok rows)
    {owner : String} (hvalid : validateClaimArguments batchSize owner Outbox.claimTTL = .ok ()) :
    handle o.step (claimPending batchSize owner Outbox.claimTTL) p =
      (scanOutboxEffects rows, p.after (.claim batchSize.toNat owner Outbox.claimTTL true)) := by
  have hstep : o.step (.claim batchSize.toNat owner Outbox.claimTTL true) p =
      (.ok rows, p.after (.claim batchSize.toNat owner Outbox.claimTTL true)) := Prod.ext hclaim rfl
  have hargs : handle o.step (Prog.ofExcept (validateClaimArguments batchSize owner Outbox.claimTTL)) p =
      (.ok (), p) := by
    rw [hvalid, handle_ofExcept]
  refine (handle_bind_ok hargs).trans ((handle_call_ok hstep).trans ?_)
  rw [handle_ofExcept]

def passTrace (o : Outcomes) (workerID : String) (batchSize : Int) : List Outbox.Op :=
  (handle o.step (publishBatch (workerService workerID) batchSize) Pass.init).2.trace

theorem passTrace_eq (workerID : String) (hpos : 0 < batchSize) {r : Except Err (List (String × OutboxRow))}
    {q : Pass} (hc : handle o.step (claimPending batchSize ((workerService workerID).claimant ++ "-" ++ o.newID [])
      Outbox.claimTTL) (Pass.init.after .newID) = (r, q)) :
    passTrace o workerID batchSize = match r with
      | .ok effects => (handle o.step (publishEffects (workerService workerID)
          ((workerService workerID).claimant ++ "-" ++ o.newID []) effects) q).2.trace
      | .error _ => q.trace := by
  have hid : handle o.step (Outbox.sql .newID) Pass.init = (.ok (o.newID []), Pass.init.after .newID) := handle_call
  unfold passTrace publishBatch
  rw [if_neg (by simp [workerService, newService]), if_neg (by simp [workerService, newService]), if_neg (by omega)]
  refine (congrArg (fun x : Except Err Unit × Pass => x.2.trace) (handle_bind_ok hid)).trans ?_
  cases r with
  | error e => exact congrArg (fun x : Except Err Unit × Pass => x.2.trace) (handle_bind_error (handle_wrap_error hc))
  | ok effects =>
    refine (congrArg (fun x : Except Err Unit × Pass => x.2.trace) (handle_bind_ok (handle_wrap_ok hc))).trans ?_
    obtain ⟨-, fs, hfs⟩ := handle_of_wp (wp_publishEffects (o := o) (workerService workerID) rfl
      ((workerService workerID).claimant ++ "-" ++ o.newID []) effects q)
    refine (congrArg (fun x : Except Err Unit × Pass => x.2.trace) (handle_bind_ok (Prod.ext hfs rfl))).trans ?_
    dsimp only
    split <;> rfl

theorem passTrace_covers_iff (hclaim : o.claim = .ok rows) (workerID : String) (hpos : 0 < batchSize)
    (hmax : batchSize ≤ 1000) :
    Outbox.AttemptsAll rows (passTrace o workerID batchSize) ↔ ∀ e ∈ rows, e.2.lastError ≠ none := by
  have hc := handle_claimPending (p := Pass.init.after .newID) hclaim
    (claim_valid hpos hmax (workerService workerID).claimant (o.newID []))
  constructor
  · intro h e he hnull
    obtain ⟨err, herr⟩ := scanOutboxEffects_error he hnull
    rw [herr] at hc
    obtain ⟨batch, owner, ttl, atOnce, ops, htrace, hcov⟩ := h
    rw [passTrace_eq workerID hpos hc] at htrace
    -- the pass ended with its claim, and so nothing was attempted
    have hnil : ops = [] := by
      simp only [Pass.after, Pass.init, List.nil_append, List.singleton_append, List.cons.injEq] at htrace
      exact htrace.2.2.symm
    rw [hnil] at hcov
    have hrows : [] = rows := hcov.sends
    rw [← hrows] at he
    cases he
  · intro hall
    rw [scanOutboxEffects_ok hall] at hc
    obtain ⟨⟨ops, htrace, hcov⟩, -⟩ := handle_of_wp (wp_publishEffects (o := o) (workerService workerID) rfl
      ((workerService workerID).claimant ++ "-" ++ o.newID []) rows
      ((Pass.init.after .newID).after (.claim batchSize.toNat ((workerService workerID).claimant ++ "-" ++ o.newID [])
        Outbox.claimTTL true)))
    exact ⟨_, _, _, _, ops, (passTrace_eq workerID hpos hc).trans htrace, hcov⟩

/-- Whatever a pass ends with, the loop goes on to the next tick. -/
theorem publishLoop_goes_on (svc : EffectsService) (batchSize : Int) (ticks : Nat) :
    ∀ p, (handle o.step (publishLoop svc batchSize ticks) p).1 = .ok () := by
  induction ticks with
  | zero => exact fun _ => rfl
  | succ ticks ih =>
    intro p
    have hpass : handle o.step (publishBatch svc batchSize).caught p =
        (.ok (handle o.step (publishBatch svc batchSize) p).1, (handle o.step (publishBatch svc batchSize) p).2) :=
      handle_caught
    exact (congrArg Prod.fst (handle_bind_ok hpass)).trans (ih _)

end

end Go

/-! The Rust worker. -/

namespace Rust

open Outbox (Outcomes Pass CoversFrom After Settled goes_refl wp_sql wp_answered)

/-- No statement of the settlement of the effect fails and, after a failed send, the claim is
    still held. -/
def Smooth (o : Outcomes) (e : String × OutboxRow) : Prop :=
  match o.send e.1 with
  | .ok _ => ∃ n, o.settle e.1 = .ok n
  | .error _ => o.settle e.1 = .ok 1 ∧ (e.2.maxAttempts ≤ e.2.attempts + 1 →
      o.begin e.1 = .ok () ∧ o.quarantineSave e.1 = .ok () ∧ o.commit e.1 = .ok ())

def Lost (o : Outcomes) (e : String × OutboxRow) : Prop :=
  (∃ err, o.send e.1 = .error err) ∧ (∃ n, o.settle e.1 = .ok n ∧ n ≠ 1) ∧
    (e.2.maxAttempts ≤ e.2.attempts + 1 → o.begin e.1 = .ok () ∧ o.quarantineSave e.1 = .ok ())

/-- An effect of a pass ends well, with a lost claim, or with another error. -/
inductive Ends (o : Outcomes) (e : String × OutboxRow) : Except Err Unit → Prop
  | smooth (h : Smooth o e) : Ends o e (.ok ())
  | lost (h : Lost o e) (action : String) : Ends o e (.error (claimLost action e.1))
  | failed (h : ¬Smooth o e) (h' : ¬Lost o e) (context : String) (err : Err) : Ends o e (.error (.wrap context err))

section
variable {o : Outcomes} {cfg : Publisher} {claim : String} {e : String × OutboxRow} {p q : Pass}
variable {err : Err} {rows : List (String × OutboxRow)}

theorem smooth_of_sent (hsend : o.send e.1 = .ok ()) : Smooth o e ↔ ∃ n, o.settle e.1 = .ok n := by
  unfold Smooth
  rw [hsend]

theorem smooth_of_failed (hsend : o.send e.1 = .error err) :
    Smooth o e ↔ o.settle e.1 = .ok 1 ∧ (e.2.maxAttempts ≤ e.2.attempts + 1 →
      o.begin e.1 = .ok () ∧ o.quarantineSave e.1 = .ok () ∧ o.commit e.1 = .ok ()) := by
  unfold Smooth
  rw [hsend]

theorem Lost.not_smooth (h : Lost o e) : ¬Smooth o e := by
  obtain ⟨⟨err, hsend⟩, ⟨n, hn, hne⟩, -⟩ := h
  rw [smooth_of_failed hsend, hn]
  intro hsmooth
  exact hne (Except.ok.inj hsmooth.1)

/-- The effect counts as settled, and ends as its outcomes say. -/
def Done (o : Outcomes) (e : String × OutboxRow) (p q : Pass) (r : Except Err Unit) : Prop :=
  Settled e.1 p q ∧ Ends o e r

theorem settle_begun {how : Outbox.Settlement} : Settled e.1 p (p.after (.settle [e.1] claim how)) :=
  After.settle ⟨_, goes_refl p⟩ rfl (by simp [Outbox.Op.settles])

theorem wp_markEffectDelivered (hp : p.effect = e.1) (hsend : o.send e.1 = .ok ()) :
    wp (handler o.step) (markEffectDelivered claim e.1) (Done o e p) p := by
  refine wp_answered (fun err herr => ⟨settle_begun, ?_⟩) (fun n hn => ⟨settle_begun, ?_⟩)
  · have hx : o.settle e.1 = .error err := hp ▸ herr
    refine .failed ?_ ?_ _ _
    · simp [smooth_of_sent hsend, hx]
    · simp [Lost, hsend]
  · have hx : o.settle e.1 = .ok n := hp ▸ hn
    exact .smooth ((smooth_of_sent hsend).mpr ⟨n, hx⟩)

theorem ends_failed (hsend : o.send e.1 = .error err)
    (hfail : (∃ x, o.settle e.1 = .error x) ∨ e.2.maxAttempts ≤ e.2.attempts + 1 ∧
      ((∃ x, o.begin e.1 = .error x) ∨ ∃ x, o.quarantineSave e.1 = .error x)) (context : String) (x : Err) :
    Ends o e (.error (.wrap context x)) := by
  rcases hfail with ⟨y, hy⟩ | ⟨hlast, ⟨y, hy⟩ | ⟨y, hy⟩⟩
  all_goals exact .failed (by simp [smooth_of_failed hsend, *]) (by simp [Lost, *]) context x

theorem wp_scheduleEffectRetry (hp : p.effect = e.1) (hsend : o.send e.1 = .error err)
    (hmore : ¬e.2.maxAttempts ≤ e.2.attempts + 1) (attempt : Int) (text : String) :
    wp (handler o.step) (scheduleEffectRetry claim e.1 attempt text) (Done o e p) p := by
  refine wp_answered (fun x hx => ⟨settle_begun, ?_⟩) (fun n hn => wp_ofExcept.mpr ⟨settle_begun, ?_⟩)
  · exact ends_failed hsend (.inl ⟨x, hp ▸ hx⟩) _ _
  change Nat at n
  have hsettle : o.settle e.1 = .ok n := hp ▸ hn
  unfold ensureClaimUpdate
  split
  · exact .lost ⟨⟨err, hsend⟩, ⟨n, hsettle, ‹_›⟩, fun h => absurd h hmore⟩ _
  · rename_i hone
    rw [not_not.mp hone] at hsettle
    exact .smooth ((smooth_of_failed hsend).mpr ⟨hsettle, fun h => absurd h hmore⟩)

theorem wp_quarantineEffectAtomically (hp : p.effect = e.1) (hsend : o.send e.1 = .error err)
    (hlast : e.2.maxAttempts ≤ e.2.attempts + 1) (attempt : Int) (text : String) :
    wp (handler o.step) (quarantineEffectAtomically cfg claim e attempt text) (Done o e p) p := by
  have hbegun : Settled e.1 p (p.after .begin) := After.settle ⟨_, goes_refl p⟩ rfl rfl
  refine wp_answered (fun x hx => ⟨hbegun, ends_failed hsend (.inr ⟨hlast, .inl ⟨x, hp ▸ hx⟩⟩) _ _⟩) (fun _ hu => ?_)
  have hbegin : o.begin e.1 = .ok () := hp ▸ hu
  refine wp_answered (fun x hx => ⟨hbegun.step rfl, ends_failed hsend (.inr ⟨hlast, .inr ⟨x, hp ▸ hx⟩⟩) _ _⟩)
    (fun _ hu => ?_)
  have hsave : o.quarantineSave e.1 = .ok () := hp ▸ hu
  refine wp_answered (fun x hx => ⟨(hbegun.step rfl).step rfl, ends_failed hsend (.inl ⟨x, hp ▸ hx⟩) _ _⟩)
    (fun n hn => wp_bind.mpr (wp_ofExcept.mpr ?_))
  change Nat at n
  have hsettle : o.settle e.1 = .ok n := hp ▸ hn
  by_cases hone : n = 1
  · have hupdate : ensureClaimUpdate n "quarantining" e.1 = .ok () := if_neg (not_not.mpr hone)
    rw [hone] at hsettle
    rw [hupdate]
    refine wp_wrap.mpr (wp_sql.mpr ⟨((hbegun.step rfl).step rfl).step rfl, ?_⟩)
    show Ends o e (Except.mapError _ (o.commit p.effect))
    rw [hp]
    cases hc : o.commit e.1 with
    | ok u => exact .smooth ((smooth_of_failed hsend).mpr ⟨hsettle, fun _ => ⟨hbegin, hsave, hc⟩⟩)
    | error x => exact .failed (by simp [smooth_of_failed hsend, hlast, hc]) (by simp [Lost, hsettle]) _ x
  · have hupdate : ensureClaimUpdate n "quarantining" e.1 = .error (claimLost "quarantining" e.1) := if_pos hone
    rw [hupdate]
    exact ⟨(hbegun.step rfl).step rfl, .lost ⟨⟨err, hsend⟩, ⟨n, hsettle, hone⟩, fun _ => ⟨hbegin, hsave⟩⟩ _⟩

/-- One effect: it is attempted, and the pass ends with it unless its settlement is smooth. -/
theorem wp_processClaimedEffect (cfg : Publisher) (claim : String) (e : String × OutboxRow) (p : Pass) :
    wp (handler o.step) (processClaimedEffect cfg claim e)
      (Done o e (p.after (.send (sendWaits e.2.effectType) e.1 e.2))) p := by
  refine wp_bind.mpr (wp_caught.mpr (wp_sql.mpr ?_))
  have hanswer : o.answer p (.send (sendWaits e.2.effectType) e.1 e.2) = o.send e.1 := rfl
  rw [hanswer]
  cases hsend : o.send e.1 with
  | ok u => exact wp_markEffectDelivered rfl hsend
  | error err =>
    show wp _ (if _ then _ else _) _ _
    split
    · exact wp_quarantineEffectAtomically rfl hsend ‹_› _ _
    · exact wp_scheduleEffectRetry rfl hsend ‹_› _ _

/-- Where the rows end: all are smooth, or the first that is not is the last one attempted. -/
inductive Stops (o : Outcomes) (rows : List (String × OutboxRow)) (p p' : Pass) : Except Err Unit → Prop
  | all (hall : ∀ e ∈ rows, Smooth o e) (h : CoversFrom rows p p') : Stops o rows p p' (.ok ())
  | at {pre post : List (String × OutboxRow)} {e : String × OutboxRow} {r : Except Err Unit}
      (hrows : rows = pre ++ e :: post)
    (hpre : ∀ x ∈ pre, Smooth o x) (hno : ¬Smooth o e) (hends : Ends o e r) (h : CoversFrom (pre ++ [e]) p p') :
    Stops o rows p p' r

theorem wp_processClaimedRows (cfg : Publisher) (claim : String) (rows : List (String × OutboxRow)) :
    ∀ p, wp (handler o.step) (processClaimedRows cfg claim rows) (Stops o rows p) p := by
  induction rows with
  | nil => exact fun p => .all (List.forall_mem_nil _) (Outbox.coversFrom_nil p)
  | cons e rest ih =>
    intro p
    refine wp_bind.mpr (wp_mono ?_ (wp_processClaimedEffect cfg claim e p))
    rintro q r ⟨hsettled, hends⟩
    cases hends with
    | smooth hsmooth =>
      refine wp_mono ?_ (ih q)
      rintro q' r (⟨hall, hcov⟩ | ⟨rfl, hpre, hno, hends, hcov⟩)
      · exact .all (List.forall_mem_cons.mpr ⟨hsmooth, hall⟩) (hsettled.covers hcov)
      · exact .at rfl (List.forall_mem_cons.mpr ⟨hsmooth, hpre⟩) hno hends (hsettled.covers hcov)
    | lost hlost action =>
      exact .at rfl (List.forall_mem_nil _) hlost.not_smooth (.lost hlost action)
        (hsettled.covers (Outbox.coversFrom_nil q))
    | failed hno hnot context err =>
      exact .at rfl (List.forall_mem_nil _) hno (.failed hno hnot context err)
        (hsettled.covers (Outbox.coversFrom_nil q))

def passTrace (o : Outcomes) (cfg : Publisher) : List Outbox.Op :=
  (handle o.step (processOutboxBatch cfg) Pass.init).2.trace

def loopResult (o : Outcomes) (cfg : Publisher) : Except Err Unit := (handle o.step (outboxLoop cfg 1) Pass.init).1

theorem handle_processOutboxBatch (hclaim : o.claim = .ok rows) (cfg : Publisher) :
    ∃ claim, handle o.step (processOutboxBatch cfg) Pass.init = handle o.step (processClaimedRows cfg claim rows)
      ((Pass.init.after .newID).after (.claim cfg.fetchBatchSize claim Outbox.claimTTL false)) := by
  refine ⟨cfg.workerID ++ "-" ++ o.newID [], ?_⟩
  have hid : handle o.step (Outbox.sql .newID) Pass.init = (.ok (o.newID []), Pass.init.after .newID) := handle_call
  have hstep : o.step (.claim cfg.fetchBatchSize (cfg.workerID ++ "-" ++ o.newID []) Outbox.claimTTL false)
      (Pass.init.after .newID) = (.ok rows, (Pass.init.after .newID).after
        (.claim cfg.fetchBatchSize (cfg.workerID ++ "-" ++ o.newID []) Outbox.claimTTL false)) := Prod.ext hclaim rfl
  exact (handle_bind_ok hid).trans (handle_call_ok hstep)

theorem loopResult_eq (cfg : Publisher) : loopResult o cfg = (handle o.step (processOutboxBatch cfg) Pass.init).1 := by
  unfold loopResult outboxLoop
  rw [handle_bind]
  generalize handle o.step (processOutboxBatch cfg) Pass.init = r
  obtain ⟨r, q⟩ := r
  cases r <;> rfl

theorem claimLost_ne_wrap (action id context : String) (err : Err) : claimLost action id ≠ .wrap context err := by
  intro h
  have htext : "outbox claim lost while " ++ action ++ " effect " ++ id = context ++ ": " ++ err.text :=
    congrArg Err.text h
  have hdisplay : "outbox claim lost while " ++ action ++ " effect " ++ id = context := congrArg Err.display h
  have hlength := congrArg String.length (hdisplay.symm.trans htext)
  simp only [String.length_append] at hlength
  have hcolon : (": ".length) = 2 := rfl
  omega

/-- A pass attempts the whole batch, and a lost claim does not end the loop, exactly if every
    settlement but the last is smooth and the last does not find its claim lost. -/
theorem pass_iff (hclaim : o.claim = .ok rows) (cfg : Publisher) :
    (Outbox.AttemptsAll rows (passTrace o cfg) ∧ ∀ action id, loopResult o cfg ≠ .error (claimLost action id)) ↔
      (∀ e ∈ rows.dropLast, Smooth o e) ∧ ∀ e, rows.getLast? = some e → ¬Lost o e := by
  obtain ⟨claim, hpass⟩ := handle_processOutboxBatch hclaim cfg
  have hstops := handle_of_wp (wp_processClaimedRows (o := o) cfg claim rows
    ((Pass.init.after .newID).after (.claim cfg.fetchBatchSize claim Outbox.claimTTL false)))
  rw [loopResult_eq]
  unfold passTrace
  rw [hpass]
  generalize handle o.step (processClaimedRows cfg claim rows) _ = result at hstops ⊢
  obtain ⟨r, p'⟩ := result
  dsimp only at hstops ⊢
  rcases hstops with ⟨hall, ops, htrace, hcov⟩ | ⟨rfl, hpre, hno, hends, ops, htrace, hcov⟩
  · constructor
    · exact fun _ => ⟨fun e he => hall e (List.dropLast_subset _ he),
        fun e he hlost => hlost.not_smooth (hall e (List.mem_of_getLast? he))⟩
    · exact fun _ => ⟨⟨_, _, _, _, ops, htrace, hcov⟩, fun _ _ hlost => by cases hlost⟩
  · rename_i pre post e
    constructor
    · rintro ⟨⟨batch, owner, ttl, atOnce, ops', htrace', hcov'⟩, hloop⟩
      -- the effect is the last one of the batch, for it is the last one attempted
      have hops : ops = ops' := by
        rw [htrace] at htrace'
        simp only [Pass.after, Pass.init, List.nil_append, List.cons_append, List.cons.injEq] at htrace'
        exact htrace'.2.2
      have hrows : pre ++ [e] = pre ++ e :: post := by rw [← hcov.sends, hops, hcov'.sends]
      obtain rfl : [] = post := (List.cons.inj (List.append_cancel_left hrows)).2
      refine ⟨?_, ?_⟩
      · rw [List.dropLast_concat]
        exact hpre
      · intro x hx hlost
        rw [List.getLast?_concat] at hx
        cases hx
        cases hends with
        | smooth hsmooth => exact hno hsmooth
        | lost _ action => exact hloop action e.1 rfl
        | failed _ hnot => exact hnot hlost
    · rintro ⟨hsmooth, hlast⟩
      have hpost : post = [] := by
        by_contra hne
        apply hno
        apply hsmooth
        rw [List.dropLast_append_of_ne_nil (by simp)]
        obtain ⟨y, ys, rfl⟩ := List.exists_cons_of_ne_nil hne
        simp
      subst hpost
      refine ⟨⟨_, _, _, _, ops, htrace, hcov⟩, ?_⟩
      intro action id hr
      cases hends with
      | smooth hsm => exact hno hsm
      | lost hlost => exact hlast e List.getLast?_concat hlost
      | failed => exact claimLost_ne_wrap _ _ _ _ (Except.error.inj hr).symm

end

end Rust

namespace Outbox

/-- For every claimed batch and every outcome of its sends and settlements: a pass of the Go
    worker and one of the Rust worker attempt each effect of the batch, and a lost claim ends
    neither loop, exactly if the Go worker can read every row, every settlement of the
    Rust worker but the last is smooth, and the last does not find its claim lost after a
    failed send. -/
theorem passes_attempt_all_iff (o : Outcomes) (rows : List (String × OutboxRow)) (hclaim : o.claim = .ok rows)
    (workerID : String) (batchSize : Int) (hpos : 0 < batchSize) (hmax : batchSize ≤ 1000) (cfg : Rust.Publisher) :
    (AttemptsAll rows (Go.passTrace o workerID batchSize) ∧
      (∀ ticks, (handle o.step (Go.publishLoop (Go.workerService workerID) batchSize ticks) Pass.init).1 = .ok ()) ∧
      AttemptsAll rows (Rust.passTrace o cfg) ∧
      ∀ action id, Rust.loopResult o cfg ≠ .error (Rust.claimLost action id)) ↔
    (∀ e ∈ rows, e.2.lastError ≠ none) ∧ (∀ e ∈ rows.dropLast, Rust.Smooth o e) ∧
      ∀ e, rows.getLast? = some e → ¬Rust.Lost o e := by
  have hgo := Go.passTrace_covers_iff hclaim workerID hpos hmax
  have hrust := Rust.pass_iff hclaim cfg
  constructor
  · intro h
    obtain ⟨hgoAll, -, hrustAll, hloop⟩ := h
    exact ⟨hgo.mp hgoAll, hrust.mp ⟨hrustAll, hloop⟩⟩
  · intro h
    obtain ⟨hread, hsmooth⟩ := h
    obtain ⟨hrustAll, hloop⟩ := hrust.mpr hsmooth
    exact ⟨hgo.mpr hread, fun ticks => Go.publishLoop_goes_on _ batchSize ticks _, hrustAll, hloop⟩

theorem AttemptsAll.sends {rows : List (String × OutboxRow)} {trace : List Op} (h : AttemptsAll rows trace) :
    trace.filterMap Op.sent? = rows := by
  obtain ⟨batch, owner, ttl, atOnce, ops, rfl, hcov⟩ := h
  exact hcov.sends

namespace Sample

def row : OutboxRow where
  executionID := "execution"
  tenantID := "tenant"
  destination := "billing"
  name := "charge"
  payload := "null"
  effectType := .command
  status := .claimed
  attempts := 0
  maxAttempts := 5
  availableAt := 0
  lastError := some ""
  claimedBy := some "worker"
  claimedAt := some 0
  claimExpiresAt := some claimTTL
  createdAt := 0
  updatedAt := 0

def batch : List (String × OutboxRow) := [("first", row), ("second", row)]

def calm : Outcomes where
  clock := fun _ => 0
  newID := fun _ => "00000000-0000-4000-8000-000000000001"
  claim := .ok batch
  send := fun _ => .ok ()
  settle := fun _ => .ok 1
  quarantineSave := fun _ => .ok ()
  quarantineDelete := fun _ => .ok 1
  begin := fun _ => .ok ()
  commit := fun _ => .ok ()

def lostFirst : Outcomes :=
  { calm with
    send := fun id => if id = "first" then .error (.msg "connection refused") else .ok ()
    settle := fun id => if id = "first" then .ok 0 else .ok 1 }

def publisher : Rust.Publisher := ⟨"worker", 10, Text.digest [], fun raw => raw⟩

end Sample

open Sample

theorem passes_attempt_all_calm :
    AttemptsAll batch (Go.passTrace calm "worker" 10) ∧
      AttemptsAll batch (Rust.passTrace calm publisher) := by
  have hall := (passes_attempt_all_iff calm batch rfl "worker" 10 (by decide) (by decide)
    publisher).mpr ⟨by decide, fun _ _ => ⟨1, rfl⟩, fun _ _ hlost => nomatch hlost.1⟩
  exact ⟨hall.1, hall.2.2.1⟩

/-- The claim of the first effect is lost: the Rust worker never sends the second one, and its
    loop ends. -/
theorem lost_claim_ends_pass :
    (Rust.passTrace lostFirst publisher).filterMap Op.sent? = [("first", row)] ∧
      ¬AttemptsAll batch (Rust.passTrace lostFirst publisher) ∧
      Rust.loopResult lostFirst publisher = .error (Rust.claimLost "scheduling retry for" "first") := by
  have hsends : (Rust.passTrace lostFirst publisher).filterMap Op.sent? = [("first", row)] := by
    decide +kernel
  refine ⟨hsends, ?_, by rfl⟩
  intro h
  have hbatch := h.sends
  rw [hsends] at hbatch
  cases hbatch

end Outbox

end FlowRule
