import FlowRule.Lib.Handle
import FlowRule.Lib.Machine
import FlowRule.Workflow.Service

/- The requests of the workflow API (internal/adapters/http/handlers/workflows.go), one after another
   on PostgreSQL. A body is what decodeRequestBody made of it: an instance with any values, or an
   error. A state is stored as the client wrote it unless it is empty, and so is the time of the end
   (`stored_wellFormed_iff`). -/
namespace FlowRule.Workflow

open Prog WorkflowInstance

def requested (tenantID : String) (wf : WorkflowInstance) : WorkflowInstance :=
  { wf with tenantID := tenantID, state := if wf.state = "" then workflowStatusPending else wf.state }

def createWorkflow (tenantID : String) (body : Except Err WorkflowInstance) (newID : String) (clocks : Clocks) :
    P (Response WorkflowInstance) :=
  match body with
  | .error e => pure (.error 400 (messageInvalidBodyPrefix ++ e.text) "INVALID_JSON")
  | .ok wf =>
    if wf.tenantID ≠ "" ∧ wf.tenantID ≠ tenantID then pure (.error 403 messageTenantMismatch "FORBIDDEN")
    else if tenantID = "" then pure (.error 400 "tenant_id is required" "TENANT_REQUIRED")
    else if wf.workflowType = "" then pure (.error 400 "workflow_type is required" "WORKFLOW_TYPE_REQUIRED")
    else do
      match ← (create (requested tenantID wf) newID clocks).caught with
      | .error e => pure (.error 500 e.text "INTERNAL_ERROR")
      | .ok wf => pure (.created wf)

structure TransitionRequest where
  fromState : String
  toState : String
  deriving DecidableEq, Repr

def loadWorkflowForTransition (tenantID workflowID : String) : P (Option WorkflowInstance) := do
  match ← get tenantID workflowID with
  | none => pure none
  | some w => pure (if w.tenantID ≠ tenantID then none else some w)

def applyWorkflowTransition (tenantID workflowID : String) (request : TransitionRequest) (clocks : Clocks) : P Unit :=
  if request.fromState ≠ "" then transition tenantID workflowID request.fromState request.toState none clocks
  else updateState tenantID workflowID request.toState 0 clocks

def transitionWorkflow (tenantID workflowID : String) (body : Except Err TransitionRequest) (clocks : Clocks) :
    P (Response Unit) :=
  if workflowID = "" then pure (.error 400 "workflowID is required" "BAD_REQUEST")
  else
    match body with
    | .error e => pure (.error 400 (messageInvalidBodyPrefix ++ e.text) "INVALID_JSON")
    | .ok request =>
      if request.toState = "" then pure (.error 400 "to_state is required" "BAD_REQUEST")
      else do
        match ← (loadWorkflowForTransition tenantID workflowID).caught with
        | .error e => pure (.error 500 e.text "INTERNAL_ERROR")
        | .ok none => pure (.error 404 messageNotFound "NOT_FOUND")
        | .ok (some w) =>
          if request.fromState ≠ "" ∧ request.fromState ≠ w.state then
            pure (.error 409 "from_state does not match current workflow state" "CONFLICT")
          else do
            match ← (applyWorkflowTransition tenantID workflowID request clocks).caught with
            | .error e => pure (.error 400 e.text "TRANSITION_FAILED")
            | .ok () => pure (.ok ())

/-! Requests one after another. -/

/-- A request with the failures of its statements, in the order in which it issues them. -/
inductive Request where
  | create (tenantID : String) (body : Except Err WorkflowInstance) (newID : String) (clocks : Clocks)
      (faults : List (Option Err))
  | transition (tenantID workflowID : String) (body : Except Err TransitionRequest) (clocks : Clocks)
      (faults : List (Option Err))

/-- A statement of the only request there is: it fails without effect, or it runs. -/
def answer (jsonb : RawMessage → RawMessage) (o : Op) (st : WorkflowTable × List (Option Err)) :
    Except Err o.Res × (WorkflowTable × List (Option Err)) :=
  match st.2.head?.join with
  | some e => (.error e, (st.1, st.2.tail))
  | none => (.ok (perform jsonb st.1 o).2, ((perform jsonb st.1 o).1, st.2.tail))

def serve (jsonb : RawMessage → RawMessage) (t : WorkflowTable) : Request → WorkflowTable
  | .create tenantID body newID clocks faults =>
    (handle (answer jsonb) (createWorkflow tenantID body newID clocks) (t, faults)).2.1
  | .transition tenantID workflowID body clocks faults =>
    (handle (answer jsonb) (transitionWorkflow tenantID workflowID body clocks) (t, faults)).2.1

/-! Well-formed workflows. -/

def states : List String :=
  [workflowStatusPending, workflowStatusRunning, workflowStatusPaused, workflowStatusCompleted, workflowStatusFailed]

/-- The state is one of the five, and the time of the end is set exactly at an end. -/
def WellFormed (w : WorkflowInstance) : Prop := w.state ∈ states ∧ (w.completedAt.isSome = true ↔ ended w.state = true)

instance (w : WorkflowInstance) : Decidable (WellFormed w) :=
  inferInstanceAs (Decidable (_ ∧ _))

def Movable (w : WorkflowInstance) : Prop := ∃ toState, canTransition w.state toState = true

theorem movable_of_wellFormed {w : WorkflowInstance} (h : WellFormed w) (hend : ended w.state = false) : Movable w := by
  have hs := h.1
  simp only [states, List.mem_cons, List.not_mem_nil, or_false] at hs
  rcases hs with hs | hs | hs | hs | hs
  · exact ⟨workflowStatusRunning, by rw [hs]; rfl⟩
  · exact ⟨workflowStatusPaused, by rw [hs]; rfl⟩
  · exact ⟨workflowStatusRunning, by rw [hs]; rfl⟩
  · rw [hs] at hend
    cases hend
  · rw [hs] at hend
    cases hend

/-- The state after an allowed edge is one of the five, and the one before it was no end. -/
theorem canTransition_states {fromState toState : String} (h : canTransition fromState toState = true) :
    toState ∈ states ∧ ended fromState = false := by
  refine ⟨?_, ?_⟩
  · unfold canTransition at h
    cases hl : validTransitions.lookup fromState with
    | none =>
      rw [hl] at h
      cases h
    | some succ =>
      rw [hl] at h
      have hall : ∀ p ∈ validTransitions, ∀ s ∈ p.2, s ∈ states := by decide
      have hp : (fromState, succ) ∈ validTransitions := by
        obtain ⟨l₁, l₂, heq, -⟩ := List.lookup_eq_some_iff.mp hl
        rw [heq]
        simp
      exact hall _ hp toState (List.contains_iff_mem.mp h)
  · cases he : ended fromState with
    | false => rfl
    | true =>
      rw [not_canTransition_of_ended he] at h
      cases h

/-! What a request leaves in the table. -/

/-- The request creates a workflow that is not there yet: its checks pass, and the insert
    does not fail. -/
def Stores (t : WorkflowTable) : Request → Prop
  | .create tenantID (.ok wf) newID _ faults =>
    (wf.tenantID = "" ∨ wf.tenantID = tenantID) ∧ tenantID ≠ "" ∧ wf.workflowType ≠ "" ∧
      ¬ t.Taken (if wf.workflowID = "" then newID else wf.workflowID) ∧ faults.head?.join = none
  | _ => False

/-- The state and the end of the body agree: the state may be left out. -/
def Request.Fits : Request → Prop
  | .create tenantID (.ok wf) _ _ _ => WellFormed (requested tenantID wf)
  | _ => True

def created (jsonb : RawMessage → RawMessage) (tenantID : String) (wf : WorkflowInstance) (newID : String)
    (clocks : Clocks) : WorkflowInstance :=
  { completed (requested tenantID wf) newID clocks with context := wf.context.map jsonb }

section
variable {jsonb : RawMessage → RawMessage} {t : WorkflowTable} {faults : List (Option Err)} {o : Op}

theorem answer_of_fault {e : Err} (h : faults.head?.join = some e) :
    answer jsonb o (t, faults) = (.error e, (t, faults.tail)) := by
  simp only [answer, h]

theorem answer_of_none (h : faults.head?.join = none) :
    answer jsonb o (t, faults) = (.ok (perform jsonb t o).2, ((perform jsonb t o).1, faults.tail)) := by
  simp only [answer, h]

theorem answer_cases {a : Except Err o.Res} {st : WorkflowTable × List (Option Err)}
    (h : answer jsonb o (t, faults) = (a, st)) :
    (st.1 = t ∧ ∃ e, a = .error e) ∨ (st.1 = (perform jsonb t o).1 ∧ a = .ok (perform jsonb t o).2) := by
  cases hf : faults.head?.join with
  | some e =>
    rw [answer_of_fault hf] at h
    cases h
    exact .inl ⟨rfl, e, rfl⟩
  | none =>
    rw [answer_of_none hf] at h
    cases h
    exact .inr ⟨rfl, rfl⟩

theorem saveWorkflow_wp (w : WorkflowInstance) :
    wp (handler (answer jsonb)) (saveWorkflow w) (fun st _ =>
      st.1 = if faults.head?.join = none then t.insert { w with context := w.context.map jsonb } else t)
      (t, faults) := by
  rw [saveWorkflow, wp_bind, query, wp_wrap, wp_call]
  refine ⟨trivial, ?_⟩
  intro a st ha
  cases hf : faults.head?.join with
  | some e =>
    cases (answer_of_fault hf).symm.trans ha
    rfl
  | none =>
    cases (answer_of_none hf).symm.trans ha
    show wp _ (if _ then _ else _) _ _
    split
    · -- the duplicate is only looked at
      rw [wp_bind, query, wp_wrap, wp_call]
      refine ⟨trivial, ?_⟩
      intro a st ha
      have hst : st.1 = (perform jsonb t (.insert w)).1 := by
        rcases answer_cases ha with ⟨hst, -⟩ | ⟨hst, -⟩ <;> exact hst
      match a with
      | .error e => exact hst
      | .ok none => exact hst
      | .ok (some (tenantID, workflowType)) =>
        show wp _ (if _ then _ else _) _ _
        split <;> exact hst
    · rfl

variable (jsonb t faults) in
theorem serve_create (tenantID newID : String) (body : Except Err WorkflowInstance) (clocks : Clocks) :
    (¬ Stores t (.create tenantID body newID clocks faults) →
      serve jsonb t (.create tenantID body newID clocks faults) = t) ∧
    ∀ wf, body = .ok wf → Stores t (.create tenantID body newID clocks faults) →
      (serve jsonb t (.create tenantID body newID clocks faults)).rows =
        t.rows ++ [created jsonb tenantID wf newID clocks] := by
  cases body with
  | error e => exact ⟨fun _ => rfl, fun _ h => nomatch h⟩
  | ok wf =>
    -- all checks and the insert pass, or the table is left alone
    have hwp : wp (handler (answer jsonb)) (createWorkflow tenantID (.ok wf) newID clocks) (fun st _ => st.1 =
        if (wf.tenantID = "" ∨ wf.tenantID = tenantID) ∧ tenantID ≠ "" ∧ wf.workflowType ≠ "" ∧
          faults.head?.join = none then t.insert (created jsonb tenantID wf newID clocks) else t) (t, faults) := by
      by_cases htenant : wf.tenantID = "" ∨ wf.tenantID = tenantID
      · have hmatch : ¬ (wf.tenantID ≠ "" ∧ wf.tenantID ≠ tenantID) := by tauto
        simp only [createWorkflow, if_neg hmatch, htenant, true_and]
        by_cases hne : tenantID = ""
        · simp [hne]
        by_cases htype : wf.workflowType = ""
        · simp [hne, htype]
        simp only [hne, htype, if_false, ne_eq, not_false_eq_true, true_and]
        rw [wp_bind, wp_caught, create, wp_bind]
        refine wp_mono ?_ (saveWorkflow_wp _)
        intro st r hst
        cases r with
        | error e => exact hst
        | ok x => exact hst
      · have hmatch : wf.tenantID ≠ "" ∧ wf.tenantID ≠ tenantID := by tauto
        simp [createWorkflow, hmatch]
    have hserve : serve jsonb t (.create tenantID (.ok wf) newID clocks faults) = _ := handle_of_wp hwp
    refine ⟨?_, ?_⟩
    · intro hnot
      rw [hserve]
      split
      · rename_i h
        have htaken : t.Taken (created jsonb tenantID wf newID clocks).workflowID := by
          by_contra hfree
          exact hnot ⟨h.1, h.2.1, h.2.2.1, hfree, h.2.2.2⟩
        exact dif_pos htaken
      · rfl
    · rintro wf' heq ⟨htenant, hne, htype, hfree, hfaults⟩
      cases heq
      rw [hserve, if_pos ⟨htenant, hne, htype, hfaults⟩]
      exact Rows.insert_of_free hfree

/-- A transition leaves the table, or moves one of its rows. -/
theorem transition_keeps {tenantID workflowID expectedFrom toState : String} {revision : Option Int} {clocks : Clocks} :
    wp (handler (answer jsonb)) (transition tenantID workflowID expectedFrom toState revision clocks) (fun st _ =>
      st.1 = t ∨ ∃ r ∈ t.rows, ∃ w u, moved r expectedFrom toState revision clocks = .ok w ∧
        st.1 = (perform jsonb t (.update w u)).1) (t, faults) := by
  unfold transition
  split
  · exact .inl rfl
  rw [wp_bind, wp_wrap, getWorkflow, query, wp_wrap, wp_call]
  refine ⟨trivial, ?_⟩
  rintro a ⟨t', faults'⟩ ha
  rcases answer_cases ha with ⟨hst, e, rfl⟩ | ⟨hst, rfl⟩
  · exact .inl hst
  obtain rfl : t = t' := hst.symm
  cases hfind : (perform jsonb t (.get tenantID workflowID)).2 with
  | none => exact .inl rfl
  | some r =>
    have hr : r ∈ t.rows := List.mem_of_find?_eq_some hfind
    show wp _ (_ >>= _) _ _
    rw [wp_bind, wp_ofExcept]
    cases hm : moved r expectedFrom toState revision clocks with
    | error e => exact .inl rfl
    | ok w =>
      show wp _ (updateWorkflow w clocks.second) _ _
      rw [updateWorkflow, wp_bind, query, wp_wrap, wp_call]
      refine ⟨trivial, ?_⟩
      intro a st ha
      rcases answer_cases ha with ⟨hst, e, rfl⟩ | ⟨hst, rfl⟩
      · exact .inl hst
      refine wp_mono (fun st' _ (h : st' = st) => .inr ⟨r, hr, w, _, hm, by rw [h]; exact hst⟩) ?_
      have hend : ∀ n : Nat, wp (handler (answer jsonb)) (if n = 0 then .throw errWorkflowConflict else pure ())
          (fun st' (_ : Except Err Unit) => st' = st) st := by
        intro n
        split <;> rfl
      exact hend _

theorem loadWorkflowForTransition_wp {tenantID workflowID : String} :
    wp (handler (answer jsonb)) (loadWorkflowForTransition tenantID workflowID) (fun st _ => st.1 = t) (t, faults) := by
  unfold loadWorkflowForTransition get
  rw [wp_bind]
  split
  · rfl
  rw [getWorkflow, query, wp_wrap, wp_call]
  refine ⟨trivial, ?_⟩
  intro a st ha
  have hst : st.1 = t := by
    rcases answer_cases ha with ⟨hst, -⟩ | ⟨hst, -⟩ <;> exact hst
  match a with
  | .error e | .ok none | .ok (some w) => exact hst

variable (jsonb t faults) in
theorem serve_transition (tenantID workflowID : String) (body : Except Err TransitionRequest) (clocks : Clocks) :
    serve jsonb t (.transition tenantID workflowID body clocks faults) = t ∨
      ∃ r ∈ t.rows, ∃ expectedFrom toState revision w u, moved r expectedFrom toState revision clocks = .ok w ∧
        serve jsonb t (.transition tenantID workflowID body clocks faults) = (perform jsonb t (.update w u)).1 := by
  have hwp : wp (handler (answer jsonb)) (transitionWorkflow tenantID workflowID body clocks) (fun st _ =>
      st.1 = t ∨ ∃ r ∈ t.rows, ∃ expectedFrom toState revision w u,
        moved r expectedFrom toState revision clocks = .ok w ∧ st.1 = (perform jsonb t (.update w u)).1)
      (t, faults) := by
    unfold transitionWorkflow
    split
    · exact .inl rfl
    split
    · exact .inl rfl
    rename_i request
    split
    · exact .inl rfl
    rw [wp_bind, wp_caught]
    refine wp_mono ?_ loadWorkflowForTransition_wp
    rintro ⟨t', faults'⟩ r hst
    obtain rfl : t = t' := hst.symm
    match r with
    | .error e | .ok none => exact .inl rfl
    | .ok (some w) =>
      show wp _ (if _ then _ else _) _ _
      split
      · exact .inl rfl
      -- both forms of the call are one transition
      have hone : ∃ expectedFrom revision, applyWorkflowTransition tenantID workflowID request clocks =
          transition tenantID workflowID expectedFrom request.toState revision clocks := by
        unfold applyWorkflowTransition
        split
        · exact ⟨request.fromState, none, rfl⟩
        · exact ⟨"", some 0, rfl⟩
      obtain ⟨expectedFrom, revision, hone⟩ := hone
      rw [wp_bind, wp_caught, hone]
      refine wp_mono ?_ transition_keeps
      intro st r hst
      have hst' : st.1 = t ∨ ∃ r ∈ t.rows, ∃ expectedFrom toState revision w u,
          moved r expectedFrom toState revision clocks = .ok w ∧ st.1 = (perform jsonb t (.update w u)).1 := by
        rcases hst with hst | ⟨r, hr, w, u, hm, hst⟩
        · exact .inl hst
        · exact .inr ⟨r, hr, expectedFrom, request.toState, revision, w, u, hm, hst⟩
      cases r with
      | error e => exact hst'
      | ok x => exact hst'
  exact handle_of_wp hwp

end

/-! Which requests keep the stored workflows well formed. -/

theorem wellFormed_moved {jsonb : RawMessage → RawMessage} {r w : WorkflowInstance} {expectedFrom toState : String}
    {revision : Option Int} {clocks : Clocks} {u : Time} (hr : WellFormed r)
    (hm : moved r expectedFrom toState revision clocks = .ok w) : WellFormed (overwrite jsonb w u r) := by
  obtain ⟨hcan, hstate, -, -, -, hend⟩ := moved_ok hm
  obtain ⟨hmem, hopen⟩ := canTransition_states hcan
  -- the instance that was read was not at an end, so it had no time of one
  have hnone : r.completedAt = none := by
    cases hc : r.completedAt with
    | none => rfl
    | some x =>
      have := hr.2.mp (by rw [hc]; rfl)
      rw [hopen] at this
      cases this
  refine ⟨?_, ?_⟩
  · show w.state ∈ states
    rw [hstate]
    exact hmem
  · show w.completedAt.isSome = true ↔ ended w.state = true
    rw [hend, hstate, hnone]
    by_cases h : ended toState = true <;> simp [h]

/-- A request keeps the stored workflows well formed exactly when it stores none that is
    not. -/
theorem serve_wellFormed_iff {jsonb : RawMessage → RawMessage} {t : WorkflowTable} {req : Request}
    (h : ∀ r ∈ t.rows, WellFormed r) :
    (∀ r ∈ (serve jsonb t req).rows, WellFormed r) ↔ (Stores t req → req.Fits) := by
  cases req with
  | create tenantID body newID clocks faults =>
    obtain ⟨hother, hstores⟩ := serve_create jsonb t faults tenantID newID body clocks
    by_cases hs : Stores t (.create tenantID body newID clocks faults)
    · cases body with
      | error e => exact absurd hs (by simp [Stores])
      | ok wf =>
        have hiff : WellFormed (created jsonb tenantID wf newID clocks) ↔ WellFormed (requested tenantID wf) := Iff.rfl
        rw [hstores wf rfl hs]
        simp only [List.mem_append, List.mem_singleton]
        constructor
        · intro hall _
          exact hiff.mp (hall _ (.inr rfl))
        · rintro hfits r (hr | rfl)
          · exact h r hr
          · exact hiff.mpr (hfits hs)
    · rw [hother hs]
      exact ⟨fun _ hs' => absurd hs' hs, fun _ => h⟩
  | transition tenantID workflowID body clocks faults =>
    refine ⟨fun _ hs => absurd hs (by simp [Stores]), fun _ => ?_⟩
    rcases serve_transition jsonb t faults tenantID workflowID body clocks with
      hsame | ⟨r, hr, expectedFrom, toState, revision, w, u, hm, hup⟩
    · rw [hsame]
      exact h
    · rw [hup, perform_update]
      intro v' hv'
      obtain ⟨v, hv, rfl⟩ := Rows.mem_update.mp hv'
      split
      · -- the row that is updated is the one that was read
        rename_i hexp
        simp only [expected, Bool.and_eq_true, beq_iff_eq] at hexp
        obtain ⟨-, -, -, -, hid, -⟩ := moved_ok hm
        obtain rfl : v = r := Rows.eq_of_key hv hr (hexp.1.2.trans hid)
        exact wellFormed_moved (h v hv) hm
      · exact h v hv

def api (jsonb : RawMessage → RawMessage) (t : WorkflowTable) (req : Request) : Option WorkflowTable :=
  some (serve jsonb t req)

/-- In a sequence of requests to an empty table every stored workflow is well formed all the
    time, with a transition to take unless it has ended, exactly when no create stores a
    state other than the five or one that does not agree with its time of the end. -/
theorem stored_wellFormed_iff (jsonb : RawMessage → RawMessage) (reqs : List Request) :
    (∀ ms, ms <+: reqs → ∀ t, Machine.run (api jsonb) .empty ms = some t → ∀ r ∈ t.rows,
      WellFormed r ∧ (ended r.state = false → Movable r)) ↔
    Machine.Along (api jsonb) (fun t req => Stores t req → req.Fits) .empty reqs := by
  have hgood : ∀ t : WorkflowTable, (∀ r ∈ t.rows, WellFormed r ∧ (ended r.state = false → Movable r)) ↔
      ∀ r ∈ t.rows, WellFormed r := by
    intro t
    constructor
    · intro h r hr
      exact (h r hr).1
    · intro h r hr
      exact ⟨h r hr, movable_of_wellFormed (h r hr)⟩
  simp only [hgood]
  refine Machine.along_iff (fun t : WorkflowTable => ∀ r ∈ t.rows, WellFormed r) ?_ (by simp [Rows.empty])
  intro t req ht
  exact ⟨serve jsonb t req, rfl, serve_wellFormed_iff ht⟩

/-- A workflow in a state of the client's own is stored, and never leaves it. -/
theorem archived_stored :
    (serve id .empty (.create "acme"
      (.ok ⟨"w-1", "", "order", "archived", 0, 0, none, 0, 0, none⟩) "new" ⟨0, 5, 6⟩ [])).rows =
      [⟨"w-1", "acme", "order", "archived", 1, 0, none, 5, 6, none⟩] ∧
    "archived" ∉ states ∧ ∀ toState, canTransition "archived" toState = false := by
  refine ⟨by decide, by decide, ?_⟩
  intro toState
  rfl

end FlowRule.Workflow
