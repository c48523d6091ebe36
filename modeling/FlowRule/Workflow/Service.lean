import FlowRule.Domain.Types
import FlowRule.Http.Responses
import FlowRule.Lib.Checks
import FlowRule.Lib.Prog
import FlowRule.Lib.Rows

/- Workflow instances (internal/domain/types.go, internal/services/workflow,
   internal/adapters/postgres/workflow.go, migrations/012) and the requests that change them
   (internal/adapters/http/handlers/workflows.go). Every statement of the repository is a transaction
   of its own. A version is counted up by one for each change of its row, and the end of its type,
   2^63 changes later, is left out. `jsonb` is the text the database gives back for a document it
   has stored. -/
namespace FlowRule

structure WorkflowInstance where
  workflowID : String
  tenantID : String
  workflowType : String
  state : String
  version : Int
  currentRevision : Int
  context : Option RawMessage
  createdAt : Time
  updatedAt : Time
  completedAt : Option Time
  deriving DecidableEq, Repr

def workflowStatusPending : String := "pending"
def workflowStatusRunning : String := "running"
def workflowStatusCompleted : String := "completed"
def workflowStatusFailed : String := "failed"
def workflowStatusPaused : String := "paused"

def errWorkflowNotFound : Err := .msg "workflow not found"
def errWorkflowConflict : Err := .msg "workflow version conflict"
def errWorkflowInvalidTransition : Err := .msg "invalid workflow state transition"

namespace WorkflowInstance

def validTransitions : List (String × List String) :=
  [(workflowStatusPending, [workflowStatusRunning, workflowStatusFailed]),
   (workflowStatusRunning, [workflowStatusCompleted, workflowStatusFailed, workflowStatusPaused]),
   (workflowStatusPaused, [workflowStatusRunning, workflowStatusFailed]),
   (workflowStatusCompleted, []),
   (workflowStatusFailed, [])]

def canTransition (fromState toState : String) : Bool :=
  match validTransitions.lookup fromState with
  | some next => next.contains toState
  | none => false

def ended (state : String) : Bool := state == workflowStatusCompleted || state == workflowStatusFailed

def transition (w : WorkflowInstance) (toState : String) (now : Time) : Except Err WorkflowInstance :=
  if canTransition w.state toState then
    .ok { w with
      state := toState, version := w.version + 1, updatedAt := now,
      completedAt := if ended toState then some now else w.completedAt }
  else .error (.msg ("invalid workflow transition: " ++ w.state ++ " -> " ++ toState))

end WorkflowInstance

abbrev WorkflowTable := Rows WorkflowInstance WorkflowInstance.workflowID

namespace Workflow

/-! The statements. -/

inductive Op where
  | insert (w : WorkflowInstance)
  | identity (workflowID : String)
  | get (tenantID workflowID : String)
  | update (w : WorkflowInstance) (updatedAt : Time)
  deriving DecidableEq, Repr

/-- What a statement answers: the rows it changed, or the row it found. -/
abbrev Op.Res : Op → Type
  | .insert _ => Nat
  | .identity _ => Option (String × String)
  | .get _ _ => Option WorkflowInstance
  | .update _ _ => Nat

abbrev P (R : Type) := Prog Op Op.Res Err R

def overwrite (jsonb : RawMessage → RawMessage) (w : WorkflowInstance) (updatedAt : Time) (r : WorkflowInstance) :
    WorkflowInstance :=
  { r with
    state := w.state, version := w.version, currentRevision := w.currentRevision,
    context := w.context.map jsonb, updatedAt := updatedAt, completedAt := w.completedAt }

theorem overwrite_workflowID (jsonb : RawMessage → RawMessage) (w : WorkflowInstance) (u : Time)
    (r : WorkflowInstance) :
    (overwrite jsonb w u r).workflowID = r.workflowID := rfl

/-- The row an update of `w` is for: the one its version was counted up from. -/
def expected (w r : WorkflowInstance) : Bool :=
  r.tenantID == w.tenantID && r.workflowID == w.workflowID && r.version == w.version - 1

def perform (jsonb : RawMessage → RawMessage) (t : WorkflowTable) : (o : Op) → WorkflowTable × o.Res
  | .insert w =>
    (t.insert { w with context := w.context.map jsonb }, if t.Taken w.workflowID then (0 : Nat) else (1 : Nat))
  | .identity workflowID =>
    (t, (t.rows.find? (fun r => r.workflowID == workflowID)).map (fun r => (r.tenantID, r.workflowType)))
  | .get tenantID workflowID => (t, t.rows.find? (fun r => r.tenantID == tenantID && r.workflowID == workflowID))
  | .update w updatedAt =>
    let (n, t') := t.update (expected w) (overwrite jsonb w updatedAt) (overwrite_workflowID jsonb w updatedAt)
    (t', (n : Nat))

theorem perform_update (jsonb : RawMessage → RawMessage) (t : WorkflowTable) (w : WorkflowInstance) (u : Time) :
    (perform jsonb t (.update w u)).1 =
      (t.update (expected w) (overwrite jsonb w u) (overwrite_workflowID jsonb w u)).2 := rfl

/-! The repository. -/

def query (action : String) (o : Op) : P o.Res := (Prog.call o).wrap (Err.wrap action)

def sameWorkflowCreateIdentity (existingTenantID existingWorkflowType : String) (requested : WorkflowInstance) :
    Bool :=
  existingTenantID == requested.tenantID && existingWorkflowType == requested.workflowType

def saveWorkflow (w : WorkflowInstance) : P Unit := do
  let n ← query "save workflow" (.insert w)
  if n = 0 then
    match ← query "verify duplicate workflow" (.identity w.workflowID) with
    | none => .throw (.wrap "verify duplicate workflow" (.msg "no rows in result set"))
    | some (tenantID, workflowType) =>
      if sameWorkflowCreateIdentity tenantID workflowType w then pure () else .throw errWorkflowConflict
  else pure ()

def getWorkflow (tenantID workflowID : String) : P (Option WorkflowInstance) :=
  query "get workflow" (.get tenantID workflowID)

/-- `now` is the time of an update that comes without one. -/
def updateWorkflow (w : WorkflowInstance) (now : Time) : P Unit := do
  let n ← query "update workflow" (.update w (if w.updatedAt = 0 then now else w.updatedAt))
  if n = 0 then .throw errWorkflowConflict else pure ()

/-! The service. -/

/-- What a call reads of the clocks: the domain's, and then those of the service and of the
    repository in the order of the readings. -/
structure Clocks where
  system : Time
  first : Time
  second : Time
  deriving DecidableEq, Repr

def completed (w : WorkflowInstance) (newID : String) (clocks : Clocks) : WorkflowInstance :=
  { w with
    workflowID := if w.workflowID = "" then newID else w.workflowID
    createdAt := if w.createdAt = 0 then clocks.first else w.createdAt
    updatedAt := clocks.second
    version := 1 }

def create (w : WorkflowInstance) (newID : String) (clocks : Clocks) : P WorkflowInstance := do
  saveWorkflow (completed w newID clocks)
  pure (completed w newID clocks)

def get (tenantID workflowID : String) : P (Option WorkflowInstance) :=
  if tenantID = "" then .throw errWorkflowNotFound else getWorkflow tenantID workflowID

/-- The checks of a transition on the instance that was read, and what it makes of it. -/
def moved (w : WorkflowInstance) (expectedFrom toState : String) (revision : Option Int) (clocks : Clocks) :
    Except Err WorkflowInstance := do
  if expectedFrom ≠ "" ∧ w.state ≠ expectedFrom then
    .error (.msg ("workflow in state " ++ w.state ++ ", expected " ++ expectedFrom))
  else if ¬ WorkflowInstance.canTransition w.state toState then .error errWorkflowInvalidTransition
  else
    let w ← w.transition toState clocks.system
    .ok { w with
      currentRevision := revision.getD w.currentRevision
      updatedAt := clocks.first
      completedAt := if WorkflowInstance.ended toState then some clocks.first else w.completedAt }

def transition (tenantID workflowID expectedFrom toState : String) (revision : Option Int) (clocks : Clocks) :
    P Unit := do
  if tenantID = "" then .throw errWorkflowNotFound
  else
    match ← (getWorkflow tenantID workflowID).wrap (Err.wrap "get workflow") with
    | none => .throw errWorkflowNotFound
    | some w =>
      let w ← Prog.ofExcept (moved w expectedFrom toState revision clocks)
      updateWorkflow w clocks.second

def updateState (tenantID workflowID newState : String) (revision : Int) (clocks : Clocks) : P Unit :=
  transition tenantID workflowID "" newState (some revision) clocks

/-! What a transition makes of the instance it has read. -/

/-- A transition takes an allowed edge, counts the version up, and sets the time of the end
    when it reaches one. -/
theorem moved_ok {w w' : WorkflowInstance} {expectedFrom toState : String} {revision : Option Int} {clocks : Clocks}
    (h : moved w expectedFrom toState revision clocks = .ok w') :
    WorkflowInstance.canTransition w.state toState = true ∧ w'.state = toState ∧ w'.version = w.version + 1 ∧
      w'.tenantID = w.tenantID ∧ w'.workflowID = w.workflowID ∧
      w'.completedAt = if WorkflowInstance.ended toState then some clocks.first else w.completedAt := by
  unfold moved at h
  obtain ⟨-, h⟩ := Checks.ite_ok.mp h
  obtain ⟨hcan, h⟩ := Checks.ite_ok.mp h
  rw [not_not] at hcan
  obtain ⟨w₁, h₁, h⟩ := Checks.bind_ok.mp h
  rw [WorkflowInstance.transition, if_pos hcan] at h₁
  cases h₁
  cases h
  refine ⟨hcan, rfl, rfl, rfl, rfl, ?_⟩
  by_cases hend : WorkflowInstance.ended toState = true <;> simp [hend]

theorem not_canTransition_of_ended {state toState : String} (h : WorkflowInstance.ended state = true) :
    WorkflowInstance.canTransition state toState = false := by
  simp only [WorkflowInstance.ended, Bool.or_eq_true, beq_iff_eq] at h
  rcases h with rfl | rfl <;> rfl

end Workflow

end FlowRule
