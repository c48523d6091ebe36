import FlowRule.Domain.Types
import FlowRule.Lib.Prog

/- Activation of rule sets (internal/services/rules/service.go). Every call of a repository is
   one statement (`Op`); what a statement does is the databases' part. A revision is saved
   under a number that its source names, and an activation stores only that number. -/
namespace FlowRule.Activation

abbrev Key := String × String

structure ActivationRow where
  revision : Int
  version : Int
  actor : String
  activatedAt : Time
  deriving DecidableEq, Repr

inductive Op where
  | begin
  | save (source : RawMessage) (revision : RuleRevision)
  | get (key : Key)
  | setWithVersion (key : Key) (row : ActivationRow) (expectedVersion : Int)
  | commit
  | delete (key : Key)

abbrev Op.Res : Op → Type
  | .get _ => Option ActivationRow
  | _ => Unit

abbrev P (R : Type) := Prog Op Op.Res Err R

def errActivationConflict : Err := .msg "activation conflict"

/-- One call of a repository, with the text the service puts in front of its errors. -/
def call (action : String) (o : Op) : P o.Res := (Prog.call o).wrap (Err.wrap action)

def versionOf (row : Option ActivationRow) : Int :=
  match row with
  | some row => row.version
  | none => 0

def activateWithCAS (key : Key) (source : RawMessage) (revision : RuleRevision) (actor : String) (now : Time) :
    P ActivationRow := do
  call "begin tx" .begin
  call "save revision" (.save source revision)
  let current ← call "get activation" (.get key)
  let expectedVersion := versionOf current
  let activation : ActivationRow := ⟨revision.revision, expectedVersion + 1, actor, now⟩
  call "set activation" (.setWithVersion key activation expectedVersion)
  call "commit tx" .commit
  pure activation

def posted (key : Key) (revision : RuleRevision) : RuleRevision :=
  { revision with ruleID := key.2, tenantScope := key.1 }

def activate (compile : RawMessage → Except Err RuleRevision) (key : Key) (source : RawMessage) (actor : String)
    (now : Time) : P ActivationRow := do
  let revision ← Prog.ofExcept (compile source)
  activateWithCAS key source (posted key revision) actor now

def deactivate (key : Key) : P Unit := do
  let _ ← call "get activation" (.get key)
  Prog.call (Op.delete key)

inductive Call where
  | activate (key : Key) (source : RawMessage) (actor : String) (now : Time)
  | deactivate (key : Key)
  deriving DecidableEq, Repr

def Call.program (compile : RawMessage → Except Err RuleRevision) : Call → P Unit
  | .activate key source actor now => (fun _ => ()) <$> Activation.activate compile key source actor now
  | .deactivate key => Activation.deactivate key

end FlowRule.Activation
