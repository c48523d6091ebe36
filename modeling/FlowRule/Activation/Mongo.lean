import FlowRule.Activation.Postgres
import FlowRule.Lib.Handle

/- The rule collections of MongoDB (internal/adapters/mongo/rules.go), for calls that run one
   after another. The documents have the keys and fields of the PostgreSQL rows.

   A duplicate key aborts its transaction, and every later statement of it fails; Save takes
   a duplicate for success. `documents` is what the stored bytes are decoded to, or the
   error with which the document is refused. -/
namespace FlowRule.Activation

namespace Mongo

open Postgres (revisionKey)

abbrev Documents := RawMessage → RuleRevision → Except Err (List CompiledRule)

structure Session where
  tx : Postgres.Session
  aborted : Bool

namespace Session

def idle : Session := ⟨.idle, false⟩

def dead : Session := ⟨.idle, true⟩

end Session

def errAborted : Err := .msg "Transaction has been aborted."

def errDuplicateKey : Err := .msg "E11000 duplicate key error collection: rule_activations"

def perform (documents : Documents) (o : Op) (st : Postgres.Tables × Session) :
    Except Err o.Res × (Postgres.Tables × Session) :=
  let (t, s) := st
  match o with
  | .begin => (.ok (), (t, .idle))
  | .save source revision =>
    if s.aborted then (.error errAborted, (t, s))
    else
      match documents source revision with
      | .error e => (.error e, (t, .dead))
      | .ok compiled =>
        if ((s.tx.sees t).revisions (revisionKey revision)).isSome then (.ok (), (t, .dead))
        else (.ok (), (t, ⟨s.tx.putRevision (revisionKey revision)
          ⟨revision.contentHash, revision.matchMode, compiled⟩, false⟩))
  | .get key =>
    if s.aborted then (.error (.wrap "get activation" errAborted), (t, s))
    else (.ok ((s.tx.sees t).activations key), (t, s))
  | .setWithVersion key row expectedVersion =>
    if s.aborted then (.error (.wrap "set activation with version" errAborted), (t, s))
    else
      match (s.tx.sees t).activations key with
      | none => (.ok (), (t, ⟨s.tx.putActivation key { row with version := expectedVersion + 1 }, false⟩))
      | some current =>
        if current.version = expectedVersion then
          (.ok (), (t, ⟨s.tx.putActivation key { row with version := expectedVersion + 1 }, false⟩))
        else
          -- no document matches the version, and the upsert inserts a second one
          (.error (.wrap "set activation with version" errDuplicateKey), (t, .dead))
  | .commit =>
    if s.aborted then (.error errAborted, (t, s))
    else (.ok (), (s.tx.sees t, .idle))
  | .delete key => (.ok (), ({ t with activations := Function.update t.activations key none }, s))

def getActive (t : Postgres.Tables) (key : Key) : Option RuleRevision :=
  match t.activations key with
  | none => none
  | some activation =>
    match t.revisions (key, activation.revision) with
    | none => none
    | some doc => some ⟨key.1, key.2, activation.revision, doc.contentHash, doc.matchMode, doc.compiled⟩

theorem getActive_eq (t : Postgres.Tables) (key : Key) : getActive t key = Postgres.getActive t key := by
  unfold getActive Postgres.getActive
  cases t.activations key with
  | none => rfl
  | some activation =>
    simp only [Option.bind_some]
    cases t.revisions (key, activation.revision) with
    | none => rfl
    | some doc => rfl

end Mongo

end FlowRule.Activation
