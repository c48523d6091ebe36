import FlowRule.Events.Effects
import Mathlib.Data.List.Sort

/- The batch repository of the Go services on the event database
   (internal/adapters/postgres/batch.go, migrations/009_batch_runs.sql).

   `keys` are the primary keys of the inbox in the order in which the server finds its rows;
   text is sorted by the collation of the database (`collate`). A completion is one step: it
   locks what it updates, and a statement that fails leaves nothing behind. `completed`
   records the completions that were committed. partition_key and rule_set are never NULL. -/
namespace FlowRule.Batches

inductive RunStatus where
  | formed | completed
  deriving DecidableEq, Repr

structure BatchRun where
  batchID : String
  tenantID : String
  partitionKey : String
  ruleSet : String
  status : RunStatus
  memberCount : Int
  executionID : String
  decisionHash : String
  windowFrom : Option Time
  windowTo : Option Time
  createdAt : Time
  deriving DecidableEq, Repr

abbrev Key := String × String

structure Database where
  db : DB
  keys : List Key
  runs : String → Option BatchRun
  completed : List (BatchRun × List String)

namespace Database

def empty (now : Time) (refs : Reference) : Database := ⟨DB.empty now refs, [], fun _ => none, []⟩

def inbox (b : Database) : Key → Option InboxRow := b.db.tables.inbox

/-- The database after a call on the events, which may have added the row of its event. -/
def after (b : Database) (key : Option Key) (d : DB) : Database :=
  { b with
    db := d
    keys := b.keys ++ key.toList.filter (fun k => !b.keys.contains k && (d.tables.inbox k).isSome) }

/-- The rows of the inbox that satisfy `p`. -/
def select (b : Database) (p : Key → InboxRow → Bool) : List (Key × InboxRow) :=
  b.keys.filterMap (fun k => (b.inbox k).bind (fun row => if p k row then some (k, row) else none))

end Database

/-! Queries. -/

inductive QueryFailure where
  | query (e : Err)
  | rows (e : Err)

/-- ORDER BY first_seen_at, tenant_id, event_id. -/
def before (collate : String → String → Bool) (x y : Key × InboxRow) : Bool :=
  decide (x.2.firstSeenAt < y.2.firstSeenAt) || (x.2.firstSeenAt == y.2.firstSeenAt &&
    (if x.1.1 = y.1.1 then collate x.1.2 y.1.2 else collate x.1.1 y.1.1))

def entryOf (k : Key) (row : InboxRow) (executionID : String) : Go.InboxEntry :=
  ⟨k.1, k.2, row.status, executionID, row.partitionKey, row.ruleSet, row.payload, row.batchID.getD "",
    row.firstSeenAt, row.committedAt⟩

/-- A row read into an entry; a row without an execution cannot be read. -/
def scanEntry (context : String) (r : Key × InboxRow) : Except Err Go.InboxEntry :=
  match r.2.executionID with
  | none => .error (.wrap context (scanNull 3 "execution_id"))
  | some id => .ok (entryOf r.1 r.2 id)

def unbatched (row : InboxRow) : Bool := row.status == .committed && row.batchID.isNone

/-- A query: its rows in order, not more than the limit, each of them read. -/
def query (collate : String → String → Bool) (rows : List (Key × InboxRow)) (limit : Nat)
    (failing scanning iterating : String) : Option QueryFailure → Except Err (List Go.InboxEntry)
  | some (.query e) => .error (.wrap failing e)
  | some (.rows e) => .error (.wrap iterating e)
  | none => ((rows.insertionSort (fun x y => before collate x y = true)).take limit).mapM (scanEntry scanning)

section
variable (collate : String → String → Bool) (b : Database)

def listUnbatched (limit : Int) (fail : Option QueryFailure) : Except Err (List Go.InboxEntry) :=
  query collate (b.select (fun _ row => unbatched row)) (if limit ≤ 0 then 400 else limit.toNat)
    "list unbatched" "scan unbatched" "iterate unbatched rows" fail

def requested (tenantID partitionKey ruleSet : String) (eventIDs : List String) (k : Key) (row : InboxRow) : Bool :=
  k.1 == tenantID && row.partitionKey == partitionKey && row.ruleSet == ruleSet && eventIDs.contains k.2

def listUnbatchedByIDs (tenantID partitionKey ruleSet : String) (eventIDs : List String)
    (fail : Option QueryFailure) : Except Err (List Go.InboxEntry) :=
  if eventIDs = [] then .ok []
  else
    let rows := b.select (fun k row => requested tenantID partitionKey ruleSet eventIDs k row && unbatched row)
    query collate rows rows.length "list requested unbatched events" "scan requested unbatched event"
      "iterate requested unbatched events" fail

end

/-! The completion of a batch. -/

structure Failures where
  begin : Option Err
  upsert : Option Err
  associate : Option Err
  commit : Option Err

def Failures.none : Failures := ⟨.none, .none, .none, .none⟩

def statement (context : String) : Option Err → Except Err Unit
  | some e => .error (.wrap context e)
  | none => .ok ()

/-- The check for empty and repeated IDs, with the texts of its errors. -/
def distinctIDs (empty duplicate : String) : List String → List String → Except Err Unit
  | [], _ => .ok ()
  | id :: rest, seen =>
    if id = "" then .error (.msg empty)
    else if id ∈ seen then .error (.msg (duplicate ++ quoted id))
    else distinctIDs empty duplicate rest (id :: seen)

def validateEventIDs (eventIDs : List String) : Except Err Unit :=
  distinctIDs "batch event ID must not be empty" "duplicate batch event ID " eventIDs []

def validateBatchCompletion (run : Option BatchRun) (eventIDs : List String) : Except Err BatchRun :=
  match run with
  | none => .error (.msg "batch run identity is required")
  | some run =>
    if run.batchID = "" ∨ run.tenantID = "" ∨ run.partitionKey = "" ∨ run.ruleSet = "" then
      .error (.msg "batch run identity is required")
    else if eventIDs = [] ∨ (eventIDs.length : Int) ≠ run.memberCount then
      .error (.msg "batch member count does not match run")
    else (validateEventIDs eventIDs).map (fun _ => run)

def upsertBatchRun (runs : String → Option BatchRun) (run : BatchRun) : Except Err (String → Option BatchRun) :=
  match runs run.batchID with
  | none => .ok (Function.update runs run.batchID (some run))
  | some old =>
    if old.tenantID = run.tenantID ∧ old.partitionKey = run.partitionKey ∧ old.ruleSet = run.ruleSet then
      .ok (Function.update runs run.batchID (some { run with createdAt := old.createdAt }))
    else .error (.msg ("batch ID " ++ quoted run.batchID ++ " already belongs to a different tenant or scope"))

/-- The rows a completion updates: those of the run's group that are in no other batch. -/
def associated (run : BatchRun) (eventIDs : List String) (k : Key) (row : InboxRow) : Bool :=
  requested run.tenantID run.partitionKey run.ruleSet eventIDs k row && row.status == .committed &&
    (row.batchID.isNone || row.batchID == some run.batchID)

def associateBatchMembers (b : Database) (run : BatchRun) (eventIDs : List String) :
    Except Err (Key → Option InboxRow) :=
  let matched := (b.select (associated run eventIDs)).length
  if matched ≠ eventIDs.length then
    .error (.msg ("batch membership conflict: matched " ++ toString matched ++ " of " ++
      toString eventIDs.length ++ " requested events"))
  else .ok (fun k => (b.inbox k).map (fun row =>
    if associated run eventIDs k row then { row with batchID := some run.batchID } else row))

def completeBatch (b : Database) (w : Failures) (run : Option BatchRun) (eventIDs : List String) :
    Except Err Database := do
  let run ← validateBatchCompletion run eventIDs
  statement "begin batch completion" w.begin
  statement "upsert batch run" w.upsert
  let runs ← upsertBatchRun b.runs run
  statement "associate batch members" w.associate
  let inbox ← associateBatchMembers b run eventIDs
  statement "commit batch completion" w.commit
  .ok { b with
    db := { b.db with tables := { b.db.tables with inbox := inbox } }
    runs := runs
    completed := (run, eventIDs) :: b.completed }

def getRun (b : Database) (batchID : String) : Option Err → Except Err (Option BatchRun)
  | some e => .error (.wrap "get batch run" e)
  | none => .ok (b.runs batchID)

end FlowRule.Batches
