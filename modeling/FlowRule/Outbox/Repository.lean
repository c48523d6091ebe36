import FlowRule.Events.Service
import FlowRule.Lib.Checks

/- The outbox and quarantine tables as the publishers use them
   (internal/adapters/postgres/outbox.go, quarantine.go; rust-worker/src/runtime/effects.rs).

   A statement outside a transaction is atomic, and its NOW() is the present. The Rust worker
   quarantines an effect in a transaction: its NOW() is the instant it began, and a row it has
   updated is locked until the commit. An update of a locked row waits (`exec` is `none`); a
   claim skips it.

   A claim takes rows that are pending and due, or whose claim has expired; which of them, and
   in what order, is the server's choice (`Oracle.pick`). Any statement may fail, without effect. -/
namespace FlowRule

namespace Outbox

/-- A row of quarantine; what may be NULL is an `Option`. -/
structure QuarantineRow where
  sourceType : String
  sourceID : String
  errorClass : String
  payloadRef : Option String
  eventID : Option String
  tenantID : Option String
  errorMessage : Option String
  createdAt : Time
  deriving DecidableEq, Repr

/-- How a claimed effect is settled; the Go worker does not write the attempts of an effect
    it quarantines. -/
inductive Settlement where
  | delivered
  | retry (attempts : Int) (delay : Int) (error : String)
  | quarantined (attempts : Option Int) (error : String)
  deriving DecidableEq, Repr

end Outbox

namespace OutboxRow

/-- Pending and due, or claimed with a claim that has expired; the workers differ in whether
    a claim that ends now has (`atOnce`). -/
def due (r : OutboxRow) (now : Time) (atOnce : Bool) : Bool :=
  (r.status == .pending && decide (r.availableAt ≤ now)) ||
    (r.status == .claimed && r.claimExpiresAt.any (fun x => if atOnce then decide (x ≤ now) else decide (x < now)))

def claim (r : OutboxRow) (owner : String) (now : Time) (ttl : Int) : OutboxRow :=
  { r with
    status := .claimed, claimedBy := some owner, claimedAt := some now, claimExpiresAt := some (now + ttl),
    updatedAt := now }

/-- The claim is this claimant's and ends after `now`. -/
def heldBy (r : OutboxRow) (claimant : String) (now : Time) : Bool :=
  r.status == .claimed && r.claimedBy == some claimant && r.claimExpiresAt.any (fun x => now < x)

/-- The row after it was settled at `now`. -/
def settle (r : OutboxRow) (now : Time) (how : Outbox.Settlement) : OutboxRow :=
  let r := { r with claimedBy := none, claimedAt := none, claimExpiresAt := none, updatedAt := now }
  match how with
  | .delivered => { r with status := .delivered }
  | .retry attempts delay error =>
    { r with status := .pending, attempts := attempts, availableAt := now + delay, lastError := some error }
  | .quarantined attempts error =>
    { r with status := .quarantined, attempts := attempts.getD r.attempts, lastError := some error }

end OutboxRow

namespace Outbox

inductive Broker where
  | stored | refused | lostBefore | lostAfter
  deriving DecidableEq, Repr

structure DB where
  now : Time
  outbox : String → Option OutboxRow
  quarantine : String → Option QuarantineRow
  /-- Claim tokens and identifiers that were given out. -/
  used : List String
  /-- Effects of which a send has reported success. -/
  sent : List String
  /-- Effects whose message JetStream has acknowledged. -/
  acked : List String

/-- An open transaction: its NOW() and what it has written. -/
structure OpenTx where
  now : Time
  outbox : String → Option OutboxRow
  quarantine : String → Option QuarantineRow

abbrev Session := Option OpenTx

def locked (os : List Session) (id : String) : Bool := os.any (fun s => s.any (fun t => (t.outbox id).isSome))

inductive Op where
  | clock
  | newID
  | claim (batch : Nat) (owner : String) (ttl : Int) (atOnce : Bool)
  | send (waits : Bool) (id : String) (row : OutboxRow)
  | settle (ids : List String) (claimant : String) (how : Settlement)
  | quarantineSave (id : String) (row : QuarantineRow)
  | quarantineSaveNow (id : String) (row : Time → QuarantineRow)
  | quarantineDelete (tenantID id : String)
  | begin
  | commit

/-- What each statement answers: a claim the rows it took, updates how many rows they
    changed. -/
def Op.Res : Op → Type
  | clock => Time
  | newID => String
  | claim _ _ _ _ => List (String × OutboxRow)
  | send _ _ _ => Unit
  | settle _ _ _ => Nat
  | quarantineSave _ _ => Unit
  | quarantineSaveNow _ _ => Unit
  | quarantineDelete _ _ => Nat
  | begin => Unit
  | commit => Unit

/-- What is decided outside: whether a statement fails, what the worker's clock reads, the
    next identifier, the rows a claim takes, and what becomes of a message. -/
structure Oracle where
  fail : Option Err
  clock : Time
  uuid : String
  pick : List String
  broker : Broker

def Pickable (d : DB) (os : List Session) (batch : Nat) (atOnce : Bool) (pick : List String) : Prop :=
  pick.Nodup ∧ pick.length ≤ batch ∧
    ∀ id ∈ pick, (d.outbox id).any (fun r => r.due d.now atOnce) = true ∧ locked os id = false

instance (d : DB) (os : List Session) (batch : Nat) (atOnce : Bool) (pick : List String) :
    Decidable (Pickable d os batch atOnce pick) := inferInstanceAs (Decidable (_ ∧ _ ∧ _))

/-- The rows among `ids` whose claim is held, as the transaction or everybody sees them. -/
def held (t : String → Option OutboxRow) (ids : List String) (claimant : String) (now : Time) : List String :=
  ids.dedup.filter (fun id => (t id).any (fun r => r.heldBy claimant now))

def changed (t : String → Option OutboxRow) (ids : List String) (f : OutboxRow → OutboxRow) :
    String → Option OutboxRow :=
  fun id => if id ∈ ids then (t id).map f else t id

def OpenTx.sees (t : OpenTx) (d : DB) : String → Option OutboxRow := fun id => (t.outbox id).or (d.outbox id)

/-- INSERT INTO quarantine ... ON CONFLICT DO NOTHING: a row that is there stays, and one that
    another transaction has written is waited for. -/
def insertQuarantine (d : DB) (os : List Session) (s : Session) (id : String) (row : QuarantineRow) :
    Option (DB × Session × Except Err Unit) :=
  match s with
  | none =>
    if (d.quarantine id).isSome then some (d, s, .ok ())
    else if os.any (fun s => s.any (fun t => (t.quarantine id).isSome)) then none
    else some ({ d with quarantine := Function.update d.quarantine id (some row) }, s, .ok ())
  | some t =>
    if (d.quarantine id).isSome ∨ (t.quarantine id).isSome then some (d, s, .ok ())
    else if os.any (fun s => s.any (fun t => (t.quarantine id).isSome)) then none
    else some (d, some { t with quarantine := Function.update t.quarantine id (some row) }, .ok ())

def perform (d : DB) (os : List Session) (s : Session) (w : Oracle) :
    (o : Op) → Option (DB × Session × Except Err o.Res)
  | .clock => some (d, s, .ok w.clock)
  | .newID =>
    if w.uuid.length = 36 ∧ w.uuid ∉ d.used then some ({ d with used := w.uuid :: d.used }, s, .ok w.uuid) else none
  | .claim batch owner ttl atOnce =>
    if Pickable d os batch atOnce w.pick then
      let t := changed d.outbox w.pick (fun r => r.claim owner d.now ttl)
      some ({ d with outbox := t }, s, .ok (w.pick.filterMap (fun id => (t id).map (fun r => (id, r)))))
    else none
  | .send waits id _ =>
    match w.broker with
    | .stored => some ({ d with sent := id :: d.sent, acked := id :: d.acked }, s, .ok ())
    | _ =>
      -- a sender that does not wait for the acknowledgement takes this for a success
      if waits then some (d, s, .error (.msg "publish was not acknowledged"))
      else some ({ d with sent := id :: d.sent }, s, .ok ())
  | .settle ids claimant how =>
    match s with
    | none =>
      let rows := held d.outbox ids claimant d.now
      if rows.any (locked os) then none
      else some ({ d with outbox := changed d.outbox rows (fun r => r.settle d.now how) }, s, .ok rows.length)
    | some t =>
      let rows := held (t.sees d) ids claimant t.now
      if rows.any (locked os) then none
      else
        let own := fun id => if id ∈ rows then ((t.sees d) id).map (fun r => r.settle t.now how) else t.outbox id
        some (d, some { t with outbox := own }, .ok rows.length)
  | .quarantineSave id row => insertQuarantine d os s id row
  | .quarantineSaveNow id row => insertQuarantine d os s id (row ((s.map OpenTx.now).getD d.now))
  | .quarantineDelete tenantID id =>
    if (d.quarantine id).any (fun r => r.tenantID == some tenantID) then
      some ({ d with quarantine := Function.update d.quarantine id none }, s, .ok (1 : Nat))
    else some (d, s, .ok (0 : Nat))
  | .begin => some (d, some ⟨d.now, fun _ => none, fun _ => none⟩, .ok ())
  | .commit =>
    match s with
    | none => some (d, s, .error (.msg "no transaction"))
    | some t => some ({ d with outbox := t.sees d, quarantine := fun id => (t.quarantine id).or (d.quarantine id) },
        none, .ok ())

def exec (d : DB) (os : List Session) (s : Session) (o : Op) (w : Oracle) : Option (DB × Session × Except Err o.Res) :=
  match w.fail with
  | some e => some (d, none, .error e)
  | none => perform d os s w o

abbrev Tx := Prog Op Op.Res Err

def sql (o : Op) : Tx o.Res := Prog.call o

end Outbox

/-! The Go repositories. -/

namespace Go

open Outbox (Settlement QuarantineRow)

def validateClaimArguments (batchSize : Int) (owner : String) (claimTTL : Int) : Except Err Unit :=
  if batchSize ≤ 0 ∨ 1000 < batchSize then .error (.msg "claim batch size must be between 1 and 1000")
  else if Text.trimSpace owner = "" then .error (.msg "claim owner is required")
  else if claimTTL ≤ 0 then .error (.msg "claim TTL must be > 0")
  else .ok ()

/-- A row read into an effect: a row without a last error cannot be read. -/
def scanOutboxEffect (row : String × OutboxRow) : Except Err (String × OutboxRow) :=
  match row.2.lastError with
  | none => .error (.wrap "scan outbox" (scanNull 11 "last_error"))
  | some _ => .ok row

def scanOutboxEffects (rows : List (String × OutboxRow)) : Except Err (List (String × OutboxRow)) :=
  rows.mapM scanOutboxEffect

def claimPending (batchSize : Int) (owner : String) (claimTTL : Int) : Outbox.Tx (List (String × OutboxRow)) := do
  Prog.ofExcept (validateClaimArguments batchSize owner claimTTL)
  let rows : List (String × OutboxRow) ← (Outbox.sql (.claim batchSize.toNat owner claimTTL true)).wrap
    (Err.wrap "claim pending")
  Prog.ofExcept (scanOutboxEffects rows)

def settleEffects (action : String) (effectIDs : List String) (claimant : String) (how : Settlement) :
    Outbox.Tx Unit := do
  let affected : Nat ← (Outbox.sql (.settle effectIDs claimant how)).wrap (Err.wrap action)
  if affected ≠ effectIDs.length then Prog.throw (.sentinel .outboxClaimLost) else pure ()

def markDelivered (effectIDs : List String) (claimant : String) : Outbox.Tx Unit := do
  if effectIDs.isEmpty then pure () else settleEffects "mark delivered" effectIDs claimant .delivered

def scheduleRetry (effectID claimant : String) (delay : Int) (attempts : Int) (errMsg : String) : Outbox.Tx Unit :=
  settleEffects "schedule retry" [effectID] claimant (.retry attempts delay errMsg)

def quarantineOutbox (effectID claimant errMsg : String) : Outbox.Tx Unit :=
  settleEffects "quarantine effect" [effectID] claimant (.quarantined none errMsg)

def quarantineSave (entry : QuarantineEntry) : Outbox.Tx Unit :=
  (Outbox.sql (.quarantineSave entry.id ⟨entry.sourceType, entry.sourceID, entry.errorClass, some entry.payloadRef,
    some entry.eventID, some entry.tenantID, some entry.error, entry.createdAt⟩)).wrap
    (Err.wrap "save quarantine entry")

def quarantineDelete (tenantID id : String) : Outbox.Tx Unit := do
  if tenantID = "" then Prog.throw (.sentinel .quarantineNotFound)
  else
    let affected : Nat ← (Outbox.sql (.quarantineDelete tenantID id)).wrap (Err.wrap "delete quarantine entry")
    if affected = 0 then Prog.throw (.sentinel .quarantineNotFound) else pure ()

end Go

end FlowRule
