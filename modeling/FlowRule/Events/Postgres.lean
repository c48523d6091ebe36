import FlowRule.Domain.Identity
import FlowRule.Lib.Clients

/- The PostgreSQL database of the event pipeline, one statement at a time
   (migrations/, internal/adapters/postgres, rust-worker/src/engine).

   Transactions run at READ COMMITTED. What a transaction has written is private to its
   session until it commits (`Session.sees`), and a statement that needs a key or a row
   another open transaction has written waits (`exec` is `none`). The row lock of SELECT ...
   FOR SHARE is kept until the transaction ends. NOW() is the instant the transaction began.

   Lease statements outside a transaction are transactions of one statement. A statement may
   fail at any time with any error (`Oracle.fail`); its transaction then leaves nothing
   behind. The foreign key of the outbox is not used. Tables that only other components write
   may change at any time (`Outside.refer`). -/
namespace FlowRule

structure Tables where
  inbox : String × String → Option InboxRow
  executions : String → Option ExecutionRow
  outbox : String → Option OutboxRow

namespace Tables

def empty : Tables := ⟨fun _ => none, fun _ => none, fun _ => none⟩

/-- The rows of `own`, and those of `base` under keys that `own` does not have. -/
def onto (own base : Tables) : Tables where
  inbox k := (own.inbox k).or (base.inbox k)
  executions k := (own.executions k).or (base.executions k)
  outbox k := (own.outbox k).or (base.outbox k)

@[simp] theorem empty_onto (t : Tables) : empty.onto t = t := by
  simp [onto, empty]

end Tables

structure TenantDomain where
  tenantID : String
  domainID : String
  eventTypes : List String

structure ServiceRow where
  tenantID : String
  serviceID : String
  active : Bool

structure SubscriptionRow where
  tenantID : String
  serviceID : String
  domainID : String

structure Reference where
  activations : List RuleActivation
  revisions : List RuleRevision
  domains : List TenantDomain
  services : List ServiceRow
  subscriptions : List SubscriptionRow

namespace Reference

def activation (r : Reference) (tenantScope ruleSet : String) : Option RuleActivation :=
  r.activations.find? (fun a => a.tenantScope == tenantScope && a.ruleSet == ruleSet)

def activeRevision (r : Reference) (tenantScope ruleSet : String) : Option RuleRevision :=
  (r.activation tenantScope ruleSet).bind (fun a => r.revisions.find? (fun v =>
    v.tenantScope == a.tenantScope && v.ruleID == a.ruleSet && v.revision == a.revision))

/-- The subscriptions of a service to domains that list the event type. -/
def matching (r : Reference) (s : ServiceRow) (eventType : String) : List SubscriptionRow :=
  r.subscriptions.flatMap (fun sub =>
    if sub.tenantID == s.tenantID && sub.serviceID == s.serviceID then
      (r.domains.filter (fun d => d.tenantID == sub.tenantID && d.domainID == sub.domainID &&
        d.eventTypes.contains eventType)).map (fun _ => sub)
    else [])

/-- SELECT [DISTINCT] ... LIMIT 101: one row a service when `distinct`, else one row a
    matching subscription. -/
def subscribers (r : Reference) (tenantID eventType : String) (distinct : Bool) : List DomainService :=
  (r.services.flatMap (fun s =>
    if s.tenantID == tenantID && s.active then
      let rows := (r.matching s eventType).map (fun _ => (⟨s.serviceID⟩ : DomainService))
      if distinct then rows.take 1 else rows
    else [])).take 101

end Reference

structure DB where
  now : Time
  tables : Tables
  leases : Nat → Option ShardLease
  refs : Reference

inductive TxState where
  | idle | active | ended
  deriving DecidableEq, Repr

/-- The server's side of one client: its transaction, the instant it began, the rows it
    has written and the shards whose lease row it holds FOR SHARE. -/
structure Session where
  state : TxState
  now : Time
  own : Tables
  share : List Nat

namespace Session

def idle : Session := ⟨.idle, 0, .empty, []⟩

def close (s : Session) : Session := ⟨.ended, s.now, .empty, []⟩

def sees (s : Session) (d : DB) : Tables := s.own.onto d.tables

def putInbox (s : Session) (key : String × String) (row : InboxRow) : Session :=
  { s with own := { s.own with inbox := Function.update s.own.inbox key (some row) } }

def putExecution (s : Session) (id : String) (row : ExecutionRow) : Session :=
  { s with own := { s.own with executions := Function.update s.own.executions id (some row) } }

def putOutbox (s : Session) (id : String) (row : OutboxRow) : Session :=
  { s with own := { s.own with outbox := Function.update s.own.outbox id (some row) } }

end Session

/-- The largest BIGINT. -/
def maxInt64 : Int := 9223372036854775807

inductive Op where
  | clock
  | begin
  | assertHeld (shard : Nat) (owner : String)
  | inboxGet (key : String × String)
  | inboxInsert (key : String × String) (row : InboxRow)
  | inboxMarkCommitted (key : String × String) (executionID : String) (at_ : Time) (onlyProcessing : Bool)
  | executionGet (id : String)
  | executionExists (id : String)
  | executionInsert (id : String) (row : ExecutionRow) (orNothing : Bool)
  | outboxInsert (id : String) (row : OutboxRow)
  | activationGet (tenantScope ruleSet : String)
  | revisionGetActive (tenantScope ruleSet : String)
  | subscribersGet (tenantID eventType : String) (distinct : Bool)
  | commit
  | leaseUpsert (shard : Nat) (owner : String) (ttl : Int)
  | leaseRenew (owner : String) (leases : List (Nat × Int)) (ttl : Int)
  | leaseRelease (shard : Nat) (owner : String)
  | leaseGet (shard : Nat)

/-- What each statement answers; inserts say whether a row was written, updates how
    many. `begin` answers the transaction's NOW(). -/
def Op.Res : Op → Type
  | clock => Time
  | begin => Time
  | assertHeld _ _ => Option (Int × Time × Bool)
  | inboxGet _ => Option InboxRow
  | inboxInsert _ _ => Bool
  | inboxMarkCommitted _ _ _ _ => Nat
  | executionGet _ => Option ExecutionRow
  | executionExists _ => Bool
  | executionInsert _ _ _ => Unit
  | outboxInsert _ _ => Unit
  | activationGet _ _ => Option RuleActivation
  | revisionGetActive _ _ => Option RuleRevision
  | subscribersGet _ _ _ => List DomainService
  | commit => Unit
  | leaseUpsert _ _ _ => ShardLease
  | leaseRenew _ _ _ => List (Nat × ShardLease)
  | leaseRelease _ _ => Unit
  | leaseGet _ => Option ShardLease

/-- What is decided outside the database: whether a statement fails, and what the
    client's own clock reads. -/
structure Oracle where
  fail : Option Err
  clock : Time

/-- The lease row after the upsert at `now`: taken over only when it has expired. -/
def upsertLease (now : Time) (owner : String) (ttl : Int) : Option ShardLease → ShardLease
  | none => ⟨owner, 1, now + ttl, 0⟩
  | some l => if l.expiresAt < now then ⟨owner, l.fencingToken + 1, now + ttl, l.routingEpoch⟩ else l

/-- The lease row after a renewal of the listed shards and tokens at `now`. -/
def renewLease (now : Time) (owner : String) (leases : List (Nat × Int)) (ttl : Int) (shard : Nat)
    (l : ShardLease) : ShardLease :=
  if (shard, l.fencingToken) ∈ leases ∧ l.owner = owner ∧ now < l.expiresAt then
    { l with expiresAt := now + ttl } else l

/-- The lease row after a release at `now`: expired by a millisecond. -/
def releaseLease (now : Time) (owner : String) (l : ShardLease) : ShardLease :=
  if l.owner = owner then { l with expiresAt := now - 1000 } else l

def InboxRow.commit (row : InboxRow) (executionID : String) (at_ : Time) : InboxRow :=
  { row with status := .committed, executionID := some executionID, committedAt := some at_ }

def perform (d : DB) (os : List Session) (s : Session) :
    (o : Op) → Option (DB × Session × Except Err o.Res)
  | .clock => none
  | .begin => none
  | .assertHeld shard owner =>
    match d.leases shard with
    | some l =>
      if l.owner = owner then
        some (d, { s with share := shard :: s.share },
          .ok (some (l.fencingToken, l.expiresAt, decide (s.now < l.expiresAt))))
      else some (d, s, .ok none)
    | none => some (d, s, .ok none)
  | .inboxGet key => some (d, s, .ok ((s.sees d).inbox key))
  | .inboxInsert key row =>
    if ((s.sees d).inbox key).isSome then some (d, s, .ok false)
    else if os.any (fun x => (x.own.inbox key).isSome) then none
    else some (d, s.putInbox key row, .ok true)
  | .inboxMarkCommitted key executionID at_ onlyProcessing =>
    match (s.sees d).inbox key with
    | none => some (d, s, .ok (0 : Nat))
    | some row =>
      if os.any (fun x => (x.own.inbox key).isSome) then none
      else if onlyProcessing && row.status != .processing then some (d, s, .ok (0 : Nat))
      else some (d, s.putInbox key (row.commit executionID at_), .ok (1 : Nat))
  | .executionGet id => some (d, s, .ok ((s.sees d).executions id))
  | .executionExists id => some (d, s, .ok ((s.sees d).executions id).isSome)
  | .executionInsert id row orNothing =>
    if ((s.sees d).executions id).isSome then
      if orNothing then some (d, s, .ok ())
      else some (d, s.close, .error (.msg "duplicate key value violates unique constraint"))
    else if os.any (fun x => (x.own.executions id).isSome) then none
    else some (d, s.putExecution id row, .ok ())
  | .outboxInsert id row =>
    if ((s.sees d).outbox id).isSome then some (d, s, .ok ())
    else if os.any (fun x => (x.own.outbox id).isSome) then none
    else some (d, s.putOutbox id row, .ok ())
  | .activationGet tenantScope ruleSet => some (d, s, .ok (d.refs.activation tenantScope ruleSet))
  | .revisionGetActive tenantScope ruleSet => some (d, s, .ok (d.refs.activeRevision tenantScope ruleSet))
  | .subscribersGet tenantID eventType distinct =>
    some (d, s, .ok (d.refs.subscribers tenantID eventType distinct))
  | .commit => some ({ d with tables := s.sees d }, s.close, .ok ())
  | .leaseUpsert shard owner ttl =>
    if os.any (fun x => x.share.contains shard) then none
    else
      let l := upsertLease s.now owner ttl (d.leases shard)
      if maxInt64 < l.fencingToken then some (d, s.close, .error (.msg "bigint out of range"))
      else some ({ d with leases := Function.update d.leases shard (some l) }, s.close, .ok l)
  | .leaseRenew owner leases ttl =>
    if os.any (fun x => x.share.any (fun shard => leases.any (fun p => p.1 == shard))) then none
    else
      let after := fun shard => (d.leases shard).map (renewLease s.now owner leases ttl shard)
      some ({ d with leases := after }, s.close, .ok (leases.filterMap (fun p =>
        match d.leases p.1 with
        | some l => if l.fencingToken = p.2 ∧ l.owner = owner ∧ s.now < l.expiresAt then
            (after p.1).map (fun r => (p.1, r)) else none
        | none => none)))
  | .leaseRelease shard owner =>
    if os.any (fun x => x.share.contains shard) then none
    else
      let l := (d.leases shard).map (releaseLease s.now owner)
      some ({ d with leases := Function.update d.leases shard l }, s.close, .ok ())
  | .leaseGet shard => some (d, s, .ok (d.leases shard))

/-- One statement of a session: the client's clock always answers, a failing statement
    ends its transaction, and outside a transaction only `begin` is understood. -/
def exec (d : DB) (os : List Session) (s : Session) (o : Op) (w : Oracle) :
    Option (DB × Session × Except Err o.Res) :=
  match o with
  | .clock => some (d, s, .ok w.clock)
  | .begin =>
    match w.fail with
    | some e => some (d, s, .error e)
    | none => some (d, { s with state := .active, now := d.now }, .ok d.now)
  | o =>
    match w.fail with
    | some e => some (d, s.close, .error e)
    | none =>
      if s.state = .active then perform d os s o else some (d, s.close, .error (.msg "no transaction"))

/-- What happens outside the clients: time passes, rules and subscribers change. -/
inductive Outside where
  | tick (dt : Nat)
  | refer (refs : Reference)

def outside (d : DB) : Outside → DB
  | .tick dt => { d with now := d.now + dt }
  | .refer refs => { d with refs := refs }

def DB.empty (now : Time) (refs : Reference) : DB := ⟨now, .empty, fun _ => none, refs⟩

end FlowRule
