import FlowRule.Events.RustEngine

/- The calls clients make on the event database: event transactions and lease calls of
   both workers, with what they return and what they are about. `store` is the database
   as a server of such calls, and a run of `storeNext` is any interleaving of them. -/
namespace FlowRule

inductive Call where
  | goProcess (env : EventEnvelope) (fencingToken : Int) (shard : Nat) (workerID : String)
  | rustProcess (env : EventEnvelope) (workerID : String) (fencingToken : Int) (numShards : UInt32)
  | goAcquire (shard : Nat) (owner : String) (ttl : Int)
  | goRenew (shard : Nat) (owner : String) (fencingToken ttl : Int)
  | goRenewOwned (owner : String) (leases : List (Nat × Int)) (ttl : Int)
  | goRelease (shard : Nat) (owner : String)
  | rustAcquire (shard : Nat) (owner : String) (ttl : Int)
  | rustRenew (shard : Nat) (owner : String) (fencingToken ttl : Int)
  | rustRelease (shard : Nat) (owner : String)

inductive Reply where
  | execution (e : Execution)
  | outcome (o : Rust.ProcessOutcome)
  | lease (l : ShardLease)
  | leases (ls : List (Nat × ShardLease))
  | token (t : Option Int)
  | renewed (b : Bool)
  | released

namespace Call

def program (eng : Engine) : Call → Tx Reply
  | goProcess env token shard workerID => .execution <$> Go.process eng env token shard workerID
  | rustProcess env workerID token numShards => .outcome <$> Rust.processEvent eng env workerID token numShards
  | goAcquire shard owner ttl => .lease <$> Go.acquire shard owner ttl
  | goRenew shard owner token ttl => .lease <$> Go.renew shard owner token ttl
  | goRenewOwned owner leases ttl => .leases <$> Go.renewOwned owner leases ttl
  | goRelease shard owner => (fun _ => .released) <$> Go.release shard owner
  | rustAcquire shard owner ttl => .token <$> Rust.acquireLease shard owner ttl
  | rustRenew shard owner token ttl => .renewed <$> Rust.renewLease shard owner token ttl
  | rustRelease shard owner => (fun _ => .released) <$> Rust.releaseLease shard owner

def key : Call → Option (String × String)
  | goProcess env _ _ _ => some env.key
  | rustProcess env _ _ _ => some env.key
  | _ => none

def asserts : Call → Option (Nat × Int)
  | goProcess _ token shard _ => some (shard, token)
  | rustProcess env _ token numShards => some ((env.virtualShard numShards).toNat, token)
  | _ => none

def leaseShard : Call → Option Nat
  | goAcquire shard _ _ => some shard
  | goRenew shard _ _ _ => some shard
  | rustAcquire shard _ _ => some shard
  | _ => none

end Call

def store (eng : Engine) : Server DB Session Call Outside Oracle Op Op.Res Err Reply where
  start d c := some (d, .idle, c.program eng)
  exec := exec
  env d _ v := some (outside d v)

abbrev Store := Clients.World DB Session Call Op Op.Res Err Reply

/-- A step of the store: a call starts, runs a statement, returns or is lost, or time
    passes or the rules change. -/
abbrev StoreAct := Clients.Act Call Outside Oracle

abbrev storeNext (eng : Engine) : Store → StoreAct → Option Store := Clients.next (store eng)

end FlowRule
