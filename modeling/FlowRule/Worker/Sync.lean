import FlowRule.Lib.Workers
import FlowRule.Nats.Consumer

/- Reconciliation of a worker's consumers with the shards it owns
   (internal/application/worker_sharding.go, and EnsureShardConsumer and RemoveShardConsumer of
   internal/adapters/nats/jetstream.go). A failed call on the broker has no effect; between any two
   statements other workers move and leases change.

   `Local.started`, `Local.synced` (the shards a reconciliation has been run for since they were last
   gained) and `Local.creating` (the durable that is created and not yet in the map) are not in the
   source. -/
namespace FlowRule.Worker

open Nats

inductive SyncOp where
  | ownedShards
  | activeShards
  | keysOf (shard : Nat)
  | durableOf (key : ConsumerKey)
  | createConsumer (durable : List UInt8) (filterSubject : String)
  | record (key : ConsumerKey) (durable : List UInt8)
  | deleteConsumer (durable : List UInt8)
  | forget (key : ConsumerKey) (durable : List UInt8)

def SyncOp.Res : SyncOp → Type
  | ownedShards => List Nat
  | activeShards => List Nat
  | keysOf _ => List ConsumerKey
  | durableOf _ => Option (List UInt8)
  | createConsumer _ _ => Unit
  | record _ _ => Unit
  | deleteConsumer _ => Unit
  | forget _ _ => Unit

abbrev Sync := Prog SyncOp SyncOp.Res Err

def stmt (o : SyncOp) : Sync o.Res := Prog.call o

/-! The programs. -/

section
variable (sha256Hex : String → String) (cfg : Config)

def ensureConsumerLocked (key : ConsumerKey) : Sync Unit := do
  let found : Option (List UInt8) ← stmt (.durableOf key)
  match found with
  | some _ => pure ()
  | none =>
    let subject := filterSubject sha256Hex key
    let _ ← (stmt (.createConsumer (durable sha256Hex cfg key) subject)).wrap
      (Err.wrap ("create consumer for subject \"" ++ subject ++ "\" shard " ++ toString key.shard))
    stmt (.record key (durable sha256Hex cfg key))

def ensureConsumers : List ConsumerKey → Sync Unit
  | [] => pure ()
  | key :: rest => do
    ensureConsumerLocked sha256Hex cfg key
    ensureConsumers rest

def ensureShardConsumer (shard : Nat) : Sync Unit := ensureConsumers sha256Hex cfg (shardKeys cfg shard)

def removeConsumers : List ConsumerKey → Sync (List Err)
  | [] => pure []
  | key :: rest => do
    let found : Option (List UInt8) ← stmt (.durableOf key)
    match found with
    | none => removeConsumers rest
    | some name =>
      let deleted : Except Err Unit ← ((stmt (.deleteConsumer name)).wrap
        (Err.wrap ("delete consumer \"" ++ durableText name ++ "\""))).caught
      match deleted with
      | .error e =>
        let errs ← removeConsumers rest
        pure (e :: errs)
      | .ok _ =>
        let _ ← stmt (.forget key name)
        removeConsumers rest

def removeShardConsumer (shard : Nat) : Sync Unit := do
  let keys : List ConsumerKey ← stmt (.keysOf shard)
  let removeErrs ← removeConsumers keys
  match joinErrors removeErrs with
  | some e => Prog.throw e
  | none => pure ()

/-- The active shards that are left: a shard whose removal failed is still one. -/
def removeUnownedShardConsumers (owned : List Nat) : List Nat → Sync (List Nat)
  | [] => pure []
  | shard :: rest => do
    if shard ∈ owned then
      let left ← removeUnownedShardConsumers owned rest
      pure (shard :: left)
    else
      let removed ← (removeShardConsumer shard).caught
      let left ← removeUnownedShardConsumers owned rest
      match removed with
      | .error _ => pure (shard :: left)
      | .ok _ => pure left

def ensureOwnedShardConsumers (active : List Nat) : List Nat → Sync Unit
  | [] => pure ()
  | shard :: rest => do
    if shard ∈ active then ensureOwnedShardConsumers active rest
    else
      let _ ← (ensureShardConsumer sha256Hex cfg shard).caught
      ensureOwnedShardConsumers active rest

def syncConsumers : Sync Unit := do
  let owned : List Nat ← stmt .ownedShards
  let active : List Nat ← stmt .activeShards
  let active ← removeUnownedShardConsumers owned active
  ensureOwnedShardConsumers sha256Hex cfg active owned

end

/-! The workers and the broker. -/

structure Local where
  owned : List Nat
  consumer : Consumer
  creating : Option (List UInt8)
  started : List Nat
  synced : List Nat

/-- The durables on the broker with their filter subjects, and the workers. -/
structure Fleet where
  broker : List UInt8 → Option String
  workers : Nat → Local

namespace Fleet

def set (d : Fleet) (w : Nat) (l : Local) : Fleet := { d with workers := Function.update d.workers w l }

@[simp] theorem set_broker (d : Fleet) (w : Nat) (l : Local) : (d.set w l).broker = d.broker := rfl

@[simp] theorem set_self (d : Fleet) (w : Nat) (l : Local) : (d.set w l).workers w = l := by simp [set]

theorem set_other (d : Fleet) {w w' : Nat} (l : Local) (h : w' ≠ w) : (d.set w l).workers w' = d.workers w' := by
  simp [set, h]

end Fleet

/-- One statement of a reconciliation; `fail` is the error of a call on the broker. -/
def execSync (cfg : Config) (d : Fleet) (w : Nat) : (o : SyncOp) → Option Err → Option (Fleet × Except Err o.Res)
  | .ownedShards, _ => some (d, .ok (d.workers w).owned)
  | .activeShards, _ => some (d, .ok ((d.workers w).consumer.ownedShards cfg))
  | .keysOf shard, _ => some (d, .ok ((d.workers w).consumer.keysOf shard))
  | .durableOf key, _ => some (d, .ok ((d.workers w).consumer.find key))
  | .createConsumer _ _, some e => some (d, .error e)
  | .createConsumer name subject, none =>
    some ({ d with broker := Function.update d.broker name (some subject) }.set w
      { d.workers w with creating := some name }, .ok ())
  | .record key name, _ =>
    some (d.set w { d.workers w with consumer := (d.workers w).consumer.record key name, creating := none }, .ok ())
  | .deleteConsumer _, some e => some (d, .error e)
  | .deleteConsumer name, none => some ({ d with broker := Function.update d.broker name none }, .ok ())
  | .forget key name, _ =>
    some (d.set w { d.workers w with consumer := (d.workers w).consumer.forget key name }, .ok ())

inductive LeaseChange where
  | gain (w shard : Nat)
  | lose (w shard : Nat)

def changeLease (d : Fleet) : LeaseChange → Option Fleet
  | .gain w shard =>
    if shard ∈ (d.workers w).owned then none
    else
      let l := d.workers w
      some (d.set w { l with
        owned := shard :: l.owned,
        started := l.started.filter (· ≠ shard),
        synced := l.synced.filter (· ≠ shard) })
  | .lose w shard =>
    let l := d.workers w
    some (d.set w { l with owned := l.owned.filter (· ≠ shard) })

def fleet (sha256Hex : String → String) (cfg : Config) :
    Shop Fleet Nat LeaseChange (Option Err) SyncOp SyncOp.Res Err Unit where
  start d w := some (d.set w { d.workers w with started := (d.workers w).owned }, syncConsumers sha256Hex cfg)
  exec := execSync cfg
  finish d w _ :=
    d.set w { d.workers w with started := [], synced := (d.workers w).started ++ (d.workers w).synced }
  env := changeLease

def Fleet.init : Fleet := ⟨fun _ => none, fun _ => ⟨[], ⟨[], 0⟩, none, [], []⟩⟩

abbrev FleetWorld := Workers.World Fleet Nat SyncOp SyncOp.Res Err Unit

abbrev FleetAct := Workers.Act Nat LeaseChange (Option Err)

abbrev fleetNext (sha256Hex : String → String) (cfg : Config) : FleetWorld → FleetAct → Option FleetWorld :=
  Workers.next (fleet sha256Hex cfg)

end FlowRule.Worker
