import FlowRule.Nats.Config

/- The pull consumer (internal/adapters/nats/jetstream.go): its map from keys to durables and how
   it fetches. Where the source goes through the map it sorts, so the order of the list does
   not matter. What a consumer answers is a parameter: looking it up may fail, the request may
   fail, and the messages that did arrive may be followed by an error. -/
namespace FlowRule.Nats

structure Consumer where
  consumers : List (ConsumerKey × List UInt8)
  fetchCursor : Nat

namespace Consumer

def find (c : Consumer) (key : ConsumerKey) : Option (List UInt8) := c.consumers.lookup key

def keys (c : Consumer) : List ConsumerKey := c.consumers.map Prod.fst

def keyLe (a b : ConsumerKey) : Bool :=
  if a.shard ≠ b.shard then decide (a.shard < b.shard)
  else if a.baseSubject ≠ b.baseSubject then decide (a.baseSubject < b.baseSubject)
  else decide (a.ruleSet ≤ b.ruleSet)

def ownedShards (cfg : Config) (c : Consumer) : List Nat :=
  let expected := cfg.subjects.length * (1 + cfg.ruleSets.length)
  let shards := (c.keys.map ConsumerKey.shard).dedup.filter (fun shard =>
    (c.keys.filter (fun key => key.shard = shard)).length = expected)
  shards.insertionSort (· ≤ ·)

def keysOf (c : Consumer) (shard : Nat) : List ConsumerKey :=
  (c.keys.filter (fun key => key.shard = shard)).insertionSort (keyLe · ·)

def record (c : Consumer) (key : ConsumerKey) (durable : List UInt8) : Consumer :=
  { c with consumers := Assoc.put key durable c.consumers }

def forget (c : Consumer) (key : ConsumerKey) (durable : List UInt8) : Consumer :=
  if c.find key = some durable then { c with consumers := Assoc.drop key c.consumers } else c

end Consumer

/-- A durable's name in an error text, as it is when it is ASCII. -/
def durableText (name : List UInt8) : String := String.ofList (name.map (fun b => Char.ofNat b.toNat))

/-! Fetching. -/

/-- The errors of nats.go that a fetch treats as no messages, and any other. -/
inductive NatsError where
  | timeout
  | noMessages
  | other (text : String)
  deriving DecidableEq, Repr

def NatsError.err : NatsError → Err
  | timeout => .msg "nats: timeout"
  | noMessages => .msg "nats: no messages"
  | other text => .msg text

structure Answer (Delivery : Type) where
  consumer : Option NatsError
  fetch : Option NatsError
  messages : List Delivery
  batch : Option NatsError

structure ShardFetchResult (Delivery : Type) where
  deliveries : List Delivery
  err : Option Err

section
variable {Delivery : Type}

/-- One consumer: messages that arrived are returned together with the error that ended
    their batch. -/
def fetchFromConsumer (durable : String) (answer : Answer Delivery) : ShardFetchResult Delivery :=
  match answer.consumer with
  | some e => ⟨[], some (.wrap ("get consumer \"" ++ durable ++ "\"") e.err)⟩
  | none =>
    match answer.fetch with
    | some .timeout => ⟨[], none⟩
    | some e => ⟨[], some (.wrap ("fetch consumer \"" ++ durable ++ "\"") e.err)⟩
    | none =>
      match answer.batch with
      | some (.other text) => ⟨answer.messages,
          some (.wrap ("receive from consumer \"" ++ durable ++ "\"") (NatsError.other text).err)⟩
      | _ => ⟨answer.messages, none⟩

def collectFetchResults (results : List (ShardFetchResult Delivery)) (maxMessages : Nat) :
    List Delivery × Option Err :=
  let deliveries := results.flatMap ShardFetchResult.deliveries
  let fetchErrs := results.filterMap ShardFetchResult.err
  let fetchErrs := if maxMessages < deliveries.length then
      fetchErrs ++ [.msg ("fetch invariant violated: got " ++ toString deliveries.length ++
        " deliveries for limit " ++ toString maxMessages)]
    else fetchErrs
  (deliveries, joinErrors fetchErrs)

def matchingConsumerKeys (c : Consumer) (shards : List Nat) : List ConsumerKey :=
  (c.keys.filter (fun key => shards.contains key.shard)).insertionSort (Consumer.keyLe · ·)

/-- The keys of the wanted shards, as many as messages are asked for, from the cursor on. -/
def selectFetchConsumers (c : Consumer) (maxMessages : Nat) (shards : List Nat) :
    Consumer × List (ConsumerKey × List UInt8) :=
  let keys := matchingConsumerKeys c shards
  if keys.length = 0 then (c, [])
  else
    let selectedCount := min keys.length maxMessages
    let start := c.fetchCursor % keys.length
    let selected := (List.range selectedCount).filterMap (fun i => keys[(start + i) % keys.length]?)
    ({ c with fetchCursor := (start + selectedCount) % keys.length },
      selected.map (fun key => (key, (c.find key).getD [])))

/-- The share of each selected consumer: the remainder goes to the first ones. -/
def budgets (maxMessages n : Nat) : List Nat :=
  (List.range n).map (fun i => if i < maxMessages % n then maxMessages / n + 1 else maxMessages / n)

def fetchSelectedConsumers (answers : ConsumerKey → Nat → Answer Delivery) (maxMessages : Nat)
    (selected : List (ConsumerKey × List UInt8)) : List (ShardFetchResult Delivery) :=
  (selected.zip (budgets maxMessages selected.length)).map (fun p =>
    fetchFromConsumer (durableText p.1.2) (answers p.1.1 p.2))

def validateFetchRequest (ctxErr : Option Err) (maxMessages : Int) : Except Err Unit :=
  if maxMessages ≤ 0 then .error (.msg "fetch shards: maxMessages must be > 0")
  else match ctxErr with
    | some e => .error e
    | none => .ok ()

/-- What the outside decides in one fetch: the context, the answers and the
    order in which they arrive. -/
structure FetchEnv (Delivery : Type) where
  ctxErr : Option Err
  answers : ConsumerKey → Nat → Answer Delivery
  arrive : List (ShardFetchResult Delivery) → List (ShardFetchResult Delivery)
  arrive_perm : ∀ results, (arrive results).Perm results

def fetchResults (env : FetchEnv Delivery) (c : Consumer) (maxMessages : Int) (shards : List Nat) :
    List (ShardFetchResult Delivery) :=
  match validateFetchRequest env.ctxErr maxMessages with
  | .error _ => []
  | .ok _ => env.arrive (fetchSelectedConsumers env.answers maxMessages.toNat
      (selectFetchConsumers c maxMessages.toNat shards).2)

def fetchShards (env : FetchEnv Delivery) (c : Consumer) (maxMessages : Int) (shards : List Nat) :
    Consumer × List Delivery × Option Err :=
  match validateFetchRequest env.ctxErr maxMessages with
  | .error e => (c, [], some e)
  | .ok _ =>
    if shards.length = 0 then (c, [], none)
    else
      let (c, selected) := selectFetchConsumers c maxMessages.toNat shards
      if selected.length = 0 then (c, [], none)
      else (c, collectFetchResults (env.arrive (fetchSelectedConsumers env.answers maxMessages.toNat
        selected)) maxMessages.toNat)

end

end FlowRule.Nats
