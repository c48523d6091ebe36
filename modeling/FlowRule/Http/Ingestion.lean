import FlowRule.Http.Responses
import FlowRule.Lib.Checks
import FlowRule.Domain.Types

/- An event on its way from the SDK over HTTP to the broker
   (sdk/go/flowrule/transport.go, transport_http.go;
   internal/adapters/http/handlers/events_ingest.go).

   The SDK puts the JSON text of the data into the body as it is, while the handler reads the
   member into a byte slice, which encoding/json fills from base64, or from an array of small
   numbers. So an object, a number or a boolean is refused, and what is accepted is published
   as another value (`sdk_event_never_arrives`). A body is the document its text has;
   encoding/json and the layout of times are in `Encoding`. -/
namespace FlowRule

abbrev Bytes := List UInt8

/-- The library functions both sides use. `read` is the document of a JSON text; a text that
    is a string has quotes around a character or an escape for each of its characters, and
    one that is an array has brackets around its elements. -/
structure Encoding where
  read : Bytes → Option Json
  string_shorter : ∀ text s, read text = some (.str s) → s.length < text.length
  array_shorter : ∀ text items, read text = some (.arr items) → items.length < text.length
  size : Json → Nat
  formatTime : Time → Except Err String
  parseTime : String → Except Err Time

/-! The SDK. -/

namespace Sdk

/-- Envelope; the data is a JSON text, or nil. -/
structure Envelope where
  id : String
  type : String
  tenantID : String
  partitionKey : String
  workflowID : String
  correlationID : String
  causationID : String
  occurredAt : Time
  data : Option Bytes
  headers : List (String × String)
  schemaVersion : String

def Envelope.document (enc : Encoding) (env : Envelope) : Option Json :=
  match env.data with
  | none => some .null
  | some text => enc.read text

def omitEmpty (key value : String) : List (String × Json) := if value = "" then [] else [(key, .str value)]

def marshal (enc : Encoding) (env : Envelope) : Except Err Json := do
  let occurredAt ← enc.formatTime env.occurredAt
  match env.document enc with
  | none => .error (.msg "json: error calling MarshalJSON for type json.RawMessage: invalid JSON")
  | some data =>
    let headers := if env.headers.isEmpty then [] else
      [("headers", Json.obj (env.headers.map (fun e => (e.1, .str e.2))))]
    .ok (.obj ([("id", .str env.id), ("type", .str env.type), ("tenant_id", .str env.tenantID),
      ("partition_key", .str env.partitionKey)] ++ omitEmpty "workflow_id" env.workflowID ++
      omitEmpty "correlation_id" env.correlationID ++ omitEmpty "causation_id" env.causationID ++
      [("occurred_at", .str occurredAt), ("data", data)] ++ headers ++ omitEmpty "schema_version" env.schemaVersion))

def invalidArgument (text : String) : Err := .msg ("flowrule: invalid argument: " ++ text)

/-- A request as the handler gets it: the path is split and unescaped again. -/
structure Request where
  eventType : String
  tenantHeader : String
  body : Json

def sendLocked (enc : Encoding) : Option Envelope → Except Err Request
  | none => .error (invalidArgument "event envelope is required")
  | some env =>
    if Text.trimSpace env.type = "" then .error (invalidArgument "event type is required")
    else do
      let body ← (marshal enc env).mapError (Err.wrap "marshal envelope")
      .ok ⟨env.type, env.tenantID, body⟩

end Sdk

/-! The ingestion handler. -/

namespace Ingestion

structure EventIngestionRequest where
  id : String
  type : String
  tenantID : String
  partitionKey : String
  workflowID : String
  occurredAt : Time
  data : Bytes
  headers : List (String × String)
  correlationID : String
  causationID : String
  schemaVersion : String

def kind : Json → String
  | .null => "null"
  | .bool _ => "bool"
  | .num _ => "number"
  | .str _ => "string"
  | .arr _ => "array"
  | .obj _ => "object"

def cannotUnmarshal (v : Json) (field type : String) : Err :=
  .msg ("json: cannot unmarshal " ++ kind v ++ " into Go struct field eventIngestionRequest." ++ field ++
    " of type " ++ type)

def stringField (members : List (String × Json)) (field : String) : Except Err String :=
  match Json.member members field with
  | none => .ok ""
  | some .null => .ok ""
  | some (.str s) => .ok s
  | some v => .error (cannotUnmarshal v field "string")

def timeField (enc : Encoding) (members : List (String × Json)) (field : String) : Except Err Time :=
  match Json.member members field with
  | none => .ok 0
  | some .null => .ok 0
  | some (.str s) => enc.parseTime s
  | some _ => .error (.msg "Time.UnmarshalJSON: input is not a JSON string")

/-- An element of a byte slice: a number that fits; null leaves it zero. -/
def decodeByte (field : String) : Json → Except Err UInt8
  | .null => .ok 0
  | .num literal =>
    match literal.toNat? with
    | some n => if n < 256 then .ok (UInt8.ofNat n) else .error (cannotUnmarshal (.num literal) field "uint8")
    | none => .error (cannotUnmarshal (.num literal) field "uint8")
  | v => .error (cannotUnmarshal v field "uint8")

def decodeBytes (field : String) : Json → Except Err Bytes
  | .null => .ok []
  | .str s =>
    match Text.base64Decode s with
    | some bytes => .ok bytes
    | none => .error (.msg "illegal base64 data")
  | .arr items => items.mapM (decodeByte field)
  | v => .error (cannotUnmarshal v field "[]uint8")

def bytesField (members : List (String × Json)) (field : String) : Except Err Bytes :=
  match Json.member members field with
  | none => .ok []
  | some v => decodeBytes field v

def headerValue (field : String) (e : String × Json) : Except Err (String × String) :=
  match e.2 with
  | .str s => .ok (e.1, s)
  | .null => .ok (e.1, "")
  | v => .error (cannotUnmarshal v field "string")

def headersField (members : List (String × Json)) (field : String) : Except Err (List (String × String)) :=
  match Json.member members field with
  | none => .ok []
  | some .null => .ok []
  | some (.obj entries) => entries.mapM (headerValue field)
  | some v => .error (cannotUnmarshal v field "map[string]string")

def maxRequestBodyBytes : Nat := 1048576

/-- decodeRequestBody of a JSON body; the members are read as they come. -/
def decodeRequestBody (enc : Encoding) (body : Json) : Except Err EventIngestionRequest :=
  if maxRequestBodyBytes < enc.size body then .error (.msg "request body exceeds 1048576 bytes")
  else
    match body with
    | .obj members => (do
        let id ← stringField members "id"
        let type ← stringField members "type"
        let tenantID ← stringField members "tenant_id"
        let partitionKey ← stringField members "partition_key"
        let workflowID ← stringField members "workflow_id"
        let correlationID ← stringField members "correlation_id"
        let causationID ← stringField members "causation_id"
        let occurredAt ← timeField enc members "occurred_at"
        let data ← bytesField members "data"
        let headers ← headersField members "headers"
        let schemaVersion ← stringField members "schema_version"
        .ok (⟨id, type, tenantID, partitionKey, workflowID, occurredAt, data, headers, correlationID, causationID,
          schemaVersion⟩ : EventIngestionRequest)).mapError (Err.wrap "decode JSON request")
    | .null => .ok ⟨"", "", "", "", "", 0, [], [], "", "", ""⟩
    | v => .error (.wrap "decode JSON request" (.msg ("json: cannot unmarshal " ++ kind v ++
        " into Go value of type handlers.eventIngestionRequest")))

/-- The envelope that is published, with its data as the bytes it has. -/
structure Event where
  id : String
  type : String
  tenantID : String
  partitionKey : String
  workflowID : String
  occurredAt : Time
  data : Bytes
  headers : List (String × String)

/-- What the checks and the routing of an envelope read of it, which is not the data. -/
def Event.envelope (e : Event) : EventEnvelope :=
  ⟨e.id, e.type, e.tenantID, e.partitionKey, e.workflowID, e.occurredAt, "", e.headers⟩

def setHeader (key value : String) (headers : List (String × String)) : List (String × String) :=
  if value = "" then headers else Assoc.put key value headers

def buildEventHeaders (request : EventIngestionRequest) : List (String × String) :=
  setHeader "Schema-Version" request.schemaVersion (setHeader "Causation-ID" request.causationID
    (setHeader "Correlation-ID" request.correlationID
      (request.headers.foldl (fun headers e => Assoc.put e.1 e.2 headers) [])))

def buildEventEnvelope (request : EventIngestionRequest) (eventType tenantID : String) : Event where
  id := Text.trimSpace request.id
  type := eventType
  tenantID := tenantID
  partitionKey := Text.trimSpace request.partitionKey
  workflowID := request.workflowID
  occurredAt := request.occurredAt
  data := request.data
  headers := buildEventHeaders request

def validateEventIngestionRequest (enc : Encoding) (request : EventIngestionRequest) (eventType tenantID : String) :
    Option (Response (String × UInt32)) :=
  if eventType = "" ∨ request.type ≠ eventType then
    some (.error 400 "event type must match the eventType path parameter" "VALIDATION_FAILED")
  else if tenantID = "" then some (.error 401 "authenticated tenant identity is required" "TENANT_REQUIRED")
  else if request.tenantID ≠ "" ∧ request.tenantID ≠ tenantID then
    some (.error 403 "tenant_id does not match request tenant" "FORBIDDEN")
  else if request.data.length = 0 ∨ (enc.read request.data).isNone then
    some (.error 400 "data must contain a valid JSON value" "VALIDATION_FAILED")
  else none

/-- The handler; its publisher answers whether the broker has taken an event for a shard. -/
structure EventIngestionHandler where
  publisher : Option (UInt32 → Event → Except Err Unit)
  numShards : UInt32

def newEventIngestionHandler (publisher : Option (UInt32 → Event → Except Err Unit)) (numShards : UInt32) :
    EventIngestionHandler :=
  ⟨publisher, if numShards = 0 then 4096 else numShards⟩

def publishEvent (enc : Encoding) (h : EventIngestionHandler) (pathValue tenantID : String) (body : Json) :
    Response (String × UInt32) × Option (UInt32 × Event) :=
  match h.publisher with
  | none => (.error 503 "event ingestion is not configured" "INTERNAL_ERROR", none)
  | some publishToShard =>
    match decodeRequestBody enc body with
    | .error err => (.error 400 ("invalid event envelope: " ++ err.text) "INVALID_JSON", none)
    | .ok request =>
      let eventType := Text.trimSpace pathValue
      match validateEventIngestionRequest enc request eventType tenantID with
      | some response => (response, none)
      | none =>
        let event := buildEventEnvelope request eventType tenantID
        match event.envelope.validate with
        | .error err => (.error 400 err.text "VALIDATION_FAILED", none)
        | .ok _ =>
          let shard := event.envelope.virtualShard h.numShards
          match publishToShard shard event with
          | .error _ => (.error 503 "event publication failed" "INTERNAL_ERROR", some (shard, event))
          | .ok _ => (.success 202 (event.id, shard), some (shard, event))

/-! What arrives. -/

/-- The two texts have the same JSON value. -/
def SameValue (v w : Json) : Prop := Json.same Json.sameNumber v.canon w.canon = true

/-- The event of the SDK is accepted, and published to the shard of its tenant and key with
    the same fields and the same data. -/
def Arrives (enc : Encoding) (h : EventIngestionHandler) (env : Sdk.Envelope) : Prop :=
  ∃ request shard event v w, Sdk.sendLocked enc (some env) = .ok request ∧
    publishEvent enc h request.eventType env.tenantID request.body =
      (.success 202 (event.id, shard), some (shard, event)) ∧
    shard = shardHash (env.tenantID ++ ":" ++ env.partitionKey) % h.numShards ∧
    event.id = env.id ∧ event.type = env.type ∧ event.tenantID = env.tenantID ∧
    event.partitionKey = env.partitionKey ∧ event.workflowID = env.workflowID ∧
    env.document enc = some v ∧ enc.read event.data = some w ∧ SameValue v w

section
variable {enc : Encoding}

theorem marshal_data {env : Sdk.Envelope} {body : Json} (h : Sdk.marshal enc env = .ok body) :
    ∃ members v, body = .obj members ∧ env.document enc = some v ∧ Json.member members "data" = some v := by
  unfold Sdk.marshal at h
  obtain ⟨occurredAt, -, h⟩ := Checks.bind_ok.mp h
  split at h
  · cases h
  rename_i v hv
  cases h
  refine ⟨_, v, rfl, hv, ?_⟩
  unfold Json.member Sdk.omitEmpty
  by_cases hs : env.schemaVersion = "" <;> by_cases hh : env.headers.isEmpty = true <;> simp [hs, hh, List.lookup_cons]

theorem validated_full {request : EventIngestionRequest} {eventType tenantID : String}
    (h : validateEventIngestionRequest enc request eventType tenantID = none) : request.data.length ≠ 0 := by
  unfold validateEventIngestionRequest at h
  split at h
  · cases h
  split at h
  · cases h
  split at h
  · cases h
  split at h
  · cases h
  · rename_i hdata
    exact fun hempty => hdata (.inl hempty)

/-- What is published was read from the data of the body, and is not empty. -/
theorem published_data {h : EventIngestionHandler} {pathValue tenantID : String} {body : Json}
    {response : Response (String × UInt32)} {shard : UInt32} {event : Event}
    (hp : publishEvent enc h pathValue tenantID body = (response, some (shard, event))) :
    ∃ request, decodeRequestBody enc body = .ok request ∧ event.data = request.data ∧ request.data.length ≠ 0 := by
  unfold publishEvent at hp
  split at hp
  · cases hp
  split at hp
  · cases hp
  rename_i request hdecode
  simp only at hp
  split at hp
  · cases hp
  rename_i hvalid
  split at hp
  · cases hp
  · split at hp <;> cases hp <;> exact ⟨request, hdecode, rfl, validated_full hvalid⟩

theorem decoded_data {members : List (String × Json)} {v : Json} {request : EventIngestionRequest}
    (hv : Json.member members "data" = some v) (h : decodeRequestBody enc (.obj members) = .ok request) :
    decodeBytes "data" v = .ok request.data := by
  unfold decodeRequestBody at h
  split at h
  · cases h
  have h' := Checks.mapError_ok.mp h
  simp only [Checks.bind_ok] at h'
  obtain ⟨id, -, type, -, tenantID, -, partitionKey, -, workflowID, -, correlationID, -, causationID, -, occurredAt, -,
    data, hdata, headers, -, schemaVersion, -, hrequest⟩ := h'
  cases hrequest
  unfold bytesField at hdata
  rw [hv] at hdata
  exact hdata

/-! Values that are the same. -/

theorem sameItems_length {r : String → String → Bool} {items others : List Json}
    (h : Json.sameItems r items others = true) : items.length = others.length := by
  induction items generalizing others with
  | nil =>
    cases others with
    | nil => rfl
    | cons w others => simp [Json.sameItems] at h
  | cons v items ih =>
    cases others with
    | nil => simp [Json.sameItems] at h
    | cons w others =>
      simp only [Json.sameItems, Bool.and_eq_true] at h
      rw [List.length_cons, List.length_cons, ih h.2]

theorem canonItems_length (items : List Json) : (Json.canonItems items).length = items.length := by
  induction items with
  | nil => rfl
  | cons v items ih =>
    show (Json.canonItems items).length + 1 = items.length + 1
    rw [ih]

theorem same_str {s : String} {w : Json} (h : SameValue (.str s) w) : w = .str s := by
  unfold SameValue at h
  cases w with
  | str t =>
    simp only [Json.canon, Json.same, beq_iff_eq] at h
    rw [h]
  | _ => simp [Json.canon, Json.same] at h

theorem same_arr {items : List Json} {w : Json} (h : SameValue (.arr items) w) :
    ∃ others, w = .arr others ∧ others.length = items.length := by
  unfold SameValue at h
  cases w with
  | arr others =>
    simp only [Json.canon, Json.same] at h
    have hlength := sameItems_length h
    rw [canonItems_length, canonItems_length] at hlength
    exact ⟨others, rfl, hlength.symm⟩
  | _ => simp [Json.canon, Json.same] at h

theorem mapM_length {f : Json → Except Err UInt8} {items : List Json} {bytes : Bytes} (h : items.mapM f = .ok bytes) :
    bytes.length = items.length := by
  induction items generalizing bytes with
  | nil =>
    cases h
    rfl
  | cons v items ih =>
    rw [List.mapM_cons] at h
    obtain ⟨b, -, h⟩ := Checks.bind_ok.mp h
    obtain ⟨more, hmore, h⟩ := Checks.bind_ok.mp h
    cases h
    rw [List.length_cons, List.length_cons, ih hmore]

/-- No value is the one that its bytes have: bytes read from a string or an array are too
    few to write it down. -/
theorem decodeBytes_differs {v w : Json} {bytes : Bytes} (hdecode : decodeBytes "data" v = .ok bytes)
    (hread : enc.read bytes = some w) (hfull : bytes.length ≠ 0) : ¬SameValue v w := by
  intro hsame
  cases v with
  | null =>
    cases hdecode
    exact hfull rfl
  | bool b | num literal | obj members => cases hdecode
  | str s =>
    simp only [decodeBytes] at hdecode
    split at hdecode
    · rename_i decoded hbase
      cases hdecode
      have hshort := Text.base64Decode_length hbase
      have hlong := enc.string_shorter bytes s (by rw [hread, same_str hsame])
      omega
    · cases hdecode
  | arr items =>
    obtain ⟨others, rfl, hlength⟩ := same_arr hsame
    have hshort := mapM_length hdecode
    have hlong := enc.array_shorter bytes others hread
    omega

end

/-- No event of the SDK arrives: whatever its data, it is refused or published with another
    value. -/
theorem sdk_event_never_arrives (enc : Encoding) (h : EventIngestionHandler) (env : Sdk.Envelope) :
    ¬Arrives enc h env := by
  intro harrives
  obtain ⟨request, shard, event, v, w, hsend, hpublish, -, -, -, -, -, -, hv, hw, hsame⟩ := harrives
  unfold Sdk.sendLocked at hsend
  simp only at hsend
  split at hsend
  · cases hsend
  obtain ⟨body, hbody, hrequest⟩ := Checks.bind_ok.mp hsend
  cases hrequest
  obtain ⟨members, v', rfl, hv', hmember⟩ := marshal_data (Checks.mapError_ok.mp hbody)
  rw [hv] at hv'
  cases hv'
  obtain ⟨decoded, hdecode, hdata, hfull⟩ := published_data hpublish
  rw [hdata] at hw
  exact decodeBytes_differs (decoded_data hmember hdecode) hw hfull hsame

namespace Sample

def orderText : Bytes := Text.bytes "\x7b\"total\":5\x7d"

def encoding : Encoding where
  read := fun text => if text = orderText then some (.obj [("total", .num "5")]) else none
  string_shorter := by
    intro text s h
    split at h <;> simp at h
  array_shorter := by
    intro text items h
    split at h <;> simp at h
  size := fun _ => 200
  formatTime := fun _ => .ok "2026-01-02T03:04:05Z"
  parseTime := fun _ => .ok 63902822645000000

def event : Sdk.Envelope :=
  ⟨"event-1", "order.placed", "tenant-1", "customer-1", "", "", "", 63902822645000000, some orderText, [], ""⟩

def handler : EventIngestionHandler := newEventIngestionHandler (some fun _ _ => .ok ()) 16

end Sample

/-- An order sent with the SDK is refused: its data is an object. -/
theorem sdk_event_refused :
    ∃ request, Sdk.sendLocked Sample.encoding (some Sample.event) = .ok request ∧
      publishEvent Sample.encoding Sample.handler request.eventType "tenant-1" request.body =
        (.error 400 ("invalid event envelope: decode JSON request: json: cannot unmarshal object " ++
          "into Go struct field eventIngestionRequest.data of type []uint8") "INVALID_JSON", none) := by
  refine ⟨_, rfl, ?_⟩
  rfl

end Ingestion

end FlowRule
