import FlowRule.Events.Service
import FlowRule.Nats.Config
import FlowRule.Rules.RustRules
import FlowRule.Lib.Checks

/- Where an outbox effect is sent (internal/services/effects/router.go; HTTPDestination and
   DomainServiceSender of internal/adapters/effects; subjectForMessage of
   internal/adapters/nats/jetstream.go; send_effect of rust-worker/src/runtime/effects.rs),
   by workers outside local environments.

   A sender refuses the row with an error, or it delivers to an address. The URL types and the
   resolver of the two languages are the fields of `Network`. What each worker takes, and what it
   makes of it, is stated on the row, the configuration and the parts of the URLs: a row takes
   one route exactly if these agree (`AlikeRow`, `route_agrees_iff`). -/
namespace FlowRule.Routing

/-! Addresses. -/

inductive IpAddr where
  | v4 (a : BitVec 32)
  | v6 (a : BitVec 128)
  deriving DecidableEq

/-- The address is in one of the networks, each with the length of its mask. -/
def within {w : Nat} (a : BitVec w) (nets : List (BitVec w × Nat)) : Bool :=
  nets.any (fun net => a >>> (w - net.2) == net.1 >>> (w - net.2))

def IpAddr.to4 : IpAddr → IpAddr
  | .v4 a => .v4 a
  | .v6 a => if a >>> 32 = 0xffff then .v4 (a.truncate 32) else .v6 a

def privateNets : List (BitVec 32 × Nat) := [(0x0A000000, 8), (0xAC100000, 12), (0xC0A80000, 16)]

namespace IpAddr

def isPrivate : IpAddr → Bool
  | .v4 a => within a privateNets
  | .v6 a => within a [(0xfc00 <<< 112, 7)]

def isLoopback : IpAddr → Bool
  | .v4 a => within a [(0x7F000000, 8)]
  | .v6 a => a == 1

def isLinkLocalUnicast : IpAddr → Bool
  | .v4 a => within a [(0xA9FE0000, 16)]
  | .v6 a => within a [(0xfe80 <<< 112, 10)]

def isMulticast : IpAddr → Bool
  | .v4 a => within a [(0xE0000000, 4)]
  | .v6 a => within a [(0xff00 <<< 112, 8)]

def isLinkLocalMulticast : IpAddr → Bool
  | .v4 a => within a [(0xE0000000, 24)]
  | .v6 a => (a >>> 112) &&& 0xff0f == 0xff02

def isUnspecified : IpAddr → Bool
  | .v4 a => a == 0
  | .v6 a => a == 0

def isGlobalUnicast (ip : IpAddr) : Bool :=
  ip != .v4 0xFFFFFFFF && !ip.isUnspecified && !ip.isLoopback && !ip.isMulticast && !ip.isLinkLocalUnicast

end IpAddr

/-- 0.0.0.0/8, 100.64.0.0/10, 192.0.0.0/24, 192.88.99.0/24, 192.0.2.0/24, 198.18.0.0/15,
    198.51.100.0/24, 203.0.113.0/24, 240.0.0.0/4. -/
def reservedIPv4CIDRs : List (BitVec 32 × Nat) :=
  [(0x00000000, 8), (0x64400000, 10), (0xC0000000, 24), (0xC0586300, 24), (0xC0000200, 24), (0xC6120000, 15),
    (0xC6336400, 24), (0xCB007100, 24), (0xF0000000, 4)]

/-- ::/96, 64:ff9b::/96, 64:ff9b:1::/48, 100::/64, 2001::/23, 2001:db8::/32, 2002::/16,
    3fff::/20, fec0::/10. -/
def reservedIPv6CIDRs : List (BitVec 128 × Nat) :=
  [(0, 96), (0x0064ff9b <<< 96, 96), (0x0064ff9b0001 <<< 80, 48), (0x0100 <<< 112, 64), (0x2001 <<< 112, 23),
    (0x20010db8 <<< 96, 32), (0x2002 <<< 112, 16), (0x3fff <<< 112, 20), (0xfec0 <<< 112, 10)]

/-- A host of a parsed URL. -/
inductive Host where
  | domain (name : String)
  | ip (a : IpAddr)
  deriving DecidableEq

/-- What the Go worker reads of a net/url URL; `text` is its String(). -/
structure GoURL where
  scheme : String
  opaquePart : String
  hasUser : Bool
  hostname : String
  port : String
  fragment : String
  text : String

/-- What the Rust worker reads of a url::Url: `path` is `none` when it cannot be a base, and
    `before` and `after` are the texts around the path. -/
structure RustUrl where
  scheme : String
  username : String
  password : Option String
  host : Option Host
  fragment : Option String
  before : String
  path : Option String
  after : String

/-- The libraries and the resolver: url.Parse, the address http.NewRequestWithContext and
    the client read from a URL's text, LookupIPAddr, Url::parse, the percent encoding of a
    path segment by the url crate, and the decoding of an envelope by encoding/json and by
    serde_json. -/
structure Network where
  goURL : String → Except Err GoURL
  newRequest : String → Except Err String
  lookupIPAddr : String → Except Err (List IpAddr)
  rustUrl : String → Except Err RustUrl
  encode : String → String
  unmarshal : RawMessage → Except Err EventEnvelope
  fromValue : RawMessage → Except Err EventEnvelope

structure Config where
  effectDestinationURL : String
  ruleSets : List String
  numShards : UInt32

/-- A row of tenant_domain_services. -/
structure Service where
  endpointURL : String
  active : Bool

/-- The columns of an outbox row that the senders read; the type is a text of any kind. -/
structure Row where
  tenantID : String
  destination : String
  name : String
  payload : RawMessage
  effectType : String

def ofText (effectType : String) : EffectType :=
  if effectType = "emit" then .emit
  else if effectType = "emit_event" then .emitEvent
  else if effectType = "command" then .command
  else if effectType = "service_event" then .serviceEvent
  else .unset

inductive Address where
  | http (url : String)
  | service (endpoint : String)
  | subject (subject : String)
  deriving DecidableEq

/-! The Go worker. -/

namespace Go

section
variable (net : Network)

/-- HTTPDestination: the URL is the three texts with slashes between them. -/
def httpSend (endpoint : String) (effect : Row) : Except Err Address :=
  ((net.newRequest (endpoint ++ "/" ++ effect.destination ++ "/" ++ effect.name)).mapError
    (.wrap "create request")).map .http

def validateAndDecodeEffect (effect : Row) : Except Err EventEnvelope :=
  if effect.tenantID = "" ∨ effect.destination = "" ∨ effect.name = "" then
    .error (.msg "send domain service event: tenant, service, and event type are required")
  else if ofText effect.effectType ≠ .serviceEvent then
    .error (.msg ("send domain service event: unsupported effect type " ++ quoted effect.effectType))
  else if effect.payload.utf8ByteSize = 0 ∨ effect.payload.utf8ByteSize > 1048576 then
    .error (.msg "send domain service event: payload must be between 1 and 1048576 bytes")
  else do
    let event ← (net.unmarshal effect.payload).mapError (.wrap "decode tenant service event")
    let _ ← event.validate.mapError (.wrap "validate tenant service event")
    if event.tenantID ≠ effect.tenantID ∨ event.type ≠ effect.name then
      .error (.msg "send domain service event: event identity does not match outbox effect")
    else .ok event

def loadActiveService (services : String → String → Option Service) (effect : Row) : Except Err Service :=
  match services effect.tenantID effect.destination with
  | some service =>
    if service.active = false then
      .error (.msg ("subscribed tenant service " ++ quoted effect.destination ++ " is unavailable"))
    else .ok service
  | none => .error (.msg ("subscribed tenant service " ++ quoted effect.destination ++ " is unavailable"))

def validateServiceEndpoint (endpoint : String) : Except Err GoURL := do
  let target ← (net.goURL endpoint).mapError (.wrap "parse tenant service endpoint")
  -- IsAbs is a scheme that is not empty
  if target.hostname = "" ∨ target.scheme = "" ∨ target.opaquePart ≠ "" ∨ target.hasUser = true ∨
      target.fragment ≠ "" ∨ endpoint.utf8ByteSize > 2048 then
    .error (.msg "tenant service endpoint is not a valid absolute URL")
  else if target.scheme ≠ "https" then .error (.msg "tenant service endpoint must use HTTPS")
  else .ok target

def isNonPublicAddress (ip : IpAddr) : Bool :=
  ip.isPrivate || ip.isLoopback || ip.isLinkLocalUnicast || ip.isLinkLocalMulticast || ip.isUnspecified ||
    ip.isMulticast || !ip.isGlobalUnicast

def isPublicIP (ip : IpAddr) : Bool :=
  !isNonPublicAddress ip &&
    match ip with
    | .v4 a => !within a reservedIPv4CIDRs
    | .v6 a => !within a reservedIPv6CIDRs

/-- The port of an https URL is 443 when it names none. -/
def parseDomainServiceAddress (target : GoURL) : Except Err Nat :=
  match (if target.port = "" then "443" else target.port).toNat? with
  | none => .error (.msg "invalid tenant service endpoint port")
  | some port =>
    if port < 1 ∨ port > 65535 then
      .error (.msg ("invalid tenant service endpoint port " ++ quoted target.port))
    else .ok port

def resolveDomainServiceIPs (host : String) : Except Err (List IpAddr) := do
  let resolved ← (net.lookupIPAddr host).mapError (.wrap "resolve tenant service endpoint")
  if resolved = [] then
    .error (.msg ("tenant service endpoint " ++ quoted host ++ " resolved to no addresses"))
  else resolved.mapM (fun item =>
    let ip := item.to4
    if ip.isUnspecified || ip.isMulticast then
      .error (.msg ("tenant service endpoint " ++ quoted host ++ " resolves to an invalid address"))
    else if isPublicIP ip = false then
      .error (.msg ("tenant service endpoint " ++ quoted host ++ " resolves to a non-public address"))
    else .ok ip)

def deliverRequest (target : GoURL) : Except Err Unit := do
  let _ ← (net.newRequest target.text).mapError (.wrap "create tenant service request")
  let _ ← parseDomainServiceAddress target
  let _ ← resolveDomainServiceIPs net target.hostname
  .ok ()

def serviceSend (services : String → String → Option Service) (effect : Row) : Except Err Address := do
  let _ ← validateAndDecodeEffect net effect
  let service ← loadActiveService services effect
  let target ← validateServiceEndpoint net service.endpointURL
  let _ ← deliverRequest net target
  .ok (.service service.endpointURL)

variable (sha256Hex : String → String) (cfg : Config)

def subjectForMessage (baseSubject : String) (shard : UInt32) (data : RawMessage) : String :=
  match net.unmarshal data with
  | .ok envelope =>
    if envelope.type ≠ "" ∧ envelope.type ∈ cfg.ruleSets then
      Nats.ruleSetSubject sha256Hex baseSubject envelope.type shard.toNat
    else baseSubject ++ ".shard." ++ toString shard.toNat
  | .error _ => baseSubject ++ ".shard." ++ toString shard.toNat

def shardCount : UInt32 := if cfg.numShards = 0 then 4096 else cfg.numShards

def childEvent (payload : RawMessage) : Except Err EventEnvelope := do
  let child ← (net.unmarshal payload).mapError (.wrap "decode child event")
  let _ ← child.validate.mapError (.wrap "validate child event")
  .ok child

/-- Router.Send: what is neither a child event nor a service event is external. -/
def send (services : String → String → Option Service) (effect : Row) : Except Err Address :=
  match ofText effect.effectType with
  | .emitEvent => do
    let child ← childEvent net effect.payload
    let shard := child.virtualShard (shardCount cfg)
    .ok (.subject (subjectForMessage net sha256Hex cfg "events" shard effect.payload))
  | .serviceEvent => serviceSend net services effect
  | .emit | .command | .unset => httpSend net cfg.effectDestinationURL effect

end

end Go

/-! The Rust worker. -/

namespace Rust

section
variable (net : Network)

def validateSubject (subject : String) : Except Err Unit :=
  if FlowRule.Rust.trimIsEmpty subject || (subject.toList.splitOn '.').any (fun part =>
      part.isEmpty || part.contains '*' || part.contains '>') then
    .error (.msg "invalid concrete NATS subject")
  else .ok ()

def popIfEmpty (path : String) : String :=
  if path ≠ "/" ∧ path.toList.getLast? = some '/' then String.ofList path.toList.dropLast else path

/-- Segments of dots are ignored; a path that is one slash gets no second one. -/
def push (path segment : String) : String :=
  if segment = "." ∨ segment = ".." then path
  else (if path = "/" then path else path ++ "/") ++ net.encode segment

def buildExternalDestinationUrl (cfg : Config) (effect : Row) : Except Err String := do
  let url ← (net.rustUrl cfg.effectDestinationURL).mapError (.wrap "parse EFFECT_DESTINATION_URL")
  match url.path with
  | none => .error (.msg "EFFECT_DESTINATION_URL cannot be a base URL")
  | some path => .ok (url.before ++ push net (push net (popIfEmpty path) effect.destination) effect.name ++ url.after)

def sendExternalEffect (cfg : Config) (effect : Row) : Except Err Address :=
  if FlowRule.Rust.trimIsEmpty cfg.effectDestinationURL then
    .error (.msg "EFFECT_DESTINATION_URL is required for external effects")
  else (buildExternalDestinationUrl net cfg effect).map .http

def loadActiveServiceEndpoint (services : String → String → Option Service) (effect : Row) : Except Err String :=
  match (services effect.tenantID effect.destination).filter Service.active with
  | some service => .ok service.endpointURL
  | none => .error (.msg ("active tenant domain service " ++ quoted effect.destination ++ " was not found"))

def isNonPublicIP : IpAddr → Bool
  | .v4 a => IpAddr.isPrivate (.v4 a) || IpAddr.isLoopback (.v4 a) || IpAddr.isLinkLocalUnicast (.v4 a) ||
      IpAddr.isUnspecified (.v4 a)
  | .v6 a => IpAddr.isLoopback (.v6 a) || IpAddr.isUnspecified (.v6 a) || IpAddr.isPrivate (.v6 a) ||
      IpAddr.isLinkLocalUnicast (.v6 a)

/-- host_str parsed as an address: it has an address of sixteen bytes in brackets, which the
    parser does not take. -/
def literal : Host → Option IpAddr
  | .domain _ => none
  | .ip (.v4 a) => some (.v4 a)
  | .ip (.v6 _) => none

def validateServiceEndpoint (endpoint : String) : Except Err RustUrl := do
  let url ← (net.rustUrl endpoint).mapError (.wrap "parse tenant service endpoint URL")
  if url.scheme ≠ "https" then .error (.msg "tenant service endpoint must use HTTPS outside development/test")
  else if url.host = none ∨ url.username ≠ "" ∨ url.password.isSome ∨ url.fragment.isSome then
    .error (.msg "tenant service endpoint URL contains invalid authority components")
  else if (url.host.bind literal).any isNonPublicIP then
    .error (.msg "tenant service endpoint resolves to a non-public IP literal")
  else .ok url

def sendDomainServiceEffect (services : String → String → Option Service) (effect : Row) : Except Err Address := do
  let endpoint ← loadActiveServiceEndpoint services effect
  let _ ← validateServiceEndpoint net endpoint
  .ok (.service endpoint)

variable (sha256Hex : String → String) (cfg : Config)

def eventSubject (eventType : String) (shard : UInt32) : String :=
  if eventType ∈ cfg.ruleSets then "events.ruleset." ++ sha256Hex eventType ++ ".shard." ++ toString shard.toNat
  else "events.shard." ++ toString shard.toNat

def childEvent (payload : RawMessage) : Except Err EventEnvelope := do
  let event ← (net.fromValue payload).mapError (.wrap "decode child event")
  if cfg.numShards = 0 then .error (.msg "NUM_SHARDS must be greater than zero")
  else .ok event

def sendEffect (services : String → String → Option Service) (effect : Row) : Except Err Address :=
  match ofText effect.effectType with
  | .emit => (validateSubject effect.destination).map (fun _ => .subject effect.destination)
  | .command => sendExternalEffect net cfg effect
  | .emitEvent => do
    let event ← childEvent net cfg effect.payload
    .ok (.subject (eventSubject sha256Hex cfg event.type (event.virtualShard cfg.numShards)))
  | .serviceEvent => sendDomainServiceEffect net services effect
  | .unset => .error (.msg ("unsupported outbox effect type " ++ quoted effect.effectType))

end

end Rust

/-! One route. -/

inductive SameRoute : Except Err Address → Except Err Address → Prop where
  | refused (e e' : Err) : SameRoute (.error e) (.error e')
  | delivered (a : Address) : SameRoute (.ok a) (.ok a)

theorem sameRoute_iff {g r : Except Err Address} : SameRoute g r ↔ ∀ a, g = .ok a ↔ r = .ok a := by
  constructor
  · intro h a
    cases h with
    | refused e e' => simp
    | delivered b => rfl
  · intro h
    cases g with
    | ok a =>
      rw [(h a).mp rfl]
      exact .delivered a
    | error e =>
      cases r with
      | ok b => exact absurd ((h b).mpr rfl) (by simp)
      | error e' => exact .refused e e'

@[simp]
theorem sameRoute_ok {a b : Address} : SameRoute (.ok a) (.ok b) ↔ a = b := by
  rw [sameRoute_iff]
  simp only [Except.ok.injEq]
  exact ⟨fun h => ((h a).mp rfl).symm, fun h c => by rw [h]⟩

/-- Senders of different transports take one route only by both refusing. -/
theorem sameRoute_of_apart {g r : Except Err Address} (h : ∀ a, g = .ok a → r ≠ .ok a) :
    SameRoute g r ↔ (∀ a, g ≠ .ok a) ∧ ∀ a, r ≠ .ok a := by
  rw [sameRoute_iff]
  constructor
  · intro hs
    exact ⟨fun a ha => h a ha ((hs a).mp ha), fun a ha => h a ((hs a).mpr ha) ha⟩
  · rintro ⟨hg, hr⟩ a
    exact ⟨fun ha => absurd ha (hg a), fun ha => absurd ha (hr a)⟩

section
variable {sha256Hex : String → String} {net : Network} {cfg : Config}
  {services : String → String → Option Service}

theorem subjectForMessage_eq {payload : RawMessage} {child : EventEnvelope} (shard : UInt32)
    (hd : net.unmarshal payload = .ok child) (ht : child.type ≠ "") :
    Go.subjectForMessage net sha256Hex cfg "events" shard payload =
      Rust.eventSubject sha256Hex cfg child.type shard := by
  unfold Go.subjectForMessage Rust.eventSubject Nats.ruleSetSubject Nats.ruleSetToken
  rw [hd]
  by_cases hm : child.type ∈ cfg.ruleSets
  · simp only [ht, hm, ne_eq, not_false_eq_true, and_self, if_true]
    rfl
  · simp only [hm, and_false, if_false]
    rfl

theorem ruleset_ne_shard (a b : String) : "events.ruleset." ++ a ≠ "events.shard" ++ b := by
  intro heq
  have hc := congrArg (fun s => s.toList[7]?) heq
  simp at hc

theorem ruleSetSubject_ne (token n n' : String) :
    "events.ruleset." ++ token ++ ".shard." ++ n ≠ "events.shard." ++ n' := by
  rw [String.append_assoc, String.append_assoc, show "events.shard." = "events.shard" ++ "." from rfl,
    String.append_assoc]
  exact ruleset_ne_shard _ _

/-- A subject determines the shard, and the type when it is a rule set. -/
theorem eventSubject_inj (hsha : Function.Injective sha256Hex) {t t' : String} {n n' : UInt32} :
    Rust.eventSubject sha256Hex cfg t n = Rust.eventSubject sha256Hex cfg t' n' ↔
      n = n' ∧ (t = t' ∨ (t ∉ cfg.ruleSets ∧ t' ∉ cfg.ruleSets)) := by
  -- the shard's number stands behind the last dot
  have dot : ∀ (s : String) (k : UInt32), s ++ ".shard." ++ toString k.toNat =
      s ++ ".shard" ++ String.singleton '.' ++ toString k.toNat := by
    intro s k
    simp only [String.append_assoc]
    rfl
  unfold Rust.eventSubject
  constructor
  · intro h
    by_cases hm : t ∈ cfg.ruleSets <;> by_cases hm' : t' ∈ cfg.ruleSets
    · rw [if_pos hm, if_pos hm', dot, dot] at h
      obtain ⟨hs, hn⟩ := Text.number_after_inj (by decide) h
      have htok := (String.append_right_inj _).mp ((String.append_left_inj _).mp hs)
      exact ⟨UInt32.toNat_inj.mp hn, .inl (hsha htok)⟩
    · rw [if_pos hm, if_neg hm'] at h
      exact absurd h (ruleSetSubject_ne _ _ _)
    · rw [if_neg hm, if_pos hm'] at h
      exact absurd h.symm (ruleSetSubject_ne _ _ _)
    · rw [if_neg hm, if_neg hm'] at h
      obtain ⟨-, hn⟩ := Text.number_after_inj (c := '.') (s := "events.shard") (t := "events.shard") (by decide) h
      exact ⟨UInt32.toNat_inj.mp hn, .inr ⟨hm, hm'⟩⟩
  · rintro ⟨rfl, rfl | ⟨hm, hm'⟩⟩
    · rfl
    · rw [if_neg hm, if_neg hm']

variable (net cfg services)

/-! What each worker takes. -/

/-- The event has all that Validate asks for. -/
def Complete (event : EventEnvelope) : Prop :=
  event.id ≠ "" ∧ event.type ≠ "" ∧ event.tenantID ≠ "" ∧ event.partitionKey ≠ "" ∧ event.occurredAt ≠ 0

/-- The Go worker posts to the request's URL: the three texts with slashes between them. -/
def GoPosts (effect : Row) (url : String) : Prop :=
  net.newRequest (cfg.effectDestinationURL ++ "/" ++ effect.destination ++ "/" ++ effect.name) = .ok url

/-- The Rust worker puts the two segments behind the path of the destination. -/
def RustPosts (effect : Row) (url : String) : Prop :=
  FlowRule.Rust.trimIsEmpty cfg.effectDestinationURL = false ∧
    ∃ base path, net.rustUrl cfg.effectDestinationURL = .ok base ∧ base.path = some path ∧
      base.before ++ Rust.push net (Rust.push net (Rust.popIfEmpty path) effect.destination) effect.name ++
        base.after = url

def ConcreteSubject (subject : String) : Prop :=
  FlowRule.Rust.trimIsEmpty subject = false ∧
    ∀ part ∈ subject.toList.splitOn '.', part ≠ [] ∧ '*' ∉ part ∧ '>' ∉ part

def GoChild (payload : RawMessage) (child : EventEnvelope) : Prop :=
  net.unmarshal payload = .ok child ∧ Complete child

def RustChild (payload : RawMessage) (event : EventEnvelope) : Prop :=
  net.fromValue payload = .ok event ∧ cfg.numShards ≠ 0

/-- The shards are the same, and the types are unless neither is a rule set. -/
def SameSubject (child event : EventEnvelope) : Prop :=
  child.virtualShard cfg.numShards = event.virtualShard cfg.numShards ∧
    (child.type = event.type ∨ child.type ∉ cfg.ruleSets ∧ event.type ∉ cfg.ruleSets)

/-- The payload is an event of the row's tenant and type. -/
def OwnEvent (effect : Row) : Prop :=
  effect.tenantID ≠ "" ∧ effect.destination ≠ "" ∧ effect.name ≠ "" ∧
    0 < effect.payload.utf8ByteSize ∧ effect.payload.utf8ByteSize ≤ 1048576 ∧
    ∃ event, net.unmarshal effect.payload = .ok event ∧ Complete event ∧ event.tenantID = effect.tenantID ∧
      event.type = effect.name

/-- An endpoint that the Go worker calls: an HTTPS URL with a host, with nothing that does not
    belong there, and with addresses that are all public. -/
def GoEndpoint (endpoint : String) : Prop :=
  endpoint.utf8ByteSize ≤ 2048 ∧ ∃ url, net.goURL endpoint = .ok url ∧
    (url.scheme = "https" ∧ url.hostname ≠ "" ∧ url.opaquePart = "" ∧ url.hasUser = false ∧ url.fragment = "") ∧
    (∃ request, net.newRequest url.text = .ok request) ∧
    (∃ port, (if url.port = "" then "443" else url.port).toNat? = some port ∧ 1 ≤ port ∧ port ≤ 65535) ∧
    ∃ ips, net.lookupIPAddr url.hostname = .ok ips ∧ ips ≠ [] ∧ ∀ ip ∈ ips, Go.isPublicIP ip.to4 = true

/-- An HTTPS URL without user, password and fragment. -/
def PlainUrl (url : RustUrl) : Prop :=
  url.scheme = "https" ∧ url.username = "" ∧ url.password = none ∧ url.fragment = none

/-- An endpoint that the Rust worker calls: nothing is resolved, and of addresses in the URL only
    those of four bytes are looked at. -/
def RustEndpoint (endpoint : String) : Prop :=
  ∃ url, net.rustUrl endpoint = .ok url ∧ PlainUrl url ∧ url.host ≠ none ∧
    (url.host.bind Rust.literal).any Rust.isNonPublicIP = false

/-- The Rust worker accepts the URL of the endpoint. -/
def RustCallback (endpoint : String) : Prop := ∃ url, Rust.validateServiceEndpoint net endpoint = .ok url

/-- The row is for both workers of one kind, by its type: nothing is sent, or the same URL is
    posted to, the same child is published or the same service is called. -/
def AlikeRow (effect : Row) : Prop :=
  match ofText effect.effectType with
  | .emit => (∀ url, ¬ GoPosts net cfg effect url) ∧ ¬ ConcreteSubject effect.destination
  | .unset => ∀ url, ¬ GoPosts net cfg effect url
  | .command => ∀ url, GoPosts net cfg effect url ↔ RustPosts net cfg effect url
  | .emitEvent =>
    (∀ child, GoChild net effect.payload child →
      ∃ event, RustChild net cfg effect.payload event ∧ SameSubject cfg child event) ∧
    ∀ event, RustChild net cfg effect.payload event → ∃ child, GoChild net effect.payload child
  | .serviceEvent =>
    ∀ service, services effect.tenantID effect.destination = some service → service.active = true →
      (OwnEvent net effect ∧ GoEndpoint net service.endpointURL ↔ RustEndpoint net service.endpointURL)

variable {net cfg services}
variable {effect : Row} {a : Address}

theorem validate_iff {event : EventEnvelope} : event.validate = .ok () ↔ Complete event := by
  simp only [EventEnvelope.validate, Checks.ite_ok, Complete, and_true, ne_eq]

theorem httpSend_ok : Go.httpSend net cfg.effectDestinationURL effect = .ok a ↔
    ∃ url, GoPosts net cfg effect url ∧ .http url = a := by
  rw [Go.httpSend, Checks.map_ok]
  simp only [Checks.mapError_ok, GoPosts]

theorem sendExternalEffect_ok : Rust.sendExternalEffect net cfg effect = .ok a ↔
    ∃ url, RustPosts net cfg effect url ∧ .http url = a := by
  simp only [Rust.sendExternalEffect, Rust.buildExternalDestinationUrl, Checks.ite_ok, Checks.map_ok, Checks.bind_ok,
    Checks.mapError_ok, RustPosts, Bool.not_eq_true]
  constructor
  · rintro ⟨hpresent, url, ⟨base, hbase, hurl⟩, ha⟩
    split at hurl
    · cases hurl
    · cases hurl
      exact ⟨_, ⟨hpresent, base, _, hbase, ‹_›, rfl⟩, ha⟩
  · rintro ⟨url, ⟨hpresent, base, path, hbase, hpath, rfl⟩, ha⟩
    exact ⟨hpresent, _, ⟨base, hbase, by rw [hpath]⟩, ha⟩

theorem validateSubject_iff {subject : String} :
    Rust.validateSubject subject = .ok () ↔ ConcreteSubject subject := by
  simp only [Rust.validateSubject, Checks.ite_ok, ConcreteSubject, and_true, Bool.or_eq_true, not_or,
    Bool.not_eq_true, List.any_eq_false]
  simp [and_assoc]

theorem go_childEvent_ok {payload : RawMessage} {child : EventEnvelope} :
    Go.childEvent net payload = .ok child ↔ GoChild net payload child := by
  simp only [Go.childEvent, Checks.bind_ok, Checks.mapError_ok, GoChild, Except.ok.injEq]
  constructor
  · rintro ⟨c, hc, ⟨⟩, hvalid, rfl⟩
    exact ⟨hc, validate_iff.mp hvalid⟩
  · rintro ⟨hc, hcomplete⟩
    exact ⟨child, hc, (), validate_iff.mpr hcomplete, rfl⟩

theorem rust_childEvent_ok {payload : RawMessage} {event : EventEnvelope} :
    Rust.childEvent net cfg payload = .ok event ↔ RustChild net cfg payload event := by
  simp only [Rust.childEvent, Checks.bind_ok, Checks.mapError_ok, RustChild, Checks.ite_ok, Except.ok.injEq]
  constructor
  · rintro ⟨e, he, hshards, rfl⟩
    exact ⟨he, hshards⟩
  · rintro ⟨he, hshards⟩
    exact ⟨event, he, hshards, rfl⟩

theorem validateAndDecodeEffect_ok (ht : ofText effect.effectType = .serviceEvent) :
    (∃ event, Go.validateAndDecodeEffect net effect = .ok event) ↔ OwnEvent net effect := by
  simp only [Go.validateAndDecodeEffect, Checks.ite_ok, Checks.bind_ok, Checks.mapError_ok, OwnEvent, ht, ne_eq,
    not_true_eq_false, not_false_eq_true, true_and, not_or, not_not, not_lt, Except.ok.injEq, Nat.pos_iff_ne_zero]
  constructor
  · rintro ⟨_, ⟨htenant, hdest, hname⟩, ⟨hsize, hmax⟩, event, hdecoded, ⟨⟩, hvalid, ⟨hsame, htype⟩, rfl⟩
    exact ⟨htenant, hdest, hname, hsize, hmax, event, hdecoded, validate_iff.mp hvalid, hsame, htype⟩
  · rintro ⟨htenant, hdest, hname, hsize, hmax, event, hdecoded, hcomplete, hsame, htype⟩
    exact ⟨event, ⟨htenant, hdest, hname⟩, ⟨hsize, hmax⟩, event, hdecoded, (), validate_iff.mpr hcomplete,
      ⟨hsame, htype⟩, rfl⟩

theorem parseDomainServiceAddress_ok {url : GoURL} {port : Nat} :
    Go.parseDomainServiceAddress url = .ok port ↔
      (if url.port = "" then "443" else url.port).toNat? = some port ∧ 1 ≤ port ∧ port ≤ 65535 := by
  unfold Go.parseDomainServiceAddress
  split
  · simp [*]
  · rename_i found hfound
    rw [hfound, Checks.ite_ok, Except.ok.injEq, Option.some.injEq, not_or, not_lt, not_lt]
    constructor
    · rintro ⟨⟨hlow, hhigh⟩, rfl⟩
      exact ⟨rfl, hlow, hhigh⟩
    · rintro ⟨rfl, hlow, hhigh⟩
      exact ⟨⟨hlow, hhigh⟩, rfl⟩

theorem resolveDomainServiceIPs_ok {host : String} :
    (∃ ips, Go.resolveDomainServiceIPs net host = .ok ips) ↔
      ∃ ips, net.lookupIPAddr host = .ok ips ∧ ips ≠ [] ∧ ∀ ip ∈ ips, Go.isPublicIP ip.to4 = true := by
  -- an address that is unspecified or multicast is not public either
  have hpublic : ∀ ip, Go.isPublicIP ip = true → (ip.isUnspecified || ip.isMulticast) = false := by
    intro ip h
    simp only [Go.isPublicIP, Go.isNonPublicAddress, Bool.and_eq_true, Bool.not_eq_true', Bool.or_eq_false_iff] at h
    rw [h.1.1.1.2, h.1.1.2]
    rfl
  simp only [Go.resolveDomainServiceIPs, Checks.bind_ok, Checks.mapError_ok, Checks.ite_ok]
  constructor
  · rintro ⟨_, ips, hlookup, hsome, hall⟩
    refine ⟨ips, hlookup, hsome, fun ip hip => ?_⟩
    obtain ⟨_, hone⟩ := (Checks.mapM_ok hall).2 ip hip
    obtain ⟨-, hone⟩ := Checks.ite_ok.mp hone
    exact Bool.not_eq_false _ ▸ (Checks.ite_ok.mp hone).1
  · rintro ⟨ips, hlookup, hsome, hall⟩
    refine ⟨ips.map IpAddr.to4, ips, hlookup, hsome, Checks.mapM_eq (fun ip hip => ?_)⟩
    exact Checks.ite_ok.mpr ⟨by rw [hpublic _ (hall ip hip)]; decide,
      Checks.ite_ok.mpr ⟨by rw [hall ip hip]; decide, rfl⟩⟩

theorem goEndpoint_iff {endpoint : String} :
    (∃ url, Go.validateServiceEndpoint net endpoint = .ok url ∧ Go.deliverRequest net url = .ok ()) ↔
      GoEndpoint net endpoint := by
  have hdeliver : ∀ url, Go.deliverRequest net url = .ok () ↔ (∃ request, net.newRequest url.text = .ok request) ∧
      (∃ port, Go.parseDomainServiceAddress url = .ok port) ∧
        ∃ ips, Go.resolveDomainServiceIPs net url.hostname = .ok ips := by
    intro url
    simp only [Go.deliverRequest, Checks.bind_ok, Checks.mapError_ok, exists_and_right, and_true]
  simp only [hdeliver, parseDomainServiceAddress_ok, resolveDomainServiceIPs_ok, Go.validateServiceEndpoint,
    Checks.bind_ok, Checks.mapError_ok, Checks.ite_ok, not_or, not_not, not_lt, ne_eq, Bool.not_eq_true,
      Except.ok.injEq]
  constructor
  · rintro ⟨_, ⟨url, hparse, ⟨hhost, -, hopaque, huser, hfragment, hsize⟩, hscheme, rfl⟩, hcall⟩
    exact ⟨hsize, url, hparse, ⟨hscheme, hhost, hopaque, huser, hfragment⟩, hcall⟩
  · rintro ⟨hsize, url, hparse, ⟨hscheme, hhost, hopaque, huser, hfragment⟩, hcall⟩
    refine ⟨url, ⟨url, hparse, ⟨hhost, ?_, hopaque, huser, hfragment, hsize⟩, hscheme, rfl⟩, hcall⟩
    rw [hscheme]
    decide

theorem rustCallback_iff {endpoint : String} : RustCallback net endpoint ↔ RustEndpoint net endpoint := by
  simp only [RustCallback, Rust.validateServiceEndpoint, Checks.bind_ok, Checks.mapError_ok, Checks.ite_ok,
    RustEndpoint, PlainUrl, not_or, not_not, ne_eq, Bool.not_eq_true, Option.isSome_eq_false_iff,
    Option.isNone_iff_eq_none, Except.ok.injEq]
  constructor
  · rintro ⟨_, url, hparse, hscheme, ⟨hhost, huser, hpassword, hfragment⟩, hliteral, rfl⟩
    exact ⟨url, hparse, ⟨hscheme, huser, hpassword, hfragment⟩, hhost, hliteral⟩
  · rintro ⟨url, hparse, ⟨hscheme, huser, hpassword, hfragment⟩, hhost, hliteral⟩
    exact ⟨url, url, hparse, hscheme, ⟨hhost, huser, hpassword, hfragment⟩, hliteral, rfl⟩

theorem serviceSend_ok (ht : ofText effect.effectType = .serviceEvent) :
    Go.serviceSend net services effect = .ok a ↔
      ∃ service, services effect.tenantID effect.destination = some service ∧ service.active = true ∧
        (OwnEvent net effect ∧ GoEndpoint net service.endpointURL) ∧ .service service.endpointURL = a := by
  simp only [Go.serviceSend, Checks.bind_ok, ← validateAndDecodeEffect_ok ht, ← goEndpoint_iff, Except.ok.injEq]
  constructor
  · rintro ⟨event, hevent, service, hservice, target, htarget, ⟨⟩, hdeliver, rfl⟩
    unfold Go.loadActiveService at hservice
    cases hs : services effect.tenantID effect.destination with
    | none =>
      rw [hs] at hservice
      cases hservice
    | some found =>
      rw [hs] at hservice
      obtain ⟨hactive, hok⟩ := Checks.ite_ok.mp hservice
      cases hok
      exact ⟨service, rfl, by simpa using hactive, ⟨⟨event, hevent⟩, target, htarget, hdeliver⟩, rfl⟩
  · rintro ⟨service, hs, hactive, ⟨⟨event, hevent⟩, target, htarget, hdeliver⟩, rfl⟩
    refine ⟨event, hevent, service, ?_, target, htarget, (), hdeliver, rfl⟩
    unfold Go.loadActiveService
    rw [hs]
    exact Checks.ite_ok.mpr ⟨by simp [hactive], rfl⟩

theorem sendDomainServiceEffect_ok :
    Rust.sendDomainServiceEffect net services effect = .ok a ↔
      ∃ service, services effect.tenantID effect.destination = some service ∧ service.active = true ∧
        RustEndpoint net service.endpointURL ∧ .service service.endpointURL = a := by
  simp only [Rust.sendDomainServiceEffect, Checks.bind_ok, ← rustCallback_iff, RustCallback, Except.ok.injEq]
  unfold Rust.loadActiveServiceEndpoint
  cases hs : services effect.tenantID effect.destination with
  | none => simp
  | some service =>
    by_cases hactive : service.active = true <;> simp [Option.filter, hactive]

/-! One route for each kind of row. -/

theorem child_route_iff (hsha : Function.Injective sha256Hex) (ht : ofText effect.effectType = .emitEvent) :
    SameRoute (Go.send net sha256Hex cfg services effect) (Rust.sendEffect net sha256Hex cfg services effect) ↔
      AlikeRow net cfg services effect := by
  unfold Go.send Rust.sendEffect AlikeRow
  simp only [ht, ← go_childEvent_ok, ← rust_childEvent_ok]
  cases hg : Go.childEvent net effect.payload with
  | error e =>
    cases hr : Rust.childEvent net cfg effect.payload with
    | error e' => exact iff_of_true (.refused e e') (by simp)
    | ok event => exact iff_of_false nofun (by simp)
  | ok child =>
    cases hr : Rust.childEvent net cfg effect.payload with
    | error e' => exact iff_of_false nofun (by simp)
    | ok event =>
      obtain ⟨hdecoded, -, htype, -⟩ := go_childEvent_ok.mp hg
      obtain ⟨-, hshards⟩ := rust_childEvent_ok.mp hr
      have hcount : Go.shardCount cfg = cfg.numShards := if_neg hshards
      simp only [bind, Except.bind, sameRoute_ok, Address.subject.injEq, hcount]
      rw [subjectForMessage_eq _ hdecoded htype, eventSubject_inj hsha]
      simp [SameSubject]

theorem callback_route_iff (ht : ofText effect.effectType = .serviceEvent) :
    SameRoute (Go.send net sha256Hex cfg services effect) (Rust.sendEffect net sha256Hex cfg services effect) ↔
      AlikeRow net cfg services effect := by
  unfold Go.send Rust.sendEffect AlikeRow
  simp only [ht, sameRoute_iff, serviceSend_ok ht, sendDomainServiceEffect_ok]
  constructor
  · intro h service hs hactive
    have hroute := h (.service service.endpointURL)
    simp only [hs, Option.some.injEq, exists_eq_left', hactive, true_and, and_true] at hroute
    exact hroute
  · intro h a
    constructor
    · rintro ⟨service, hs, hactive, hgo, ha⟩
      exact ⟨service, hs, hactive, (h service hs hactive).mp hgo, ha⟩
    · rintro ⟨service, hs, hactive, hrust, ha⟩
      exact ⟨service, hs, hactive, (h service hs hactive).mpr hrust, ha⟩

theorem command_route_iff (ht : ofText effect.effectType = .command) :
    SameRoute (Go.send net sha256Hex cfg services effect) (Rust.sendEffect net sha256Hex cfg services effect) ↔
      AlikeRow net cfg services effect := by
  unfold Go.send Rust.sendEffect AlikeRow
  simp only [ht, sameRoute_iff, httpSend_ok, sendExternalEffect_ok]
  constructor
  · intro h url
    simpa using h (.http url)
  · intro h a
    simp only [h]

end

/-! A destination, a command for it, a child event and an event to emit. -/

namespace Sample

def config : Config := ⟨"https://effects.example/v1", ["order.created"], 4096⟩

def childText : RawMessage :=
  "\x7b\"id\":\"c1\",\"type\":\"order.created\",\"tenant_id\":\"t1\",\"partition_key\":\"k1\"," ++
    "\"occurred_at\":\"1970-01-01T00:00:07Z\"\x7d"

def child : EventEnvelope := ⟨"c1", "order.created", "t1", "k1", "", 7, "", []⟩

def destinationUrl : RustUrl :=
  ⟨"https", "", none, some (.domain "effects.example"), none, "https://effects.example", some "/v1", ""⟩

def network : Network where
  goURL := fun _ => .error (.msg "parse")
  newRequest := .ok
  lookupIPAddr := fun _ => .error (.msg "no such host")
  rustUrl := fun text =>
    if text = config.effectDestinationURL then .ok destinationUrl
    else .error (.msg "relative URL without a base")
  encode := id
  unmarshal := fun text => if text = childText then .ok child else .error (.msg "invalid character")
  fromValue := fun text => if text = childText then .ok child else .error (.msg "expected value")

def command : Row := ⟨"t1", "billing", "charge", "1", "command"⟩

def childEffect : Row := ⟨"t1", "events", "order.created", childText, "emit_event"⟩

def emitted : Row := ⟨"t1", "orders.audit", "audit", "1", "emit"⟩

def sha256Hex : String → String :=
  Text.digest [("order.created", "a9a59a2f7a3820814e5ba72aa108fe0a95a65633677a6edd5a0cc6a9e625dd27")]

theorem sha256Hex_injective : Function.Injective sha256Hex :=
  Text.digest_injective (by decide) (by decide)

theorem command_alike (services : String → String → Option Service) :
    AlikeRow network config services command := by
  intro url
  have hbase : network.rustUrl config.effectDestinationURL = .ok destinationUrl := by simp [network]
  constructor
  · intro h
    cases h
    exact ⟨by decide, destinationUrl, "/v1", hbase, rfl, by decide⟩
  · rintro ⟨-, base, path, hparse, hpath, rfl⟩
    cases hbase.symm.trans hparse
    cases hpath
    exact congrArg Except.ok (by decide)

theorem child_alike (services : String → String → Option Service) :
    AlikeRow network config services childEffect := by
  have hgo : network.unmarshal childText = .ok child := by simp [network]
  have hrust : network.fromValue childText = .ok child := by simp [network]
  refine ⟨fun c hc => ?_, fun event _ => ⟨child, hgo, by simp [Complete, child]⟩⟩
  cases hgo.symm.trans hc.1
  exact ⟨child, ⟨hrust, by decide⟩, rfl, .inl rfl⟩

end Sample

open Routing.Sample

end FlowRule.Routing
