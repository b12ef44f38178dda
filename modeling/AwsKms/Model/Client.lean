import Mathlib.Data.List.AList
import AwsKms.Lib.NodeList
import AwsKms.Lib.Run
import AwsKms.Model.Kms

/-!
# The cache of KMS clients

`client_for` decides how a request is routed, asks a process-wide cache for a
client with that routing, and builds one when there is none. The cache is
shared by every thread and every provider instance; a client is built outside
its lock. So a call is three steps other threads can come between: the
lookup, the construction, and the publication of what was constructed.

What the SDK answers about the environment and the shared configuration is a
parameter. An `Aws::String` is its bytes; a `char *` is what it points at, or
`none`, and is read up to its terminator. Allocations are taken to succeed.
-/

namespace AwsKms.Model

open AwsKms.Lib

/-- The settings of `AWSKMS_PROV_CTX` that come from `openssl.cnf`. -/
structure AwskmsProvCtx where
  region : Option Bytes
  profile : Option Bytes
  endpoint : Option Bytes
  deriving DecidableEq, Repr

section

variable (Rest : Type)

/-- `ClientConfiguration::CredentialProviderConfiguration`; `rest` is every
field the provider leaves as the SDK made it. -/
structure CredentialProviderConfiguration where
  profile : Bytes
  region : Bytes
  rest : Rest
  deriving DecidableEq, Repr

structure ClientConfiguration where
  profileName : Bytes
  credentialProviderConfig : CredentialProviderConfiguration Rest
  region : Bytes
  useFIPS : Bool
  endpointOverride : Bytes
  rest : Rest
  deriving DecidableEq, Repr

/-- A member of a credentials chain. -/
inductive CredentialsProvider where
  | profile (config : CredentialProviderConfiguration Rest)
  | defaultChain (config : CredentialProviderConfiguration Rest)
  deriving DecidableEq, Repr

/-- Everything a `KMSClient` is built from. -/
structure ClientParts where
  config : ClientConfiguration Rest
  credentials : List (CredentialsProvider Rest)
  deriving DecidableEq, Repr

/-- The SDK, in one process environment and with one shared configuration.
`getEnv` is empty for a variable that is not set. -/
structure Sdk where
  getEnv : String → Bytes
  getConfigProfileName : Bytes
  hasCachedConfigProfile : Bytes → Bool
  hasCachedCredentialsProfile : Bytes → Bool
  cachedConfigProfileRegion : Bytes → Bytes
  endpointSource : String → Bytes → Bytes
  /-- the constructor of `ClientConfiguration` that takes a profile -/
  clientConfiguration : Option Bytes → ClientConfiguration Rest

/-- A call of `client_for`. -/
structure ClientRequest where
  sdk : Sdk Rest
  provctx : AwskmsProvCtx
  uri : AwskmsUri
  fipsRequired : Bool

end

structure ClientKey where
  region : Bytes
  profile : Bytes
  endpoint : Bytes
  ambientProfile : Bytes
  providerProfile : Bytes
  fips : Bool
  uriProfile : Bool
  deriving DecidableEq, Repr

section

variable {Rest : Type}

/-- `Aws::String s = p` for a pointer that may be NULL. -/
def ofPointer (p : Option Bytes) : Bytes := (p.map cString).getD []

/-- `p.empty() ? nullptr : p.c_str()`. -/
def pointerOf (s : Bytes) : Option Bytes :=
  if s = [] then none else some (cString s)

/-- `if (value.empty()) value = next;` down a list of sources. -/
def firstNonEmpty : List Bytes → Bytes
  | [] => []
  | s :: rest => if s = [] then firstNonEmpty rest else s

/-- `PrecedenceCredentialsProviderChain`. -/
def precedenceChain (uriProfile : Option Bytes)
    (ambientConfig : CredentialProviderConfiguration Rest)
    (providerProfile : Option Bytes) : List (CredentialsProvider Rest) :=
  let explicit := match uriProfile with
    | some p => [.profile { ambientConfig with profile := cString p }]
    | none => []
  let fallback := match providerProfile with
    | some p =>
        if uriProfile.map cString ≠ some (cString p) ∧
            ambientConfig.profile ≠ cString p then
          [.profile { ambientConfig with profile := cString p }]
        else []
    | none => []
  explicit ++ .defaultChain ambientConfig :: fallback

def profileExists (sdk : Sdk Rest) (profile : Bytes) : Bool :=
  sdk.hasCachedConfigProfile profile || sdk.hasCachedCredentialsProfile profile

def environmentRegion (sdk : Sdk Rest) : Bytes :=
  firstNonEmpty [sdk.getEnv "AWS_DEFAULT_REGION", sdk.getEnv "AWS_REGION"]

def profileRegion (sdk : Sdk Rest) (profile : Bytes) : Bytes :=
  if sdk.hasCachedConfigProfile profile then
    sdk.cachedConfigProfileRegion profile
  else []

/-- `cn-` in either case, and something after it. -/
def isChinaRegion : Bytes → Bool
  | a :: b :: c :: _ :: _ => (a = 99 || a = 67) && (b = 110 || b = 78) && c = 45
  | _ => false

namespace ClientRequest

variable (q : ClientRequest Rest)

def ambientProfileSelected : Bool :=
  q.sdk.getEnv "AWS_DEFAULT_PROFILE" ≠ [] || q.sdk.getEnv "AWS_PROFILE" ≠ [] ||
    profileExists q.sdk q.sdk.getConfigProfileName

def profile : Bytes :=
  match q.uri.profile with
  | some p => cString p
  | none =>
      if q.ambientProfileSelected then q.sdk.getConfigProfileName
      else match q.provctx.profile with
        | some p => cString p
        | none => q.sdk.getConfigProfileName

/-- The configuration before region, endpoint and FIPS are written to it. -/
def baseConfig : ClientConfiguration Rest :=
  let config := q.sdk.clientConfiguration (pointerOf q.profile)
  if q.profile = [] then config
  else
    { config with
      profileName := q.profile
      credentialProviderConfig :=
        { config.credentialProviderConfig with profile := q.profile } }

def region : Bytes :=
  firstNonEmpty [ofPointer q.uri.region, environmentRegion q.sdk,
    profileRegion q.sdk q.profile, ofPointer q.provctx.region,
    q.baseConfig.region]

def endpoint : Bytes :=
  firstNonEmpty [ofPointer q.uri.endpoint,
    q.sdk.endpointSource "kms" q.profile, ofPointer q.provctx.endpoint]

/-- The two refusals of FIPS routing. -/
def refusal : Option ProviderError :=
  let keyId := FmtArg.bytes (ofPointer q.uri.keyId)
  if q.fipsRequired && q.endpoint ≠ [] then
    some ⟨.fipsRouting, "FIPS mode rejects endpoint override \"%s\" for \"%s\"; remove URI, AWS, profile, and provider endpoint overrides",
      [.bytes (cString q.endpoint), keyId]⟩
  else if q.fipsRequired && isChinaRegion q.region then
    some ⟨.fipsRouting, "FIPS mode rejects China region \"%s\" for \"%s\" because AWS KMS HSMs there are not CMVP validated",
      [.bytes (cString q.region), keyId]⟩
  else none

def config : ClientConfiguration Rest :=
  let base := q.baseConfig
  { base with
    region := q.region
    credentialProviderConfig :=
      { base.credentialProviderConfig with region := q.region }
    useFIPS := q.fipsRequired
    endpointOverride :=
      if q.endpoint = [] then base.endpointOverride else q.endpoint }

def ambientConfig : ClientConfiguration Rest :=
  q.sdk.clientConfiguration (pointerOf q.sdk.getConfigProfileName)

/-- The client a call builds when it finds none. -/
def parts : ClientParts Rest :=
  ⟨q.config, precedenceChain q.uri.profile
    q.ambientConfig.credentialProviderConfig q.provctx.profile⟩

def key : ClientKey where
  region := cString q.region
  profile := cString q.profile
  endpoint := cString q.endpoint
  ambientProfile := cString q.sdk.getConfigProfileName
  providerProfile := ofPointer q.provctx.profile
  fips := q.fipsRequired
  uriProfile := q.uri.profile.isSome

end ClientRequest

end

/-- A `shared_ptr<KMSClient>`: which object it is, and what that was built
from. -/
structure Client (Rest : Type) where
  id : Nat
  parts : ClientParts Rest
  deriving DecidableEq, Repr

section

variable {Rest : Type}

structure ClientEntry (Rest : Type) where
  client : Client Rest
  lru : Option Nat

structure ProcessState (Rest : Type) where
  lru : NodeList ClientKey
  clients : AList fun _ : ClientKey => ClientEntry Rest

def kMaxClients : Nat := 64

def touchLru (state : ProcessState Rest) (key : ClientKey)
    (entry : ClientEntry Rest) : ProcessState Rest :=
  let lru := state.lru.splice entry.lru
  ⟨lru, state.clients.replace key { entry with lru := lru.begin }⟩

def cachedClient (key : ClientKey) (state : ProcessState Rest) :
    Option (Client Rest) × ProcessState Rest :=
  match state.clients.lookup key with
  | none => (none, state)
  | some found => (some found.client, touchLru state key found)

/-- Makes room for one more entry, and says which one went. -/
def evictOldest (state : ProcessState Rest) :
    Option (ClientKey × Client Rest) × ProcessState Rest :=
  match state.lru.back with
  | none => (none, state)
  | some key =>
      match state.clients.lookup key with
      | none => (none, { state with lru := state.lru.popBack })
      | some oldest => (some (key, oldest.client),
          ⟨state.lru.popBack, state.clients.erase key⟩)

/-- What `publish_client` returns, evicts, and leaves behind. -/
structure Publication (Rest : Type) where
  client : Client Rest
  evicted : Option (ClientKey × Client Rest)
  state : ProcessState Rest

def publishClient (key : ClientKey) (candidate : Client Rest)
    (state : ProcessState Rest) : Publication Rest :=
  match state.clients.lookup key with
  | some found => ⟨found.client, none, touchLru state key found⟩
  | none =>
      let room :=
        if state.clients.entries.length = kMaxClients then evictOldest state
        else (none, state)
      let lru := room.2.lru.pushFront key
      ⟨candidate, room.1,
        ⟨lru, room.2.clients.insert key ⟨candidate, lru.begin⟩⟩⟩

end

/-- How far a thread is with its call of `client_for`. -/
inductive ClientPhase (Rest : Type) where
  | idle
  | missed (q : ClientRequest Rest)
  | built (q : ClientRequest Rest) (candidate : Client Rest)

structure Clients (Rest : Type) where
  state : ProcessState Rest
  /-- how many clients were ever built -/
  made : Nat
  phase : Nat → ClientPhase Rest

/-- What one thread does before another may go on. -/
inductive ClientStep (Rest : Type) where
  /-- routing, and `cached_client` -/
  | lookup (t : Nat) (q : ClientRequest Rest)
  | construct (t : Nat)
  | publish (t : Nat)

inductive ClientEvent (Rest : Type) where
  | refused (t : Nat) (q : ClientRequest Rest) (e : ProviderError)
  | returned (t : Nat) (q : ClientRequest Rest) (client : Client Rest)
  | evicted (key : ClientKey) (client : Client Rest)

section

variable {Rest : Type}

namespace Clients

def empty : Clients Rest := ⟨⟨.empty, ∅⟩, 0, fun _ => .idle⟩

def setPhase (s : Clients Rest) (t : Nat) (phase : ClientPhase Rest) :
    Clients Rest :=
  { s with phase := Function.update s.phase t phase }

def step : ClientStep Rest → Act (Clients Rest) (ClientEvent Rest)
  | .lookup t q => fun s =>
      match q.refusal with
      | some e => ⟨false, s, [.refused t q e]⟩
      | none =>
          match cachedClient q.key s.state with
          | (some client, state) =>
              ⟨true, { s with state := state }, [.returned t q client]⟩
          | (none, _) => ⟨true, s.setPhase t (.missed q), []⟩
  | .construct t => fun s =>
      match s.phase t with
      | .missed q =>
          ⟨true, { s.setPhase t (.built q ⟨s.made, q.parts⟩) with
            made := s.made + 1 }, []⟩
      | _ => ⟨false, s, []⟩
  | .publish t => fun s =>
      match s.phase t with
      | .built q candidate =>
          let p := publishClient q.key candidate s.state
          ⟨true, { s.setPhase t .idle with state := p.state },
            p.evicted.toList.map (fun e => .evicted e.1 e.2) ++
              [.returned t q p.client]⟩
      | _ => ⟨false, s, []⟩

/-- Each thread takes the steps of a call in their order. -/
def Allowed (s : Clients Rest) : ClientStep Rest → Prop
  | .lookup t _ => s.phase t = .idle
  | .construct t => ∃ q, s.phase t = .missed q
  | .publish t => ∃ q candidate, s.phase t = .built q candidate

end Clients

/-- `client_for` in any number of threads. -/
def clients (Rest : Type) :
    Machine (Clients Rest) (ClientStep Rest) (ClientEvent Rest) where
  start := Clients.empty
  allowed := Clients.Allowed
  step := Clients.step

end

end AwsKms.Model
