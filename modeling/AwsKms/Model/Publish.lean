import AwsKms.Model.Client

/-!
# A publication that runs out of memory

Entering a client allocates a node of the list, a node of the map, a copy of
the key for each, and sometimes the map's table of buckets. Any of these can
throw. The container whose insertion throws is as it was before, the function
is left without more being done, and `awskms_kms_sign` turns the exception
into a provider error at the C boundary.
-/

namespace AwsKms.Model

open AwsKms.Lib

/-- Where `publish_client` allocates, in order. -/
inductive PublishAlloc where
  | lruNode
  | lruKey
  | clientsNode
  | clientsKey
  | clientsBuckets
  deriving DecidableEq, Repr

/-- The allocation is one of `state.lru.push_front(key)`. -/
def PublishAlloc.ofPushFront : PublishAlloc → Bool
  | .lruNode => true
  | .lruKey => true
  | _ => false

section

variable {Rest : Type}

/-- What a publication hands back, or `none` where it threw. -/
structure Attempt (Rest : Type) where
  client : Option (Client Rest)
  evicted : Option (ClientKey × Client Rest)
  state : ProcessState Rest

/-- `publish_client`, with the allocation that throws if it is reached. -/
def publishClientThrowing (throws : Option PublishAlloc) (key : ClientKey)
    (candidate : Client Rest) (state : ProcessState Rest) : Attempt Rest :=
  match state.clients.lookup key with
  | some found => ⟨some found.client, none, touchLru state key found⟩
  | none =>
      let room :=
        if state.clients.entries.length = kMaxClients then evictOldest state
        else (none, state)
      if throws.any PublishAlloc.ofPushFront then ⟨none, room.1, room.2⟩
      else
        let lru := room.2.lru.pushFront key
        -- the list has the key by now, and nothing takes it out again
        if throws.isSome then ⟨none, room.1, ⟨lru, room.2.clients⟩⟩
        else
          ⟨some candidate, room.1,
            ⟨lru, room.2.clients.insert key ⟨candidate, lru.begin⟩⟩⟩

/-- What is done under the cache's lock. -/
inductive CacheCall (Rest : Type) where
  | lookup (key : ClientKey)
  | publish (key : ClientKey) (candidate : Client Rest)
      (throws : Option PublishAlloc)

/-- The call evicts: a new key, and no room. -/
def CacheCall.Evicts (call : CacheCall Rest) (state : ProcessState Rest) : Prop :=
  match call with
  | .lookup _ => False
  | .publish key _ _ => state.clients.lookup key = none ∧
      state.clients.entries.length = kMaxClients

def CacheCall.run : CacheCall Rest → Act (ProcessState Rest) (Client Rest)
  | .lookup key => fun state =>
      match cachedClient key state with
      | (some client, state) => ⟨true, state, [client]⟩
      | (none, state) => ⟨false, state, []⟩
  | .publish key candidate throws => fun state =>
      let attempt := publishClientThrowing throws key candidate state
      ⟨attempt.client.isSome, attempt.state, attempt.client.toList⟩

/-- The process going on with the cache as it is. -/
def cacheFrom (state : ProcessState Rest) :
    Machine (ProcessState Rest) (CacheCall Rest) (Client Rest) where
  start := state
  allowed _ _ := True
  step := CacheCall.run

end

end AwsKms.Model
