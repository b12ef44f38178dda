import AwsKms.Model.Publish
import AwsKms.Proofs.Client

/-!
# What an exception leaves of the cache

A publication evicts, inserts into the list, inserts into the map. Thrown out
before the list has the new key, the cache is one entry short and sound.
Thrown out after, the list has a key the map does not know. Nothing notices:
64 publications later the key is the last of the list, its eviction removes no
client, and the map grows past 64, where the test for a full cache no longer
finds it.
-/

namespace AwsKms.Model

open AwsKms.Lib

section

variable {Rest : Type}

/-- The map, the list and the iterators are of one cache. -/
structure CacheInvariant (state : ProcessState Rest) : Prop where
  keys : ∀ k, k ∈ state.clients ↔ k ∈ state.lru.values
  nodup : state.lru.values.Nodup
  iterators : ∀ k e, state.clients.lookup k = some e →
    ∃ it, e.lru = some it ∧ state.lru.At it k
  size : state.clients.entries.length ≤ kMaxClients

variable {state : ProcessState Rest} {c : ClientCache Rest}

theorem Represents.invariant (h : Represents state c) : CacheInvariant state where
  keys k := by
    rw [h.keys]
    exact h.mem_iff
  nodup := by
    rw [h.keys]
    exact c.nodup
  iterators k e he := (h.entry k e he).2
  size := by
    rw [h.size]
    exact c.bound

namespace CacheInvariant

/-- The entries of the cache, in the order of the list. -/
def entries (state : ProcessState Rest) : List (ClientKey × Client Rest) :=
  state.lru.values.filterMap fun k =>
    (state.clients.lookup k).map fun e => (k, e.client)

theorem entries_keys (h : CacheInvariant state) :
    (entries state).map Prod.fst = state.lru.values := by
  have hall : ∀ k ∈ state.lru.values, (state.clients.lookup k).isSome := by
    intro k hk
    rw [AList.lookup_isSome]
    exact (h.keys k).mpr hk
  rw [entries]
  generalize state.lru.values = ks at hall
  induction ks with
  | nil => rfl
  | cons k ks ih =>
      obtain ⟨e, he⟩ := Option.isSome_iff_exists.mp (hall k List.mem_cons_self)
      rw [List.filterMap_cons_some (by rw [he]; rfl), List.map_cons,
        ih fun l hl => hall l (List.mem_cons_of_mem _ hl)]

theorem represents (h : CacheInvariant state) :
    ∃ c : ClientCache Rest, Represents state c := by
  have hkeys := h.entries_keys
  have hlen : (entries state).length = state.clients.entries.length := by
    have hperm : state.clients.keys.Perm state.lru.values := by
      refine (List.perm_ext_iff_of_nodup state.clients.keys_nodup h.nodup).mpr ?_
      intro k
      rw [← AList.mem_keys]
      exact h.keys k
    have hlen := hperm.length_eq
    rw [← hkeys, AList.keys, List.keys, List.length_map, List.length_map] at hlen
    exact hlen.symm
  refine ⟨⟨entries state, hkeys ▸ h.nodup, hlen ▸ h.size⟩, hkeys.symm, ?_, ?_⟩
  · intro k e he
    refine ⟨?_, h.iterators k e he⟩
    have hmem : k ∈ state.lru.values := by
      rw [← h.keys, ← AList.lookup_isSome, he]
      rfl
    exact List.mem_filterMap.mpr ⟨k, hmem, by rw [he]; rfl⟩
  · intro k hk hmem
    change k ∈ (entries state).map Prod.fst at hmem
    rw [hkeys, ← h.keys, ← AList.lookup_isSome, hk] at hmem
    exact absurd hmem (by simp)

end CacheInvariant

/-- Room made is the cache without its oldest entry. -/
theorem RoomMade.represents (h : Represents state c)
    {room : Option (ClientKey × Client Rest) × ProcessState Rest}
    (hroom : RoomMade state c room) : Represents room.2 c.room where
  keys := by
    rw [hroom.values, Lru.keys_room]
  entry k e he := by
    obtain ⟨hlook, hold⟩ := (hroom.lookup k e).mp he
    obtain ⟨hhas, it, hit, hat⟩ := h.entry k e hlook
    exact ⟨(Lru.has_room kMaxClients_pos).mpr ⟨hhas, hold⟩, it, hit,
      hroom.node k it hat hold⟩
  absent k hk := by
    rw [Lru.mem_keys]
    rintro ⟨client, hhas⟩
    obtain ⟨hhas, hold⟩ := (Lru.has_room kMaxClients_pos).mp hhas
    obtain ⟨e, he, -⟩ := h.lookup_of_has hhas
    rw [(hroom.lookup k e).mpr ⟨he, hold⟩] at hk
    cases hk

/-- Nothing is allocated for a key that is there, and nothing fails when
nothing throws. -/
theorem publishClientThrowing_eq {throws : Option PublishAlloc} {key : ClientKey}
    {candidate : Client Rest}
    (h : throws = none ∨ (state.clients.lookup key).isSome) :
    publishClientThrowing throws key candidate state =
      ⟨some (publishClient key candidate state).client,
        (publishClient key candidate state).evicted,
        (publishClient key candidate state).state⟩ := by
  cases hlook : state.clients.lookup key with
  | some e => simp only [publishClientThrowing, publishClient, hlook]
  | none =>
      obtain rfl := h.resolve_right (by simp [hlook])
      simp [publishClientThrowing, publishClient, hlook]

/-- Thrown out before or after the list has the key. -/
theorem publishClientThrowing_some {point : PublishAlloc} {key : ClientKey}
    {candidate : Client Rest} (hk : state.clients.lookup key = none) :
    publishClientThrowing (some point) key candidate state =
      ⟨none, (makeRoom state).1,
        if point.ofPushFront then (makeRoom state).2
        else ⟨(makeRoom state).2.lru.pushFront key, (makeRoom state).2.clients⟩⟩ := by
  simp only [publishClientThrowing, hk, makeRoom]
  cases point with
  | lruNode => rfl
  | lruKey => rfl
  | clientsNode => rfl
  | clientsKey => rfl
  | clientsBuckets => rfl

/-- The attempt throws, if at all, before the list has the new key. -/
def CacheCall.Contained : CacheCall Rest → Prop
  | .lookup _ => True
  | .publish _ _ throws => ∀ point ∈ throws, point.ofPushFront = true

/-- The bound holds, and an eviction takes one client and no other. -/
structure Bounded (e : Rec (ProcessState Rest) (CacheCall Rest) (Client Rest)) :
    Prop where
  size : e.out.state.clients.entries.length ≤ kMaxClients
  one : e.input.Evicts e.pre → ∃ gone client, e.pre.Cached gone client ∧
    ∀ l other, e.pre.Cached l other → (e.out.state.Cached l other ↔ l ≠ gone)
  kept : ¬ e.input.Evicts e.pre →
    ∀ l other, e.pre.Cached l other → e.out.state.Cached l other

/-- A full cache has an oldest entry, and one with room has none. -/
theorem oldest_cases (c : ClientCache Rest) :
    (c.entries.length = kMaxClients ∧ ∃ gone client,
      c.oldest = some gone ∧ c.Has gone client) ∨
    c.entries.length ≠ kMaxClients ∧ c.oldest = none := by
  by_cases hfull : c.entries.length = kMaxClients
  · have hold : c.oldest = c.keys.getLast? := if_pos hfull
    have hne : c.keys ≠ [] := by
      intro hnil
      rw [Lru.keys, List.map_eq_nil_iff] at hnil
      rw [hnil] at hfull
      cases hfull
    have hlast := List.getLast?_eq_some_getLast hne
    obtain ⟨client, hhas⟩ := Lru.mem_keys.mp (List.getLast_mem hne)
    exact .inl ⟨hfull, _, client, hold.trans hlast, hhas⟩
  · exact .inr ⟨hfull, if_neg hfull⟩

/-- A call with a new key loses the oldest client and nothing else. -/
theorem bounded_absent {c' : ClientCache Rest} {key : ClientKey}
    {candidate : Client Rest} {throws : Option PublishAlloc}
    {out : Out (ProcessState Rest) (Client Rest)}
    (h : Represents state c) (h' : Represents out.state c')
    (hk : state.clients.lookup key = none)
    (hhas : ∀ l w, c.Has l w → (c'.Has l w ↔ c.oldest ≠ some l)) :
    Bounded ⟨state, .publish key candidate throws, out⟩ where
  size := h'.invariant.size
  one := by
    rintro ⟨-, hfull⟩
    rw [h.size] at hfull
    rcases oldest_cases c with ⟨-, gone, client, hold, hgone⟩ | ⟨hroom, -⟩
    · refine ⟨gone, client, h.cached_iff.mpr hgone, fun l other hl => ?_⟩
      rw [h'.cached_iff, hhas l other (h.cached_iff.mp hl), hold, ne_eq,
        Option.some.injEq, eq_comm]
    · exact absurd hfull hroom
  kept := by
    intro hno l other hl
    rcases oldest_cases c with ⟨hfull, -⟩ | ⟨-, hold⟩
    · exact absurd ⟨hk, h.size.trans hfull⟩ hno
    · rw [h'.cached_iff, hhas l other (h.cached_iff.mp hl), hold]
      exact (Option.some_ne_none l).symm

/-- A call that finds its key loses nothing. -/
theorem bounded_present {c' : ClientCache Rest} {call : CacheCall Rest}
    {out : Out (ProcessState Rest) (Client Rest)}
    (h : Represents state c) (h' : Represents out.state c')
    (hno : ¬ call.Evicts state) (hhas : ∀ l w, c'.Has l w ↔ c.Has l w) :
    Bounded ⟨state, call, out⟩ where
  size := h'.invariant.size
  one hevicts := absurd hevicts hno
  kept _ l other hl := by
    rw [h'.cached_iff, hhas]
    exact h.cached_iff.mp hl

theorem run_lookup (key : ClientKey) (state : ProcessState Rest) :
    (CacheCall.run (.lookup key) state).state = (cachedClient key state).2 := by
  simp only [CacheCall.run]
  rcases cachedClient key state with ⟨_ | client, state'⟩
  · rfl
  · rfl

theorem call_step (h : Represents state c) {call : CacheCall Rest}
    (hcall : call.Contained) :
    (∃ c', Represents (call.run state).state c') ∧
      Bounded ⟨state, call, call.run state⟩ := by
  cases call with
  | lookup key =>
      have hno : ¬ CacheCall.Evicts (.lookup key) state := id
      have hstate := run_lookup key state
      rcases cachedClient_spec h key with ⟨-, heq⟩ | ⟨client, -, -, hrep⟩
      · rw [heq] at hstate
        have h' : Represents (CacheCall.run (.lookup key) state).state c := by
          rw [hstate]
          exact h
        exact ⟨⟨c, h'⟩, bounded_present h h' hno fun _ _ => Iff.rfl⟩
      · rw [← hstate] at hrep
        exact ⟨⟨_, hrep⟩, bounded_present h hrep hno fun _ _ => Lru.has_touch⟩
  | publish key candidate throws =>
      by_cases hthrow : throws = none ∨ (state.clients.lookup key).isSome
      · -- as if every allocation succeeded
        have hstate : (CacheCall.run (.publish key candidate throws) state).state =
            (publishClient key candidate state).state := by
          simp only [CacheCall.run, publishClientThrowing_eq hthrow]
        rcases publishClient_spec h key candidate with
          ⟨client, state', hhas, hpub, hrep⟩ | ⟨hk, -, -, hrep⟩
        · have hno : ¬ CacheCall.Evicts (.publish key candidate throws) state := by
            rintro ⟨habsent, -⟩
            exact h.absent key habsent hhas.mem
          rw [hpub] at hstate
          have hrep : Represents
              (CacheCall.run (.publish key candidate throws) state).state
              (c.touch key) := by
            rw [hstate]
            exact hrep
          exact ⟨⟨_, hrep⟩, bounded_present h hrep hno fun _ _ => Lru.has_touch⟩
        · rw [← hstate] at hrep
          have habsent : state.clients.lookup key = none :=
            AList.lookup_eq_none.mpr fun hmem => hk (h.mem_iff.mp hmem)
          refine ⟨⟨_, hrep⟩, bounded_absent h hrep habsent fun l w hl => ?_⟩
          have hne : l ≠ key := fun heq => hk (heq ▸ hl.mem)
          rw [Lru.has_enter kMaxClients_pos]
          simp [hne, hl]
      · -- out of memory before the list has the key
        rw [not_or, Option.not_isSome_iff_eq_none] at hthrow
        obtain ⟨hsome, habsent⟩ := hthrow
        obtain ⟨point, rfl⟩ := Option.ne_none_iff_exists'.mp hsome
        have hstate : (CacheCall.run (.publish key candidate (some point)) state).state =
            (makeRoom state).2 := by
          simp only [CacheCall.run, publishClientThrowing_some habsent,
            hcall point rfl, if_true]
        have hrep := h.makeRoom.represents h
        rw [← hstate] at hrep
        refine ⟨⟨_, hrep⟩, bounded_absent h hrep habsent fun l w hl => ?_⟩
        rw [Lru.has_room kMaxClients_pos]
        simp [hl]

/-- A process in which every exception is contained. -/
theorem calls_bounded {start state : ProcessState Rest} (h : CacheInvariant state)
    {calls : List (CacheCall Rest)} (hcalls : ∀ call ∈ calls, call.Contained) :
    ∀ e ∈ (cacheFrom start).records state calls,
      CacheInvariant e.out.state ∧ Bounded e := by
  induction calls generalizing state with
  | nil => simp [Machine.records]
  | cons call calls ih =>
      obtain ⟨c, hc⟩ := h.represents
      obtain ⟨⟨c', hc'⟩, hbounded⟩ := call_step hc (hcalls call List.mem_cons_self)
      intro e he
      rcases List.mem_cons.mp he with rfl | he
      · exact ⟨hc'.invariant, hbounded⟩
      · exact ih hc'.invariant (fun call hcall => hcalls call (List.mem_cons_of_mem _ hcall))
          e he

theorem calls_sound {start state : ProcessState Rest} (h : CacheInvariant state)
    {calls : List (CacheCall Rest)} (hcalls : ∀ call ∈ calls, call.Contained) :
    CacheInvariant ((cacheFrom start).drive state calls) := by
  induction calls generalizing state with
  | nil => exact h
  | cons call calls ih =>
      obtain ⟨c, hc⟩ := h.represents
      obtain ⟨⟨c', hc'⟩, -⟩ := call_step hc (hcalls call List.mem_cons_self)
      exact ih hc'.invariant fun call hcall => hcalls call (List.mem_cons_of_mem _ hcall)

/-- Past the insertion into the list, the key is in the list alone. -/
theorem orphaned {point : PublishAlloc} {key : ClientKey} {candidate : Client Rest}
    (h : CacheInvariant state) (hk : state.clients.lookup key = none)
    (hpoint : point.ofPushFront = false) :
    ¬ CacheInvariant (publishClientThrowing (some point) key candidate state).state := by
  obtain ⟨c, hc⟩ := h.represents
  have hroom := hc.makeRoom
  intro hafter
  rw [publishClientThrowing_some hk, hpoint] at hafter
  have hmem : key ∈ (makeRoom state).2.clients :=
    (hafter.keys key).mpr (by simp [NodeList.values_pushFront])
  obtain ⟨e, he⟩ := Option.isSome_iff_exists.mp (AList.lookup_isSome.mpr hmem)
  have hlook := ((hroom.lookup key e).mp he).1
  rw [hk] at hlook
  cases hlook

/-- From every sound cache, and for every allocation of a publication that can
throw: the cache is sound afterwards, and stays bounded and loses one client an
eviction whatever is called next, exactly when the allocation is one of the
insertion into the list. -/
theorem publication_safe_iff (h : CacheInvariant state) {key : ClientKey}
    (hk : state.clients.lookup key = none) (candidate : Client Rest)
    (point : PublishAlloc) :
    (CacheInvariant (publishClientThrowing (some point) key candidate state).state ∧
      ∀ calls : List (CacheCall Rest), (∀ call ∈ calls, call.Contained) →
        ∀ e ∈ (cacheFrom state).records
          (publishClientThrowing (some point) key candidate state).state calls,
          CacheInvariant e.out.state ∧ Bounded e) ↔
    point.ofPushFront = true := by
  constructor
  · rintro ⟨hafter, -⟩
    by_contra hpoint
    exact orphaned h hk (by simpa using hpoint) hafter
  · intro hpoint
    obtain ⟨c, hc⟩ := h.represents
    have hrep := hc.makeRoom.represents hc
    have hstate : (publishClientThrowing (some point) key candidate state).state =
        (makeRoom state).2 := by
      rw [publishClientThrowing_some hk, if_pos hpoint]
    rw [hstate]
    exact ⟨hrep.invariant, fun calls hcalls => calls_bounded hrep.invariant hcalls⟩

end

namespace Bench

def clientKey (n : UInt8) : ClientKey :=
  ⟨[n], [], [], [], [], false, false⟩

/-- Some client; which one it is makes no difference to the cache. -/
def someClient : Client Unit := ⟨0, (request none).parts⟩

def freshCache : ProcessState Unit := ⟨.empty, ∅⟩

/-- The first publication runs out of memory at the map. -/
def orphanedCache : ProcessState Unit :=
  (publishClientThrowing (some .clientsNode) (clientKey 0) someClient freshCache).state

/-- Publications of new keys, with all the memory they need. -/
def publications (n : Nat) : List (CacheCall Unit) :=
  (List.range n).map fun i => .publish (clientKey (i + 1).toUInt8) someClient none

/-- 64 clients, and no room for another. -/
def fullCache : ProcessState Unit := (cacheFrom freshCache).drive freshCache (publications 64)

theorem fullCache_sound : CacheInvariant fullCache := by
  refine calls_sound Represents.empty.invariant fun call hcall => ?_
  obtain ⟨i, -, rfl⟩ := List.mem_map.mp hcall
  intro point hpoint
  cases hpoint

end Bench

/-- The publication has evicted a client when it runs out of memory. -/
theorem publication_safe_iff_oom :
    (publishClientThrowing (some .lruKey) (Bench.clientKey 0) Bench.someClient
        Bench.fullCache).evicted.map Prod.fst = some (Bench.clientKey 1) ∧
    ((CacheInvariant (publishClientThrowing (some .lruKey) (Bench.clientKey 0)
        Bench.someClient Bench.fullCache).state ∧
      ∀ calls : List (CacheCall Unit), (∀ call ∈ calls, call.Contained) →
        ∀ e ∈ (cacheFrom Bench.fullCache).records
          (publishClientThrowing (some .lruKey) (Bench.clientKey 0)
            Bench.someClient Bench.fullCache).state calls,
          CacheInvariant e.out.state ∧ Bounded e) ↔
    PublishAlloc.lruKey.ofPushFront = true) :=
  ⟨by decide +kernel, publication_safe_iff Bench.fullCache_sound (by decide +kernel)
    Bench.someClient .lruKey⟩

/-- One publication out of memory, and 65 that are not: no eviction took a
client, and the map has 65. -/
theorem publication_not_safe :
    CacheInvariant Bench.freshCache ∧ ¬ CacheInvariant Bench.orphanedCache ∧
    ((cacheFrom Bench.freshCache).drive Bench.orphanedCache
      (Bench.publications 65)).clients.entries.length = 65 :=
  ⟨Represents.empty.invariant, orphaned Represents.empty.invariant rfl rfl,
    by decide +kernel⟩

end AwsKms.Model
