import AwsKms.Lib.Lru
import AwsKms.Model.Client

/-!
# One client for one routing

The cache keeps a map, a list, and in every entry of the map an iterator into
the list. `Represents` says what the three are together: a bounded list of
keys and clients, the last one used first. Every locked step is then one
operation on that, and what holds over a run is proved there.

A step that hands a client to its caller is a use of the client's key. What
`client_for` promises its callers needs nothing else of the past.
-/

namespace AwsKms.Model

open AwsKms.Lib

section

variable {Rest : Type}

/-- What the cache is for. -/
abbrev ClientCache (Rest : Type) := Lru ClientKey (Client Rest) kMaxClients

/-- The map, the list and the iterators are one cache. -/
structure Represents (state : ProcessState Rest) (c : ClientCache Rest) :
    Prop where
  keys : state.lru.values = c.keys
  entry : ∀ k e, state.clients.lookup k = some e →
    c.Has k e.client ∧ ∃ it, e.lru = some it ∧ state.lru.At it k
  absent : ∀ k, state.clients.lookup k = none → k ∉ c.keys

namespace Represents

variable {state : ProcessState Rest} {c : ClientCache Rest} {k : ClientKey}

theorem empty : Represents (⟨.empty, ∅⟩ : ProcessState Rest) .empty where
  keys := rfl
  entry k e h := by simp at h
  absent k _ := by simp [Lru.keys, Lru.empty]

theorem mem_iff (h : Represents state c) : k ∈ state.clients ↔ k ∈ c.keys := by
  rw [← AList.lookup_isSome]
  cases hk : state.clients.lookup k with
  | none => simp [h.absent k hk]
  | some e => simp [(h.entry k e hk).1.mem]

theorem lookup_of_has {client : Client Rest} (h : Represents state c)
    (hc : c.Has k client) :
    ∃ e, state.clients.lookup k = some e ∧ e.client = client := by
  cases hk : state.clients.lookup k with
  | none => exact absurd hc.mem (h.absent k hk)
  | some e => exact ⟨e, rfl, (h.entry k e hk).1.unique hc⟩

theorem size (h : Represents state c) :
    state.clients.entries.length = c.entries.length := by
  have hperm : state.clients.keys.Perm c.keys := by
    refine (List.perm_ext_iff_of_nodup state.clients.keys_nodup c.nodup).mpr ?_
    intro k
    rw [← AList.mem_keys]
    exact h.mem_iff
  have hlen := hperm.length_eq
  rwa [AList.keys, List.keys, List.length_map, Lru.keys, List.length_map]
    at hlen

/-- Using an entry writes back the iterator it had. -/
theorem touch {e : ClientEntry Rest} (h : Represents state c)
    (he : state.clients.lookup k = some e) :
    Represents (touchLru state k e) (c.touch k) := by
  obtain ⟨hhas, it, hit, hat⟩ := h.entry k e he
  obtain ⟨hvalues, hbegin⟩ := hat.splice (h.keys ▸ c.nodup)
  have hsame : touchLru state k e = ⟨state.lru.splice (some it), state.clients⟩ := by
    simp only [touchLru, hit, hbegin]
    rw [← hit]
    refine congrArg _ (AList.ext ?_)
    exact List.kreplace_self state.clients.nodupKeys
      (AList.mem_lookup_iff.mp (Option.mem_def.mpr he))
  rw [hsame]
  refine ⟨?_, fun l f hf => ?_, fun l hl => ?_⟩
  · rw [Lru.keys_touch hhas.mem, ← h.keys]
    exact hvalues
  · obtain ⟨hl, it', hit', hat'⟩ := h.entry l f hf
    exact ⟨Lru.has_touch.mpr hl, it', hit', NodeList.at_splice.mpr hat'⟩
  · rw [Lru.keys_touch hhas.mem, List.mem_cons]
    rintro (rfl | hmem)
    · exact h.absent l hl hhas.mem
    · exact h.absent l hl (List.mem_of_mem_erase hmem)

/-- The last key of the list is the key of an entry, and that entry goes. -/
theorem evict {last : ClientKey} (h : Represents state c)
    (hlast : c.keys.getLast? = some last) :
    ∃ client, c.Has last client ∧ evictOldest state =
      (some (last, client), ⟨state.lru.popBack, state.clients.erase last⟩) := by
  have hback : state.lru.back = some last := by
    rw [NodeList.back, h.keys, hlast]
  obtain ⟨client, hhas⟩ :=
    Lru.mem_keys.mp (List.mem_of_getLast? hlast)
  obtain ⟨e, he, rfl⟩ := h.lookup_of_has hhas
  refine ⟨e.client, hhas, ?_⟩
  simp only [evictOldest, hback, he]

end Represents

theorem kMaxClients_pos : 0 < kMaxClients := by decide

/-- What a publication does before it adds its own entry. -/
def makeRoom (state : ProcessState Rest) :
    Option (ClientKey × Client Rest) × ProcessState Rest :=
  if state.clients.entries.length = kMaxClients then evictOldest state
  else (none, state)

/-- The oldest entry goes if there is one too many, and it alone. -/
structure RoomMade (state : ProcessState Rest) (c : ClientCache Rest)
    (room : Option (ClientKey × Client Rest) × ProcessState Rest) : Prop where
  evicted : ∀ k client,
    room.1 = some (k, client) ↔ c.oldest = some k ∧ c.Has k client
  values : room.2.lru.values =
    if c.entries.length = kMaxClients then c.keys.dropLast else c.keys
  lookup : ∀ k e, room.2.clients.lookup k = some e ↔
    state.clients.lookup k = some e ∧ c.oldest ≠ some k
  node : ∀ k it, state.lru.At it k → c.oldest ≠ some k → room.2.lru.At it k

theorem Represents.makeRoom {state : ProcessState Rest} {c : ClientCache Rest}
    (h : Represents state c) : RoomMade state c (makeRoom state) := by
  unfold AwsKms.Model.makeRoom
  rw [h.size]
  by_cases hfull : c.entries.length = kMaxClients
  · have hold : c.oldest = c.keys.getLast? := if_pos hfull
    have hne : c.keys ≠ [] := by
      intro hnil
      rw [Lru.keys, List.map_eq_nil_iff] at hnil
      rw [hnil] at hfull
      cases hfull
    have hlast := List.getLast?_eq_some_getLast hne
    obtain ⟨client, hhas, hevict⟩ := h.evict hlast
    rw [if_pos hfull, hevict]
    rw [hlast] at hold
    refine ⟨fun k cl => ?_, ?_, fun k e => ?_, fun k it hat hk => ?_⟩
    · rw [hold, Option.some.injEq, Prod.mk.injEq, Option.some.injEq]
      refine and_congr_right fun heq => ?_
      subst heq
      refine ⟨fun heq => heq ▸ hhas, fun hcl => hhas.unique hcl⟩
    · rw [if_pos hfull, NodeList.values_popBack, h.keys]
    · rw [hold, ne_eq, Option.some.injEq]
      by_cases hk : c.keys.getLast hne = k
      · subst hk
        simp [AList.lookup_erase]
      · rw [AList.lookup_erase_ne (Ne.symm hk)]
        simp [hk]
    · refine hat.popBack ?_
      rw [NodeList.back, h.keys, hlast, ← hold]
      exact hk
  · have hold : c.oldest = none := if_neg hfull
    rw [if_neg hfull]
    refine ⟨fun k cl => ?_, ?_, fun k e => ?_, fun k it hat _ => hat⟩
    · simp [hold]
    · rw [if_neg hfull]
      exact h.keys
    · simp [hold]

/-- A lookup finds the client of the key and uses it, or changes nothing. -/
theorem cachedClient_spec {state : ProcessState Rest} {c : ClientCache Rest}
    (h : Represents state c) (k : ClientKey) :
    (k ∉ c.keys ∧ cachedClient k state = (none, state)) ∨
    ∃ client, c.Has k client ∧ (cachedClient k state).1 = some client ∧
      Represents (cachedClient k state).2 (c.touch k) := by
  cases hk : state.clients.lookup k with
  | none =>
      refine .inl ⟨h.absent k hk, ?_⟩
      simp only [cachedClient, hk]
  | some e =>
      refine .inr ⟨e.client, (h.entry k e hk).1, ?_⟩
      simp only [cachedClient, hk]
      exact ⟨trivial, h.touch hk⟩

/-- A publication uses the client that is there, or enters its own. -/
theorem publishClient_spec {state : ProcessState Rest} {c : ClientCache Rest}
    (h : Represents state c) (k : ClientKey) (candidate : Client Rest) :
    (∃ client state', c.Has k client ∧
      publishClient k candidate state = ⟨client, none, state'⟩ ∧
      Represents state' (c.touch k)) ∨
    ∃ hk : k ∉ c.keys, (publishClient k candidate state).client = candidate ∧
      (∀ l client, (publishClient k candidate state).evicted = some (l, client) ↔
        c.oldest = some l ∧ c.Has l client) ∧
      Represents (publishClient k candidate state).state
        (c.enter k candidate hk) := by
  cases hlook : state.clients.lookup k with
  | some e =>
      refine .inl ⟨e.client, _, (h.entry k e hlook).1, ?_, h.touch hlook⟩
      simp only [publishClient, hlook]
  | none =>
      have hk := h.absent k hlook
      have hroom := h.makeRoom
      have hpub : publishClient k candidate state =
          ⟨candidate, (makeRoom state).1,
            ⟨(makeRoom state).2.lru.pushFront k,
              (makeRoom state).2.clients.insert k
                ⟨candidate, ((makeRoom state).2.lru.pushFront k).begin⟩⟩⟩ := by
        simp only [publishClient, hlook]
        rfl
      rw [hpub]
      refine .inr ⟨hk, rfl, hroom.evicted, ?_⟩
      refine ⟨?_, fun l e hl => ?_, fun l hl => ?_⟩
      · rw [Lru.keys_enter kMaxClients_pos, ← hroom.values]
        exact NodeList.values_pushFront
      · rw [Lru.has_enter kMaxClients_pos]
        by_cases heq : l = k
        · subst heq
          rw [AList.lookup_insert, Option.some.injEq] at hl
          subst hl
          exact ⟨.inl ⟨rfl, rfl⟩, _, NodeList.begin_pushFront,
            NodeList.at_pushFront.mpr (.inl ⟨rfl, rfl⟩)⟩
        · rw [AList.lookup_insert_ne heq, hroom.lookup] at hl
          obtain ⟨hhas, it, hit, hat⟩ := h.entry l e hl.1
          exact ⟨.inr ⟨hhas, hl.2⟩, it, hit,
            NodeList.at_pushFront.mpr (.inr (hroom.node l it hat hl.2))⟩
      · rw [Lru.mem_keys]
        rintro ⟨client, hhas⟩
        rw [Lru.has_enter kMaxClients_pos] at hhas
        by_cases heq : l = k
        · subst heq
          simp [AList.lookup_insert] at hl
        · rw [AList.lookup_insert_ne heq] at hl
          obtain ⟨hhas, hold⟩ := hhas.resolve_left fun hnew => heq hnew.1
          obtain ⟨e, he, -⟩ := h.lookup_of_has hhas
          rw [(hroom.lookup l e).mpr ⟨he, hold⟩] at hl
          cases hl

/-- The key that handing a client out is a use of. -/
def ClientEvent.used? : ClientEvent Rest → Option ClientKey
  | .returned _ q _ => some q.key
  | _ => none

abbrev ClientRec (Rest : Type) :=
  Rec (Clients Rest) (ClientStep Rest) (ClientEvent Rest)

/-- The keys of the clients that were handed out, in order. -/
def uses (evs : List (ClientRec Rest)) : List ClientKey :=
  evs.flatMap fun e => e.out.trace.filterMap ClientEvent.used?

/-- What a step is to the cache, and what it reports. -/
inductive CacheStep (s : Clients Rest) (c : ClientCache Rest) :
    ClientStep Rest → ClientCache Rest → List (ClientEvent Rest) → Prop where
  | silent {i : ClientStep Rest} : CacheStep s c i c []
  | refused {i : ClientStep Rest} (t : Nat) (q : ClientRequest Rest)
      (e : ProviderError) : CacheStep s c i c [.refused t q e]
  | used {i : ClientStep Rest} (t : Nat) (q : ClientRequest Rest)
      (client : Client Rest) : c.Has q.key client →
      CacheStep s c i (c.touch q.key) [.returned t q client]
  | admitted (t : Nat) (q : ClientRequest Rest) (candidate : Client Rest)
      (hk : q.key ∉ c.keys) (gone : Option (ClientKey × Client Rest)) :
      s.phase t = .built q candidate →
      (∀ k client, gone = some (k, client) ↔ c.oldest = some k ∧ c.Has k client) →
      CacheStep s c (.publish t) (c.enter q.key candidate hk)
        (gone.toList.map (fun e => .evicted e.1 e.2) ++ [.returned t q candidate])

theorem clients_step {s : Clients Rest} {c : ClientCache Rest}
    (h : Represents s.state c) (i : ClientStep Rest) :
    ∃ c', Represents ((clients Rest).step i s).state.state c' ∧
      CacheStep s c i c' ((clients Rest).step i s).trace := by
  cases i with
  | lookup t q =>
      simp only [clients, Clients.step]
      cases q.refusal with
      | some e => exact ⟨c, h, .refused t q e⟩
      | none =>
          rcases cachedClient_spec h q.key with ⟨-, hmiss⟩ | ⟨client, hhas, hhit, hrep⟩
          · simp only [hmiss]
            exact ⟨c, h, .silent⟩
          · generalize cachedClient q.key s.state = found at *
            obtain ⟨found, state⟩ := found
            obtain rfl : found = some client := hhit
            exact ⟨_, hrep, .used t q client hhas⟩
  | construct t =>
      simp only [clients, Clients.step]
      cases s.phase t with
      | missed q => exact ⟨c, h, .silent⟩
      | idle => exact ⟨c, h, .silent⟩
      | built q candidate => exact ⟨c, h, .silent⟩
  | publish t =>
      simp only [clients, Clients.step]
      cases hphase : s.phase t with
      | missed q => exact ⟨c, h, .silent⟩
      | idle => exact ⟨c, h, .silent⟩
      | built q candidate =>
          rcases publishClient_spec h q.key candidate with
            ⟨client, state', hhas, heq, hrep⟩ | ⟨hk, hclient, hgone, hrep⟩
          · simp only [heq]
            exact ⟨_, hrep, .used t q client hhas⟩
          · refine ⟨_, hrep, ?_⟩
            have hstep := CacheStep.admitted t q candidate hk _ hphase hgone
            rw [← hclient] at hstep ⊢
            simpa only [hclient] using hstep

namespace CacheStep

variable {s : Clients Rest} {c c' : ClientCache Rest} {i : ClientStep Rest}
  {trace : List (ClientEvent Rest)} {k : ClientKey} {client : Client Rest}

theorem ordered (h : CacheStep s c i c' trace) {used : List ClientKey}
    (ho : Ordered used c.keys) :
    Ordered (used ++ trace.filterMap ClientEvent.used?) c'.keys := by
  cases h with
  | silent => simpa using ho
  | refused t q e =>
      have hnone : [ClientEvent.refused t q e].filterMap ClientEvent.used? = [] :=
        rfl
      rw [hnone, List.append_nil]
      exact ho
  | used t q client hhas =>
      rw [Lru.keys_touch hhas.mem]
      exact ho.use List.erase_sublist (List.Nodup.not_mem_erase c.nodup)
  | admitted t q candidate hk gone hphase hgone =>
      have huses : (gone.toList.map (fun e => ClientEvent.evicted e.1 e.2) ++
          [ClientEvent.returned t q candidate]).filterMap ClientEvent.used? =
          [q.key] := by
        cases gone with
        | none => rfl
        | some e => rfl
      rw [huses, Lru.keys_enter kMaxClients_pos]
      split
      · exact ho.use (List.dropLast_sublist _)
          fun hmem => hk (List.dropLast_subset _ hmem)
      · exact ho.use (List.Sublist.refl _) hk

/-- What is handed out is what the cache has for the key, before the step if
it had anything, and after it in any case. -/
theorem returned (h : CacheStep s c i c' trace) {t : Nat} {q : ClientRequest Rest}
    (hret : .returned t q client ∈ trace) :
    (∀ other, c.Has q.key other → client = other) ∧ c'.Has q.key client := by
  cases h with
  | silent => cases hret
  | refused t' q' e => simp at hret
  | used t' q' client' hhas =>
      rw [List.mem_singleton] at hret
      injection hret with _ hq hcl
      subst hq hcl
      exact ⟨fun other ho => hhas.unique ho, Lru.has_touch.mpr hhas⟩
  | admitted t' q' candidate hk gone hphase hgone =>
      obtain ⟨rfl, rfl, rfl⟩ : t = t' ∧ q = q' ∧ client = candidate := by
        simpa using hret
      refine ⟨fun other ho => absurd ho.mem hk, ?_⟩
      rw [Lru.has_enter kMaxClients_pos]
      exact .inl ⟨rfl, rfl⟩

/-- A client leaves the cache by being reported as evicted. -/
theorem kept (h : CacheStep s c i c' trace) (hhas : c.Has k client)
    (hno : ∀ gone, .evicted k gone ∉ trace) : c'.Has k client := by
  cases h with
  | silent => exact hhas
  | refused t q e => exact hhas
  | used t q client' _ => exact Lru.has_touch.mpr hhas
  | admitted t q candidate hk gone hphase hgone =>
      rw [Lru.has_enter kMaxClients_pos]
      refine .inr ⟨hhas, fun hold => hno client ?_⟩
      rw [(hgone k client).mpr ⟨hold, hhas⟩]
      simp

/-- A client comes into the cache as the candidate of a publication. -/
theorem source (h : CacheStep s c i c' trace) (hhas : c'.Has k client) :
    c.Has k client ∨ ∃ t q, s.phase t = .built q client ∧ q.key = k := by
  cases h with
  | silent => exact .inl hhas
  | refused t q e => exact .inl hhas
  | used t q client' _ => exact .inl (Lru.has_touch.mp hhas)
  | admitted t q candidate hk gone hphase hgone =>
      rw [Lru.has_enter kMaxClients_pos] at hhas
      rcases hhas with ⟨rfl, rfl⟩ | ⟨hhas, -⟩
      · exact .inr ⟨t, q, hphase, rfl⟩
      · exact .inl hhas

theorem evicted (h : CacheStep s c i c' trace)
    (hev : .evicted k client ∈ trace) :
    c.oldest = some k ∧ c.Has k client ∧ k ∉ c'.keys ∧
      ∃ t q candidate, i = .publish t ∧ s.phase t = .built q candidate ∧
        q.key ≠ k ∧ c'.Has q.key candidate := by
  cases h with
  | silent => cases hev
  | refused t q e => simp at hev
  | used t q client' _ => simp at hev
  | admitted t q candidate hk gone hphase hgone =>
      have hg : gone = some (k, client) := by
        cases gone with
        | none => simp at hev
        | some e =>
            obtain ⟨rfl, rfl⟩ : k = e.1 ∧ client = e.2 := by simpa using hev
            rfl
      obtain ⟨hold, hhas⟩ := (hgone k client).mp hg
      have hne : q.key ≠ k := by
        intro heq
        rw [heq] at hk
        exact hk hhas.mem
      refine ⟨hold, hhas, ?_, t, q, candidate, rfl, hphase, hne, ?_⟩
      · rw [Lru.mem_keys]
        rintro ⟨other, ho⟩
        rw [Lru.has_enter kMaxClients_pos] at ho
        rcases ho with ⟨heq, -⟩ | ⟨-, hno⟩
        · exact hne heq.symm
        · exact hno hold
      · rw [Lru.has_enter kMaxClients_pos]
        exact .inl ⟨rfl, rfl⟩

end CacheStep

/-! ## Runs

The cache of a run is the abstract one, step by step, and what callers were
handed is a list of uses of it. That two callers of one key get one client is
then a fact about the uses between them. -/

/-- The cache a run leaves, in the order its keys were used. -/
theorem cache_run {evs : List (ClientRec Rest)} {s : Clients Rest}
    (hr : (clients Rest).Run evs s) :
    ∃ c, Represents s.state c ∧ Ordered (uses evs) c.keys := by
  induction hr with
  | nil => exact ⟨.empty, .empty, List.Pairwise.nil⟩
  | @snoc evs s i _ _ ih =>
      obtain ⟨c, hrep, hord⟩ := ih
      obtain ⟨c', hrep', hstep⟩ := clients_step hrep i
      refine ⟨c', hrep', ?_⟩
      rw [uses, List.flatMap_append, List.flatMap_singleton]
      exact hstep.ordered hord

/-- Every record of a run is a step of the cache. -/
theorem cache_at {before after : List (ClientRec Rest)} {e : ClientRec Rest}
    {s : Clients Rest} (hr : (clients Rest).Run (before ++ e :: after) s) :
    ∃ c c', Represents e.pre.state c ∧ Ordered (uses before) c.keys ∧
      Represents e.out.state.state c' ∧
      CacheStep e.pre c e.input c' e.out.trace := by
  obtain ⟨hpre, -, hout⟩ := hr.at_split
  obtain ⟨c, hrep, hord⟩ := cache_run hpre
  obtain ⟨c', hrep', hstep⟩ := clients_step hrep e.input
  rw [hout]
  exact ⟨c, c', hrep, hord, hrep', hstep⟩

/-- The map, the list and the iterators after the uses so far. -/
structure CacheSound (used : List ClientKey) (state : ProcessState Rest) :
    Prop where
  keys : ∀ k, k ∈ state.clients ↔ k ∈ state.lru.values
  nodup : state.lru.values.Nodup
  iterator : ∀ k e, state.clients.lookup k = some e →
    ∃ it, e.lru = some it ∧ state.lru.At it k
  ordered : Ordered used state.lru.values
  size : state.clients.entries.length ≤ kMaxClients

/-- The map has the client for the key. -/
def ProcessState.Cached (state : ProcessState Rest) (k : ClientKey)
    (client : Client Rest) : Prop :=
  ∃ e, state.clients.lookup k = some e ∧ e.client = client

/-- The step published one client and evicted another: the one used least
recently, from a cache that was full. -/
structure Evicts (used : List ClientKey) (e : ClientRec Rest) (k : ClientKey)
    (client : Client Rest) : Prop where
  publishes : ∃ t q candidate, e.input = .publish t ∧
    e.pre.phase t = .built q candidate ∧ q.key ≠ k ∧
    e.out.state.state.Cached q.key candidate
  full : e.pre.state.clients.entries.length = kMaxClients
  cached : e.pre.state.Cached k client
  gone : k ∉ e.out.state.state.clients
  least : ∀ a ∈ e.pre.state.clients, a ≠ k → Since used a k

theorem Represents.cached_iff {state : ProcessState Rest} {c : ClientCache Rest}
    (h : Represents state c) {k : ClientKey} {client : Client Rest} :
    state.Cached k client ↔ c.Has k client := by
  refine ⟨fun ⟨e, he, hcl⟩ => ?_, fun hhas => h.lookup_of_has hhas⟩
  rw [← hcl]
  exact (h.entry k e he).1

theorem Represents.sound {state : ProcessState Rest} {c : ClientCache Rest}
    {used : List ClientKey} (h : Represents state c)
    (ho : Ordered used c.keys) : CacheSound used state where
  keys k := by
    rw [h.keys]
    exact h.mem_iff
  nodup := by
    rw [h.keys]
    exact c.nodup
  iterator k e he := (h.entry k e he).2
  ordered := by
    rw [h.keys]
    exact ho
  size := by
    rw [h.size]
    exact c.bound

/-- A client stays the one for its key until it is evicted. -/
theorem cached_until {before after : List (ClientRec Rest)}
    {s t : Clients Rest} {k : ClientKey} {client : Client Rest}
    (hs : (clients Rest).Run before s)
    (ht : (clients Rest).Run (before ++ after) t)
    (hno : ∀ e ∈ after, ∀ gone, .evicted k gone ∉ e.out.trace)
    (hc : s.state.Cached k client) : t.state.Cached k client := by
  refine Machine.Run.invFrom (I := fun s => s.state.Cached k client)
    (C := fun e => ∀ gone, .evicted k gone ∉ e.out.trace) ?_ hs ht hno hc
  intro evs s i hr hcached _ hstill
  obtain ⟨c, hrep, -⟩ := cache_run hr
  obtain ⟨c', hrep', hstep⟩ := clients_step hrep i
  rw [hrep'.cached_iff]
  exact hstep.kept (hrep.cached_iff.mp hcached) hstill

/-- The cache in every run of any number of threads, their steps in any order:
what it is after each step, that equal keys get one client until it is
evicted, that no candidate is handed out beside a cached client, and which
entry a publication evicts. -/
theorem client_cache {evs : List (ClientRec Rest)} {s : Clients Rest}
    (hr : (clients Rest).Run evs s) :
    CacheSound (uses evs) s.state ∧
    (∀ before e mid e' after, evs = before ++ e :: (mid ++ e' :: after) →
      ∀ t q client t' q' client', .returned t q client ∈ e.out.trace →
        .returned t' q' client' ∈ e'.out.trace → q.key = q'.key →
        (∀ m ∈ mid, ∀ gone, .evicted q.key gone ∉ m.out.trace) →
        client' = client) ∧
    (∀ e ∈ evs, ∀ t q client, .returned t q client ∈ e.out.trace →
      (∀ other, e.pre.state.Cached q.key other → client = other) ∧
        e.out.state.state.Cached q.key client) ∧
    (∀ e ∈ evs, ∀ k client, e.pre.state.Cached k client →
      e.out.state.state.Cached k client ∨ .evicted k client ∈ e.out.trace) ∧
    ∀ before e after, evs = before ++ e :: after →
      ∀ k client, .evicted k client ∈ e.out.trace →
        Evicts (uses before) e k client := by
  refine ⟨?_, ?_, ?_, ?_, ?_⟩
  · obtain ⟨c, hrep, hord⟩ := cache_run hr
    exact hrep.sound hord
  · rintro before e mid e' after rfl t q client t' q' client' hret hret' hkey hno
    obtain ⟨c, c₁, -, -, hrep₁, hstep⟩ := cache_at hr
    have hr' : (clients Rest).Run ((before ++ e :: mid) ++ e' :: after) s := by
      simpa using hr
    obtain ⟨c', c₂, hrep', -, -, hstep'⟩ := cache_at hr'
    -- from the first return on, the cache has that client for the key
    have hnow : e.out.state.state.Cached q.key client :=
      hrep₁.cached_iff.mpr (hstep.returned hret).2
    have hmid : (clients Rest).Run ((before ++ [e]) ++ mid) e'.pre := by
      simpa using hr'.at_split.1
    have hend := hr.at_split
    have hfirst : (clients Rest).Run (before ++ [e]) e.out.state := by
      have hsnoc := hend.1.snoc hend.2.1
      rw [← hend.2.2] at hsnoc
      exact hsnoc
    have hlater := cached_until hfirst hmid hno hnow
    rw [hkey] at hlater
    exact (hstep'.returned hret').1 client (hrep'.cached_iff.mp hlater)
  · intro e he t q client hret
    obtain ⟨before, after, rfl⟩ := List.append_of_mem he
    obtain ⟨c, c', hrep, -, hrep', hstep⟩ := cache_at hr
    obtain ⟨hold, hnew⟩ := hstep.returned hret
    exact ⟨fun other ho => hold other (hrep.cached_iff.mp ho),
      hrep'.cached_iff.mpr hnew⟩
  · intro e he k client hc
    obtain ⟨before, after, rfl⟩ := List.append_of_mem he
    obtain ⟨c, c', hrep, -, hrep', hstep⟩ := cache_at hr
    have hhas := hrep.cached_iff.mp hc
    by_cases hgone : ∃ gone, .evicted k gone ∈ e.out.trace
    · obtain ⟨gone, hgone⟩ := hgone
      rw [hhas.unique (hstep.evicted hgone).2.1]
      exact .inr hgone
    · exact .inl (hrep'.cached_iff.mpr
        (hstep.kept hhas fun gone hmem => hgone ⟨gone, hmem⟩))
  · rintro before e after rfl k client hev
    obtain ⟨c, c', hrep, hord, hrep', hstep⟩ := cache_at hr
    obtain ⟨hold, hhas, hout, t, q, candidate, hi, hphase, hne, hnew⟩ :=
      hstep.evicted hev
    have hfull : c.entries.length = kMaxClients := by
      by_contra hroom
      rw [Lru.oldest, if_neg hroom] at hold
      cases hold
    rw [Lru.oldest, if_pos hfull] at hold
    refine ⟨⟨t, q, candidate, hi, hphase, hne, hrep'.cached_iff.mpr hnew⟩,
      hrep.size.trans hfull, hrep.cached_iff.mpr hhas, ?_, fun a ha => ?_⟩
    · rw [hrep'.mem_iff]
      exact hout
    · exact hord.last hold a (hrep.mem_iff.mp ha)

end

namespace Bench

/-- A host with one shared profile, selected by the environment. -/
def sdk : Sdk Unit where
  getEnv v := if v = "AWS_PROFILE" then ascii "prod" else []
  getConfigProfileName := ascii "prod"
  hasCachedConfigProfile p := p = ascii "prod"
  hasCachedCredentialsProfile _ := false
  cachedConfigProfileRegion _ := ascii "eu-west-1"
  endpointSource _ _ := []
  clientConfiguration p :=
    { profileName := p.getD (ascii "prod")
      credentialProviderConfig := ⟨p.getD (ascii "prod"), ascii "eu-west-1", ()⟩
      region := ascii "eu-west-1"
      useFIPS := false
      endpointOverride := []
      rest := () }

/-- A call under a provider with that profile setting. -/
def request (profile : Option Bytes) : ClientRequest Unit where
  sdk := sdk
  provctx := ⟨none, profile, none⟩
  uri := ⟨some (ascii "alias/signer"), none, none, none⟩
  fipsRequired := false

/-- Two threads race for one client, and a third comes late. -/
def raceSteps : List (ClientStep Unit) :=
  [.lookup 0 (request none), .lookup 1 (request none), .construct 0,
    .construct 1, .publish 1, .publish 0, .lookup 2 (request none)]

theorem race_allowed : (clients Unit).AllowedAll Clients.empty raceSteps :=
  ⟨rfl, rfl, ⟨_, rfl⟩, ⟨_, rfl⟩, ⟨_, _, rfl⟩, ⟨_, _, rfl⟩, rfl, trivial⟩

/-- Which client each thread was handed, in order. -/
def handedOut (is : List (ClientStep Unit)) : List (Nat × Nat) :=
  ((clients Unit).outs .empty is).flatMap fun out => out.trace.filterMap fun
    | .returned t _ client => some (t, client.id)
    | _ => none

end Bench

theorem client_cache_race :
    CacheSound (uses ((clients Unit).records .empty Bench.raceSteps))
      ((clients Unit).drive .empty Bench.raceSteps).state ∧
    Bench.handedOut Bench.raceSteps = [(1, 1), (0, 1), (2, 1)] :=
  ⟨(client_cache (Machine.run_records Bench.race_allowed)).1,
    by decide +kernel⟩

end AwsKms.Model
