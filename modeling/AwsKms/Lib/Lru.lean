import Mathlib.Data.List.Nodup
import AwsKms.Lib.NodeList

/-!
# A cache that forgets what was used least recently

What such a cache is for, with nothing of how it is kept: a list of entries,
the most recently used one first, never more of them than fit. `touch` uses
an entry, `enter` puts a new one in front and lets the last one go when there
is no room for both.

Its order means something only beside a history. `Since uses a b` says of the
keys used so far that `a` was used after the last use of `b`, and `Ordered`
that a list of keys is in the order of their last uses. Using a key and
bringing it to the front keeps that, whatever else falls out of the list.
-/

namespace AwsKms.Lib

structure Lru (κ ν : Type) (cap : Nat) where
  entries : List (κ × ν)
  nodup : (entries.map Prod.fst).Nodup
  bound : entries.length ≤ cap

namespace Lru

variable {κ ν : Type} {cap : Nat}

def empty : Lru κ ν cap := ⟨[], by simp, by simp⟩

def keys (c : Lru κ ν cap) : List κ := c.entries.map Prod.fst

/-- The cache has the value `v` for the key `k`. -/
def Has (c : Lru κ ν cap) (k : κ) (v : ν) : Prop := (k, v) ∈ c.entries

theorem Has.mem {c : Lru κ ν cap} {k : κ} {v : ν} (h : c.Has k v) :
    k ∈ c.keys := List.mem_map_of_mem h

theorem mem_keys {c : Lru κ ν cap} {k : κ} :
    k ∈ c.keys ↔ ∃ v, c.Has k v := by
  simp [keys, Has]

theorem Has.unique {c : Lru κ ν cap} {k : κ} {v w : ν} (hv : c.Has k v)
    (hw : c.Has k w) : v = w :=
  congrArg Prod.snd (List.inj_on_of_nodup_map c.nodup hv hw rfl)

section

variable [DecidableEq κ]

def touch (c : Lru κ ν cap) (k : κ) : Lru κ ν cap where
  entries := toFront (fun e => e.1 == k) c.entries
  nodup := ((toFront_perm.map Prod.fst).nodup_iff).mpr c.nodup
  bound := by
    rw [toFront_perm.length_eq]
    exact c.bound

theorem has_touch {c : Lru κ ν cap} {k l : κ} {v : ν} :
    (c.touch k).Has l v ↔ c.Has l v := mem_toFront

theorem keys_touch {c : Lru κ ν cap} {k : κ} (hk : k ∈ c.keys) :
    (c.touch k).keys = k :: c.keys.erase k := by
  obtain ⟨v, hv⟩ := mem_keys.mp hk
  exact (map_toFront c.nodup hv fun e _ => beq_iff_eq).2

end

/-- A new entry in front of what there is room for. -/
def enter (c : Lru κ ν cap) (k : κ) (v : ν) (hk : k ∉ c.keys) :
    Lru κ ν cap where
  entries := ((k, v) :: c.entries).take cap
  nodup := by
    have hall : (((k, v) :: c.entries).map Prod.fst).Nodup :=
      List.nodup_cons.mpr ⟨hk, c.nodup⟩
    exact hall.sublist ((List.take_sublist _ _).map _)
  bound := List.length_take_le _ _

/-- The key that has to go before one more can come in. -/
def oldest (c : Lru κ ν cap) : Option κ :=
  if c.entries.length = cap then c.keys.getLast? else none

/-- What stays when one more entry comes in. -/
theorem enter_entries {c : Lru κ ν cap} {k : κ} {v : ν} (hcap : 0 < cap)
    (hk : k ∉ c.keys) : (c.enter k v hk).entries = (k, v) ::
      if c.entries.length = cap then c.entries.dropLast else c.entries := by
  show ((k, v) :: c.entries).take cap = _
  rw [List.take_cons hcap]
  split
  · next hfull =>
      rw [List.dropLast_eq_take, hfull]
  · next hroom =>
      have hle : c.entries.length ≤ cap - 1 := by
        have hb := c.bound
        omega
      rw [List.take_of_length_le hle]

theorem keys_enter {c : Lru κ ν cap} {k : κ} {v : ν} (hcap : 0 < cap)
    (hk : k ∉ c.keys) : (c.enter k v hk).keys = k ::
      if c.entries.length = cap then c.keys.dropLast else c.keys := by
  rw [keys, enter_entries hcap, List.map_cons, keys]
  split
  · rw [List.map_dropLast]
  · rfl

/-- What stays once there is room for one more entry. -/
def room (c : Lru κ ν cap) : Lru κ ν cap where
  entries := if c.entries.length = cap then c.entries.dropLast else c.entries
  nodup := by
    split
    · exact c.nodup.sublist ((List.dropLast_sublist _).map _)
    · exact c.nodup
  bound := by
    have hb := c.bound
    split
    · rw [List.length_dropLast]
      omega
    · exact hb

theorem room_entries {c : Lru κ ν cap} : c.room.entries =
    if c.entries.length = cap then c.entries.dropLast else c.entries := rfl

theorem keys_room {c : Lru κ ν cap} : c.room.keys =
    if c.entries.length = cap then c.keys.dropLast else c.keys := by
  rw [keys, room_entries]
  split
  · rw [List.map_dropLast, keys]
  · rfl

/-- Making room loses the oldest entry and no other. -/
theorem has_room {c : Lru κ ν cap} {l : κ} {w : ν} (hcap : 0 < cap) :
    c.room.Has l w ↔ c.Has l w ∧ c.oldest ≠ some l := by
  have hkeys : c.keys.Nodup := c.nodup
  rw [Has, room_entries, oldest]
  split
  · next hfull =>
      rcases List.eq_nil_or_concat c.entries with hnil | ⟨rest, last, hcat⟩
      · rw [hnil, List.length_nil] at hfull
        omega
      · rw [List.concat_eq_append] at hcat
        rw [keys, hcat, List.map_append, List.nodup_append] at hkeys
        rw [Has, keys, hcat, List.dropLast_concat, List.mem_append]
        have hlast : ((rest ++ [last]).map Prod.fst).getLast? = some last.1 := by
          simp
        rw [hlast, List.mem_singleton]
        refine ⟨fun hmem => ⟨.inl hmem, fun heq => ?_⟩, fun ⟨hmem, hne⟩ => ?_⟩
        · have hl := List.mem_map_of_mem (f := Prod.fst) hmem
          exact hkeys.2.2 l hl last.1 (by simp) (Option.some.inj heq).symm
        · refine hmem.resolve_right fun heq => hne ?_
          rw [← heq]
  · simp [Has]

/-- Letting the last entry go loses that entry and no other. -/
theorem has_enter {c : Lru κ ν cap} {k l : κ} {v w : ν} (hcap : 0 < cap)
    (hk : k ∉ c.keys) :
    (c.enter k v hk).Has l w ↔ (l = k ∧ w = v) ∨
      (c.Has l w ∧ c.oldest ≠ some l) := by
  rw [← has_room hcap, Has, Has, enter_entries hcap, room_entries, List.mem_cons,
    Prod.mk.injEq]

end Lru

section

variable {κ : Type}

/-- Among the keys used so far, `a` was used after the last use of `b`. -/
def Since (uses : List κ) (a b : κ) : Prop :=
  ∃ before after, uses = before ++ a :: after ∧ b ∉ after

/-- The keys stand in the order of their last uses, the latest first. -/
def Ordered (uses l : List κ) : Prop := l.Pairwise (Since uses)

theorem Since.later {uses : List κ} {a b k : κ} (h : Since uses a b)
    (hb : b ≠ k) : Since (uses ++ [k]) a b := by
  obtain ⟨before, after, rfl, hno⟩ := h
  refine ⟨before, after ++ [k], by simp, ?_⟩
  rw [List.mem_append, List.mem_singleton]
  rintro (hmem | rfl)
  · exact hno hmem
  · exact hb rfl

/-- Using a key and bringing it to the front, with any of the others left. -/
theorem Ordered.use {uses l m : List κ} {k : κ} (h : Ordered uses l)
    (hm : m.Sublist l) (hk : k ∉ m) : Ordered (uses ++ [k]) (k :: m) := by
  have hrest : m.Pairwise (Since uses) := h.sublist hm
  refine List.pairwise_cons.mpr ⟨fun b _ => ⟨uses, [], rfl, by simp⟩, ?_⟩
  refine hrest.imp_of_mem fun {a b} _ hb hab => hab.later ?_
  rintro rfl
  exact hk hb

/-- The last of the list is the one used least recently. -/
theorem Ordered.last {uses l : List κ} {k : κ} (h : Ordered uses l)
    (hk : l.getLast? = some k) : ∀ a ∈ l, a ≠ k → Since uses a k := by
  obtain ⟨rest, rfl⟩ := List.getLast?_eq_some_iff.mp hk
  intro a ha hne
  rw [List.mem_append, List.mem_singleton] at ha
  have hpair := List.pairwise_append.mp h
  exact hpair.2.2 a (ha.resolve_right hne) k (by simp)

end

end AwsKms.Lib
