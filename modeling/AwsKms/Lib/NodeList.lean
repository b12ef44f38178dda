import Mathlib.Data.List.Nodup

/-!
# Linked lists and their iterators

A `std::list` keeps each element in a node of its own. Splicing a node to
another place in the list does not change which node it is, so an iterator
kept elsewhere goes on naming the same element; `push_front` makes a node no
iterator names yet. Here a node is a number that is never given out twice,
and an iterator is such a number, or `none` for `end()`.

`toFront` is the list function under `splice`, and under any other operation
that brings one element to the front and leaves the rest in order.
-/

namespace AwsKms.Lib

section

variable {α β : Type}

/-- The elements that satisfy `p` first, and the rest in the old order. -/
def toFront (p : α → Bool) (l : List α) : List α :=
  l.filter p ++ l.filter fun a => !p a

theorem mem_toFront {p : α → Bool} {l : List α} {a : α} :
    a ∈ toFront p l ↔ a ∈ l := by
  rw [toFront, List.mem_append, List.mem_filter, List.mem_filter]
  cases p a with
  | false => simp
  | true => simp

theorem toFront_perm {p : α → Bool} {l : List α} : (toFront p l).Perm l :=
  List.filter_append_perm p l

/-- Bringing one element to the front, seen through a function that tells the
elements apart. -/
theorem map_toFront [DecidableEq β] {f : α → β} {p : α → Bool} {l : List α}
    {a : α} (hl : (l.map f).Nodup) (ha : a ∈ l)
    (hp : ∀ b ∈ l, p b = true ↔ f b = f a) :
    toFront p l = a :: l.filter (fun b => !p b) ∧
      (toFront p l).map f = f a :: (l.map f).erase (f a) := by
  have hone : l.filter p = [a] := by
    have hinj := List.inj_on_of_nodup_map hl
    have hnd : (l.filter p).Nodup := hl.of_map.filter p
    have hall : ∀ b ∈ l.filter p, b = a := by
      intro b hb
      rw [List.mem_filter] at hb
      exact hinj hb.1 ha ((hp b hb.1).mp hb.2)
    have hmem : a ∈ l.filter p := List.mem_filter.mpr ⟨ha, (hp a ha).mpr rfl⟩
    cases hf : l.filter p with
    | nil =>
        rw [hf] at hmem
        cases hmem
    | cons b rest =>
        rw [hf] at hnd hall
        obtain rfl := hall b List.mem_cons_self
        cases rest with
        | nil => rfl
        | cons c rest =>
            have hc := hall c (by simp)
            rw [List.nodup_cons] at hnd
            exact absurd (hc ▸ List.mem_cons_self) hnd.1
  have hrest : (l.filter fun b => !p b).map f = (l.map f).erase (f a) := by
    rw [hl.erase_eq_filter, List.filter_map]
    refine congrArg (List.map f) (List.filter_congr fun b hb => ?_)
    have hb := hp b hb
    rw [Bool.eq_iff_iff]
    simp [← hb]
  refine ⟨?_, ?_⟩
  · rw [toFront, hone, List.singleton_append]
  · rw [toFront, hone, List.singleton_append, List.map_cons, hrest]

end

/-- A doubly linked list, as its nodes in order. -/
structure NodeList (α : Type) where
  nodes : List (Nat × α)
  next : Nat
  fresh : ∀ n ∈ nodes, n.1 < next
  nodup : (nodes.map Prod.fst).Nodup

namespace NodeList

variable {α : Type}

def empty : NodeList α := ⟨[], 0, by simp, by simp⟩

/-- The elements in order. -/
def values (l : NodeList α) : List α := l.nodes.map Prod.snd

/-- The iterator `it` names a node of the list, and the node holds `a`. -/
def At (l : NodeList α) (it : Nat) (a : α) : Prop := (it, a) ∈ l.nodes

def begin (l : NodeList α) : Option Nat := l.nodes.head?.map Prod.fst

/-- `none` for an empty list, where `back()` may not be called. -/
def back (l : NodeList α) : Option α := l.values.getLast?

def pushFront (l : NodeList α) (a : α) : NodeList α where
  nodes := (l.next, a) :: l.nodes
  next := l.next + 1
  fresh := by
    intro n hn
    rcases List.mem_cons.mp hn with rfl | hn
    · exact Nat.lt_succ_self _
    · exact Nat.lt_succ_of_lt (l.fresh n hn)
  nodup := by
    rw [List.map_cons, List.nodup_cons]
    refine ⟨fun hmem => ?_, l.nodup⟩
    obtain ⟨n, hn, heq⟩ := List.mem_map.mp hmem
    have hlt := l.fresh n hn
    omega

def popBack (l : NodeList α) : NodeList α where
  nodes := l.nodes.dropLast
  next := l.next
  fresh := fun n hn => l.fresh n (List.dropLast_subset _ hn)
  nodup := l.nodup.sublist (l.nodes.dropLast_sublist.map _)

/-- `l.splice(l.begin(), l, it)`; there is no splicing `end()`. -/
def splice (l : NodeList α) : Option Nat → NodeList α
  | none => l
  | some it =>
    { nodes := toFront (fun n => n.1 == it) l.nodes
      next := l.next
      fresh := fun n hn => l.fresh n (mem_toFront.mp hn)
      nodup := ((toFront_perm.map Prod.fst).nodup_iff).mpr l.nodup }

theorem at_pushFront {l : NodeList α} {a b : α} {it : Nat} :
    (l.pushFront a).At it b ↔ (it = l.next ∧ b = a) ∨ l.At it b := by
  simp [At, pushFront]

theorem at_splice {l : NodeList α} {it' : Option Nat} {it : Nat} {a : α} :
    (l.splice it').At it a ↔ l.At it a := by
  cases it' with
  | none => rfl
  | some it' => exact mem_toFront

theorem values_pushFront {l : NodeList α} {a : α} :
    (l.pushFront a).values = a :: l.values := rfl

theorem begin_pushFront {l : NodeList α} {a : α} :
    (l.pushFront a).begin = some l.next := rfl

theorem values_popBack {l : NodeList α} :
    l.popBack.values = l.values.dropLast := by
  rw [values, values, popBack, List.map_dropLast]

theorem mem_values {l : NodeList α} {a : α} :
    a ∈ l.values ↔ ∃ it, l.At it a := by
  simp [values, At]

theorem At.mem {l : NodeList α} {it : Nat} {a : α} (h : l.At it a) :
    a ∈ l.values := mem_values.mpr ⟨it, h⟩

/-- Only the last element loses its node. -/
theorem At.popBack {l : NodeList α} {it : Nat} {a : α} (h : l.At it a)
    (hl : l.back ≠ some a) : l.popBack.At it a := by
  show (it, a) ∈ l.nodes.dropLast
  unfold At at h
  rcases List.eq_nil_or_concat l.nodes with hnil | ⟨nodes, last, hcat⟩
  · rw [hnil] at h
    cases h
  · rw [List.concat_eq_append] at hcat
    rw [hcat, List.mem_append, List.mem_singleton] at h
    rw [hcat, List.dropLast_concat]
    refine h.resolve_right fun heq => hl ?_
    rw [back, values, hcat, ← heq]
    simp

/-- Splicing the node of `a` brings `a`, and nothing else, to the front. -/
theorem At.splice [DecidableEq α] {l : NodeList α} {it : Nat} {a : α}
    (h : l.At it a) (hl : l.values.Nodup) :
    (l.splice (some it)).values = a :: l.values.erase a ∧
      (l.splice (some it)).begin = some it := by
  have hid := List.inj_on_of_nodup_map l.nodup
  have hval := List.inj_on_of_nodup_map hl
  obtain ⟨hnodes, hvalues⟩ := map_toFront (p := fun n => n.1 == it) hl h
    fun n hn => by
      rw [beq_iff_eq]
      refine ⟨fun heq => ?_, fun heq => ?_⟩
      · rw [hid hn h heq]
      · rw [hval hn h heq]
  refine ⟨hvalues, ?_⟩
  exact congrArg (fun nodes => nodes.head?.map Prod.fst) hnodes

end NodeList

end AwsKms.Lib
