import MemoryGovernor.Lib.Machine
import Mathlib.Data.List.Nodup
import Mathlib.Order.Nat

/-!
# Least recently used, as a recency list

The abstract LRU cache: one list of keys with their values, most recently used first, without
duplicate keys. A hit or a write moves its key to the front, a new key pushes the last pair out of a
full list, and a smaller bound keeps the front of the list. `Cache` carries the absence of
duplicates as a field, so each operation shows it once.

Two caches that serve the same requests, the second with at least the capacity of the first, stay
*included* (`Included`): the first list is a sublist of the second, so the same keys in the same
order with the same values, and the first list is either full or the whole of the second. The
second part is what carries the first through an eviction, and `included_get`, `included_put` and
`included_resize` show that every request keeps both, so that every run does (`run_included`).

A list stays within its capacity except through a write at capacity zero, where there is no last
pair to push out: `run_within_iff`.
-/

namespace Recency

variable {K V : Type*}

/-! ## Lists of pairs with distinct keys -/

/-- The keys of a list of pairs. -/
def keys (l : List (K × V)) : List K := l.map Prod.fst

@[simp] theorem keys_nil : keys ([] : List (K × V)) = [] := rfl

@[simp] theorem keys_cons (e : K × V) (l : List (K × V)) : keys (e :: l) = e.1 :: keys l := rfl

@[simp] theorem keys_append (l r : List (K × V)) : keys (l ++ r) = keys l ++ keys r := by
  simp [keys]

/-- A key occurs exactly when some pair has it. -/
theorem mem_keys {k : K} {l : List (K × V)} : k ∈ keys l ↔ ∃ v, (k, v) ∈ l := by
  simp [keys]

section Lookup

variable [DecidableEq K]

/-- The value of a key, at its first occurrence. -/
def find (k : K) (l : List (K × V)) : Option V := (l.find? fun e => e.1 = k).map Prod.snd

/-- The list without the pairs of a key. -/
def remove (k : K) (l : List (K × V)) : List (K × V) := l.filter fun e => e.1 ≠ k

/-- A key has no value exactly when it does not occur. -/
theorem find_eq_none {k : K} {l : List (K × V)} : find k l = none ↔ k ∉ keys l := by
  simp only [find, Option.map_eq_none_iff, List.find?_eq_none, decide_eq_true_eq, mem_keys,
    not_exists, Prod.forall]
  exact ⟨fun h v hv => h k v hv rfl, fun h k' v hv e => h v (e ▸ hv)⟩

/-- Among distinct keys, the value of a key is the one it is paired with. -/
theorem find_eq_some {k : K} {v : V} {l : List (K × V)} (hl : (keys l).Nodup) :
    find k l = some v ↔ (k, v) ∈ l := by
  induction l with
  | nil => simp [find]
  | cons e l ih =>
    obtain ⟨hnot, hl'⟩ := List.nodup_cons.1 hl
    by_cases hk : e.1 = k
    · have hfind : find k (e :: l) = some e.2 := by simp [find, hk]
      rw [hfind]
      constructor
      · intro h
        obtain rfl := Option.some.inj h
        rw [← hk]
        exact List.mem_cons_self
      · intro h
        rcases List.mem_cons.1 h with rfl | h
        · rfl
        · exact absurd (mem_keys.2 ⟨v, hk ▸ h⟩) hnot
    · have hfind : find k (e :: l) = find k l := by simp [find, hk]
      rw [hfind, ih hl']
      constructor
      · exact List.mem_cons_of_mem e
      · intro h
        rcases List.mem_cons.1 h with rfl | h
        · exact absurd rfl hk
        · exact h

/-- The removed key is gone. -/
theorem notMem_keys_remove (k : K) (l : List (K × V)) : k ∉ keys (remove k l) := by
  simp [mem_keys, remove]

/-- Removing a key that does not occur changes nothing. -/
theorem remove_of_notMem {k : K} {l : List (K × V)} (h : k ∉ keys l) : remove k l = l := by
  refine List.filter_eq_self.2 fun e he => ?_
  exact decide_eq_true fun hk => h (mem_keys.2 ⟨e.2, by rw [← hk]; exact he⟩)

/-- Removal keeps the keys distinct. -/
theorem nodup_keys_remove (k : K) {l : List (K × V)} (hl : (keys l).Nodup) :
    (keys (remove k l)).Nodup :=
  hl.sublist (List.filter_sublist.map Prod.fst)

/-- Putting a key in front of a list without it keeps the keys distinct. -/
theorem nodup_keys_touch (k : K) (v : V) {l : List (K × V)} (hl : (keys l).Nodup) :
    (keys ((k, v) :: remove k l)).Nodup :=
  List.nodup_cons.2 ⟨notMem_keys_remove k l, nodup_keys_remove k hl⟩

/-- Among distinct keys, removal takes out the one pair of the key. -/
theorem remove_append_cons {k : K} {v : V} {l r : List (K × V)}
    (hn : (keys (l ++ (k, v) :: r)).Nodup) : remove k (l ++ (k, v) :: r) = l ++ r := by
  rw [keys_append, keys_cons, List.nodup_append, List.nodup_cons] at hn
  obtain ⟨-, ⟨hr, -⟩, hdisj⟩ := hn
  have hl : k ∉ keys l := fun h => hdisj k h k (by simp) rfl
  have hsplit : remove k (l ++ (k, v) :: r) = remove k l ++ remove k r := by simp [remove]
  rw [hsplit, remove_of_notMem hl, remove_of_notMem hr]

/-- Among distinct keys, moving a key to the front keeps the length. -/
theorem length_touch {k : K} {v w : V} {l : List (K × V)} (hl : (keys l).Nodup)
    (hk : (k, w) ∈ l) : ((k, v) :: remove k l).length = l.length := by
  obtain ⟨l₁, l₂, rfl⟩ := List.append_of_mem hk
  calc ((k, v) :: remove k (l₁ ++ (k, w) :: l₂)).length = (l₁ ++ l₂).length + 1 := by
        rw [remove_append_cons hl, List.length_cons]
    _ = (l₁ ++ (k, w) :: l₂).length := by
        simp only [List.length_cons, List.length_append]
        omega

end Lookup

/-! ## The cache -/

/-- A cache of bounded size: its pairs, most recently used first, and its hit and miss counts. -/
structure Cache (K V : Type*) where
  capacity : ℕ
  entries : List (K × V)
  /-- No key occurs twice. -/
  nodup_keys : (keys entries).Nodup
  hits : ℕ
  misses : ℕ

/-- The operations of a cache. -/
inductive Op (K V : Type*)
  | get (k : K)
  | put (k : K) (v : V)
  | resize (n : ℕ)
  | evictTo (n : ℕ)
  | resetStats
deriving DecidableEq, Repr

/-- What a caller sees of an operation: the answer of a lookup (a value or a miss), and the size,
the capacity and the counts after it. -/
structure Observation (V : Type*) where
  answer : Option (Option V)
  size : ℕ
  capacity : ℕ
  hits : ℕ
  misses : ℕ
deriving DecidableEq, Repr

namespace Cache

/-- The empty cache. -/
def empty (K V : Type*) (capacity : ℕ) : Cache K V := ⟨capacity, [], List.nodup_nil, 0, 0⟩

/-- Keep the `n` most recently used pairs. -/
def evictTo (c : Cache K V) (n : ℕ) : Cache K V :=
  { c with
    entries := c.entries.take n
    nodup_keys := c.nodup_keys.sublist ((List.take_sublist n _).map Prod.fst) }

/-- Change the capacity and keep at most that many pairs. -/
def resize (c : Cache K V) (n : ℕ) : Cache K V := evictTo { c with capacity := n } n

/-- Forget the counts. -/
def resetStats (c : Cache K V) : Cache K V := { c with hits := 0, misses := 0 }

/-- The pairs that stay when a new one comes in: a full list loses its last. -/
def room (c : Cache K V) : List (K × V) :=
  if c.entries.length = c.capacity then c.entries.dropLast else c.entries

/-- The pairs that stay are among the pairs, in order. -/
theorem room_sublist (c : Cache K V) : c.room.Sublist c.entries := by
  unfold room
  split_ifs
  · exact List.dropLast_sublist _
  · exact List.Sublist.refl _

/-- The number of pairs that stay: one less than the capacity in a full list. -/
theorem room_length (c : Cache K V) :
    c.room.length = if c.entries.length = c.capacity then c.capacity - 1 else c.entries.length := by
  unfold room
  split_ifs with h
  · rw [List.length_dropLast, h]
  · rfl

/-- A key that does not occur can be put in front of the pairs that stay. -/
theorem nodup_keys_room {c : Cache K V} {k : K} (v : V) (hk : k ∉ keys c.entries) :
    (keys ((k, v) :: c.room)).Nodup :=
  List.nodup_cons.2 ⟨fun h => hk ((c.room_sublist.map Prod.fst).subset h),
    c.nodup_keys.sublist (c.room_sublist.map Prod.fst)⟩

/-- A change of capacity keeps as many pairs as it allows. -/
@[simp]
theorem resize_length (c : Cache K V) (n : ℕ) :
    (c.resize n).entries.length = min n c.entries.length := by
  simp [resize, evictTo]

/-- What a caller sees of a cache after an operation with answer `a`. -/
def observe (a : Option (Option V)) (c : Cache K V) : Observation V :=
  ⟨a, c.entries.length, c.capacity, c.hits, c.misses⟩

section Requests

variable [DecidableEq K]

/-- Look a key up: a hit moves it to the front, a miss only counts. -/
def get (c : Cache K V) (k : K) : Option V × Cache K V :=
  match find k c.entries with
  | some v => (some v, { c with
      entries := (k, v) :: remove k c.entries
      nodup_keys := nodup_keys_touch k v c.nodup_keys
      hits := c.hits + 1 })
  | none => (none, { c with misses := c.misses + 1 })

/-- Write a key: a known key gets the value and moves to the front, a new one is put in front of
the pairs that stay. -/
def put (c : Cache K V) (k : K) (v : V) : Cache K V :=
  if hk : k ∈ keys c.entries then
    { c with
      entries := (k, v) :: remove k c.entries
      nodup_keys := nodup_keys_touch k v c.nodup_keys }
  else
    { c with
      entries := (k, v) :: c.room
      nodup_keys := nodup_keys_room v hk }

/-- One operation on the recency list. It is always defined. -/
def step (c : Cache K V) : Op K V → Option (Observation V × Cache K V)
  | .get k => some (observe (some (c.get k).1) (c.get k).2, (c.get k).2)
  | .put k v => some (observe none (c.put k v), c.put k v)
  | .resize n => some (observe none (c.resize n), c.resize n)
  | .evictTo n => some (observe none (c.evictTo n), c.evictTo n)
  | .resetStats => some (observe none c.resetStats, c.resetStats)

/-- A lookup that hits, as one equation. -/
theorem get_of_find {c : Cache K V} {k : K} {v : V} (h : find k c.entries = some v) :
    c.get k = (some v, { c with
      entries := (k, v) :: remove k c.entries
      nodup_keys := nodup_keys_touch k v c.nodup_keys
      hits := c.hits + 1 }) := by
  simp only [get, h]

/-- A lookup that misses, as one equation. -/
theorem get_of_notMem {c : Cache K V} {k : K} (h : k ∉ keys c.entries) :
    c.get k = (none, { c with misses := c.misses + 1 }) := by
  simp only [get, find_eq_none.2 h]

@[simp]
theorem get_capacity (c : Cache K V) (k : K) : (c.get k).2.capacity = c.capacity := by
  unfold get
  split <;> rfl

@[simp]
theorem put_capacity (c : Cache K V) (k : K) (v : V) : (c.put k v).capacity = c.capacity := by
  unfold put
  split <;> rfl

@[simp]
theorem put_misses (c : Cache K V) (k : K) (v : V) : (c.put k v).misses = c.misses := by
  unfold put
  split <;> rfl

@[simp]
theorem put_hits (c : Cache K V) (k : K) (v : V) : (c.put k v).hits = c.hits := by
  unfold put
  split <;> rfl

/-- A lookup keeps the number of pairs. -/
@[simp]
theorem get_length (c : Cache K V) (k : K) :
    (c.get k).2.entries.length = c.entries.length := by
  unfold get
  split
  · next v h => exact length_touch c.nodup_keys ((find_eq_some c.nodup_keys).1 h)
  · rfl

/-- The pairs after a write of a known key. -/
theorem put_entries_of_mem {c : Cache K V} {k : K} (v : V) (h : k ∈ keys c.entries) :
    (c.put k v).entries = (k, v) :: remove k c.entries := by
  rw [put, dif_pos h]

/-- The pairs after a write of a new key. -/
theorem put_entries_of_notMem {c : Cache K V} {k : K} (v : V) (h : k ∉ keys c.entries) :
    (c.put k v).entries = (k, v) :: c.room := by
  rw [put, dif_neg h]

/-- A write of a known key keeps the number of pairs. -/
theorem put_length_of_mem {c : Cache K V} {k : K} (v : V) (h : k ∈ keys c.entries) :
    (c.put k v).entries.length = c.entries.length := by
  obtain ⟨w, hw⟩ := mem_keys.1 h
  rw [put_entries_of_mem v h]
  exact length_touch c.nodup_keys hw

/-- A write of a new key adds one to the pairs that stay. -/
theorem put_length_of_notMem {c : Cache K V} {k : K} (v : V) (h : k ∉ keys c.entries) :
    (c.put k v).entries.length = c.room.length + 1 := by
  rw [put_entries_of_notMem v h, List.length_cons]

/-- A write leaves a pair. -/
theorem put_length_pos (c : Cache K V) (k : K) (v : V) : 0 < (c.put k v).entries.length := by
  by_cases h : k ∈ keys c.entries
  · rw [put_entries_of_mem v h]
    exact Nat.succ_pos _
  · rw [put_entries_of_notMem v h]
    exact Nat.succ_pos _

/-- A write never makes the list shorter. -/
theorem le_put_length (c : Cache K V) (k : K) (v : V) :
    c.entries.length ≤ (c.put k v).entries.length := by
  by_cases h : k ∈ keys c.entries
  · exact (put_length_of_mem v h).ge
  · rw [put_length_of_notMem v h, room_length]
    split_ifs <;> omega

/-- Within a positive capacity a write stays within it. -/
theorem put_length_le (c : Cache K V) (k : K) (v : V) (hpos : 0 < c.capacity)
    (hle : c.entries.length ≤ c.capacity) : (c.put k v).entries.length ≤ c.capacity := by
  by_cases h : k ∈ keys c.entries
  · exact (put_length_of_mem v h).le.trans hle
  · rw [put_length_of_notMem v h, room_length]
    split_ifs <;> omega

end Requests

end Cache

/-! ## Inclusion -/

/-- Dropping the last element of two lists keeps the first a sublist of the second. -/
theorem sublist_dropLast {l r : List (K × V)} (h : l.Sublist r) :
    l.dropLast.Sublist r.dropLast := by
  have htail := h.reverse.tail.reverse
  rwa [List.tail_reverse, List.tail_reverse, List.reverse_reverse, List.reverse_reverse] at htail

/-- `a` is included in `b`, which has at least its capacity: its list is a sublist of `b`'s, and is
full or the whole of it. The bounds and the hit counts come along. -/
structure Included (a b : Cache K V) : Prop where
  sublist : a.entries.Sublist b.entries
  full_or_eq : a.entries.length = a.capacity ∨ a.entries = b.entries
  le_capacity : a.entries.length ≤ a.capacity
  le_capacity' : b.entries.length ≤ b.capacity
  pos : 0 < a.capacity
  capacity_le : a.capacity ≤ b.capacity
  hits_le : a.hits ≤ b.hits

/-- Two empty caches, the second with at least the positive capacity of the first, are included. -/
theorem included_empty {m n : ℕ} (hm : 0 < m) (hmn : m ≤ n) :
    Included (Cache.empty K V m) (Cache.empty K V n) :=
  ⟨List.Sublist.refl _, Or.inr rfl, Nat.zero_le _, Nat.zero_le _, hm, hmn, Nat.le_refl _⟩

section Inclusion

variable {a b : Cache K V}

/-- A key of the included list is a key of the other. -/
theorem Included.mem_keys {k : K} (h : Included a b) (hk : k ∈ keys a.entries) :
    k ∈ keys b.entries :=
  (h.sublist.map Prod.fst).subset hk

/-- A key of the other list that is missing from the included one shows that it is full. -/
theorem Included.full {k : K} (h : Included a b) (hb : k ∈ keys b.entries)
    (ha : k ∉ keys a.entries) : a.entries.length = a.capacity :=
  h.full_or_eq.resolve_right fun e => ha (e ▸ hb)

/-- What stays in the smaller cache for a new key is a sublist of what stays in the larger one:
when the larger one is full so is the smaller, and both lose their last pair. -/
theorem included_room (h : Included a b) : a.room.Sublist b.room := by
  unfold Cache.room
  split_ifs with ha hb hb
  · exact sublist_dropLast h.sublist
  · exact (List.dropLast_sublist _).trans h.sublist
  · -- If the smaller list is not full it is the whole of the larger, which then is not full either.
    have heq := h.full_or_eq.resolve_left ha
    have hle := h.le_capacity
    have hcap := h.capacity_le
    rw [← heq] at hb
    omega
  · exact h.sublist

/-- A positive capacity no larger than before for the smaller cache keeps the inclusion. -/
theorem included_resize (h : Included a b) {n : ℕ} (hn : 0 < n) (hle : n ≤ a.capacity) :
    Included (a.resize n) b := by
  refine ⟨(List.take_sublist n _).trans h.sublist, ?_, ?_, h.le_capacity', hn,
    hle.trans h.capacity_le, h.hits_le⟩
  · -- Either the new capacity cuts the list to a full one, or nothing is cut.
    rcases le_or_gt n a.entries.length with hlen | hlen
    · exact Or.inl ((a.resize_length n).trans (Nat.min_eq_left hlen))
    · have heq := h.full_or_eq.resolve_left (by omega)
      exact Or.inr ((List.take_of_length_le hlen.le).trans heq)
  · exact (a.resize_length n).trans_le (Nat.min_le_left _ _)

variable [DecidableEq K]

/-- A value found in the included list is found in the other. -/
theorem Included.find {k : K} {v : V} (h : Included a b) (hv : find k a.entries = some v) :
    Recency.find k b.entries = some v :=
  (find_eq_some b.nodup_keys).2 (h.sublist.subset ((find_eq_some a.nodup_keys).1 hv))

/-- A key that only the larger cache holds leaves the smaller list a sublist of the larger one
without it. -/
theorem Included.sublist_remove {k : K} (h : Included a b) (ha : k ∉ keys a.entries) :
    a.entries.Sublist (remove k b.entries) := by
  have hsub : (remove k a.entries).Sublist (remove k b.entries) := h.sublist.filter _
  rwa [remove_of_notMem ha] at hsub

/-- A lookup keeps the inclusion: a key of both moves to the front of both, and a key of the larger
cache alone leaves the full smaller one as it is. -/
theorem included_get (h : Included a b) (k : K) : Included (a.get k).2 (b.get k).2 := by
  have hcap : (a.get k).2.entries.length ≤ (a.get k).2.capacity := by
    simpa using h.le_capacity
  have hcap' : (b.get k).2.entries.length ≤ (b.get k).2.capacity := by
    simpa using h.le_capacity'
  -- The key is in both, in the larger one only, or in neither.
  by_cases ha : k ∈ keys a.entries
  · obtain ⟨v, hv⟩ := mem_keys.1 ha
    have hfa : find k a.entries = some v := (find_eq_some a.nodup_keys).2 hv
    rw [Cache.get_of_find hfa] at hcap ⊢
    rw [Cache.get_of_find (h.find hfa)] at hcap' ⊢
    refine ⟨(h.sublist.filter _).cons_cons _, ?_, hcap, hcap', h.pos, h.capacity_le,
      Nat.add_le_add_right h.hits_le 1⟩
    exact h.full_or_eq.imp (length_touch a.nodup_keys hv).trans fun e => by simp only [e]
  · rw [Cache.get_of_notMem ha] at hcap ⊢
    by_cases hb : k ∈ keys b.entries
    · obtain ⟨v, hv⟩ := mem_keys.1 hb
      rw [Cache.get_of_find ((find_eq_some b.nodup_keys).2 hv)] at hcap' ⊢
      exact ⟨(h.sublist_remove ha).cons _, Or.inl (h.full hb ha), hcap, hcap', h.pos,
        h.capacity_le, h.hits_le.trans (Nat.le_succ _)⟩
    · rw [Cache.get_of_notMem hb] at hcap' ⊢
      exact ⟨h.sublist, h.full_or_eq, hcap, hcap', h.pos, h.capacity_le, h.hits_le⟩

/-- The lists after a write: the key is in both, in the larger one only, or in neither. -/
theorem included_put_sublist (h : Included a b) (k : K) (v : V) :
    (a.put k v).entries.Sublist (b.put k v).entries := by
  by_cases ha : k ∈ keys a.entries
  · rw [Cache.put_entries_of_mem v ha, Cache.put_entries_of_mem v (h.mem_keys ha)]
    exact (h.sublist.filter _).cons_cons _
  · by_cases hb : k ∈ keys b.entries
    · rw [Cache.put_entries_of_notMem v ha, Cache.put_entries_of_mem v hb]
      exact (a.room_sublist.trans (h.sublist_remove ha)).cons_cons _
    · rw [Cache.put_entries_of_notMem v ha, Cache.put_entries_of_notMem v hb]
      exact (included_room h).cons_cons _

/-- After a write a full list is full, and two equal lists that were not full took the pair in the
same way. -/
theorem included_put_full (h : Included a b) (k : K) (v : V) :
    (a.put k v).entries.length = a.capacity ∨ (a.put k v).entries = (b.put k v).entries := by
  by_cases ha : k ∈ keys a.entries
  · rw [Cache.put_length_of_mem v ha]
    refine h.full_or_eq.imp id fun e => ?_
    rw [Cache.put_entries_of_mem v ha, Cache.put_entries_of_mem v (h.mem_keys ha), e]
  · have hpos := h.pos
    have hcap := h.capacity_le
    have hle := h.le_capacity
    rcases eq_or_ne a.entries.length a.capacity with hfull | hfull
    · rw [Cache.put_length_of_notMem v ha, Cache.room_length, if_pos hfull]
      exact Or.inl (by omega)
    · -- The lists are equal and neither is full, so both take the pair without losing one.
      have heq := h.full_or_eq.resolve_left hfull
      have hb : k ∉ keys b.entries := heq ▸ ha
      have hbfull : b.entries.length ≠ b.capacity := by rw [← heq]; omega
      have hroom : a.room = b.room := by
        rw [Cache.room, Cache.room, if_neg hfull, if_neg hbfull, heq]
      refine Or.inr ?_
      rw [Cache.put_entries_of_notMem v ha, Cache.put_entries_of_notMem v hb, hroom]

/-- A write keeps the inclusion. -/
theorem included_put (h : Included a b) (k : K) (v : V) : Included (a.put k v) (b.put k v) where
  sublist := included_put_sublist h k v
  full_or_eq := by rw [Cache.put_capacity]; exact included_put_full h k v
  le_capacity := by rw [Cache.put_capacity]; exact a.put_length_le k v h.pos h.le_capacity
  le_capacity' := by
    rw [Cache.put_capacity]
    exact b.put_length_le k v (h.pos.trans_le h.capacity_le) h.le_capacity'
  pos := by rw [Cache.put_capacity]; exact h.pos
  capacity_le := by rw [Cache.put_capacity, Cache.put_capacity]; exact h.capacity_le
  hits_le := by rw [Cache.put_hits, Cache.put_hits]; exact h.hits_le

/-- The operations of a cache whose capacity starts at the given value and is only lowered, to
positive values: lookups, writes and such changes. -/
def Shrinking : ℕ → List (Op K V) → Prop
  | _, [] => True
  | cap, .get _ :: ops => Shrinking cap ops
  | cap, .put _ _ :: ops => Shrinking cap ops
  | cap, .resize n :: ops => 0 < n ∧ n ≤ cap ∧ Shrinking n ops
  | _, .evictTo _ :: _ => False
  | _, .resetStats :: _ => False

/-- The lookups and writes among some operations. -/
def requests : List (Op K V) → List (Op K V)
  | [] => []
  | .get k :: ops => .get k :: requests ops
  | .put k v :: ops => .put k v :: requests ops
  | _ :: ops => requests ops

/-- Runs keep the inclusion, when the smaller cache is only shrunk and the larger one gets the
lookups and writes alone. -/
theorem run_included (h : Included a b) {ops : List (Op K V)} (hops : Shrinking a.capacity ops)
    {os os' : List (Observation V)} {a' b' : Cache K V}
    (ha : Machine.run Cache.step a ops = some (os, a'))
    (hb : Machine.run Cache.step b (requests ops) = some (os', b')) : Included a' b' := by
  induction ops generalizing a b os os' with
  | nil =>
    simp only [requests, Machine.run_nil, Option.some.injEq, Prod.mk.injEq] at ha hb
    exact ha.2 ▸ hb.2 ▸ h
  | cons op ops ih =>
    obtain ⟨o, a₁, os₁, hstep, ha', -⟩ := Machine.run_cons_eq_some.1 ha
    cases op with
    | get k =>
      obtain ⟨o', b₁, os₁', hstep', hb', -⟩ := Machine.run_cons_eq_some.1 hb
      simp only [Cache.step, Option.some.injEq, Prod.mk.injEq] at hstep hstep'
      obtain ⟨-, rfl⟩ := hstep
      obtain ⟨-, rfl⟩ := hstep'
      exact ih (included_get h k) (by rw [Cache.get_capacity]; exact hops) ha' hb'
    | put k v =>
      obtain ⟨o', b₁, os₁', hstep', hb', -⟩ := Machine.run_cons_eq_some.1 hb
      simp only [Cache.step, Option.some.injEq, Prod.mk.injEq] at hstep hstep'
      obtain ⟨-, rfl⟩ := hstep
      obtain ⟨-, rfl⟩ := hstep'
      exact ih (included_put h k v) (by rw [Cache.put_capacity]; exact hops) ha' hb'
    | resize n =>
      simp only [Cache.step, Option.some.injEq, Prod.mk.injEq] at hstep
      obtain ⟨-, rfl⟩ := hstep
      exact ih (included_resize h hops.1 hops.2.1) hops.2.2 ha' hb
    | evictTo n => exact hops.elim
    | resetStats => exact hops.elim

end Inclusion

/-! ## The capacity bound -/

/-- No write comes while the capacity is zero. The capacity in force is the given one until the
first change of it. -/
def NoWriteAtZero : ℕ → List (Op K V) → Prop
  | _, [] => True
  | cap, .put _ _ :: ops => 0 < cap ∧ NoWriteAtZero cap ops
  | _, .resize n :: ops => NoWriteAtZero n ops
  | cap, .get _ :: ops => NoWriteAtZero cap ops
  | cap, .evictTo _ :: ops => NoWriteAtZero cap ops
  | cap, .resetStats :: ops => NoWriteAtZero cap ops

section Capacity

variable [DecidableEq K] {c c' : Cache K V}

/-- The operation is a write. -/
def Op.Writes : Op K V → Prop
  | put _ _ => True
  | _ => False

/-- What a caller sees of a step is the size and the capacity after it. -/
theorem step_observation {op : Op K V} {o : Observation V} (hstep : c.step op = some (o, c')) :
    o.size = c'.entries.length ∧ o.capacity = c'.capacity := by
  cases op <;>
    · obtain ⟨rfl, rfl⟩ := Prod.mk.inj (Option.some.inj hstep)
      exact ⟨rfl, rfl⟩

/-- The condition on a run is one on its first operation and one on the rest, from the capacity that
the first leaves. -/
theorem noWriteAtZero_cons {op : Op K V} {ops : List (Op K V)} {o : Observation V}
    (hstep : c.step op = some (o, c')) :
    NoWriteAtZero c.capacity (op :: ops) ↔
      (op.Writes → 0 < c.capacity) ∧ NoWriteAtZero c'.capacity ops := by
  cases op <;> obtain ⟨-, rfl⟩ := Prod.mk.inj (Option.some.inj hstep)
  case put k v => simp [NoWriteAtZero, Op.Writes]
  case get k => simp [NoWriteAtZero, Op.Writes]
  -- The other operations are no writes, and the condition passes over them.
  all_goals exact ⟨fun h => ⟨False.elim, h⟩, fun h => h.2⟩

/-- A write at capacity zero makes the empty list one pair long. -/
theorem put_length_of_zero (hc : c.entries.length ≤ c.capacity) (hzero : c.capacity = 0) (k : K)
    (v : V) : (c.put k v).entries.length = 1 := by
  have hnil : c.entries = [] := List.eq_nil_of_length_eq_zero (by omega)
  rw [Cache.put_length_of_notMem v (by simp [hnil]), Cache.room_length, hnil, hzero]
  rfl

/-- A step from a list within its capacity leaves it so, exactly unless it is a write at capacity
zero. -/
theorem step_within_iff (hc : c.entries.length ≤ c.capacity) {op : Op K V} {o : Observation V}
    (hstep : c.step op = some (o, c')) :
    c'.entries.length ≤ c'.capacity ↔ (op.Writes → 0 < c.capacity) := by
  cases op <;> obtain ⟨-, rfl⟩ := Prod.mk.inj (Option.some.inj hstep)
  case get k => exact iff_of_true (by simpa using hc) False.elim
  case put k v =>
    rw [Cache.put_capacity]
    rcases Nat.eq_zero_or_pos c.capacity with hzero | hpos
    · rw [put_length_of_zero hc hzero, hzero]
      exact iff_of_false (by omega) fun h => absurd (h trivial) (lt_irrefl 0)
    · exact iff_of_true (c.put_length_le k v hpos hc) fun _ => hpos
  case resize n =>
    rw [Cache.resize_length]
    exact iff_of_true (Nat.min_le_left n _) False.elim
  case evictTo n =>
    exact iff_of_true ((List.take_sublist n c.entries).length_le.trans hc) False.elim
  case resetStats => exact iff_of_true hc False.elim

/-- From a list within its capacity, the list is within its capacity after every operation exactly
when no write comes at capacity zero: that write puts a pair into a list that has no last pair to
lose, and every other operation keeps the bound. -/
theorem run_within_iff (hc : c.entries.length ≤ c.capacity) {ops : List (Op K V)}
    {os : List (Observation V)} (hrun : Machine.run Cache.step c ops = some (os, c')) :
    (∀ o ∈ os, o.size ≤ o.capacity) ↔ NoWriteAtZero c.capacity ops := by
  induction ops generalizing c os with
  | nil =>
    simp only [Machine.run_nil, Option.some.injEq, Prod.mk.injEq] at hrun
    simp [← hrun.1, NoWriteAtZero]
  | cons op ops ih =>
    obtain ⟨o, c₁, os₁, hstep, hrun', rfl⟩ := Machine.run_cons_eq_some.1 hrun
    obtain ⟨hsize, hcap⟩ := step_observation hstep
    rw [List.forall_mem_cons, noWriteAtZero_cons hstep, ← step_within_iff hc hstep, hsize, hcap]
    -- Past the first step that breaks the bound neither side holds, so the rest starts within it.
    exact and_congr_right fun hle => ih hle hrun'

end Capacity

end Recency
