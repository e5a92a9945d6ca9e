import MemoryGovernor.Cache.Refinement
import MemoryGovernor.Wire.Message

/-!
# The governed cache

`GovernedCache` of `src/client/governed_cache.cpp`, less its socket: a cache of strings, and what it
does with the targets that the daemon sends. A `SoundCache` is an LRU cache together with the fact
that it holds a recency list, which every operation keeps, so its operations are total functions:
no dead node is accessed and `resize` ends. `applyTarget` is the body that `handle_shrink` and
`handle_grow` share; they differ in the comparison that makes a target count. It is undefined where
`estimated_entry_bytes` is zero, as the division is.
-/

namespace MemoryGovernor

open LinkedHeap

/-- An LRU cache whose pointers hold a recency list. -/
structure SoundCache (Key Value : Type*) [DecidableEq Key] where
  impl : LRUCache Key Value
  holds : ∃ r, LRUCache.Refines impl r

namespace SoundCache

variable {Key Value : Type*} [DecidableEq Key]

/-- `size()`. -/
def size (c : SoundCache Key Value) : ℕ := c.impl.size

/-- `capacity()`. -/
def capacity (c : SoundCache Key Value) : ℕ := c.impl.capacity

/-- The constructor. -/
def new (Key Value : Type*) [DecidableEq Key] (max_capacity : ℕ) : SoundCache Key Value :=
  ⟨LRUCache.new Key Value max_capacity, _, LRUCache.refines_new max_capacity⟩

theorem isSome_get (c : SoundCache Key Value) (key : Key) : (c.impl.get key).isSome := by
  obtain ⟨r, h⟩ := c.holds
  obtain ⟨c', hrun, -⟩ := LRUCache.get_refines h key
  rw [hrun]
  rfl

theorem isSome_put (A : Allocator) (c : SoundCache Key Value) (key : Key) (value : Value) :
    (c.impl.put A key value).isSome := by
  obtain ⟨r, h⟩ := c.holds
  obtain ⟨c', hrun, -⟩ := LRUCache.put_refines A h key value
  rw [hrun]
  rfl

theorem isSome_resize (c : SoundCache Key Value) (n : ℕ) : (c.impl.resize n).isSome := by
  obtain ⟨r, h⟩ := c.holds
  obtain ⟨c', hrun, -⟩ := LRUCache.resize_refines h n
  rw [hrun]
  rfl

/-- `get`: the value of the key or a miss, and the cache after it. -/
def get (c : SoundCache Key Value) (key : Key) : Option Value × SoundCache Key Value :=
  let r := (c.impl.get key).get (c.isSome_get key)
  ⟨r.1, r.2, by
    obtain ⟨_, h⟩ := c.holds
    obtain ⟨c', hrun, h'⟩ := LRUCache.get_refines h key
    simp only [r, hrun, Option.get_some]
    exact ⟨_, h'⟩⟩

/-- `put`. -/
def put (A : Allocator) (c : SoundCache Key Value) (key : Key) (value : Value) :
    SoundCache Key Value :=
  ⟨(c.impl.put A key value).get (c.isSome_put A key value), by
    obtain ⟨_, h⟩ := c.holds
    obtain ⟨c', hrun, h'⟩ := LRUCache.put_refines A h key value
    simp only [hrun, Option.get_some]
    exact ⟨_, h'⟩⟩

/-- `resize`. -/
def resize (c : SoundCache Key Value) (new_capacity : ℕ) : SoundCache Key Value :=
  ⟨(c.impl.resize new_capacity).get (c.isSome_resize new_capacity), by
    obtain ⟨_, h⟩ := c.holds
    obtain ⟨c', hrun, h'⟩ := LRUCache.resize_refines h new_capacity
    simp only [hrun, Option.get_some]
    exact ⟨_, h'⟩⟩

section Spec

variable (c : SoundCache Key Value)

/-- A lookup through the pointers is one in the recency list. -/
theorem exists_refines_get (key : Key) :
    ∃ r, LRUCache.Refines c.impl r ∧ LRUCache.Refines (c.get key).2.impl (r.get key).2 := by
  obtain ⟨r, h⟩ := c.holds
  obtain ⟨c', hrun, h'⟩ := LRUCache.get_refines h key
  refine ⟨r, h, ?_⟩
  simp only [get, hrun, Option.get_some]
  exact h'

/-- A write through the pointers is one in the recency list. -/
theorem exists_refines_put (A : Allocator) (key : Key) (value : Value) :
    ∃ r, LRUCache.Refines c.impl r ∧
      LRUCache.Refines (c.put A key value).impl (r.put key value) := by
  obtain ⟨r, h⟩ := c.holds
  obtain ⟨c', hrun, h'⟩ := LRUCache.put_refines A h key value
  refine ⟨r, h, ?_⟩
  simp only [put, hrun, Option.get_some]
  exact h'

/-- A change of capacity is one of the recency list. -/
theorem exists_refines_resize (n : ℕ) :
    ∃ r, LRUCache.Refines c.impl r ∧ LRUCache.Refines (c.resize n).impl (r.resize n) := by
  obtain ⟨r, h⟩ := c.holds
  obtain ⟨c', hrun, h'⟩ := LRUCache.resize_refines h n
  refine ⟨r, h, ?_⟩
  simp only [resize, hrun, Option.get_some]
  exact h'

/-- A lookup changes neither the size nor the capacity. -/
theorem get_size_capacity (key : Key) :
    (c.get key).2.size = c.size ∧ (c.get key).2.capacity = c.capacity := by
  obtain ⟨r, h, h'⟩ := c.exists_refines_get key
  unfold size capacity
  rw [h'.size, h.size, h'.capacity, h.capacity]
  exact ⟨Recency.Cache.get_length r key, Recency.Cache.get_capacity r key⟩

/-- A write keeps the capacity. -/
@[simp]
theorem put_capacity (A : Allocator) (key : Key) (value : Value) :
    (c.put A key value).capacity = c.capacity := by
  obtain ⟨r, h, h'⟩ := c.exists_refines_put A key value
  unfold capacity
  rw [h'.capacity, h.capacity, Recency.Cache.put_capacity]

/-- A write never makes the cache smaller. -/
theorem size_le_put (A : Allocator) (key : Key) (value : Value) :
    c.size ≤ (c.put A key value).size := by
  obtain ⟨r, h, h'⟩ := c.exists_refines_put A key value
  unfold size
  rw [h'.size, h.size]
  exact Recency.Cache.le_put_length r key value

/-- A write leaves something in the cache. -/
theorem put_size_pos (A : Allocator) (key : Key) (value : Value) :
    0 < (c.put A key value).size := by
  obtain ⟨r, -, h'⟩ := c.exists_refines_put A key value
  unfold size
  rw [h'.size]
  exact Recency.Cache.put_length_pos r key value

/-- A write at a capacity other than zero stays within it. -/
theorem put_size_le (A : Allocator) (key : Key) (value : Value) (hpos : 0 < c.capacity)
    (hle : c.size ≤ c.capacity) : (c.put A key value).size ≤ c.capacity := by
  obtain ⟨r, h, h'⟩ := c.exists_refines_put A key value
  unfold size capacity at *
  rw [h.capacity] at hpos
  rw [h.size, h.capacity] at hle
  rw [h'.size, h.capacity]
  exact Recency.Cache.put_length_le r key value hpos hle

/-- `resize` keeps as many entries as the new capacity allows. -/
@[simp]
theorem resize_size (n : ℕ) : (c.resize n).size = min n c.size := by
  obtain ⟨r, h, h'⟩ := c.exists_refines_resize n
  unfold size
  rw [h'.size, h.size, Recency.Cache.resize_length]

/-- `resize` sets the capacity. -/
@[simp]
theorem resize_capacity (n : ℕ) : (c.resize n).capacity = n := by
  obtain ⟨r, -, h'⟩ := c.exists_refines_resize n
  unfold capacity
  rw [h'.capacity]
  rfl

end Spec

/-- The size is within the capacity, unless the capacity is zero. -/
def Bounded (c : SoundCache Key Value) : Prop := 0 < c.capacity → c.size ≤ c.capacity

section Bounded

variable {c : SoundCache Key Value}

theorem bounded_new (n : ℕ) : (new Key Value n).Bounded := fun _ => Nat.zero_le n

theorem Bounded.get (h : c.Bounded) (key : Key) : (c.get key).2.Bounded := by
  obtain ⟨hsize, hcap⟩ := c.get_size_capacity key
  rw [Bounded, hsize, hcap]
  exact h

theorem Bounded.put (h : c.Bounded) (A : Allocator) (key : Key) (value : Value) :
    (c.put A key value).Bounded := by
  intro hpos
  rw [put_capacity] at hpos ⊢
  exact put_size_le c A key value hpos (h hpos)

theorem bounded_resize (c : SoundCache Key Value) (n : ℕ) : (c.resize n).Bounded := by
  intro _
  rw [resize_size, resize_capacity]
  exact Nat.min_le_left n c.size

end Bounded

end SoundCache

/-! ## Targets -/

/-- `GovernedCache`, less its client. -/
structure GovernedCache where
  cache : SoundCache String String
  estimated_entry_bytes : UInt64

namespace GovernedCache

/-- The constructor. -/
def new (max_capacity : ℕ) (estimated_entry_bytes : UInt64) : GovernedCache :=
  ⟨SoundCache.new String String max_capacity, estimated_entry_bytes⟩

/-- `cache_->size() * estimated_entry_bytes_`, the size that the cache reports. -/
def sizeBytes (g : GovernedCache) : UInt64 :=
  UInt64.ofNat g.cache.size * g.estimated_entry_bytes

/-- The body of `handle_shrink` and `handle_grow`: the target in entries becomes the capacity if it
compares with the present one as `applies` asks, and the new size is then reported. -/
def applyTarget (applies : ℕ → ℕ → Bool) (g : GovernedCache) (target_bytes : UInt64) :
    Option (Option UInt64 × GovernedCache) :=
  if g.estimated_entry_bytes = 0 then none
  else
    -- Both operands are unsigned, so the division drops the remainder.
    let target_capacity := (target_bytes / g.estimated_entry_bytes).toNat
    if applies target_capacity g.cache.capacity then
      -- The size reported is the one after the eviction.
      let g := { g with cache := g.cache.resize target_capacity }
      some (some g.sizeBytes, g)
    else some (none, g)

/-- `handle_shrink`. -/
def handleShrink : GovernedCache → UInt64 → Option (Option UInt64 × GovernedCache) :=
  applyTarget fun target_capacity capacity => target_capacity < capacity

/-- `handle_grow`. -/
def handleGrow : GovernedCache → UInt64 → Option (Option UInt64 × GovernedCache) :=
  applyTarget fun target_capacity capacity => capacity < target_capacity

/-- What applying a target does: nothing, or a new capacity, with a report of the size. -/
theorem applyTarget_cases {applies : ℕ → ℕ → Bool} {g g' : GovernedCache} {target_bytes : UInt64}
    {report : Option UInt64} (h : applyTarget applies g target_bytes = some (report, g')) :
    let target_capacity := (target_bytes / g.estimated_entry_bytes).toNat
    (applies target_capacity g.cache.capacity = false ∧ report = none ∧ g' = g) ∨
    (applies target_capacity g.cache.capacity = true ∧ report = some g'.sizeBytes ∧
      g' = { g with cache := g.cache.resize target_capacity }) := by
  by_cases he : g.estimated_entry_bytes = 0
  · -- The division by zero is undefined.
    simp [applyTarget, he] at h
  rw [applyTarget, if_neg he] at h
  cases hap : applies (target_bytes / g.estimated_entry_bytes).toNat g.cache.capacity with
  | false =>
    simp only [hap, Bool.false_eq_true, if_false, Option.some.injEq, Prod.mk.injEq] at h
    exact .inl ⟨hap, h.1.symm, h.2.symm⟩
  | true =>
    simp only [hap, if_true, Option.some.injEq, Prod.mk.injEq] at h
    exact .inr ⟨hap, by rw [← h.1, ← h.2], h.2.symm⟩

/-- Applying a target is defined unless an entry is estimated at no bytes. -/
theorem exists_applyTarget (applies : ℕ → ℕ → Bool) {g : GovernedCache}
    (he : g.estimated_entry_bytes ≠ 0) (target_bytes : UInt64) :
    ∃ r, applyTarget applies g target_bytes = some r := by
  unfold applyTarget
  rw [if_neg he]
  dsimp only
  split_ifs
  · exact ⟨_, rfl⟩
  · exact ⟨_, rfl⟩

end GovernedCache

end MemoryGovernor
