import MemoryGovernor.Cache.Refinement

/-!
# What every run of the LRU cache keeps

The refinement carries the facts about recency lists to the pointer implementation: a run gives the
observations of the recency list (`run_observations`), it stays within its capacity exactly when no
`put` comes at capacity zero (`run_size_le_capacity_iff`), and a cache that is only shrunk holds at
every moment a part of what the same requests leave in a larger one (`run_governed_included`).

`WellFormed` spells out what the representation says about the pointers themselves, and
`run_wellFormed` shows it after every run.
-/

namespace MemoryGovernor.LRUCache

open LinkedHeap
open Recency (keys mem_keys Shrinking requests NoWriteAtZero)

variable {Key Value : Type*}

/-! ## The pointers -/

/-- `p->next`. -/
def nextOf (c : LRUCache Key Value) (p : Ptr) : Option (Option Ptr) :=
  (c.heap.lookup p).map Node.next

/-- `p->prev`. -/
def prevOf (c : LRUCache Key Value) (p : Ptr) : Option (Option Ptr) :=
  (c.heap.lookup p).map Node.prev

/-- `p->key`. -/
def keyOf (c : LRUCache Key Value) (p : Ptr) : Option Key :=
  (c.heap.lookup p).map fun n => n.data.1

/-- The keys and values along `next` from `head_`. -/
def entries (c : LRUCache Key Value) : List (Key × Value) := walk c.heap c.size c.head

section Keys

variable [DecidableEq Key]

/-- The pointers, the map and the counter agree on the nodes `ps`. -/
structure WellFormed (c : LRUCache Key Value) (ps : List Ptr) : Prop where
  /-- Following `next` from `head_` visits `ps` in order and then null. -/
  next_walk : Follows c.nextOf c.head ps
  /-- The last of them is `tail_`. -/
  ends_at_tail : ps.getLast? = c.tail
  /-- Following `prev` from `tail_` visits the same nodes in reverse order. -/
  prev_walk : Follows c.prevOf c.tail ps.reverse
  /-- No node is visited twice. -/
  nodup : ps.Nodup
  /-- The nodes visited are the live ones. -/
  live : ∀ p, p ∈ c.heap ↔ p ∈ ps
  head_prev : ∀ p, c.head = some p → c.prevOf p = some none
  tail_next : ∀ p, c.tail = some p → c.nextOf p = some none
  head_null : c.head = none ↔ ps = []
  tail_null : c.tail = none ↔ ps = []
  /-- Their keys are distinct. -/
  keys_nodup : (ps.map c.keyOf).Nodup
  /-- The map has exactly their keys, each with its own node. -/
  map : ∀ k p, c.map.lookup k = some p ↔ p ∈ ps ∧ c.keyOf p = some k
  /-- The counter is their number. -/
  size : c.size = ps.length

/-- The key at the address of a cell is the cell's. -/
theorem Rep.keyOf {c : LRUCache Key Value} {cells : List (Ptr × Key × Value)} (h : Rep c cells)
    {e : Ptr × Key × Value} (he : e ∈ cells) : c.keyOf e.1 = some e.2.1 := by
  have hdata := seg_data h.seg he
  rw [Option.map_eq_some_iff] at hdata
  obtain ⟨n, hn, hne⟩ := hdata
  rw [LRUCache.keyOf, hn, ← hne]
  rfl

/-- The list read along `next` is the one represented. -/
theorem Rep.entries {c : LRUCache Key Value} {cells : List (Ptr × Key × Value)} (h : Rep c cells) :
    c.entries = contents cells := by
  rw [LRUCache.entries, h.size, h.head]
  exact seg_walk h.seg

/-- What a cache represents makes it well formed. -/
theorem Rep.wellFormed {c : LRUCache Key Value} {cells : List (Ptr × Key × Value)}
    (h : Rep c cells) : WellFormed c (ptrs cells) where
  next_walk := h.head ▸ seg_follows_next h.seg
  ends_at_tail := by
    rw [h.tail]
    rcases List.eq_nil_or_concat' cells with rfl | ⟨l, e, rfl⟩
    · rfl
    · simp
  prev_walk := h.tail ▸ seg_follows_prev h.seg
  nodup := h.nodup
  live := h.live
  head_prev p hp := by
    rw [h.head] at hp
    cases cells with
    | nil => exact absurd hp (by simp)
    | cons e cells =>
      obtain rfl : e.1 = p := Option.some.inj hp
      simp [prevOf, h.seg.1]
  tail_next p hp := by
    rw [h.tail] at hp
    rcases List.eq_nil_or_concat' cells with rfl | ⟨l, e, rfl⟩
    · exact absurd hp (by simp)
    · obtain rfl : e.1 = p := by simpa using hp
      obtain ⟨-, he, -⟩ := seg_append.1 h.seg
      simp [nextOf, he]
  head_null := by
    rw [h.head]
    cases cells <;> simp
  tail_null := by
    rw [h.tail, lastOr_none_eq_none]
    exact List.map_eq_nil_iff.symm
  keys_nodup := by
    -- The keys of the nodes are those of the cells, which are distinct.
    have hkeys : (ptrs cells).map c.keyOf = (keys (contents cells)).map some := by
      rw [ptrs, keys, contents, List.map_map, List.map_map, List.map_map]
      exact List.map_congr_left fun e he => h.keyOf he
    rw [hkeys]
    exact h.keys_nodup.map (Option.some_injective Key)
  map k p := by
    rw [h.map]
    constructor
    · rintro ⟨v, hv⟩
      exact ⟨List.mem_map.2 ⟨_, hv, rfl⟩, h.keyOf hv⟩
    · rintro ⟨hp, hk⟩
      obtain ⟨⟨q, k', v⟩, he, rfl⟩ := List.mem_map.1 hp
      obtain rfl : k' = k := Option.some.inj ((h.keyOf he).symm.trans hk)
      exact ⟨v, he⟩
  size := by rw [h.size, ptrs, List.length_map]

/-- From a new cache of any capacity, every sequence of calls is defined, so no dead node is
accessed and every loop ends, and leaves the cache well formed. -/
theorem run_wellFormed (A : Allocator) (max_capacity : ℕ) (ops : List (Recency.Op Key Value)) :
    ∃ os c ps, Machine.run (step A) (new Key Value max_capacity) ops = some (os, c) ∧
      c.WellFormed ps := by
  obtain ⟨os, c, r, hrun, -, h⟩ := run_refines A (refines_new max_capacity) ops
  obtain ⟨cells, hrep, -⟩ := h.rep
  exact ⟨os, c, ptrs cells, hrun, hrep.wellFormed⟩

/-- From a new cache of any capacity and after every sequence of calls, the destructor ends,
accesses no dead node and deletes every live node exactly once, in the order of the list; nothing
stays allocated. -/
theorem run_destroy (A : Allocator) (max_capacity : ℕ) (ops : List (Recency.Op Key Value)) :
    ∃ os c deleted heap, Machine.run (step A) (new Key Value max_capacity) ops = some (os, c) ∧
      c.destroy = some (deleted, heap) ∧ deleted.Nodup ∧ (∀ p, p ∈ deleted ↔ p ∈ c.heap) ∧
      Follows c.nextOf c.head deleted ∧ ∀ p, p ∉ heap := by
  obtain ⟨os, c, r, hrun, -, h⟩ := run_refines A (refines_new max_capacity) ops
  obtain ⟨cells, hrep, -⟩ := h.rep
  obtain ⟨heap, hdestroy, hempty⟩ := rep_destroy hrep
  exact ⟨os, c, ptrs cells, heap, hrun, hdestroy, hrep.nodup, fun p => (hrep.live p).symm,
    hrep.wellFormed.next_walk, hempty⟩

/-! ## The recency list -/

/-- From a new cache of any capacity, every sequence of calls gives at every call the answer, size,
capacity, hits and misses of the recency list. -/
theorem run_observations (A : Allocator) (max_capacity : ℕ) (ops : List (Recency.Op Key Value)) :
    ∃ os c r, Machine.run (step A) (new Key Value max_capacity) ops = some (os, c) ∧
      Machine.run Recency.Cache.step (Recency.Cache.empty Key Value max_capacity) ops =
        some (os, r) := by
  obtain ⟨os, c, r, hrun, hrun', -⟩ := run_refines A (refines_new max_capacity) ops
  exact ⟨os, c, r, hrun, hrun'⟩

/-! ## The capacity bound -/

/-- The size stays within the capacity after every call exactly when no `put` comes while the
capacity in force is zero. -/
theorem run_size_le_capacity_iff (A : Allocator) (max_capacity : ℕ)
    (ops : List (Recency.Op Key Value)) :
    ∃ os c, Machine.run (step A) (new Key Value max_capacity) ops = some (os, c) ∧
      ((∀ o ∈ os, o.size ≤ o.capacity) ↔ NoWriteAtZero max_capacity ops) := by
  obtain ⟨os, c, r, hrun, hrun', -⟩ := run_refines A (refines_new max_capacity) ops
  exact ⟨os, c, hrun, Recency.run_within_iff (Nat.zero_le _) hrun'⟩

end Keys

/-- At capacity zero one `put` makes the cache one entry long: `evict_lru` has nothing to evict. -/
theorem run_size_gt_capacity_zero :
    ¬ ∀ (max_capacity : ℕ) (ops : List (Recency.Op String String)) os c,
      Machine.run (step Allocator.above) (new String String max_capacity) ops = some (os, c) →
        ∀ o ∈ os, o.size ≤ o.capacity := by
  intro h
  have hrun : Machine.run (step Allocator.above) (new String String 0) [.put "key_1" "v"] =
      some ([⟨none, 1, 0, 0, 0⟩], _) := rfl
  exact absurd (h 0 _ _ _ hrun _ (List.mem_singleton.2 rfl)) (by decide)

/-! ## Governed and ungoverned caches -/

section Inclusion

variable [DecidableEq Key]

/-- A `get` of the key hits, with the value. -/
def Hits (c : LRUCache Key Value) (k : Key) (v : Value) : Prop :=
  ∃ c', c.get k = some (some v, c')

/-- A cache holding a recency list hits exactly on its pairs. -/
theorem Refines.hits_iff {c : LRUCache Key Value} {r : Recency.Cache Key Value} (h : Refines c r)
    {k : Key} {v : Value} : Hits c k v ↔ Recency.find k r.entries = some v := by
  obtain ⟨c', hrun, -⟩ := get_refines h k
  have hfst : (r.get k).1 = Recency.find k r.entries := by
    unfold Recency.Cache.get
    split <;> simp_all
  rw [Hits, hrun, hfst]
  simp

/-- A cache with capacity `c₁` that is only shrunk, and one with the capacity `c₂ ≥ c₁` that is
never resized, serve the same requests: after every step the pairs of the first occur in the second
in the same order, a `get` that hits in the first hits in the second with the same value, and the
first has no more hits. -/
theorem run_governed_included (A B : Allocator) {c₁ c₂ : ℕ} (hpos : 0 < c₁) (hle : c₁ ≤ c₂)
    {ops : List (Recency.Op Key Value)} (hops : Shrinking c₁ ops) :
    ∃ os a os' b, Machine.run (step A) (new Key Value c₁) ops = some (os, a) ∧
      Machine.run (step B) (new Key Value c₂) (requests ops) = some (os', b) ∧
      a.entries.Sublist b.entries ∧ (∀ k v, Hits a k v → Hits b k v) ∧ a.hits ≤ b.hits := by
  obtain ⟨os, a, r, hrun, hrec, ha⟩ := run_refines A (refines_new c₁) ops
  obtain ⟨os', b, r', hrun', hrec', hb⟩ := run_refines B (refines_new c₂) (requests ops)
  -- The recency lists of the two runs are included, and each cache holds its own.
  have hinc := Recency.run_included (Recency.included_empty hpos hle) hops hrec hrec'
  refine ⟨os, a, os', b, hrun, hrun', ?_, fun k v hk => ?_, ?_⟩
  · obtain ⟨cells, hrep, hentries⟩ := ha.rep
    obtain ⟨cells', hrep', hentries'⟩ := hb.rep
    rw [hrep.entries, hrep'.entries, ← hentries, ← hentries']
    exact hinc.sublist
  · exact hb.hits_iff.2 (hinc.find (ha.hits_iff.1 hk))
  · rw [ha.hits, hb.hits]
    exact hinc.hits_le

end Inclusion

/-- A cache of capacity 2 shrunk to 1 against one of capacity 3, over two writes and a lookup. -/
theorem run_governed_included_two_three :
    (0 < 2 ∧ 2 ≤ 3) ∧ Shrinking 2 [.put "a" "1", .put "b" "2", .resize 1, .get "b"] ∧
    ∃ os a os' b,
      Machine.run (step Allocator.above) (new String String 2)
        [.put "a" "1", .put "b" "2", .resize 1, .get "b"] = some (os, a) ∧
      Machine.run (step Allocator.above) (new String String 3)
        (requests [.put "a" "1", .put "b" "2", .resize 1, .get "b"]) = some (os', b) ∧
      a.entries.Sublist b.entries ∧ (∀ k v, Hits a k v → Hits b k v) ∧ a.hits ≤ b.hits := by
  have hops : Shrinking 2 [.put "a" "1", .put "b" "2", .resize 1, .get "b"] := by
    refine ⟨by decide, by decide, trivial⟩
  exact ⟨by decide, hops,
    run_governed_included Allocator.above Allocator.above (by decide) (by decide) hops⟩

end MemoryGovernor.LRUCache
