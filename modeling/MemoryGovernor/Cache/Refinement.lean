import MemoryGovernor.Cache.Representation

/-!
# The LRU cache refines the recency list

`Refines c r` relates the pointer implementation to the recency list: the cells that the pointers
represent have the pairs of the list, in order, and the capacities and counts agree. Each operation
is defined on related caches and leaves them related (`get_refines` to `evictTo_refines`), so every
call gives the same answer (`step_refines`), and runs of any length give the same observations
(`run_refines`). No bound on the capacity is needed: a cache of capacity zero runs past its bound in
the same way on both sides.
-/

namespace MemoryGovernor.LRUCache

open LinkedHeap
open Recency (keys mem_keys)

variable {Key Value : Type*} [DecidableEq Key]

/-- The pointer implementation `c` holds the recency list `r`. -/
structure Refines (c : LRUCache Key Value) (r : Recency.Cache Key Value) : Prop where
  rep : ∃ cells, Rep c cells ∧ r.entries = contents cells
  capacity : c.capacity = r.capacity
  hits : c.hits = r.hits
  misses : c.misses = r.misses

/-- A new cache holds the empty list. -/
theorem refines_new (max_capacity : ℕ) :
    Refines (new Key Value max_capacity) (Recency.Cache.empty Key Value max_capacity) :=
  ⟨⟨[], rep_new max_capacity, rfl⟩, rfl, rfl, rfl⟩

/-- The counter is the length of the list. -/
theorem Refines.size {c : LRUCache Key Value} {r : Recency.Cache Key Value} (h : Refines c r) :
    c.size = r.entries.length := by
  obtain ⟨cells, hrep, hentries⟩ := h.rep
  rw [hrep.size, hentries, contents_length]

/-- Related caches look the same to a caller. -/
theorem Refines.observe {c : LRUCache Key Value} {r : Recency.Cache Key Value} (h : Refines c r)
    (a : Option (Option Value)) : observe a c = Recency.Cache.observe a r := by
  rw [LRUCache.observe, Recency.Cache.observe, h.size, h.capacity, h.hits, h.misses]

section Operations

variable {c : LRUCache Key Value} {r : Recency.Cache Key Value}

/-- `get` answers as the recency list does and leaves the caches related. -/
theorem get_refines (h : Refines c r) (key : Key) :
    ∃ c', c.get key = some ((r.get key).1, c') ∧ Refines c' (r.get key).2 := by
  obtain ⟨cells, hrep, hentries⟩ := h.rep
  cases hlook : c.map.lookup key with
  | none =>
    -- A miss only counts, on both sides.
    have hnot : key ∉ keys r.entries := by
      rw [hentries]
      exact (hrep.lookup_eq_none key).1 hlook
    rw [Recency.Cache.get_of_notMem hnot]
    refine ⟨{ c with misses := c.misses + 1 }, by simp [get, hlook], ⟨cells, ?_, hentries⟩,
      h.capacity, h.hits, by simp [h.misses]⟩
    exact hrep.congr rfl rfl rfl rfl rfl
  | some node =>
    -- A hit: the map's node is one of the cells, which splits the list there.
    obtain ⟨v, hmem⟩ := (hrep.map key node).1 hlook
    obtain ⟨l, l', rfl⟩ := List.append_of_mem hmem
    have hrep₁ : Rep { c with hits := c.hits + 1 } (l ++ (node, key, v) :: l') :=
      hrep.congr rfl rfl rfl rfl rfl
    obtain ⟨c', hrun, hrep', hrel⟩ := rep_moveToFront hrep₁
    have hnode : c'.heap.lookup node = some ⟨(key, v), none, firstOr none (l ++ l')⟩ :=
      hrep'.seg.1
    have hpairs : r.entries = contents l ++ (key, v) :: contents l' := by simp [hentries]
    have hfind : Recency.find key r.entries = some v :=
      (Recency.find_eq_some r.nodup_keys).2 (by simp [hpairs])
    rw [Recency.Cache.get_of_find hfind]
    refine ⟨c', by simp [get, hlook, hrun, hnode], ⟨_, hrep', ?_⟩,
      hrel.capacity.trans h.capacity, ?_, hrel.misses.trans h.misses⟩
    · have hnodup := r.nodup_keys
      rw [hpairs] at hnodup
      simp only [hpairs, Recency.remove_append_cons hnodup, contents_cons, contents_append]
    · rw [hrel.hits]
      exact congrArg (· + 1) h.hits

/-- `evict_to` keeps the front of the list. -/
theorem evictTo_refines (h : Refines c r) (n : ℕ) :
    ∃ c', c.evictTo n = some c' ∧ Refines c' (r.evictTo n) := by
  obtain ⟨cells, hrep, hentries⟩ := h.rep
  obtain ⟨c', hrun, hrep', hcap, hhits, hmisses⟩ := rep_evictTo hrep n
  refine ⟨c', hrun, ⟨_, hrep', ?_⟩, hcap.trans h.capacity, hhits.trans h.hits,
    hmisses.trans h.misses⟩
  simp only [Recency.Cache.evictTo, hentries, contents, List.map_take]

/-- `resize` changes the capacity and keeps the front of the list. -/
theorem resize_refines (h : Refines c r) (n : ℕ) :
    ∃ c', c.resize n = some c' ∧ Refines c' (r.resize n) := by
  obtain ⟨cells, hrep, hentries⟩ := h.rep
  have h' : Refines { c with capacity := n } { r with capacity := n } :=
    ⟨⟨cells, hrep.congr rfl rfl rfl rfl rfl, hentries⟩, rfl, h.hits, h.misses⟩
  exact evictTo_refines h' n

/-- The test and eviction of `put` on a new key leave the pairs that stay. -/
theorem room_refines (h : Refines c r) :
    ∃ c' cells, evictIfFull c = some c' ∧ Rep c' cells ∧
      r.room = contents cells ∧ c'.capacity = c.capacity ∧ c'.hits = c.hits ∧
      c'.misses = c.misses := by
  obtain ⟨cells, hrep, hentries⟩ := h.rep
  have hfull : c.size = c.capacity ↔ r.entries.length = r.capacity := by
    rw [h.size, h.capacity]
  by_cases hsize : c.size = c.capacity
  · rw [evictIfFull, if_pos hsize, Recency.Cache.room, if_pos (hfull.1 hsize), hentries]
    -- At capacity zero the full list is empty, and `evict_lru` returns early.
    rcases List.eq_nil_or_concat' cells with rfl | ⟨l, e, rfl⟩
    · exact ⟨c, [], evictLru_nil hrep.toLinked, hrep, by simp, rfl, rfl, rfl⟩
    · obtain ⟨c', hrun, hrep', hcap, hhits, hmisses⟩ := rep_evictLru hrep
      exact ⟨c', l, hrun, hrep', by simp, hcap, hhits, hmisses⟩
  · rw [evictIfFull, if_neg hsize, Recency.Cache.room, if_neg (fun e => hsize (hfull.2 e))]
    exact ⟨c, cells, rfl, hrep, hentries, rfl, rfl, rfl⟩

/-- `put` writes the pair as the recency list does. -/
theorem put_refines (A : Allocator) (h : Refines c r) (key : Key) (value : Value) :
    ∃ c', c.put A key value = some c' ∧ Refines c' (r.put key value) := by
  obtain ⟨cells, hrep, hentries⟩ := h.rep
  cases hlook : c.map.lookup key with
  | none =>
    -- A new key: what stays after the eviction, and the pair in front of it.
    have hnot : key ∉ keys r.entries := by
      rw [hentries]
      exact (hrep.lookup_eq_none key).1 hlook
    obtain ⟨c₁, cells₁, hroom, hrep₁, hcells₁, hcap₁, hhits₁, hmisses₁⟩ := room_refines h
    have hnot₁ : key ∉ keys (contents cells₁) := by
      rw [← hcells₁]
      exact fun hmem => hnot ((r.room_sublist.map Prod.fst).subset hmem)
    obtain ⟨c', p, hrun, hrep', hcap, hhits, hmisses⟩ := rep_insertNew A hrep₁ value hnot₁
    refine ⟨c', ?_, ⟨_, hrep', ?_⟩, ?_, ?_, ?_⟩
    · rw [put, hlook]
      simpa [hroom] using hrun
    · rw [Recency.Cache.put_entries_of_notMem value hnot, hcells₁, contents_cons]
    · calc c'.capacity = c₁.capacity := hcap
        _ = c.capacity := hcap₁
        _ = r.capacity := h.capacity
        _ = (r.put key value).capacity := (r.put_capacity key value).symm
    · calc c'.hits = c₁.hits := hhits
        _ = c.hits := hhits₁
        _ = r.hits := h.hits
        _ = (r.put key value).hits := (r.put_hits key value).symm
    · calc c'.misses = c₁.misses := hmisses
        _ = c.misses := hmisses₁
        _ = r.misses := h.misses
        _ = (r.put key value).misses := (r.put_misses key value).symm
  | some node =>
    -- A known key: the value is written first, and the cell then moves as on a hit.
    obtain ⟨v, hmem⟩ := (hrep.map key node).1 hlook
    obtain ⟨l, l', rfl⟩ := List.append_of_mem hmem
    obtain ⟨n, hnode, hrep₁⟩ := rep_setValue value hrep
    obtain ⟨c', hrun, hrep', hrel⟩ := rep_moveToFront hrep₁
    have hpairs : r.entries = contents l ++ (key, v) :: contents l' := by simp [hentries]
    have hkey : key ∈ keys r.entries := mem_keys.2 ⟨v, by simp [hpairs]⟩
    refine ⟨c', ?_, ⟨_, hrep', ?_⟩, ?_, ?_, ?_⟩
    · rw [put, hlook]
      simpa [hnode] using hrun
    · have hnodup := r.nodup_keys
      rw [hpairs] at hnodup
      rw [Recency.Cache.put_entries_of_mem value hkey, hpairs, Recency.remove_append_cons hnodup,
        contents_cons, contents_append]
    · rw [hrel.capacity, Recency.Cache.put_capacity]
      exact h.capacity
    · rw [hrel.hits, Recency.Cache.put_hits]
      exact h.hits
    · rw [hrel.misses, Recency.Cache.put_misses]
      exact h.misses

/-- `reset_stats` forgets the counts on both sides. -/
theorem resetStats_refines (h : Refines c r) : Refines c.resetStats r.resetStats := by
  obtain ⟨cells, hrep, hentries⟩ := h.rep
  exact ⟨⟨cells, hrep.congr rfl rfl rfl rfl rfl, hentries⟩, h.capacity, rfl, rfl⟩

/-- Every call of a public operation is defined on related caches, shows the caller the same, and
leaves them related. -/
theorem step_refines (A : Allocator) (h : Refines c r) (op : Recency.Op Key Value) :
    ∃ o c' r', step A c op = some (o, c') ∧ r.step op = some (o, r') ∧ Refines c' r' := by
  cases op with
  | get key =>
    obtain ⟨c', hrun, h'⟩ := get_refines h key
    exact ⟨_, c', _, by simp [step, hrun, h'.observe], rfl, h'⟩
  | put key value =>
    obtain ⟨c', hrun, h'⟩ := put_refines A h key value
    exact ⟨_, c', _, by simp [step, hrun, h'.observe], rfl, h'⟩
  | resize n =>
    obtain ⟨c', hrun, h'⟩ := resize_refines h n
    exact ⟨_, c', _, by simp [step, hrun, h'.observe], rfl, h'⟩
  | evictTo n =>
    obtain ⟨c', hrun, h'⟩ := evictTo_refines h n
    exact ⟨_, c', _, by simp [step, hrun, h'.observe], rfl, h'⟩
  | resetStats =>
    have h' := resetStats_refines h
    exact ⟨_, _, _, by simp [step, h'.observe], rfl, h'⟩

end Operations

/-- Runs of related caches are defined, give the same observations and end related. -/
theorem run_refines (A : Allocator) {c : LRUCache Key Value} {r : Recency.Cache Key Value}
    (h : Refines c r) (ops : List (Recency.Op Key Value)) :
    ∃ os c' r', Machine.run (step A) c ops = some (os, c') ∧
      Machine.run Recency.Cache.step r ops = some (os, r') ∧ Refines c' r' :=
  Machine.run_simulates (fun c r op (h : Refines c r) => step_refines A h op) h ops

end MemoryGovernor.LRUCache
