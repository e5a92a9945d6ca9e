import MemoryGovernor.Lib.History
import MemoryGovernor.Cache.Runs

/-!
# What the LRU cache holds, from the calls

The calls of a cache and their answers give its history, every key ever written with its last value,
the one used last first. `run_history` says what the pointers hold after any calls: the first part
of the history, as long as the counter, and a `get` hits exactly on it. Where the capacity is
positive and the calls are gets, puts and resizes to positive values that are no larger, the counter
is the capacity or the length of the history, whichever is less, so an eviction never takes a key
while one that was used before it stays.
-/

namespace MemoryGovernor.LRUCache

open LinkedHeap
open Recency (keys Shrinking history)

variable {Key Value : Type*}

/-- A new cache is as full as its capacity and the empty history allow. -/
theorem full_empty {max_capacity : ℕ} (hpos : 0 < max_capacity) :
    Recency.Full (Recency.Cache.empty Key Value max_capacity) [] :=
  ⟨List.nil_prefix, List.nodup_nil, hpos, by simp [Recency.Cache.empty]⟩

variable [DecidableEq Key]

/-- After every sequence of calls from a new cache of any capacity, the list along `next` is the
first `size()` pairs of the history, and a `get` hits exactly on those. Where the capacity is
positive and only lowered by a `resize`, to positive values, their number is what the capacity
allows. -/
theorem run_history (A : Allocator) (max_capacity : ℕ) (ops : List (Recency.Op Key Value)) :
    ∃ os c, Machine.run (step A) (new Key Value max_capacity) ops = some (os, c) ∧
      (keys (history [] ops os)).Nodup ∧ c.entries = (history [] ops os).take c.size ∧
      (∀ k v, Hits c k v ↔ (k, v) ∈ (history [] ops os).take c.size) ∧
      (0 < max_capacity → Shrinking max_capacity ops →
        c.size = min c.capacity (history [] ops os).length) := by
  obtain ⟨os, c, r, hrun, hrec, h⟩ := run_refines A (refines_new max_capacity) ops
  obtain ⟨cells, hrep, hentries⟩ := h.rep
  have hnil : (Recency.Cache.empty Key Value max_capacity).entries <+: [] := List.nil_prefix
  obtain ⟨hpre, hnodup⟩ := Recency.run_isPrefix hnil List.nodup_nil hrec
  have htake : r.entries = (history [] ops os).take c.size := by
    rw [h.size]
    exact List.prefix_iff_eq_take.1 hpre
  refine ⟨os, c, hrun, hnodup, ?_, fun k v => ?_, fun hpos hops => ?_⟩
  · rw [hrep.entries, ← hentries, htake]
  · rw [h.hits_iff, Recency.find_eq_some r.nodup_keys, htake]
  · rw [h.size, h.capacity]
    exact (Recency.run_full (full_empty hpos) hops hrec).length

/-- Three writes with a lookup between them, in a cache of two: the key used last before the third
write stays. -/
example : ∃ os c, Machine.run (step Allocator.above) (new String String 2)
      [.put "a" "1", .put "b" "2", .get "a", .put "c" "3"] = some (os, c) ∧
    history [] [.put "a" "1", .put "b" "2", .get "a", .put "c" "3"] os =
      [("c", "3"), ("a", "1"), ("b", "2")] ∧ c.entries = [("c", "3"), ("a", "1")] :=
  ⟨_, _, rfl, rfl, rfl⟩

end MemoryGovernor.LRUCache
