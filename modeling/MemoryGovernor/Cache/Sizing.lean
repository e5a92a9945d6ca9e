import Mathlib.Algebra.Group.Nat.Defs
import MemoryGovernor.Cache.Governed
import MemoryGovernor.Lib.Machine

/-!
# Sizes in bytes

The arithmetic of `src/client/governed_cache.cpp`: the capacity that a target comes to, which is a
quotient, and the size that the cache reports, a product. Both have `estimated_entry_bytes_` in
them, which comes from the caller and is not checked.

A report that follows a target is exact, because the cache is then within a capacity whose product
is at most the target (`applyTarget_exact`). The one of `start` is exact where the product is in the
range of the type. The quotient is undefined where the estimate is 0. These are the only ways in
which a sequence of calls goes wrong (`run_exact_iff`).
-/

namespace MemoryGovernor

open LinkedHeap (Allocator)

namespace GovernedCache

/-- The calls of an application, and the messages that its listener handles. -/
inductive Call
  | put (key value : String)
  | get (key : String)
  /-- `start`, where the client connects or does not. -/
  | start (connected : Bool)
  | shrink (target_bytes : UInt64)
  | grow (target_bytes : UInt64)
deriving DecidableEq, Repr

/-- A call, with the size that it reports. -/
def step (A : Allocator) (g : GovernedCache) : Call → Option (Option UInt64 × GovernedCache)
  | .put key value => some (none, { g with cache := g.cache.put A key value })
  | .get key => some (none, { g with cache := (g.cache.get key).2 })
  | .start connected => some (if connected then some g.sizeBytes else none, g)
  | .shrink target_bytes => g.handleShrink target_bytes
  | .grow target_bytes => g.handleGrow target_bytes

/-- The size in bytes, as a number. -/
def exactBytes (g : GovernedCache) : ℕ := g.cache.size * g.estimated_entry_bytes.toNat

/-- What the call reports is the size in bytes. -/
def ReportsExactly (A : Allocator) (g : GovernedCache) (call : Call) : Prop :=
  ∀ report g', step A g call = some (some report, g') → report.toNat = g'.exactBytes

/-- A target does not meet an estimate of 0, and the size in bytes at a `start` is in the range. -/
def Sized (g : GovernedCache) : Call → Prop
  | .put _ _ | .get _ => True
  | .start connected => connected → g.exactBytes < 2^64
  | .shrink _ | .grow _ => g.estimated_entry_bytes ≠ 0

instance (g : GovernedCache) : ∀ call, Decidable (Sized g call)
  | .put _ _ | .get _ => isTrue trivial
  | .start connected => inferInstanceAs (Decidable (connected → g.exactBytes < 2^64))
  | .shrink _ | .grow _ => inferInstanceAs (Decidable (g.estimated_entry_bytes ≠ 0))

section Sizing

variable {g g' : GovernedCache} {applies : ℕ → ℕ → Bool} {target_bytes report : UInt64}

/-- The product is exact where it is in the range. -/
theorem sizeBytes_toNat_iff : g.sizeBytes.toNat = g.exactBytes ↔ g.exactBytes < 2^64 := by
  have hwrap : g.sizeBytes.toNat = g.exactBytes % 2^64 := by
    rw [sizeBytes, UInt64.toNat_mul, UInt64.toNat_ofNat', exactBytes, Nat.mod_mul_mod]
  rw [hwrap]
  constructor
  · intro heq
    rw [← heq]
    exact Nat.mod_lt _ (Nat.two_pow_pos 64)
  · exact Nat.mod_eq_of_lt

/-- What a target reports is exact: the product is at most the target. -/
theorem applyTarget_exact (h : applyTarget applies g target_bytes = some (some report, g')) :
    report.toNat = g'.exactBytes := by
  rcases applyTarget_cases h with ⟨-, hnone, -⟩ | ⟨-, hreport, rfl⟩
  · cases hnone
  · obtain rfl := Option.some.inj hreport
    rw [sizeBytes_toNat_iff]
    have hsize := Nat.min_le_left (target_bytes / g.estimated_entry_bytes).toNat g.cache.size
    rw [← SoundCache.resize_size, UInt64.toNat_div] at hsize
    calc (g.cache.resize (target_bytes / g.estimated_entry_bytes).toNat).size *
          g.estimated_entry_bytes.toNat
        ≤ target_bytes.toNat / g.estimated_entry_bytes.toNat * g.estimated_entry_bytes.toNat :=
          Nat.mul_le_mul_right _ hsize
      _ ≤ target_bytes.toNat := Nat.div_mul_le_self _ _
      _ < 2^64 := target_bytes.toNat_lt

/-- A target is applied, and what it reports is exact, where the estimate is not 0. -/
theorem applyTarget_iff (applies : ℕ → ℕ → Bool) (g : GovernedCache) (target_bytes : UInt64) :
    (∃ o g', applyTarget applies g target_bytes = some (o, g')) ∧
      (∀ report g', applyTarget applies g target_bytes = some (some report, g') →
        report.toNat = g'.exactBytes) ↔ g.estimated_entry_bytes ≠ 0 := by
  constructor
  · rintro ⟨⟨o, g', h⟩, -⟩ hzero
    rw [applyTarget, if_pos hzero] at h
    cases h
  · intro hne
    obtain ⟨⟨o, g'⟩, h⟩ := exists_applyTarget applies hne target_bytes
    exact ⟨⟨o, g', h⟩, fun report g' h => applyTarget_exact h⟩

/-- A call is defined and reports exactly in these cases. -/
theorem step_iff (A : Allocator) (g : GovernedCache) (call : Call) :
    (∃ o g', step A g call = some (o, g')) ∧ ReportsExactly A g call ↔ Sized g call := by
  cases call with
  | put key value => exact iff_of_true ⟨⟨_, _, rfl⟩, fun report g' h => (nomatch h)⟩ trivial
  | get key => exact iff_of_true ⟨⟨_, _, rfl⟩, fun report g' h => (nomatch h)⟩ trivial
  | start connected =>
    refine (and_iff_right ⟨_, _, rfl⟩).trans ⟨fun h hconnected => ?_, fun h report g' hstep => ?_⟩
    · subst hconnected
      exact sizeBytes_toNat_iff.1 (h g.sizeBytes g rfl)
    · obtain ⟨hreport, rfl⟩ := Prod.mk.inj (Option.some.inj hstep)
      split_ifs at hreport with hconnected
      obtain rfl := Option.some.inj hreport
      exact sizeBytes_toNat_iff.2 (h hconnected)
  | shrink target_bytes =>
    simp only [step, ReportsExactly, handleShrink]
    exact applyTarget_iff _ g target_bytes
  | grow target_bytes =>
    simp only [step, ReportsExactly, handleGrow]
    exact applyTarget_iff _ g target_bytes

/-- A cache with any capacity and estimate, and any calls and targets: no target divides by zero,
and every size that is reported is the exact product, exactly if no target comes where the estimate
is 0 and at each `start` that connects the product is in the range. -/
theorem run_exact_iff (A : Allocator) (max_capacity : ℕ) (estimated_entry_bytes : UInt64)
    (calls : List Call) :
    (∃ outs g, Machine.run (step A) (new max_capacity estimated_entry_bytes) calls =
        some (outs, g)) ∧
      Machine.Along (step A) (ReportsExactly A) (new max_capacity estimated_entry_bytes) calls ↔
    Machine.Along (step A) Sized (new max_capacity estimated_entry_bytes) calls :=
  Machine.exists_run_and_along_iff (step_iff A) _ calls

/-- A cache whose entries are estimated at `2^63` bytes each. -/
def wide : GovernedCache := new 10 9223372036854775808

/-- Two entries, and a start. -/
def twoEntries : List Call := [.put "a" "1", .put "b" "2", .start true]

/-- The first target divides by zero where the estimate is 0, and two entries of the wide cache are
reported as 0 bytes. -/
theorem not_exact_estimates :
    Machine.run (step Allocator.above) (new 10 0) [.shrink 0] = none ∧
      (Machine.run (step Allocator.above) wide twoEntries).map Prod.fst =
        some [none, none, some 0] ∧
      (Machine.last (step Allocator.above) wide twoEntries).exactBytes = 2^64 ∧
      ¬ Machine.Along (step Allocator.above) (ReportsExactly Allocator.above) wide twoEntries := by
  refine ⟨rfl, by decide +kernel, by decide +kernel, fun hexact => ?_⟩
  -- The third call is the start, in the state that the two writes lead to.
  obtain ⟨-, hrest⟩ := hexact
  obtain ⟨hstart, -⟩ := (hrest none _ rfl).2 none _ rfl
  exact absurd (hstart _ _ rfl) (by decide +kernel)

end Sizing

end GovernedCache

end MemoryGovernor
