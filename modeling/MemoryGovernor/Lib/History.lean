import MemoryGovernor.Lib.Recency

/-!
# What an LRU cache holds, from its history

The operations of a cache and what a caller saw of them say which keys were used, in which order,
and what was written last for each: `history` lists every key ever written, the one used last first,
with its last value. It knows nothing of capacities. A cache holds the first part of its history
(`run_isPrefix`), after any operations: its list changes at the front exactly as the history does,
and whatever leaves it leaves at the end. Where nothing is taken out but to make room, and the
capacity is positive and only lowered (`Shrinking`), the part is as long as the capacity allows
(`run_full`), so the cache holds the keys used last, as many as fit.
-/

namespace Recency

variable {K V : Type*}

/-- The pairs that stay when a new one comes in are the first ones. -/
theorem room_isPrefix (c : Cache K V) : c.room <+: c.entries := by
  unfold Cache.room
  split_ifs
  · exact List.dropLast_prefix _
  · exact List.prefix_rfl

/-- The cache is as full as its capacity and the history allow. -/
structure Full (c : Cache K V) (h : List (K × V)) : Prop where
  entries : c.entries <+: h
  nodup : (keys h).Nodup
  pos : 0 < c.capacity
  length : c.entries.length = min c.capacity h.length

/-- A lower capacity cuts the list to it. -/
theorem Full.resize {c : Cache K V} {h : List (K × V)} (hc : Full c h) {n : ℕ} (hn : 0 < n)
    (hle : n ≤ c.capacity) : Full (c.resize n) h := by
  refine ⟨(List.take_prefix n _).trans hc.entries, hc.nodup, hn, ?_⟩
  have hcap : (c.resize n).capacity = n := rfl
  rw [Cache.resize_length, hc.length, hcap]
  omega

variable [DecidableEq K]

/-- A key is used: it comes to the front with its value. -/
def use (k : K) (h : List (K × V)) : List (K × V) :=
  match find k h with
  | some v => (k, v) :: remove k h
  | none => h

/-- An operation, with what a caller saw of it, in the history before it. A key is used when it is
written and when a lookup finds it. -/
def record (h : List (K × V)) : Op K V → Observation V → List (K × V)
  | .put k v, _ => (k, v) :: remove k h
  | .get k, o => if (o.answer.bind id).isSome then use k h else h
  | .resize _, _ | .evictTo _, _ | .resetStats, _ => h

/-- The history of some operations after `h`. -/
def history (h : List (K × V)) : List (Op K V) → List (Observation V) → List (K × V)
  | op :: ops, o :: os => history (record h op o) ops os
  | _, _ => h

/-- A key that was found before is found in what comes before a list too. -/
theorem find_of_isPrefix {k : K} {v : V} {l h : List (K × V)} (hl : l <+: h)
    (hk : find k l = some v) : find k h = some v := by
  obtain ⟨r, rfl⟩ := hl
  obtain ⟨e, he, hv⟩ := Option.map_eq_some_iff.1 hk
  rw [find, List.find?_append, he]
  exact congrArg some hv

/-- Without a key, a first part stays one. -/
theorem remove_isPrefix (k : K) {l h : List (K × V)} (hl : l <+: h) : remove k l <+: remove k h :=
  hl.filter _

/-- A key that is used occurs once. -/
theorem nodup_use (k : K) {h : List (K × V)} (hh : (keys h).Nodup) : (keys (use k h)).Nodup := by
  unfold use
  split
  · exact nodup_keys_touch k _ hh
  · exact hh

/-- A use is no new key. -/
theorem length_use (k : K) {h : List (K × V)} (hh : (keys h).Nodup) :
    (use k h).length = h.length := by
  unfold use
  split
  · next v hfind => exact length_touch hh ((find_eq_some hh).1 hfind)
  · rfl

section Step

variable {c c' : Cache K V} {h : List (K × V)} {op : Op K V} {o : Observation V}

/-- What an operation keeps: the cache holds the first part of the history. -/
theorem isPrefix_step (hc : c.entries <+: h) (hstep : c.step op = some (o, c')) :
    c'.entries <+: record h op o := by
  cases op <;> obtain ⟨rfl, rfl⟩ := Prod.mk.inj (Option.some.inj hstep)
  case get k =>
    cases hfind : find k c.entries with
    | none =>
      have hmiss := Cache.get_of_notMem (find_eq_none.1 hfind)
      rw [hmiss]
      exact hc
    | some v =>
      have hhit := Cache.get_of_find hfind
      rw [hhit]
      have huse : record h (.get k) (Cache.observe (some (some v)) (c.get k).2) =
          (k, v) :: remove k h := by
        simp [record, Cache.observe, use, find_of_isPrefix hc hfind]
      rw [hhit] at huse
      rw [huse]
      exact (List.prefix_cons_inj _).2 (remove_isPrefix k hc)
  case put k v =>
    by_cases hk : k ∈ keys c.entries
    · rw [Cache.put_entries_of_mem v hk]
      exact (List.prefix_cons_inj _).2 (remove_isPrefix k hc)
    · rw [Cache.put_entries_of_notMem v hk]
      refine (List.prefix_cons_inj _).2 ((room_isPrefix c).trans ?_)
      -- The key is not among the pairs, so they are the first part without it too.
      have hpre := remove_isPrefix k hc
      rwa [remove_of_notMem hk] at hpre
  case resize n => exact (List.take_prefix n _).trans hc
  case evictTo n => exact (List.take_prefix n _).trans hc
  case resetStats => exact hc

/-- A key occurs once in the history. -/
theorem nodup_record (hh : (keys h).Nodup) : (keys (record h op o)).Nodup := by
  cases op with
  | get k =>
    simp only [record]
    split_ifs
    · exact nodup_use k hh
    · exact hh
  | put k v => exact nodup_keys_touch k v hh
  | resize n => exact hh
  | evictTo n => exact hh
  | resetStats => exact hh

end Step

/-- After any operations, the cache holds the first part of the history. -/
theorem run_isPrefix {c c' : Cache K V} {h : List (K × V)} {ops : List (Op K V)}
    {os : List (Observation V)} (hc : c.entries <+: h) (hh : (keys h).Nodup)
    (hrun : Machine.run Cache.step c ops = some (os, c')) :
    c'.entries <+: history h ops os ∧ (keys (history h ops os)).Nodup := by
  induction ops generalizing c h os with
  | nil =>
    simp only [Machine.run_nil, Option.some.injEq, Prod.mk.injEq] at hrun
    obtain ⟨rfl, rfl⟩ := hrun
    exact ⟨hc, hh⟩
  | cons op ops ih =>
    obtain ⟨o, c₁, os₁, hstep, hrun', rfl⟩ := Machine.run_cons_eq_some.1 hrun
    exact ih (isPrefix_step hc hstep) (nodup_record hh) hrun'

/-! ## A capacity that is only lowered -/

section Full

variable {c : Cache K V} {h : List (K × V)}

/-- A key that was used before keeps the history's length. -/
theorem length_use_of_mem (hh : (keys h).Nodup) {k : K} (v : V) (hk : k ∈ keys h) :
    ((k, v) :: remove k h).length = h.length := by
  obtain ⟨w, hw⟩ := mem_keys.1 hk
  exact length_touch hh hw

theorem Full.get (hc : Full c h) (k : K) :
    Full (c.get k).2 (record h (.get k) (Cache.observe (some (c.get k).1) (c.get k).2)) := by
  have hstep : c.step (.get k) = some (Cache.observe (some (c.get k).1) (c.get k).2,
    (c.get k).2) := rfl
  refine ⟨isPrefix_step hc.entries hstep, nodup_record hc.nodup, ?_, ?_⟩
  · rw [Cache.get_capacity]
    exact hc.pos
  · rw [Cache.get_length, Cache.get_capacity, hc.length]
    simp only [record]
    split_ifs
    · rw [length_use k hc.nodup]
    · rfl

theorem Full.put (hc : Full c h) (k : K) (v : V) :
    Full (c.put k v) ((k, v) :: remove k h) := by
  have hstep : c.step (.put k v) = some (Cache.observe none (c.put k v), c.put k v) := rfl
  refine ⟨isPrefix_step hc.entries hstep, nodup_keys_touch k v hc.nodup, ?_, ?_⟩
  · rw [Cache.put_capacity]
    exact hc.pos
  · have hpos := hc.pos
    have hlen := hc.length
    rw [Cache.put_capacity]
    by_cases hk : k ∈ keys c.entries
    · have hkh : k ∈ keys h := (hc.entries.sublist.map Prod.fst).subset hk
      rw [Cache.put_length_of_mem v hk, length_use_of_mem hc.nodup v hkh, hlen]
    · rw [Cache.put_length_of_notMem v hk, Cache.room_length]
      by_cases hkh : k ∈ keys h
      · -- The key was pushed out, so the list is full.
        rw [length_use_of_mem hc.nodup v hkh]
        have hne : c.entries.length ≠ h.length := by
          intro heq
          exact hk (hc.entries.eq_of_length heq ▸ hkh)
        split_ifs <;> omega
      · rw [List.length_cons, remove_of_notMem hkh]
        split_ifs <;> omega

/-- Where the operations are lookups, writes and resizes to positive values that are no larger, the
cache holds as much of the history as its capacity allows. -/
theorem run_full {c' : Cache K V} {ops : List (Op K V)} {os : List (Observation V)} (hc : Full c h)
    (hops : Shrinking c.capacity ops) (hrun : Machine.run Cache.step c ops = some (os, c')) :
    Full c' (history h ops os) := by
  induction ops generalizing c h os with
  | nil =>
    simp only [Machine.run_nil, Option.some.injEq, Prod.mk.injEq] at hrun
    obtain ⟨rfl, rfl⟩ := hrun
    exact hc
  | cons op ops ih =>
    obtain ⟨o, c₁, os₁, hstep, hrun', rfl⟩ := Machine.run_cons_eq_some.1 hrun
    cases op <;> obtain ⟨rfl, rfl⟩ := Prod.mk.inj (Option.some.inj hstep)
    case get k => exact ih (hc.get k) (by rw [Cache.get_capacity]; exact hops) hrun'
    case put k v => exact ih (hc.put k v) (by rw [Cache.put_capacity]; exact hops) hrun'
    case resize n => exact ih (hc.resize hops.1 hops.2.1) hops.2.2 hrun'
    case evictTo n => exact hops.elim
    case resetStats => exact hops.elim

end Full

end Recency
