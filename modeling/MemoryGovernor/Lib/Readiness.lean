import Mathlib.Data.List.Nodup
import Mathlib.Data.Option.Basic

/-!
# Edge-triggered readiness

One thread serves many sources. Whatever comes to a source puts it on a ready list (`wake`); a wait
takes sources off the list, with a report of what is there (`report`), and the thread then looks at
one after another, each until nothing is left there. A source that was taken off the list is not
told of again until more comes. What makes this safe is that whatever is pending is known
(`Covers`): its source is on the list, or was reported and not looked at yet, or is the one that the
thread is looking at. Each operation has a rule here for what it does to that, and to the sources
being told of once (`Once`). `load` counts what the thread still has to look at.
-/

/-- The ready list, and the reports that the thread has got and not looked at. -/
structure Watch (K F : Type*) where
  ready : List K := []
  reported : List (K × F) := []

namespace Watch

variable {K F : Type*}

/-- The sources of the reports. -/
def sources (w : Watch K F) : List K := w.reported.map Prod.fst

/-- The thread takes the first report. -/
def tail (w : Watch K F) : Watch K F := { w with reported := w.reported.tail }

/-- A wait: the sources of the list where something is to be reported, up to `limit` of them with
their reports. The rest of these stay on the list. -/
def report (w : Watch K F) (limit : ℕ) (flags : K → Option F) : Watch K F where
  ready := (w.ready.filter fun k => (flags k).isSome).drop limit
  reported := (w.ready.filterMap fun k => (flags k).map fun f => (k, f)).take limit

/-- What the thread still has to look at, the list counting for more than the reports. -/
def load (w : Watch K F) : ℕ := 3 * w.ready.length + 2 * w.reported.length

section Operations

variable [DecidableEq K]

/-- Something comes to a source. -/
def wake (w : Watch K F) (k : K) : Watch K F :=
  if k ∈ w.ready then w else { w with ready := w.ready ++ [k] }

/-- A source is watched no longer. Reports of it stay. -/
def forget (w : Watch K F) (k : K) : Watch K F := { w with ready := w.ready.filter (· ≠ k) }

@[simp]
theorem reported_wake (w : Watch K F) (k : K) : (w.wake k).reported = w.reported := by
  unfold wake
  split_ifs <;> rfl

@[simp]
theorem sources_wake (w : Watch K F) (k : K) : (w.wake k).sources = w.sources := by
  rw [sources, reported_wake, sources]

@[simp]
theorem sources_forget (w : Watch K F) (k : K) : (w.forget k).sources = w.sources := rfl

@[simp]
theorem mem_ready_wake {w : Watch K F} {k a : K} :
    k ∈ (w.wake a).ready ↔ k ∈ w.ready ∨ k = a := by
  unfold wake
  split_ifs with h
  · refine (or_iff_left_of_imp ?_).symm
    rintro rfl
    exact h
  · simp

@[simp]
theorem mem_ready_forget {w : Watch K F} {k a : K} :
    k ∈ (w.forget a).ready ↔ k ∈ w.ready ∧ k ≠ a := by
  simp [forget]

/-- A source on the list costs as much as it does to report and look at it. -/
theorem load_wake_le (w : Watch K F) (k : K) : (w.wake k).load ≤ w.load + 3 := by
  unfold load wake
  split_ifs
  · omega
  · simp only [List.length_append, List.length_singleton]
    omega

theorem load_forget_le (w : Watch K F) (k : K) : (w.forget k).load ≤ w.load := by
  have hle : (w.ready.filter (· ≠ k)).length ≤ w.ready.length := List.length_filter_le _ _
  unfold load forget
  dsimp only
  omega

end Operations

/-- A report is the one of its source. -/
theorem flags_of_mem_report {w : Watch K F} {limit : ℕ} {flags : K → Option F} {r : K × F}
    (h : r ∈ (w.report limit flags).reported) : flags r.1 = some r.2 := by
  obtain ⟨a, -, heq⟩ := List.mem_filterMap.1 (List.mem_of_mem_take h)
  obtain ⟨f', hf, rfl⟩ := Option.map_eq_some_iff.1 heq
  exact hf

/-- The sources that have something to report, in order, and their reports. -/
theorem sources_filterMap (l : List K) (flags : K → Option F) :
    (l.filterMap fun k => (flags k).map fun f => (k, f)).map Prod.fst =
      l.filter fun k => (flags k).isSome := by
  induction l with
  | nil => rfl
  | cons k l ih =>
    cases hk : flags k with
    | none => simp [hk, ih]
    | some f => simp [hk, ih]

theorem sources_report (w : Watch K F) (limit : ℕ) (flags : K → Option F) :
    (w.report limit flags).sources =
      (w.ready.filter fun k => (flags k).isSome).take limit := by
  rw [sources, report, List.map_take, sources_filterMap]

/-- A wait that has something on its list lowers the load. -/
theorem load_report_lt {w : Watch K F} {limit : ℕ} {flags : K → Option F} (hlimit : 0 < limit)
    (hready : w.ready ≠ []) (hreported : w.reported = []) :
    (w.report limit flags).load < w.load := by
  have hlen : (w.report limit flags).reported.length =
      ((w.ready.filter fun k => (flags k).isSome).take limit).length := by
    rw [← sources_report, sources, List.length_map]
  have hle : (w.ready.filter fun k => (flags k).isSome).length ≤ w.ready.length :=
    List.length_filter_le _ _
  have hpos : 0 < w.ready.length := List.length_pos_of_ne_nil hready
  have hready' : (w.report limit flags).ready.length =
      (w.ready.filter fun k => (flags k).isSome).length - limit := List.length_drop
  rw [List.length_take] at hlen
  simp only [load, hlen, hready', hreported, List.length_nil]
  omega

/-! ## Nothing is lost -/

/-- Whatever is pending is on the list, reported, or what the thread is looking at. -/
def Covers (w : Watch K F) (current : Option K) (pending : K → Prop) : Prop :=
  ∀ k, pending k → k ∈ w.ready ∨ k ∈ w.sources ∨ current = some k

section Covers

variable {w : Watch K F} {current : Option K} {P Q : K → Prop} {a : K}

/-- Less is pending. -/
theorem Covers.mono (h : w.Covers current P) (hQ : ∀ k, Q k → P k) : w.Covers current Q :=
  fun k hk => h k (hQ k hk)

/-- Something changes at the source that the thread looks at. -/
theorem Covers.look (h : w.Covers (some a) P) (hQ : ∀ k, k ≠ a → Q k → P k) :
    w.Covers (some a) Q := by
  intro k hk
  by_cases heq : k = a
  · exact .inr (.inr (heq ▸ rfl))
  · exact h k (hQ k heq hk)

/-- Something comes to a source. -/
theorem Covers.wake [DecidableEq K] (h : w.Covers current P) (hQ : ∀ k, k ≠ a → Q k → P k) :
    (w.wake a).Covers current Q := by
  intro k hk
  rw [mem_ready_wake, sources_wake]
  by_cases heq : k = a
  · exact .inl (.inr heq)
  · exact (h k (hQ k heq hk)).imp_left .inl

/-- A source is watched no longer. -/
theorem Covers.forget [DecidableEq K] (h : w.Covers current P) (hQ : ∀ k, Q k → P k ∧ k ≠ a) :
    (w.forget a).Covers current Q := by
  intro k hk
  obtain ⟨hP, hne⟩ := hQ k hk
  rw [mem_ready_forget, sources_forget]
  exact (h k hP).imp_left fun hmem => ⟨hmem, hne⟩

/-- The thread waits, with nothing reported to it and nothing that it looks at. -/
theorem Covers.report {limit : ℕ} {flags : K → Option F} (h : w.Covers none P)
    (hreported : w.reported = []) (hP : ∀ k, P k → (flags k).isSome) :
    (w.report limit flags).Covers none P := by
  intro k hk
  have hready : k ∈ w.ready := by
    rcases h k hk with hmem | hmem | hcur
    · exact hmem
    · rw [sources, hreported] at hmem
      cases hmem
    · cases hcur
  have hmem : k ∈ w.ready.filter fun k => (flags k).isSome := List.mem_filter.2 ⟨hready, hP k hk⟩
  rw [← List.take_append_drop limit (w.ready.filter fun k => (flags k).isSome)] at hmem
  rw [sources_report]
  rcases List.mem_append.1 hmem with htake | hdrop
  · exact .inr (.inl htake)
  · exact .inl hdrop

/-- The thread looks at the first source that was reported. -/
theorem Covers.next {r : K × F} {rs : List (K × F)} (h : w.Covers none P)
    (hreported : w.reported = r :: rs) : w.tail.Covers (some r.1) P := by
  intro k hk
  rcases h k hk with hmem | hmem | hcur
  · exact .inl hmem
  · rw [sources, hreported, List.map_cons, List.mem_cons] at hmem
    rcases hmem with rfl | hmem
    · exact .inr (.inr rfl)
    · refine .inr (.inl ?_)
      rwa [sources, tail, hreported, List.tail_cons]
  · cases hcur

/-- Nothing is left at the source that the thread looks at. -/
theorem Covers.done (h : w.Covers (some a) P) (hP : ¬ P a) : w.Covers none P := by
  intro k hk
  refine (h k hk).imp_right fun hor => hor.imp_right fun heq => ?_
  obtain rfl := Option.some.inj heq
  exact absurd hk hP

/-- Where the thread would wait for good, nothing is pending. -/
theorem Covers.rest (h : w.Covers none P) (hready : w.ready = []) (hreported : w.reported = [])
    (k : K) : ¬ P k := by
  intro hk
  rcases h k hk with hmem | hmem | hcur
  · rw [hready] at hmem
    cases hmem
  · rw [sources, hreported] at hmem
    cases hmem
  · cases hcur

end Covers

/-! ## A source is told of once -/

/-- No source is on the list twice, or reported twice, or reported while it is looked at. -/
structure Once (w : Watch K F) (current : Option K) : Prop where
  ready : w.ready.Nodup
  sources : w.sources.Nodup
  current : ∀ k, current = some k → k ∉ w.sources

section Once

variable {w : Watch K F} {current : Option K} {a : K}

theorem Once.wake [DecidableEq K] (h : w.Once current) : (w.wake a).Once current := by
  refine ⟨?_, by rw [sources_wake]; exact h.sources, by rw [sources_wake]; exact h.current⟩
  unfold Watch.wake
  split_ifs with hmem
  · exact h.ready
  · exact h.ready.append (List.nodup_singleton a) (by simpa using hmem)

theorem Once.forget [DecidableEq K] (h : w.Once current) : (w.forget a).Once current :=
  ⟨h.ready.filter _, h.sources, h.current⟩

theorem Once.report {limit : ℕ} {flags : K → Option F} (h : w.Once none) :
    (w.report limit flags).Once none := by
  refine ⟨(h.ready.filter _).sublist (List.drop_sublist _ _), ?_, fun _ hk => nomatch hk⟩
  rw [sources_report]
  exact (h.ready.filter _).sublist (List.take_sublist _ _)

theorem Once.next {r : K × F} {rs : List (K × F)} (h : w.Once none)
    (hreported : w.reported = r :: rs) : w.tail.Once (some r.1) := by
  have hnodup := h.sources
  rw [Watch.sources, hreported, List.map_cons, List.nodup_cons] at hnodup
  have htail : w.tail.sources = rs.map Prod.fst := by
    rw [Watch.sources, tail, hreported, List.tail_cons]
  refine ⟨h.ready, htail ▸ hnodup.2, ?_⟩
  rintro k heq
  obtain rfl := Option.some.inj heq
  exact htail ▸ hnodup.1

theorem Once.done (h : w.Once current) : w.Once none :=
  ⟨h.ready, h.sources, fun _ hk => nomatch hk⟩

end Once

end Watch
