import Mathlib.Data.List.Basic
import Mathlib.Data.Option.Basic

/-!
# Runs of a labelled step function

A machine is a step function: from a state and a label it gives an output and the next state, or
nothing where the step is not defined. `run` iterates it over a list of labels. The rules below are
the ones a proof about runs needs: how runs compose (`run_append_eq_some`), what every run
preserves (`run_invariant`), what a run preserves whose steps all meet a condition
(`along_invariant`), when two machines give the same outputs (`run_simulates`), and when the runs
from a state are bounded (`terminates_of_measure`, `not_terminates`). Each is one induction, done
here once.
-/

namespace Machine

variable {S T E O : Type*}

/-- The run of a list of labels: the outputs in order and the last state, or `none` when one of the
steps is not defined. -/
def run (step : S → E → Option (O × S)) : S → List E → Option (List O × S)
  | s, [] => some ([], s)
  | s, e :: es => (step s e).bind fun r => (run step r.2 es).map fun q => (r.1 :: q.1, q.2)

section Composition

variable {step : S → E → Option (O × S)}

@[simp]
theorem run_nil (s : S) : run step s [] = some ([], s) := rfl

/-- A run of a first label and the rest is a step followed by a run. -/
theorem run_cons_eq_some {s u : S} {e : E} {es : List E} {os : List O} :
    run step s (e :: es) = some (os, u) ↔
      ∃ o t os', step s e = some (o, t) ∧ run step t es = some (os', u) ∧ os = o :: os' := by
  simp only [run, Option.bind_eq_some_iff, Option.map_eq_some_iff, Prod.mk.injEq, Prod.exists]
  constructor
  · rintro ⟨o, t, hstep, os', v, hrun, rfl, rfl⟩
    exact ⟨o, t, os', hstep, hrun, rfl⟩
  · rintro ⟨o, t, os', hstep, hrun, rfl⟩
    exact ⟨o, t, hstep, os', u, hrun, rfl, rfl⟩

/-- A run of two lists of labels is a run of the first followed by a run of the second. -/
theorem run_append_eq_some {s u : S} {es fs : List E} {os : List O} :
    run step s (es ++ fs) = some (os, u) ↔
      ∃ os₁ t os₂, run step s es = some (os₁, t) ∧ run step t fs = some (os₂, u) ∧
        os = os₁ ++ os₂ := by
  induction es generalizing s os with
  | nil => simp
  | cons e es ih =>
    rw [List.cons_append, run_cons_eq_some]
    constructor
    · rintro ⟨o, t, os', hstep, hrun, rfl⟩
      obtain ⟨os₁, v, os₂, h₁, h₂, rfl⟩ := ih.1 hrun
      exact ⟨o :: os₁, v, os₂, run_cons_eq_some.2 ⟨o, t, os₁, hstep, h₁, rfl⟩, h₂, rfl⟩
    · rintro ⟨os₁, v, os₂, h₁, h₂, rfl⟩
      obtain ⟨o, t, os', hstep, hrun, rfl⟩ := run_cons_eq_some.1 h₁
      exact ⟨o, t, os' ++ os₂, hstep, ih.2 ⟨os', v, os₂, hrun, h₂, rfl⟩, rfl⟩

/-- A run of one label is a step. -/
theorem run_singleton_eq_some {s u : S} {e : E} {os : List O} :
    run step s [e] = some (os, u) ↔ ∃ o, step s e = some (o, u) ∧ os = [o] := by
  rw [run_cons_eq_some]
  constructor
  · rintro ⟨o, t, os', hstep, hrun, rfl⟩
    simp only [run_nil, Option.some.injEq, Prod.mk.injEq] at hrun
    obtain ⟨rfl, rfl⟩ := hrun
    exact ⟨o, hstep, rfl⟩
  · rintro ⟨o, hstep, rfl⟩
    exact ⟨o, u, [], hstep, rfl, rfl⟩

/-- A step that gives no output is defined where its next state is. -/
theorem silent_eq_some {x : Option S} {o : Option O} {t : S} :
    x.map (fun s => (none, s)) = some (o, t) ↔ o = none ∧ x = some t := by
  rw [Option.map_eq_some_iff]
  constructor
  · rintro ⟨s, hx, heq⟩
    obtain ⟨rfl, rfl⟩ := Prod.mk.inj heq
    exact ⟨rfl, hx⟩
  · rintro ⟨rfl, hx⟩
    exact ⟨t, hx, rfl⟩

/-- The last state of a run, or the first one where a step is not defined. -/
def last (step : S → E → Option (O × S)) (s : S) (es : List E) : S :=
  ((run step s es).map Prod.snd).getD s

/-- A run that is defined ends in its last state. -/
theorem exists_run_eq_last (s : S) (es : List E) (h : (run step s es).isSome) :
    ∃ os, run step s es = some (os, last step s es) := by
  obtain ⟨⟨os, t⟩, hrun⟩ := Option.isSome_iff_exists.1 h
  exact ⟨os, by rw [last, hrun]; rfl⟩

end Composition

/-! ## What runs preserve -/

section Invariants

variable {step : S → E → Option (O × S)}

/-- What every step preserves, every run preserves. -/
theorem run_invariant {I : S → Prop}
    (hstep : ∀ s e o t, I s → step s e = some (o, t) → I t) {s u : S} {es : List E}
    {os : List O} (hs : I s) (hrun : run step s es = some (os, u)) : I u := by
  induction es generalizing s os with
  | nil =>
    simp only [run_nil, Option.some.injEq, Prod.mk.injEq] at hrun
    exact hrun.2 ▸ hs
  | cons e es ih =>
    obtain ⟨o, t, os', h, hrun', -⟩ := run_cons_eq_some.1 hrun
    exact ih (hstep s e o t hs h) hrun'

/-- What actions preserve that meet `C` and may each fail, a list of them preserves. -/
theorem foldlM_invariant_of_mem {A : Type*} {f : S → A → Option S} {C : A → Prop} {I : S → Prop}
    (hstep : ∀ s a t, I s → C a → f s a = some t → I t) {as : List A} {s t : S} (hs : I s)
    (hC : ∀ a ∈ as, C a) (hfold : as.foldlM f s = some t) : I t := by
  induction as generalizing s with
  | nil =>
    obtain rfl : s = t := by simpa using hfold
    exact hs
  | cons a as ih =>
    obtain ⟨ha, has⟩ := List.forall_mem_cons.1 hC
    rw [List.foldlM_cons, Option.bind_eq_bind, Option.bind_eq_some_iff] at hfold
    obtain ⟨v, hv, hrest⟩ := hfold
    exact ih (hstep s a v hs ha hv) has hrest

/-- What every action of a list preserves that may each fail, the list preserves. -/
theorem foldlM_invariant {A : Type*} {f : S → A → Option S} {I : S → Prop}
    (hstep : ∀ s a t, I s → f s a = some t → I t) {as : List A} {s t : S} (hs : I s)
    (hfold : as.foldlM f s = some t) : I t :=
  foldlM_invariant_of_mem (C := fun _ => True) (fun s a t h _ => hstep s a t h) hs
    (fun _ _ => trivial) hfold

/-- Every step of the run is taken in a state and with a label that meet `C`. -/
def Along (step : S → E → Option (O × S)) (C : S → E → Prop) : S → List E → Prop
  | _, [] => True
  | s, e :: es => C s e ∧ ∀ o t, step s e = some (o, t) → Along step C t es

/-- Whether a run meets `C` throughout is decided by running it. -/
instance decidableAlong {C : S → E → Prop} [∀ s e, Decidable (C s e)] :
    ∀ s es, Decidable (Along step C s es)
  | _, [] => isTrue trivial
  | s, e :: es =>
    match h : step s e with
    | none => decidable_of_iff (C s e) ⟨fun hC => ⟨hC, fun o t h' => nomatch h.symm.trans h'⟩,
        fun hC => hC.1⟩
    | some (o, t) =>
      have := decidableAlong (C := C) t es
      decidable_of_iff (C s e ∧ Along step C t es) ⟨fun hC => ⟨hC.1, fun o' t' h' => by
        obtain ⟨-, rfl⟩ := Prod.mk.inj (Option.some.inj (h.symm.trans h'))
        exact hC.2⟩, fun hC => ⟨hC.1, hC.2 o t h⟩⟩

/-- A run that meets two conditions throughout meets both. -/
theorem Along.and {C D : S → E → Prop} {s : S} {es : List E} (hC : Along step C s es)
    (hD : Along step D s es) : Along step (fun s e => C s e ∧ D s e) s es := by
  induction es generalizing s with
  | nil => trivial
  | cons e es ih =>
    exact ⟨⟨hC.1, hD.1⟩, fun o t h => ih (hC.2 o t h) (hD.2 o t h)⟩

/-- What holds of every label holds along the run. -/
theorem along_of_forall {C : E → Prop} {es : List E} (h : ∀ e ∈ es, C e) (s : S) :
    Along step (fun _ e => C e) s es := by
  induction es generalizing s with
  | nil => trivial
  | cons e es ih =>
    obtain ⟨he, hes⟩ := List.forall_mem_cons.1 h
    exact ⟨he, fun _ t _ => ih hes t⟩

/-- Conditions that agree on every step that is defined agree along a run that is. -/
theorem along_congr {C D : S → E → Prop}
    (h : ∀ s e o t, step s e = some (o, t) → (C s e ↔ D s e)) {s u : S} {es : List E} {os : List O}
    (hrun : run step s es = some (os, u)) : Along step C s es ↔ Along step D s es := by
  induction es generalizing s os with
  | nil => exact Iff.rfl
  | cons e es ih =>
    obtain ⟨o, t, os', hstep, hrun', -⟩ := run_cons_eq_some.1 hrun
    refine and_congr (h s e o t hstep) (forall₃_congr fun o' t' hstep' => ?_)
    obtain ⟨-, rfl⟩ := Prod.mk.inj (Option.some.inj (hstep.symm.trans hstep'))
    exact ih hrun'

/-- Where a step is defined and meets `C` exactly if it meets `D`, a run is defined and meets `C`
throughout exactly if it meets `D` throughout. -/
theorem exists_run_and_along_iff {C D : S → E → Prop}
    (h : ∀ s e, (∃ o t, step s e = some (o, t)) ∧ C s e ↔ D s e) (s : S) (es : List E) :
    (∃ os u, run step s es = some (os, u)) ∧ Along step C s es ↔ Along step D s es := by
  induction es generalizing s with
  | nil => exact iff_of_true ⟨⟨[], s, rfl⟩, trivial⟩ trivial
  | cons e es ih =>
    constructor
    · rintro ⟨⟨os, u, hrun⟩, hC, hrest⟩
      obtain ⟨o, t, os', hstep, hrun', -⟩ := run_cons_eq_some.1 hrun
      refine ⟨(h s e).1 ⟨⟨o, t, hstep⟩, hC⟩, fun o' t' hstep' => ?_⟩
      obtain ⟨-, rfl⟩ := Prod.mk.inj (Option.some.inj (hstep.symm.trans hstep'))
      exact (ih t).1 ⟨⟨os', u, hrun'⟩, hrest o t hstep⟩
    · rintro ⟨hD, hrest⟩
      obtain ⟨⟨o, t, hstep⟩, hC⟩ := (h s e).2 hD
      obtain ⟨⟨os, u, hrun⟩, hCs⟩ := (ih t).2 (hrest o t hstep)
      refine ⟨⟨o :: os, u, run_cons_eq_some.2 ⟨o, t, os, hstep, hrun, rfl⟩⟩, hC, ?_⟩
      intro o' t' hstep'
      obtain ⟨-, rfl⟩ := Prod.mk.inj (Option.some.inj (hstep.symm.trans hstep'))
      exact hCs

/-- What holds of every state of a run holds of its first one. -/
theorem along_head {P : S → Prop} {s u : S} {es : List E} {os : List O}
    (hP : Along step (fun s _ => P s) s es) (hu : P u) (hrun : run step s es = some (os, u)) :
    P s := by
  cases es with
  | nil =>
    simp only [run_nil, Option.some.injEq, Prod.mk.injEq] at hrun
    exact hrun.2 ▸ hu
  | cons e es => exact hP.1

/-- What every step that meets `C` preserves, a run preserves whose steps all meet `C`. -/
theorem along_invariant {C : S → E → Prop} {I : S → Prop}
    (hstep : ∀ s e o t, I s → C s e → step s e = some (o, t) → I t) {s u : S} {es : List E}
    {os : List O} (hs : I s) (hC : Along step C s es) (hrun : run step s es = some (os, u)) :
    I u := by
  induction es generalizing s os with
  | nil =>
    simp only [run_nil, Option.some.injEq, Prod.mk.injEq] at hrun
    exact hrun.2 ▸ hs
  | cons e es ih =>
    obtain ⟨o, t, os', h, hrun', -⟩ := run_cons_eq_some.1 hrun
    exact ih (hstep s e o t hs hC.1 h) (hC.2 o t h) hrun'

/-- The same where a step also needs `P` of the states before and after it, which every state of the
run has. -/
theorem along_invariant_states {C : S → E → Prop} {P I : S → Prop}
    (hstep : ∀ s e o t, I s → P s → P t → C s e → step s e = some (o, t) → I t) {s u : S}
    {es : List E} {os : List O} (hs : I s) (hC : Along step C s es)
    (hP : Along step (fun s _ => P s) s es) (hu : P u) (hrun : run step s es = some (os, u)) :
    I u := by
  induction es generalizing s os with
  | nil =>
    simp only [run_nil, Option.some.injEq, Prod.mk.injEq] at hrun
    exact hrun.2 ▸ hs
  | cons e es ih =>
    obtain ⟨o, t, os', h, hrun', -⟩ := run_cons_eq_some.1 hrun
    have hrest := hP.2 o t h
    have ht : P t := along_head hrest hu hrun'
    exact ih (hstep s e o t hs hP.1 ht hC.1 h) (hC.2 o t h) hrest hrun'

/-- The same for what relates the outputs so far to the state. -/
theorem along_outputs {C : S → E → Prop} {I : List O → S → Prop}
    (hstep : ∀ os s e o t, I os s → C s e → step s e = some (o, t) → I (os ++ [o]) t) {s u : S}
    {es : List E} {os : List O} (hs : I [] s) (hC : Along step C s es)
    (hrun : run step s es = some (os, u)) : I os u := by
  have hfrom : ∀ (es : List E) (s : S) (os₀ os : List O), I os₀ s → Along step C s es →
      run step s es = some (os, u) → I (os₀ ++ os) u := by
    intro es
    induction es with
    | nil =>
      intro s os₀ os hs _ hrun
      simp only [run_nil, Option.some.injEq, Prod.mk.injEq] at hrun
      obtain ⟨rfl, rfl⟩ := hrun
      rwa [List.append_nil]
    | cons e es ih =>
      intro s os₀ os hs hC hrun
      obtain ⟨o, t, os', h, hrun', rfl⟩ := run_cons_eq_some.1 hrun
      have hrest := ih t (os₀ ++ [o]) os' (hstep os₀ s e o t hs hC.1 h) (hC.2 o t h) hrun'
      rwa [List.append_assoc, List.singleton_append] at hrest
  exact hfrom es s [] os hs hC hrun

/-- A step that meets `C` after a run that does. -/
theorem Along.concat {C : S → E → Prop} {s t : S} {es : List E} {os : List O} {e : E}
    (hC : Along step C s es) (hrun : run step s es = some (os, t)) (he : C t e) :
    Along step C s (es ++ [e]) := by
  induction es generalizing s os with
  | nil =>
    simp only [run_nil, Option.some.injEq, Prod.mk.injEq] at hrun
    obtain ⟨-, rfl⟩ := hrun
    exact ⟨he, fun _ _ _ => trivial⟩
  | cons e' es ih =>
    obtain ⟨o, v, os', h, hrun', -⟩ := run_cons_eq_some.1 hrun
    refine ⟨hC.1, fun o' v' h' => ?_⟩
    obtain ⟨-, rfl⟩ := Prod.mk.inj (Option.some.inj (h.symm.trans h'))
    exact ih (hC.2 o v h) hrun'

/-- A run that meets `C` throughout does so up to any point of it, and at that point's step. -/
theorem along_append {C : S → E → Prop} {s t : S} {es fs : List E} {os : List O}
    (hC : Along step C s (es ++ fs)) (hrun : run step s es = some (os, t)) :
    Along step C s es ∧ Along step C t fs := by
  induction es generalizing s os with
  | nil =>
    simp only [run_nil, Option.some.injEq, Prod.mk.injEq] at hrun
    exact ⟨trivial, hrun.2 ▸ hC⟩
  | cons e es ih =>
    obtain ⟨o, v, os', h, hrun', -⟩ := run_cons_eq_some.1 hrun
    refine ⟨⟨hC.1, fun o' v' h' => ?_⟩, (ih (hC.2 o v h) hrun').2⟩
    obtain ⟨rfl, rfl⟩ : o' = o ∧ v' = v := by simpa [h] using h'.symm
    exact (ih (hC.2 o' v' h) hrun').1

/-- Where a step leads to a state with `P` exactly if it meets `C`, every state of a run has `P`
exactly if the run meets `C` throughout. -/
theorem along_iff_forall_reached {C : S → E → Prop} {I P : S → Prop}
    (hinv : ∀ s e o t, I s → step s e = some (o, t) → I t)
    (hiff : ∀ s e o t, I s → P s → step s e = some (o, t) → (P t ↔ C s e)) {s u : S} {es : List E}
    {os : List O} (hs : I s) (hP : P s) (hrun : run step s es = some (os, u)) :
    Along step C s es ↔
      ∀ es₁ es₂ os₁ t, es = es₁ ++ es₂ → run step s es₁ = some (os₁, t) → P t := by
  constructor
  · rintro hC es₁ es₂ os₁ t rfl hrun₁
    have hboth : I t ∧ P t := along_invariant (I := fun s => I s ∧ P s)
      (fun s e o t h hC hstep => ⟨hinv s e o t h.1 hstep, (hiff s e o t h.1 h.2 hstep).2 hC⟩)
      ⟨hs, hP⟩ (along_append hC hrun₁).1 hrun₁
    exact hboth.2
  · induction es generalizing s os with
    | nil => exact fun _ => trivial
    | cons e es ih =>
      intro hall
      obtain ⟨o, t, os', hstep, hrun', -⟩ := run_cons_eq_some.1 hrun
      have ht : P t := hall [e] es [o] t rfl (run_singleton_eq_some.2 ⟨o, hstep, rfl⟩)
      refine ⟨(hiff s e o t hs hP hstep).1 ht, fun o' t' hstep' => ?_⟩
      obtain ⟨-, rfl⟩ := Prod.mk.inj (Option.some.inj (hstep.symm.trans hstep'))
      refine ih (hinv s e o t hs hstep) ht hrun' fun es₁ es₂ os₁ u' heq hrun₁ => ?_
      exact hall (e :: es₁) es₂ (o :: os₁) u' (by rw [heq, List.cons_append])
        (run_cons_eq_some.2 ⟨o, t, os₁, hstep, hrun₁, rfl⟩)

/-- Forward simulation: related states step, on every label, to related states with the same
output, so their runs are both defined, give the same outputs and end related. -/
theorem run_simulates {step' : T → E → Option (O × T)} {R : S → T → Prop}
    (hstep : ∀ s t e, R s t →
      ∃ o s' t', step s e = some (o, s') ∧ step' t e = some (o, t') ∧ R s' t')
    {s : S} {t : T} (h : R s t) (es : List E) :
    ∃ os s' t', run step s es = some (os, s') ∧ run step' t es = some (os, t') ∧ R s' t' := by
  induction es generalizing s t with
  | nil => exact ⟨[], s, t, rfl, rfl, h⟩
  | cons e es ih =>
    obtain ⟨o, s₁, t₁, hs, ht, h₁⟩ := hstep s t e h
    obtain ⟨os, s₂, t₂, hs', ht', h₂⟩ := ih h₁
    exact ⟨o :: os, s₂, t₂, run_cons_eq_some.2 ⟨o, s₁, os, hs, hs', rfl⟩,
      run_cons_eq_some.2 ⟨o, t₁, os, ht, ht', rfl⟩, h₂⟩

end Invariants

/-! ## Runs that end -/

section Termination

variable {step : S → E → Option (O × S)} {C : S → E → Prop}

/-- The runs that meet `C` throughout are bounded. -/
def Terminates (step : S → E → Option (O × S)) (C : S → E → Prop) (s : S) : Prop :=
  ∃ n, ∀ es os t, run step s es = some (os, t) → Along step C s es → es.length ≤ n

/-- A measure that every step lowers bounds the runs. -/
theorem terminates_of_measure {P : S → Prop} (μ : S → ℕ)
    (hstep : ∀ s e o t, P s → C s e → step s e = some (o, t) → P t ∧ μ t < μ s) {s : S} (hs : P s) :
    Terminates step C s := by
  refine ⟨μ s, fun es => ?_⟩
  induction es generalizing s with
  | nil => exact fun _ _ _ _ => Nat.zero_le _
  | cons e es ih =>
    intro os t hrun hC
    obtain ⟨o, u, os', h, hrun', -⟩ := run_cons_eq_some.1 hrun
    obtain ⟨hu, hlt⟩ := hstep s e o u hs hC.1 h
    have hle := ih hu os' t hrun' (hC.2 o u h)
    exact Nat.lt_of_le_of_lt hle hlt

/-- States that can always go on among themselves have runs of every length. -/
theorem not_terminates {D : S → Prop}
    (hstep : ∀ s, D s → ∃ e o t, C s e ∧ step s e = some (o, t) ∧ D t) {s : S} (hs : D s) :
    ¬ Terminates step C s := by
  have hlong : ∀ (n : ℕ) (s : S), D s → ∃ es os t, run step s es = some (os, t) ∧
      Along step C s es ∧ es.length = n := by
    intro n
    induction n with
    | zero => exact fun s _ => ⟨[], [], s, rfl, trivial, rfl⟩
    | succ n ih =>
      intro s hs
      obtain ⟨e, o, t, hC, h, ht⟩ := hstep s hs
      obtain ⟨es, os, u, hrun, halong, hlen⟩ := ih t ht
      refine ⟨e :: es, o :: os, u, run_cons_eq_some.2 ⟨o, t, os, h, hrun, rfl⟩, ⟨hC, ?_⟩, ?_⟩
      · intro o' t' h'
        obtain ⟨-, rfl⟩ := Prod.mk.inj (Option.some.inj (h.symm.trans h'))
        exact halong
      · rw [List.length_cons, hlen]
  rintro ⟨n, hn⟩
  obtain ⟨es, os, t, hrun, hC, hlen⟩ := hlong (n + 1) s hs
  have hle := hn es os t hrun hC
  omega

/-- The runs that meet `C` are bounded, and until `P` holds there is a next step that meets it. -/
def Reaches (step : S → E → Option (O × S)) (C : S → E → Prop) (P : S → Prop) (s : S) : Prop :=
  Terminates step C s ∧ ∀ es os t, run step s es = some (os, t) → Along step C s es →
    P t ∨ ∃ e o u, C t e ∧ step t e = some (o, u)

/-- Bounded runs that keep `I`, where `I` gives a next step or `P`, reach `P`. -/
theorem reaches_of_measure {I P : S → Prop} (μ : S → ℕ)
    (hstep : ∀ s e o t, I s → C s e → step s e = some (o, t) → I t ∧ μ t < μ s)
    (hnext : ∀ s, I s → P s ∨ ∃ e o t, C s e ∧ step s e = some (o, t)) {s : S} (hs : I s) :
    Reaches step C P s := by
  refine ⟨terminates_of_measure μ hstep hs, fun es os t hrun hC => hnext t ?_⟩
  exact along_invariant (fun s e o t hs hC h => (hstep s e o t hs hC h).1) hs hC hrun

/-- What every step keeps and excludes `P` excludes that the runs reach `P`. -/
theorem not_reaches {D P : S → Prop}
    (hstep : ∀ s e o t, D s → C s e → step s e = some (o, t) → D t) (hP : ∀ s, D s → ¬ P s) {s : S}
    (hs : D s) : ¬ Reaches step C P s := by
  rintro ⟨hterm, hnext⟩
  -- Every state that the runs reach has a next step, so none of the runs is the longest.
  refine not_terminates
    (D := fun t => ∃ es os, run step s es = some (os, t) ∧ Along step C s es) ?_
    ⟨[], [], rfl, trivial⟩ hterm
  rintro t ⟨es, os, hrun, hC⟩
  have ht : D t := along_invariant hstep hs hC hrun
  obtain ⟨e, o, u, he, h⟩ := (hnext es os t hrun hC).resolve_left (hP t ht)
  exact ⟨e, o, u, he, h, es ++ [e], os ++ [o],
    run_append_eq_some.2 ⟨os, t, [o], hrun, run_singleton_eq_some.2 ⟨o, h, rfl⟩, rfl⟩,
    hC.concat hrun he⟩

end Termination

end Machine
