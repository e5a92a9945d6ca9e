import MemoryGovernor.Lib.Machine
import MemoryGovernor.Psi.Parser

/-!
# The polling thread

`start`, `stop`, `get_latest`, `set_callback` and `poll_loop` of `src/governor/psi_poller.cpp`.
There are the thread that calls `start` and `stop`, the thread of `poll_loop`, and any others that
call `get_latest` and `set_callback`. A step is what one of them does between two points where
another can come in: an atomic exchange of `running_`, a section under `mutex_`, the creation of the
thread or its join, a read of the file, a call of the callback, the sleep.

The call of the callback is one step, so all of this is about callbacks that return, throw nothing
and do not themselves call `start` or `stop`. One that does not return keeps the thread, and a
`stop` that waits for it, for good.

What is read is stored, and what is stored is handed to the callback that was set at that time, each
once and in order (`run_readings`). A `stop` leaves the loop at most five steps, and after it
nothing is read or called until the next `start` (`run_stop`).
-/

namespace MemoryGovernor

open Bytes (ascii)

/-- Where `poll_loop` is. -/
inductive PollControl (Callback : Type*)
  /-- At the condition of the loop. -/
  | test
  /-- Before `read_file`. -/
  | reading
  /-- With what the file says, before `mutex_` is locked. -/
  | storing (data : ParsedPsi)
  /-- With a copy of the callback, after `mutex_` is unlocked. -/
  | calling (cb : Callback) (data : ParsedPsi)
  | sleeping
  /-- The function has returned. -/
  | ended
deriving DecidableEq, Repr

/-- Where the thread is that calls `start` and `stop`. -/
inductive PollerOwner
  /-- In neither of them. -/
  | idle
  /-- In `start`, before the thread is created. -/
  | starting
  /-- In `stop`, before the `join`. -/
  | joining
deriving DecidableEq, Repr

/-- `PsiPoller`. -/
structure PsiPoller (Callback : Type*) where
  running : Bool := false
  latest_data : ParsedPsi := {}
  /-- `callback_`, none where it is empty. -/
  callback : Option Callback := none
  /-- `thread_`, none where it is not joinable. -/
  thread : Option (PollControl Callback) := none
  owner : PollerOwner := .idle
  /-- `std::terminate` has ended the process. -/
  terminated : Bool := false
deriving DecidableEq, Repr

/-- What happens next. -/
inductive PollEvent (Callback : Type*)
  | start
  /-- `start` creates the thread. -/
  | launch
  | stop
  /-- The `join` returns. -/
  | joined
  | set_callback (cb : Option Callback)
  | get_latest
  /-- The loop tests `running_`. -/
  | test
  /-- The file has this content, or cannot be opened, which gives the empty one. -/
  | read (content : Bytes)
  | store
  | call
  /-- The sleep is over. -/
  | wake
deriving DecidableEq, Repr

/-- What can be seen of a step. -/
inductive PollOutput (Callback : Type*)
  /-- `get_latest` returns this. -/
  | latest (data : ParsedPsi)
  /-- These data are stored while this callback is set. -/
  | stored (data : ParsedPsi) (cb : Option Callback)
  | called (cb : Callback) (data : ParsedPsi)
deriving DecidableEq, Repr

/-- The step is one of the loop. -/
def PollEvent.isLoop {Callback : Type*} : PollEvent Callback → Bool
  | .test | .read _ | .store | .call | .wake => true
  | .start | .launch | .stop | .joined | .set_callback _ | .get_latest => false

/-- How many steps the loop makes at most before it sees that `running_` is cleared. -/
def PollControl.left {Callback : Type*} : PollControl Callback → ℕ
  | .ended => 0
  | .test => 1
  | .sleeping => 2
  | .calling _ _ => 3
  | .storing _ => 4
  | .reading => 5

namespace PsiPoller

variable {Callback : Type*}

/-- Where the loop goes on with a copy of the callback: an empty one is not called. -/
def handTo (cb : Option Callback) (data : ParsedPsi) : PollControl Callback :=
  match cb with
  | some cb => .calling cb data
  | none => .sleeping

/-- A step of `poll_loop`. -/
def loopStep (toDouble : ℚ → Option ℚ) (s : PsiPoller Callback) :
    PollControl Callback → PollEvent Callback →
      Option (Option (PollOutput Callback) × PsiPoller Callback)
  | .test, .test => some (none, { s with thread := some (if s.running then .reading else .ended) })
  | .reading, .read content =>
    if content = [] then some (none, { s with thread := some .sleeping })
    else match parsePsiFile toDouble content with
      | .ok data => some (none, { s with thread := some (.storing data) })
      -- No handler is on the way out of the thread.
      | .error _ => some (none, { s with terminated := true })
  | .storing data, .store => some (some (.stored data s.callback), { s with
      latest_data := data
      thread := some (handTo s.callback data) })
  | .calling cb data, .call => some (some (.called cb data), { s with thread := some .sleeping })
  | .sleeping, .wake => some (none, { s with thread := some .test })
  | _, _ => none

/-- A step of any thread, while the process lives. -/
def step (toDouble : ℚ → Option ℚ) (s : PsiPoller Callback) (e : PollEvent Callback) :
    Option (Option (PollOutput Callback) × PsiPoller Callback) :=
  if s.terminated then none
  else match e with
    | .start =>
      if s.owner = .idle then
        if s.running then some (none, s)
        else some (none, { s with running := true, owner := .starting })
      else none
    | .launch =>
      if s.owner = .starting then
        -- The assignment to a thread that is still joinable terminates.
        if s.thread.isSome then some (none, { s with terminated := true })
        else some (none, { s with thread := some .test, owner := .idle })
      else none
    | .stop =>
      if s.owner = .idle then
        if s.running then
          if s.thread.isSome then some (none, { s with running := false, owner := .joining })
          else some (none, { s with running := false, owner := .idle })
        else some (none, s)
      else none
    | .joined =>
      match s.owner, s.thread with
      | .joining, some .ended => some (none, { s with thread := none, owner := .idle })
      | _, _ => none
    | .set_callback cb => some (none, { s with callback := cb })
    | .get_latest => some (some (.latest s.latest_data), s)
    | e => s.thread.bind fun control => s.loopStep toDouble control e

/-! ## What a step does -/

/-- The steps of the loop, with what they leave. -/
inductive Loops (toDouble : ℚ → Option ℚ) (s : PsiPoller Callback) :
    PollControl Callback → PollEvent Callback → Option (PollOutput Callback) →
      PsiPoller Callback → Prop
  | test : s.running = true → Loops toDouble s .test .test none { s with thread := some .reading }
  | leave : s.running = false → Loops toDouble s .test .test none { s with thread := some .ended }
  | empty : Loops toDouble s .reading (.read []) none { s with thread := some .sleeping }
  | read {content : Bytes} {data : ParsedPsi} : content ≠ [] →
      parsePsiFile toDouble content = .ok data →
      Loops toDouble s .reading (.read content) none { s with thread := some (.storing data) }
  | throws {content : Bytes} {err : Numeral.Error} : content ≠ [] →
      parsePsiFile toDouble content = .error err →
      Loops toDouble s .reading (.read content) none { s with terminated := true }
  | store {data : ParsedPsi} :
      Loops toDouble s (.storing data) .store (some (.stored data s.callback))
        { s with latest_data := data, thread := some (handTo s.callback data) }
  | call {cb : Callback} {data : ParsedPsi} :
      Loops toDouble s (.calling cb data) .call (some (.called cb data))
        { s with thread := some .sleeping }
  | wake : Loops toDouble s .sleeping .wake none { s with thread := some .test }

/-- The steps of all threads, with what they leave. -/
inductive Steps (toDouble : ℚ → Option ℚ) (s : PsiPoller Callback) :
    PollEvent Callback → Option (PollOutput Callback) → PsiPoller Callback → Prop
  | start : s.owner = .idle → s.running = false →
      Steps toDouble s .start none { s with running := true, owner := .starting }
  | startRunning : s.owner = .idle → s.running = true → Steps toDouble s .start none s
  | launch : s.owner = .starting → s.thread = none →
      Steps toDouble s .launch none { s with thread := some .test, owner := .idle }
  | launchJoinable : s.owner = .starting → s.thread.isSome →
      Steps toDouble s .launch none { s with terminated := true }
  | stop : s.owner = .idle → s.running = true → s.thread.isSome →
      Steps toDouble s .stop none { s with running := false, owner := .joining }
  | stopUnlaunched : s.owner = .idle → s.running = true → s.thread = none →
      Steps toDouble s .stop none { s with running := false, owner := .idle }
  | stopIdle : s.owner = .idle → s.running = false → Steps toDouble s .stop none s
  | joined : s.owner = .joining → s.thread = some .ended →
      Steps toDouble s .joined none { s with thread := none, owner := .idle }
  | set_callback (cb : Option Callback) :
      Steps toDouble s (.set_callback cb) none { s with callback := cb }
  | get_latest : Steps toDouble s .get_latest (some (.latest s.latest_data)) s
  | loop {control : PollControl Callback} {e : PollEvent Callback}
      {o : Option (PollOutput Callback)} {t : PsiPoller Callback} : s.thread = some control →
      Loops toDouble s control e o t → Steps toDouble s e o t

section Inversion

variable {toDouble : ℚ → Option ℚ} {s t : PsiPoller Callback} {e : PollEvent Callback}
  {o : Option (PollOutput Callback)}

/-- A step of the loop is one of those listed. -/
theorem loops_of_loopStep {control : PollControl Callback}
    (h : s.loopStep toDouble control e = some (o, t)) : Loops toDouble s control e o t := by
  unfold loopStep at h
  split at h
  · obtain ⟨rfl, rfl⟩ := Prod.mk.inj (Option.some.inj h)
    by_cases hrunning : s.running = true
    · rw [if_pos hrunning]
      exact .test hrunning
    · rw [if_neg hrunning]
      exact .leave (Bool.eq_false_iff.2 hrunning)
  · next content =>
    split_ifs at h with hempty
    · obtain ⟨rfl, rfl⟩ := Prod.mk.inj (Option.some.inj h)
      exact hempty ▸ .empty
    · cases hparse : parsePsiFile toDouble content <;>
        simp only [hparse, Option.some.injEq, Prod.mk.injEq] at h <;> obtain ⟨rfl, rfl⟩ := h
      · exact .throws hempty hparse
      · exact .read hempty hparse
  · obtain ⟨rfl, rfl⟩ := Prod.mk.inj (Option.some.inj h)
    exact .store
  · obtain ⟨rfl, rfl⟩ := Prod.mk.inj (Option.some.inj h)
    exact .call
  · obtain ⟨rfl, rfl⟩ := Prod.mk.inj (Option.some.inj h)
    exact .wake
  · cases h

/-- A step is one of those listed, and the process lives before it. -/
theorem steps_of_step (h : s.step toDouble e = some (o, t)) :
    s.terminated = false ∧ Steps toDouble s e o t := by
  unfold step at h
  by_cases hterm : s.terminated = true
  · rw [if_pos hterm] at h
    cases h
  rw [if_neg hterm] at h
  refine ⟨Bool.eq_false_iff.2 hterm, ?_⟩
  split at h
  · split_ifs at h with hidle hrunning
    · obtain ⟨rfl, rfl⟩ := Prod.mk.inj (Option.some.inj h)
      exact .startRunning hidle hrunning
    · obtain ⟨rfl, rfl⟩ := Prod.mk.inj (Option.some.inj h)
      exact .start hidle (Bool.eq_false_iff.2 hrunning)
  · split_ifs at h with hstarting hthread
    · obtain ⟨rfl, rfl⟩ := Prod.mk.inj (Option.some.inj h)
      exact .launchJoinable hstarting hthread
    · obtain ⟨rfl, rfl⟩ := Prod.mk.inj (Option.some.inj h)
      exact .launch hstarting (Option.not_isSome_iff_eq_none.1 hthread)
  · split_ifs at h with hidle hrunning hthread
    · obtain ⟨rfl, rfl⟩ := Prod.mk.inj (Option.some.inj h)
      exact .stop hidle hrunning hthread
    · obtain ⟨rfl, rfl⟩ := Prod.mk.inj (Option.some.inj h)
      exact .stopUnlaunched hidle hrunning (Option.not_isSome_iff_eq_none.1 hthread)
    · obtain ⟨rfl, rfl⟩ := Prod.mk.inj (Option.some.inj h)
      exact .stopIdle hidle (Bool.eq_false_iff.2 hrunning)
  · split at h
    · next howner hthread =>
      obtain ⟨rfl, rfl⟩ := Prod.mk.inj (Option.some.inj h)
      exact .joined howner hthread
    · cases h
  · obtain ⟨rfl, rfl⟩ := Prod.mk.inj (Option.some.inj h)
    exact .set_callback _
  · obtain ⟨rfl, rfl⟩ := Prod.mk.inj (Option.some.inj h)
    exact .get_latest
  · obtain ⟨control, hcontrol, h⟩ := Option.bind_eq_some_iff.1 h
    exact .loop hcontrol (loops_of_loopStep h)

/-- What `start` does before it creates the thread. -/
theorem step_start (h : s.step toDouble .start = some (o, t)) :
    s.owner = .idle ∧ (t.owner = .starting ∨ t.owner = .idle) ∧ t.running = true ∧
      t.thread = s.thread ∧ t.callback = s.callback := by
  cases (steps_of_step h).2 with
  | start hidle hrunning => exact ⟨hidle, .inl rfl, rfl, rfl, rfl⟩
  | startRunning hidle hrunning => exact ⟨hidle, .inr hidle, hrunning, rfl, rfl⟩
  | loop hcontrol hloop => cases hloop

/-- What `stop` does before it joins the thread. -/
theorem step_stop (h : s.step toDouble .stop = some (o, t)) :
    s.owner = .idle ∧ (t.owner = .joining ∨ t.owner = .idle) ∧ t.running = false ∧
      t.thread = s.thread ∧ t.callback = s.callback := by
  cases (steps_of_step h).2 with
  | stop hidle hrunning hsome => exact ⟨hidle, .inl rfl, rfl, rfl, rfl⟩
  | stopUnlaunched hidle hrunning hnone => exact ⟨hidle, .inr rfl, rfl, rfl, rfl⟩
  | stopIdle hidle hrunning => exact ⟨hidle, .inr hidle, hrunning, rfl, rfl⟩
  | loop hcontrol hloop => cases hloop

/-- What the join leaves. -/
theorem step_joined (h : s.step toDouble .joined = some (o, t)) :
    s.owner = .joining ∧ t.owner = .idle ∧ t.running = s.running ∧ t.thread = none ∧
      t.callback = s.callback ∧ s.thread = some .ended := by
  cases (steps_of_step h).2 with
  | joined howner hended => exact ⟨howner, rfl, rfl, rfl, rfl, hended⟩
  | loop hcontrol hloop => cases hloop

/-- A step of the loop keeps the thread, `running_` and the owner, and reaches the end of the
function only if `running_` is cleared. -/
theorem Loops.keeps {control : PollControl Callback} (h : Loops toDouble s control e o t)
    (hcontrol : s.thread = some control) :
    t.owner = s.owner ∧ t.running = s.running ∧ t.thread.isSome ∧
      (t.thread = some .ended → s.running = false) := by
  cases h with
  | store => cases hcb : s.callback <;> simp [handTo]
  | _ => simp_all

/-- A step of the loop is one of its thread. -/
theorem loops_of_isLoop (h : s.step toDouble e = some (o, t)) (he : e.isLoop = true) :
    ∃ control, s.thread = some control ∧ Loops toDouble s control e o t := by
  cases (steps_of_step h).2 with
  | loop hcontrol hloop => exact ⟨_, hcontrol, hloop⟩
  | _ => cases he

end Inversion

/-! ## What is read, stored and called -/

/-- The data that a step reads: those of a file that is not empty and parses. -/
def parsed (toDouble : ℚ → Option ℚ) : PollEvent Callback → List ParsedPsi
  | .read content =>
    if content = [] then [] else (parsePsiFile toDouble content).toOption.toList
  | _ => []

/-- The data that a step stores, with the callback that is set. -/
def stored : Option (PollOutput Callback) → List (ParsedPsi × Option Callback)
  | some (.stored data cb) => [(data, cb)]
  | _ => []

/-- The call that a step makes. -/
def called : Option (PollOutput Callback) → List (Callback × ParsedPsi)
  | some (.called cb data) => [(cb, data)]
  | _ => []

/-- The call that stored data ask for. -/
def wanted (p : ParsedPsi × Option Callback) : List (Callback × ParsedPsi) :=
  p.2.toList.map fun cb => (cb, p.1)

/-- The data that are read and not stored yet. -/
def toStore (s : PsiPoller Callback) : List ParsedPsi :=
  match s.thread with
  | some (.storing data) => [data]
  | _ => []

/-- The call that is still to be made for the data stored last. -/
def toCall (s : PsiPoller Callback) : List (Callback × ParsedPsi) :=
  match s.thread with
  | some (.calling cb data) => [(cb, data)]
  | _ => []

section Accounts

variable {toDouble : ℚ → Option ℚ} {s t : PsiPoller Callback} {e : PollEvent Callback}
  {o : Option (PollOutput Callback)}

/-- What a step reads is stored by it or left to be stored. -/
theorem step_stored (h : s.step toDouble e = some (o, t)) :
    toStore s ++ parsed toDouble e = (stored o).map Prod.fst ++ toStore t := by
  cases (steps_of_step h).2 with
  | launch hstarting hnone => simp [toStore, parsed, stored, hnone]
  | joined howner hended => simp [toStore, parsed, stored, hended]
  | loop hcontrol hloop =>
    cases hloop with
    | read hne hparse => simp [toStore, parsed, stored, hcontrol, hne, hparse, Except.toOption]
    | throws hne hparse => simp [toStore, parsed, stored, hcontrol, hne, hparse, Except.toOption]
    | store => cases hcb : s.callback <;> simp [toStore, parsed, stored, hcontrol, handTo]
    | _ => simp [toStore, parsed, stored, hcontrol]
  | _ => simp [toStore, parsed, stored]

/-- What a step stores is handed to the callback by it or left to be handed over. -/
theorem step_called (h : s.step toDouble e = some (o, t)) :
    toCall s ++ (stored o).flatMap wanted = called o ++ toCall t := by
  cases (steps_of_step h).2 with
  | launch hstarting hnone => simp [toCall, called, stored, hnone]
  | joined howner hended => simp [toCall, called, stored, hended]
  | loop hcontrol hloop =>
    cases hloop with
    | store => cases hcb : s.callback <;> simp [toCall, called, stored, wanted, hcontrol, handTo]
    | _ => simp [toCall, called, stored, hcontrol]
  | _ => simp [toCall, called, stored]

/-- `latest_data_` is what was stored last. -/
theorem step_latest (h : s.step toDouble e = some (o, t)) :
    t.latest_data = ((stored o).map Prod.fst).getLast?.getD s.latest_data := by
  cases (steps_of_step h).2 with
  | loop hcontrol hloop => cases hloop <;> rfl
  | _ => rfl

end Accounts

section Runs

variable {toDouble : ℚ → Option ℚ} {s t : PsiPoller Callback} {es : List (PollEvent Callback)}
  {os : List (Option (PollOutput Callback))}

/-- What is read is stored or left to be stored, over a run. -/
theorem run_stored (h : Machine.run (step toDouble) s es = some (os, t)) :
    toStore s ++ es.flatMap (parsed toDouble) =
      (os.flatMap stored).map Prod.fst ++ toStore t := by
  induction es generalizing s os with
  | nil =>
    simp only [Machine.run_nil, Option.some.injEq, Prod.mk.injEq] at h
    obtain ⟨rfl, rfl⟩ := h
    simp
  | cons e es ih =>
    obtain ⟨o, u, os', hstep, hrun, rfl⟩ := Machine.run_cons_eq_some.1 h
    calc toStore s ++ (e :: es).flatMap (parsed toDouble)
        = (toStore s ++ parsed toDouble e) ++ es.flatMap (parsed toDouble) := by simp
      _ = (stored o).map Prod.fst ++ (toStore u ++ es.flatMap (parsed toDouble)) := by
          rw [step_stored hstep, List.append_assoc]
      _ = ((o :: os').flatMap stored).map Prod.fst ++ toStore t := by rw [ih hrun]; simp

/-- What is stored is handed over or left to be handed over, over a run. -/
theorem run_called (h : Machine.run (step toDouble) s es = some (os, t)) :
    toCall s ++ (os.flatMap stored).flatMap wanted = os.flatMap called ++ toCall t := by
  induction es generalizing s os with
  | nil =>
    simp only [Machine.run_nil, Option.some.injEq, Prod.mk.injEq] at h
    obtain ⟨rfl, rfl⟩ := h
    simp
  | cons e es ih =>
    obtain ⟨o, u, os', hstep, hrun, rfl⟩ := Machine.run_cons_eq_some.1 h
    calc toCall s ++ ((o :: os').flatMap stored).flatMap wanted
        = (toCall s ++ (stored o).flatMap wanted) ++ (os'.flatMap stored).flatMap wanted := by simp
      _ = called o ++ (toCall u ++ (os'.flatMap stored).flatMap wanted) := by
          rw [step_called hstep, List.append_assoc]
      _ = (o :: os').flatMap called ++ toCall t := by rw [ih hrun]; simp

/-- `latest_data_` is what was stored last in a run. -/
theorem run_latest (h : Machine.run (step toDouble) s es = some (os, t)) :
    t.latest_data = ((os.flatMap stored).map Prod.fst).getLast?.getD s.latest_data := by
  induction es generalizing s os with
  | nil =>
    simp only [Machine.run_nil, Option.some.injEq, Prod.mk.injEq] at h
    obtain ⟨rfl, rfl⟩ := h
    rfl
  | cons e es ih =>
    obtain ⟨o, u, os', hstep, hrun, rfl⟩ := Machine.run_cons_eq_some.1 h
    rw [ih hrun, step_latest hstep, List.flatMap_cons, List.map_append, List.getLast?_append]
    cases ((os'.flatMap stored).map Prod.fst).getLast? <;> rfl

/-- In every run of a new poller, however its threads take turns: what was read from the file, where
it was not empty, has been stored, each reading once and in order, but for one that is about to be;
each stored reading has been handed to the callback that was set at that time, if there was one,
once and in order, but for one that is about to be; and what `get_latest` returns is the last one
stored. -/
theorem run_readings (h : Machine.run (step toDouble) ({} : PsiPoller Callback) es = some (os, t)) :
    es.flatMap (parsed toDouble) = (os.flatMap stored).map Prod.fst ++ toStore t ∧
      (os.flatMap stored).flatMap wanted = os.flatMap called ++ toCall t ∧
      t.latest_data = ((os.flatMap stored).map Prod.fst).getLast?.getD {} :=
  ⟨run_stored h, run_called h, run_latest h⟩

end Runs

/-- Two readings, the second while the first is already handed over and the second is not. -/
def twoReadings : List (PollEvent Unit) :=
  [.set_callback (some ()), .start, .launch, .test, .read (ascii "some total=7"), .store, .call,
    .wake, .test, .read (ascii "full total=9"), .get_latest, .store]

theorem run_readings_twoReadings : ∃ os t,
    Machine.run (step some) ({} : PsiPoller Unit) twoReadings = some (os, t) ∧
    os.flatMap called = [((), { someLine := { total := 7 } })] ∧
    toCall t = [((), { fullLine := { total := 9 } })] ∧
    twoReadings.flatMap (parsed some) = (os.flatMap stored).map Prod.fst ++ toStore t ∧
    (os.flatMap stored).flatMap wanted = os.flatMap called ++ toCall t ∧
    t.latest_data = ((os.flatMap stored).map Prod.fst).getLast?.getD {} := by
  have hrun : (Machine.run (step some) ({} : PsiPoller Unit) twoReadings).isSome = true := by
    decide +kernel
  obtain ⟨⟨os, t⟩, hrun⟩ := Option.isSome_iff_exists.1 hrun
  have hcalled : (Machine.run (step some) ({} : PsiPoller Unit) twoReadings).map
      (fun r => (r.1.flatMap called, toCall r.2)) =
        some ([((), { someLine := { total := 7 } })], [((), { fullLine := { total := 9 } })]) := by
    decide +kernel
  rw [hrun, Option.map_some, Option.some.injEq, Prod.mk.injEq] at hcalled
  exact ⟨os, t, hrun, hcalled.1, hcalled.2, run_readings hrun⟩

/-! ## Starting and stopping -/

/-- What `running_` and `thread_` are at each point of the calls of `start` and `stop`. -/
structure Owned (s : PsiPoller Callback) : Prop where
  idle : s.owner = .idle → (s.running = true ↔ s.thread.isSome)
  starting : s.owner = .starting → s.running = true ∧ s.thread = none
  joining : s.owner = .joining → s.running = false ∧ s.thread.isSome
  ended : s.thread = some .ended → s.running = false

section Life

variable {toDouble : ℚ → Option ℚ} {s t : PsiPoller Callback} {e : PollEvent Callback}
  {o : Option (PollOutput Callback)}

theorem owned_new : Owned ({} : PsiPoller Callback) :=
  ⟨fun _ => by simp, fun h => by simp at h, fun h => by simp at h, fun h => by simp at h⟩

/-- Every step keeps what the owner relies on. -/
theorem step_owned (hs : Owned s) (h : s.step toDouble e = some (o, t)) : Owned t := by
  cases (steps_of_step h).2 with
  | start hidle hrunning =>
    have hthread : s.thread = none := by
      rw [← Option.not_isSome_iff_eq_none, ← hs.idle hidle, hrunning]
      exact Bool.false_ne_true
    refine ⟨fun h => by simp at h, fun _ => ⟨rfl, hthread⟩, fun h => by simp at h, fun h => ?_⟩
    rw [hthread] at h
    cases h
  | startRunning | stopIdle | get_latest => exact hs
  | launch hstarting hnone =>
    refine ⟨fun _ => ?_, fun h => by simp at h, fun h => by simp at h, fun h => by simp at h⟩
    simp [(hs.starting hstarting).1]
  | launchJoinable hstarting hsome => exact ⟨hs.idle, hs.starting, hs.joining, hs.ended⟩
  | stop hidle hrunning hsome =>
    exact ⟨fun h => by simp at h, fun h => by simp at h, fun _ => ⟨rfl, hsome⟩, fun _ => rfl⟩
  | stopUnlaunched hidle hrunning hnone =>
    exact ⟨fun _ => by simp [hnone], fun h => by simp at h, fun h => by simp at h, fun _ => rfl⟩
  | joined howner hended =>
    refine ⟨fun _ => ?_, fun h => by simp at h, fun h => by simp at h, fun h => by simp at h⟩
    simp [(hs.joining howner).1]
  | set_callback cb => exact ⟨hs.idle, hs.starting, hs.joining, hs.ended⟩
  | loop hcontrol hloop =>
    obtain ⟨howner, hrunning, hsome, hended⟩ := hloop.keeps hcontrol
    refine ⟨fun h => ?_, fun h => ?_, fun h => ?_, fun h => ?_⟩
    · rw [hrunning, hs.idle (howner ▸ h), hcontrol]
      exact iff_of_true rfl hsome
    · have hnone := (hs.starting (howner ▸ h)).2
      rw [hcontrol] at hnone
      cases hnone
    · exact ⟨hrunning.trans (hs.joining (howner ▸ h)).1, hsome⟩
    · exact hrunning.trans (hended h)

/-- What the creation of the thread leaves. -/
theorem step_launch (hs : Owned s) (h : s.step toDouble .launch = some (o, t)) :
    s.owner = .starting ∧ t.owner = .idle ∧ t.running = true ∧ t.callback = s.callback := by
  cases (steps_of_step h).2 with
  | launch hstarting hnone => exact ⟨hstarting, rfl, (hs.starting hstarting).1, rfl⟩
  | launchJoinable hstarting hsome =>
    rw [(hs.starting hstarting).2] at hsome
    cases hsome
  | loop hcontrol hloop => cases hloop

/-- Only the text of the file ends the process: the thread that `start` creates is never assigned to
one that is still joinable. -/
theorem step_terminated (hs : Owned s) (h : s.step toDouble e = some (o, t))
    (ht : t.terminated = true) :
    ∃ content err, e = .read content ∧ parsePsiFile toDouble content = .error err := by
  obtain ⟨halive, hsteps⟩ := steps_of_step h
  cases hsteps with
  | launchJoinable hstarting hsome =>
    rw [(hs.starting hstarting).2] at hsome
    cases hsome
  | loop hcontrol hloop =>
    cases hloop with
    | throws hne hparse => exact ⟨_, _, rfl, hparse⟩
    | _ => simp_all
  | _ => simp_all

/-- No thread is there, and none is to be started. -/
structure Stopped (s : PsiPoller Callback) : Prop where
  owner : s.owner = .idle
  running : s.running = false
  thread : s.thread = none

/-- Between a `stop` and the next `start` nothing is called, and no thread is there. -/
theorem step_stopped (hs : Stopped s) (h : s.step toDouble e = some (o, t)) (he : e ≠ .start) :
    Stopped t ∧ called o = [] := by
  obtain ⟨howner, hrunning, hthread⟩ := hs
  cases (steps_of_step h).2 with
  | start => exact absurd rfl he
  | startRunning => exact absurd rfl he
  | launch hstarting => simp [howner] at hstarting
  | launchJoinable hstarting => simp [howner] at hstarting
  | stop hidle hrunning' => simp [hrunning] at hrunning'
  | stopUnlaunched hidle hrunning' => simp [hrunning] at hrunning'
  | stopIdle => exact ⟨⟨howner, hrunning, hthread⟩, rfl⟩
  | joined hjoining => simp [howner] at hjoining
  | set_callback cb => exact ⟨⟨howner, hrunning, hthread⟩, rfl⟩
  | get_latest => exact ⟨⟨howner, hrunning, hthread⟩, rfl⟩
  | loop hcontrol => simp [hthread] at hcontrol

/-- `stop` waits for the thread, at this point of its loop. -/
structure Waiting (s : PsiPoller Callback) (control : PollControl Callback) : Prop where
  owner : s.owner = .joining
  running : s.running = false
  thread : s.thread = some control

/-- While `stop` waits, the loop makes progress and no other step holds it back. -/
theorem step_waiting {control : PollControl Callback} (hs : Waiting s control)
    (h : s.step toDouble e = some (o, t)) (he : e ≠ .joined) :
    t.terminated = true ∧ 0 < control.left ∨
      ∃ control', Waiting t control' ∧
        control'.left + (if e.isLoop then 1 else 0) ≤ control.left := by
  obtain ⟨howner, hrunning, hthread⟩ := hs
  cases (steps_of_step h).2 with
  | start hidle => simp [howner] at hidle
  | startRunning hidle => simp [howner] at hidle
  | launch hstarting => simp [howner] at hstarting
  | launchJoinable hstarting => simp [howner] at hstarting
  | stop hidle => simp [howner] at hidle
  | stopUnlaunched hidle => simp [howner] at hidle
  | stopIdle hidle => simp [howner] at hidle
  | joined => exact absurd rfl he
  | set_callback cb =>
    exact .inr ⟨control, ⟨howner, hrunning, hthread⟩, by simp [PollEvent.isLoop]⟩
  | get_latest => exact .inr ⟨control, ⟨howner, hrunning, hthread⟩, by simp [PollEvent.isLoop]⟩
  | loop hcontrol hloop =>
    obtain rfl : control = _ := Option.some.inj (hthread.symm.trans hcontrol)
    cases hloop with
    | test hrunning' => simp [hrunning] at hrunning'
    | throws => exact .inl ⟨rfl, by simp [PollControl.left]⟩
    | store =>
      refine .inr ⟨_, ⟨howner, hrunning, rfl⟩, ?_⟩
      cases s.callback <;> simp [handTo, PollControl.left, PollEvent.isLoop]
    | _ => exact .inr ⟨_, ⟨howner, hrunning, rfl⟩, by simp [PollControl.left, PollEvent.isLoop]⟩

/-- Until the thread has returned, the loop has a next step. -/
theorem exists_loop_step {control : PollControl Callback} (hs : Waiting s control)
    (halive : s.terminated = false) (hcontrol : control ≠ .ended) :
    ∃ e : PollEvent Callback, e.isLoop = true ∧ (s.step toDouble e).isSome := by
  have hthread := hs.thread
  cases control with
  | ended => exact absurd rfl hcontrol
  | test => exact ⟨.test, rfl, by simp [step, halive, hthread, loopStep]⟩
  | reading => exact ⟨.read [], rfl, by simp [step, halive, hthread, loopStep]⟩
  | storing data => exact ⟨.store, rfl, by simp [step, halive, hthread, loopStep]⟩
  | calling cb data => exact ⟨.call, rfl, by simp [step, halive, hthread, loopStep]⟩
  | sleeping => exact ⟨.wake, rfl, by simp [step, halive, hthread, loopStep]⟩

variable {es : List (PollEvent Callback)} {os : List (Option (PollOutput Callback))}

/-- What holds between a `stop` and the next `start`, over a run. -/
theorem run_stopped (hs : Stopped s) (h : Machine.run (step toDouble) s es = some (os, t))
    (hes : .start ∉ es) : Stopped t ∧ os.flatMap called = [] := by
  induction es generalizing s os with
  | nil =>
    simp only [Machine.run_nil, Option.some.injEq, Prod.mk.injEq] at h
    obtain ⟨rfl, rfl⟩ := h
    exact ⟨hs, rfl⟩
  | cons e es ih =>
    obtain ⟨o, u, os', hstep, hrun, rfl⟩ := Machine.run_cons_eq_some.1 h
    obtain ⟨hne, hes'⟩ := not_or.1 (mt List.mem_cons.2 hes)
    obtain ⟨hu, ho⟩ := step_stopped hs hstep (Ne.symm hne)
    obtain ⟨ht, hos⟩ := ih hu hrun hes'
    exact ⟨ht, by rw [List.flatMap_cons, ho, hos, List.nil_append]⟩

/-- How long a `stop` waits, over a run. -/
theorem run_waiting {control : PollControl Callback} (hs : Waiting s control)
    (h : Machine.run (step toDouble) s es = some (os, t)) (hes : .joined ∉ es) :
    es.countP PollEvent.isLoop ≤ control.left ∧
      (t.terminated = true ∨ ∃ control', Waiting t control') := by
  induction es generalizing s os control with
  | nil =>
    simp only [Machine.run_nil, Option.some.injEq, Prod.mk.injEq] at h
    obtain ⟨rfl, rfl⟩ := h
    exact ⟨Nat.zero_le _, .inr ⟨control, hs⟩⟩
  | cons e es ih =>
    obtain ⟨o, u, os', hstep, hrun, rfl⟩ := Machine.run_cons_eq_some.1 h
    obtain ⟨hne, hes'⟩ := not_or.1 (mt List.mem_cons.2 hes)
    rw [List.countP_cons]
    rcases step_waiting hs hstep (Ne.symm hne) with ⟨hterm, hpos⟩ | ⟨control', hu, hleft⟩
    · -- The process has ended, so there is no further step.
      cases es with
      | nil =>
        simp only [Machine.run_nil, Option.some.injEq, Prod.mk.injEq] at hrun
        obtain ⟨rfl, rfl⟩ := hrun
        refine ⟨?_, .inl hterm⟩
        rw [List.countP_nil]
        split <;> omega
      | cons e' es =>
        obtain ⟨o', u', os'', hstep', -, -⟩ := Machine.run_cons_eq_some.1 hrun
        rw [(steps_of_step hstep').1] at hterm
        cases hterm
    · obtain ⟨hcount, ht⟩ := ih hu hrun hes'
      exact ⟨by omega, ht⟩

/-- Only a text that does not parse ends the process, in every run. -/
theorem run_terminated (hs : Owned s) (h : Machine.run (step toDouble) s es = some (os, t))
    (halive : s.terminated = false) (ht : t.terminated = true) :
    ∃ content err, .read content ∈ es ∧ parsePsiFile toDouble content = .error err := by
  induction es generalizing s os with
  | nil =>
    simp only [Machine.run_nil, Option.some.injEq, Prod.mk.injEq] at h
    obtain ⟨rfl, rfl⟩ := h
    rw [halive] at ht
    cases ht
  | cons e es ih =>
    obtain ⟨o, u, os', hstep, hrun, rfl⟩ := Machine.run_cons_eq_some.1 h
    cases hu : u.terminated with
    | true =>
      obtain ⟨content, err, rfl, hparse⟩ := step_terminated hs hstep hu
      exact ⟨content, err, List.mem_cons_self, hparse⟩
    | false =>
      obtain ⟨content, err, hmem, hparse⟩ := ih (step_owned hs hstep) hrun hu
      exact ⟨content, err, List.mem_cons_of_mem e hmem, hparse⟩

/-- In every run of a new poller whose file always parses and whose callbacks return: the process
lives; after a `stop` has returned nothing is called and no thread is there until the next `start`;
and while a `stop` waits, whatever the other threads do, the loop makes at most five more steps and
is never held up before the last, so the `stop` returns. -/
theorem run_stop (h : Machine.run (step toDouble) ({} : PsiPoller Callback) es = some (os, s))
    (hparse : ∀ content, .read content ∈ es → ∃ data, parsePsiFile toDouble content = .ok data) :
    s.terminated = false ∧
      (s.owner = .idle → s.running = false → ∀ fs os' t,
        Machine.run (step toDouble) s fs = some (os', t) → .start ∉ fs →
          os'.flatMap called = [] ∧ t.thread = none) ∧
      (s.owner = .joining → ∀ fs os' t,
        Machine.run (step toDouble) s fs = some (os', t) → .joined ∉ fs →
          fs.countP PollEvent.isLoop ≤ 5 ∧
          (t.terminated = true ∨ t.thread = some .ended ∨
            ∃ e : PollEvent Callback, e.isLoop = true ∧ (t.step toDouble e).isSome)) := by
  have hs : Owned s := Machine.run_invariant (fun _ _ _ _ => step_owned) owned_new h
  refine ⟨?_, fun hidle hrunning fs os' t hrun hfs => ?_, fun hjoining fs os' t hrun hfs => ?_⟩
  · by_contra hterm
    obtain ⟨content, err, hmem, herror⟩ :=
      run_terminated owned_new h rfl (Bool.not_eq_false _ ▸ hterm)
    obtain ⟨data, hok⟩ := hparse content hmem
    rw [herror] at hok
    cases hok
  · have hthread : s.thread = none := by
      rw [← Option.not_isSome_iff_eq_none, ← hs.idle hidle, hrunning]
      exact Bool.false_ne_true
    obtain ⟨ht, hcalled⟩ := run_stopped ⟨hidle, hrunning, hthread⟩ hrun hfs
    exact ⟨hcalled, ht.thread⟩
  · obtain ⟨hrunning, hsome⟩ := hs.joining hjoining
    obtain ⟨control, hthread⟩ := Option.isSome_iff_exists.1 hsome
    obtain ⟨hcount, ht⟩ := run_waiting ⟨hjoining, hrunning, hthread⟩ hrun hfs
    refine ⟨hcount.trans (by cases control <;> simp [PollControl.left]), ?_⟩
    cases hterm : t.terminated with
    | true => exact .inl rfl
    | false =>
      obtain ⟨control', hwaiting⟩ := ht.resolve_left (by rw [hterm]; exact Bool.false_ne_true)
      by_cases hended : control' = .ended
      · exact .inr (.inl (hended ▸ hwaiting.thread))
      · exact .inr (.inr (exists_loop_step hwaiting hterm hended))

end Life

/-- A `stop` that comes while a reading is to be stored. -/
def stopWhileStoring : List (PollEvent Unit) :=
  [.set_callback (some ()), .start, .launch, .test, .read (ascii "some total=7"), .stop]

theorem run_stop_stopWhileStoring : ∃ os s,
    Machine.run (step some) ({} : PsiPoller Unit) stopWhileStoring = some (os, s) ∧
    s.owner = .joining ∧ s.terminated = false ∧
    (s.owner = .joining → ∀ fs os' t, Machine.run (step some) s fs = some (os', t) → .joined ∉ fs →
      fs.countP PollEvent.isLoop ≤ 5 ∧ (t.terminated = true ∨ t.thread = some .ended ∨
        ∃ e : PollEvent Unit, e.isLoop = true ∧ (t.step some e).isSome)) := by
  have hrun : (Machine.run (step some) ({} : PsiPoller Unit) stopWhileStoring).isSome = true := by
    decide +kernel
  obtain ⟨⟨os, s⟩, hrun⟩ := Option.isSome_iff_exists.1 hrun
  have howner : (Machine.run (step some) ({} : PsiPoller Unit) stopWhileStoring).map
      (fun r => r.2.owner) = some .joining := by
    decide +kernel
  rw [hrun, Option.map_some, Option.some.injEq] at howner
  have hparse : ∀ content, .read content ∈ stopWhileStoring →
      ∃ data, parsePsiFile some content = .ok data := by
    intro content hmem
    obtain rfl : content = ascii "some total=7" := by simpa [stopWhileStoring] using hmem
    exact ⟨{ someLine := { total := 7 } }, rfl⟩
  have hstop := run_stop hrun hparse
  exact ⟨os, s, hrun, howner, hstop.1, hstop.2.2⟩

end PsiPoller

end MemoryGovernor
