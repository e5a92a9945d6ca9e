import MemoryGovernor.Daemon.Dispatch
import MemoryGovernor.Psi.PollLoop
import MemoryGovernor.Psi.Record
import MemoryGovernor.Registry.Lifecycle

/-!
# The daemon as a process

`start` and `stop` of `src/governor/governor_daemon.cpp`, which `main` calls, with the polling
thread, the life of the registry, and the daemon of `Daemon/GovernorDaemon.lean` as what the
callback works on. `start` starts the registry and then the poller, and `stop` stops the poller and
then the registry; the threads interleave at any point between and inside of these calls.

So there is a polling thread, and a broadcast, only while the registry runs (`run_ordered`). The
process is a refinement of the daemon: its samples are what the file said, each once and in order,
and what it broadcasts is what the engine makes of these samples (`run_isDaemon`). Over texts as the
kernel writes them that is what the engine makes of the numbers in the texts (`run_actions`).

The engine is about numbers. A run goes no further where the callback is handed an infinity or a
NaN, which the file of a kernel does not have.
-/

namespace MemoryGovernor

open Bytes (ascii)

/-- Where `main` is. -/
inductive MainControl
  /-- In none of the calls. -/
  | idle
  /-- In `start`, before `poller_->start()`. -/
  | startingPoller
  /-- In `poller_->start()`, before the thread is created. -/
  | launching
  /-- In `poller_->stop()`, before the `join`. -/
  | joining
  /-- In `stop`, before `registry_->stop()`. -/
  | stoppingRegistry
deriving DecidableEq, Repr

/-- `GovernorDaemon` with its parts. The only callback is that of the constructor. -/
structure DaemonProcess where
  registry : Lifecycle := {}
  poller : PsiPoller Unit := { callback := some () }
  daemon : GovernorDaemon
  main : MainControl := .idle

/-- What happens next. -/
inductive ProcessEvent
  /-- `main` calls `start`, and these are the results of the system calls of the registry. -/
  | start (calls : StartCalls)
  | startPoller
  | launch
  /-- `main` calls `stop`, or the destructor does. -/
  | stop
  | joined
  | stopRegistry
  /-- A step of the polling thread other than the call of the callback. -/
  | poll (e : PollEvent Unit)
  /-- The polling thread calls the callback. -/
  | call
  /-- The registry's thread accepts a connection or removes a client. -/
  | registry (e : LifecycleEvent)
  /-- A step of the clients or of the registry's thread. -/
  | system (e : Event)

/-- What can be seen of a step. -/
inductive ProcessOutput
  /-- `start` throws. -/
  | threw (err : String)
  /-- The callback has evaluated a sample. -/
  | evaluated (data : PsiData)

namespace DaemonProcess

/-- The constructor `GovernorDaemon(config)`, and clients that have not done anything. -/
def init (tier_configs : List TierConfig) (configs : ClientId → ClientConfig) : DaemonProcess :=
  { daemon := GovernorDaemon.init tier_configs configs }

/-- A step of the poller that gives no output. -/
def pollerStep (toDouble : ℚ → Option ℚ) (s : DaemonProcess) (e : PollEvent Unit) :
    Option DaemonProcess :=
  (s.poller.step toDouble e).map fun r => { s with poller := r.2 }

/-- The callback: `on_psi_update`. A file with an infinity or a NaN gives no sample of numbers, and
there is no step for it. -/
def callback (s : DaemonProcess) (data : ParsedPsi) : Option (PsiData × DaemonProcess) := do
  let sample ← data.sample
  let daemon ← s.daemon.onPsiUpdate sample
  return (sample, { s with daemon := daemon })

/-- The steps of the process. -/
def step (toDouble : ℚ → Option ℚ) (A : ClientId → LinkedHeap.Allocator) (s : DaemonProcess)
    (e : ProcessEvent) : Option (Option ProcessOutput × DaemonProcess) :=
  if s.poller.terminated then none
  else match e with
    | .start calls =>
      if s.main = .idle then (s.registry.start calls).map fun r => match r.1 with
        | some err => (some (.threw err), { s with registry := r.2 })
        | none => (none, { s with registry := r.2, main := .startingPoller })
      else none
    | .startPoller =>
      if s.main = .startingPoller then (s.pollerStep toDouble .start).map fun s =>
        (none, { s with main := if s.poller.owner = .starting then .launching else .idle })
      else none
    | .launch =>
      if s.main = .launching then (s.pollerStep toDouble .launch).map fun s =>
        (none, { s with main := .idle })
      else none
    | .stop =>
      if s.main = .idle then (s.pollerStep toDouble .stop).map fun s => (none, { s with
        main := if s.poller.owner = .joining then .joining else .stoppingRegistry })
      else none
    | .joined =>
      if s.main = .joining then (s.pollerStep toDouble .joined).map fun s =>
        (none, { s with main := .stoppingRegistry })
      else none
    | .stopRegistry =>
      if s.main = .stoppingRegistry then
        some (none, { s with registry := s.registry.stop, main := .idle })
      else none
    | .poll e =>
      if e.isLoop ∧ e ≠ .call then (s.pollerStep toDouble e).map fun s => (none, s) else none
    | .call =>
      match s.poller.step toDouble .call with
      | some (some (.called () data), poller) =>
        (s.callback data).map fun r => (some (.evaluated r.1), { r.2 with poller := poller })
      | _ => none
    | .registry e =>
      match e with
      -- These two are calls of `main`.
      | .start _ | .stop => none
      | e => (s.registry.step e).map fun r => (none, { s with registry := r.2 })
    | .system e => (s.daemon.step A (.system e)).map fun r => (none, { s with daemon := r.2 })

/-! ## What a step does -/

/-- The steps, with what they leave. -/
inductive Steps (toDouble : ℚ → Option ℚ) (A : ClientId → LinkedHeap.Allocator)
    (s : DaemonProcess) : ProcessEvent → Option ProcessOutput → DaemonProcess → Prop
  | throws {calls : StartCalls} {err : String} {registry : Lifecycle} : s.main = .idle →
      s.registry.start calls = some (some err, registry) →
      Steps toDouble A s (.start calls) (some (.threw err)) { s with registry := registry }
  | start {calls : StartCalls} {registry : Lifecycle} : s.main = .idle →
      s.registry.start calls = some (none, registry) →
      Steps toDouble A s (.start calls) none
        { s with registry := registry, main := .startingPoller }
  | startPoller {o : Option (PollOutput Unit)} {poller : PsiPoller Unit} :
      s.main = .startingPoller → s.poller.step toDouble .start = some (o, poller) →
      Steps toDouble A s .startPoller none { s with
        poller := poller
        main := if poller.owner = .starting then .launching else .idle }
  | launch {o : Option (PollOutput Unit)} {poller : PsiPoller Unit} : s.main = .launching →
      s.poller.step toDouble .launch = some (o, poller) →
      Steps toDouble A s .launch none { s with poller := poller, main := .idle }
  | stop {o : Option (PollOutput Unit)} {poller : PsiPoller Unit} : s.main = .idle →
      s.poller.step toDouble .stop = some (o, poller) →
      Steps toDouble A s .stop none { s with
        poller := poller
        main := if poller.owner = .joining then .joining else .stoppingRegistry }
  | joined {o : Option (PollOutput Unit)} {poller : PsiPoller Unit} : s.main = .joining →
      s.poller.step toDouble .joined = some (o, poller) →
      Steps toDouble A s .joined none { s with poller := poller, main := .stoppingRegistry }
  | stopRegistry : s.main = .stoppingRegistry →
      Steps toDouble A s .stopRegistry none { s with registry := s.registry.stop, main := .idle }
  | poll {e : PollEvent Unit} {o : Option (PollOutput Unit)} {poller : PsiPoller Unit} :
      e.isLoop = true → e ≠ .call → s.poller.step toDouble e = some (o, poller) →
      Steps toDouble A s (.poll e) none { s with poller := poller }
  | call {data : ParsedPsi} {sample : PsiData} {daemon : GovernorDaemon}
      {poller : PsiPoller Unit} :
      s.poller.step toDouble .call = some (some (.called () data), poller) →
      data.sample = some sample → s.daemon.onPsiUpdate sample = some daemon →
      Steps toDouble A s .call (some (.evaluated sample))
        { s with poller := poller, daemon := daemon }
  | registry {e : LifecycleEvent} {o : Option String} {registry : Lifecycle} :
      (∀ calls, e ≠ .start calls) → e ≠ .stop → s.registry.step e = some (o, registry) →
      Steps toDouble A s (.registry e) none { s with registry := registry }
  | system {e : Event} {o : Option Message} {daemon : GovernorDaemon} :
      s.daemon.step A (.system e) = some (o, daemon) →
      Steps toDouble A s (.system e) none { s with daemon := daemon }

section Inversion

variable {toDouble : ℚ → Option ℚ} {A : ClientId → LinkedHeap.Allocator}
  {s t : DaemonProcess} {e : ProcessEvent} {o : Option ProcessOutput}

/-- A step of the poller leaves the rest of the process. -/
theorem pollerStep_eq_some {e : PollEvent Unit} : s.pollerStep toDouble e = some t ↔
    ∃ o poller, s.poller.step toDouble e = some (o, poller) ∧ t = { s with poller := poller } := by
  rw [pollerStep, Option.map_eq_some_iff]
  constructor
  · rintro ⟨⟨o, poller⟩, hstep, rfl⟩
    exact ⟨o, poller, hstep, rfl⟩
  · rintro ⟨o, poller, hstep, rfl⟩
    exact ⟨(o, poller), hstep, rfl⟩

/-- A step is one of those listed. -/
theorem steps_of_step (h : s.step toDouble A e = some (o, t)) : Steps toDouble A s e o t := by
  unfold step at h
  by_cases hterm : s.poller.terminated = true
  · rw [if_pos hterm] at h
    cases h
  rw [if_neg hterm] at h
  split at h
  · next calls =>
    rw [Option.ite_none_right_eq_some] at h
    obtain ⟨⟨o', registry⟩, hstart, heq⟩ := Option.map_eq_some_iff.1 h.2
    cases o' with
    | some err =>
      obtain ⟨rfl, rfl⟩ := Prod.mk.inj heq
      exact .throws h.1 hstart
    | none =>
      obtain ⟨rfl, rfl⟩ := Prod.mk.inj heq
      exact .start h.1 hstart
  · rw [Option.ite_none_right_eq_some] at h
    obtain ⟨u, hu, heq⟩ := Option.map_eq_some_iff.1 h.2
    obtain ⟨o', poller, hstep, rfl⟩ := pollerStep_eq_some.1 hu
    obtain ⟨rfl, rfl⟩ := Prod.mk.inj heq
    exact .startPoller h.1 hstep
  · rw [Option.ite_none_right_eq_some] at h
    obtain ⟨u, hu, heq⟩ := Option.map_eq_some_iff.1 h.2
    obtain ⟨o', poller, hstep, rfl⟩ := pollerStep_eq_some.1 hu
    obtain ⟨rfl, rfl⟩ := Prod.mk.inj heq
    exact .launch h.1 hstep
  · rw [Option.ite_none_right_eq_some] at h
    obtain ⟨u, hu, heq⟩ := Option.map_eq_some_iff.1 h.2
    obtain ⟨o', poller, hstep, rfl⟩ := pollerStep_eq_some.1 hu
    obtain ⟨rfl, rfl⟩ := Prod.mk.inj heq
    exact .stop h.1 hstep
  · rw [Option.ite_none_right_eq_some] at h
    obtain ⟨u, hu, heq⟩ := Option.map_eq_some_iff.1 h.2
    obtain ⟨o', poller, hstep, rfl⟩ := pollerStep_eq_some.1 hu
    obtain ⟨rfl, rfl⟩ := Prod.mk.inj heq
    exact .joined h.1 hstep
  · rw [Option.ite_none_right_eq_some] at h
    obtain ⟨rfl, rfl⟩ := Prod.mk.inj (Option.some.inj h.2)
    exact .stopRegistry h.1
  · rw [Option.ite_none_right_eq_some] at h
    obtain ⟨⟨hloop, hcall⟩, h⟩ := h
    obtain ⟨u, hu, heq⟩ := Option.map_eq_some_iff.1 h
    obtain ⟨o', poller, hstep, rfl⟩ := pollerStep_eq_some.1 hu
    obtain ⟨rfl, rfl⟩ := Prod.mk.inj heq
    exact .poll hloop hcall hstep
  · split at h
    · next data poller hstep =>
      obtain ⟨⟨sample, u⟩, hcallback, heq⟩ := Option.map_eq_some_iff.1 h
      obtain ⟨rfl, rfl⟩ := Prod.mk.inj heq
      simp only [callback, Option.bind_eq_bind, Option.bind_eq_some_iff, Option.pure_def,
        Option.some.injEq, Prod.mk.injEq] at hcallback
      obtain ⟨sample', hsample, daemon, hdaemon, rfl, rfl⟩ := hcallback
      exact .call hstep hsample hdaemon
    · cases h
  · next e =>
    split at h
    · cases h
    · cases h
    · next hstart hstop =>
      obtain ⟨⟨o', registry⟩, hstep, heq⟩ := Option.map_eq_some_iff.1 h
      obtain ⟨rfl, rfl⟩ := Prod.mk.inj heq
      exact .registry hstart hstop hstep
  · next e =>
    obtain ⟨⟨o', daemon⟩, hstep, heq⟩ := Option.map_eq_some_iff.1 h
    obtain ⟨rfl, rfl⟩ := Prod.mk.inj heq
    exact .system hstep

end Inversion

/-! ## The order of starting and stopping -/

/-- Where the poller's owner is while `main` is at a point. -/
def MainControl.owner : MainControl → PollerOwner
  | .idle | .startingPoller | .stoppingRegistry => .idle
  | .launching => .starting
  | .joining => .joining

/-- The registry runs from before the polling thread is created until after it is joined. -/
structure Ordered (s : DaemonProcess) : Prop where
  owned : s.poller.Owned
  owner : s.poller.owner = MainControl.owner s.main
  starting : s.main = .startingPoller → s.registry.running = true
  stopping : s.main = .stoppingRegistry → s.poller.running = false
  running : s.poller.running = true ∨ s.poller.thread.isSome = true → s.registry.running = true
  callback : s.poller.callback = some ()

section Order

variable {toDouble : ℚ → Option ℚ} {A : ClientId → LinkedHeap.Allocator}
  {s t : DaemonProcess} {e : ProcessEvent} {o : Option ProcessOutput}

/-- `start` sets `running_`, whatever else it does. -/
theorem start_running {registry registry' : Lifecycle} {calls : StartCalls} {o : Option String}
    (h : registry.start calls = some (o, registry')) : registry'.running = true := by
  cases hrunning : registry.running with
  | true =>
    rw [Lifecycle.start, if_pos hrunning] at h
    obtain ⟨-, rfl⟩ := Prod.mk.inj (Option.some.inj h)
    exact hrunning
  | false =>
    rcases Lifecycle.start_cases hrunning h with ⟨-, -, _, _, -, -, rfl⟩ | ⟨-, -, hset⟩
    · rfl
    · exact hset

/-- The registry's thread leaves `running_` and itself alone. -/
theorem registry_step {registry registry' : Lifecycle} {e : LifecycleEvent} {o : Option String}
    (h : registry.step e = some (o, registry')) (hstart : ∀ calls, e ≠ .start calls)
    (hstop : e ≠ .stop) :
    registry'.running = registry.running ∧ registry'.joinable = registry.joinable := by
  cases e with
  | start calls => exact absurd rfl (hstart calls)
  | stop => exact absurd rfl hstop
  | accept client_fd epoll_ctl =>
    simp only [Lifecycle.step, Option.ite_none_right_eq_some] at h
    obtain ⟨table, -, heq⟩ := Option.map_eq_some_iff.1 h.2
    obtain ⟨-, rfl⟩ := Prod.mk.inj heq
    cases epoll_ctl <;> exact ⟨rfl, rfl⟩
  | remove client_fd =>
    simp only [Lifecycle.step, Option.ite_none_right_eq_some] at h
    obtain ⟨-, h⟩ := h
    split_ifs at h <;>
      · obtain ⟨-, rfl⟩ := Prod.mk.inj (Option.some.inj h)
        exact ⟨rfl, rfl⟩

theorem ordered_init (tier_configs : List TierConfig) (configs : ClientId → ClientConfig) :
    Ordered (init tier_configs configs) where
  owned := ⟨fun _ => by simp [init], fun h => by simp [init] at h, fun h => by simp [init] at h,
    fun h => by simp [init] at h⟩
  owner := rfl
  starting h := by simp [init] at h
  stopping h := by simp [init] at h
  running h := by simp [init] at h
  callback := rfl

/-- A step of the loop keeps the order. -/
theorem Ordered.loop (hs : Ordered s) {e : PollEvent Unit} {o : Option (PollOutput Unit)}
    {poller : PsiPoller Unit} (he : e.isLoop = true)
    (h : s.poller.step toDouble e = some (o, poller)) (daemon : GovernorDaemon) :
    Ordered { s with poller := poller, daemon := daemon } := by
  obtain ⟨control, hcontrol, hloop⟩ := PsiPoller.loops_of_isLoop h he
  obtain ⟨howner, hrunning, -, -⟩ := hloop.keeps hcontrol
  refine ⟨PsiPoller.step_owned hs.owned h, howner.trans hs.owner, hs.starting,
    fun hmain => hrunning.trans (hs.stopping hmain), fun _ => hs.running (.inr ?_), ?_⟩
  · rw [hcontrol]
    rfl
  · cases hloop <;> exact hs.callback

/-- Every step keeps the order. -/
theorem step_ordered (hs : Ordered s) (h : s.step toDouble A e = some (o, t)) : Ordered t := by
  have howner := hs.owner
  cases steps_of_step h with
  | throws hmain hstart =>
    exact ⟨hs.owned, hs.owner, fun _ => start_running hstart, hs.stopping,
      fun _ => start_running hstart, hs.callback⟩
  | start hmain hstart =>
    rw [hmain] at howner
    exact ⟨hs.owned, howner, fun _ => start_running hstart, fun h => by simp at h,
      fun _ => start_running hstart, hs.callback⟩
  | startPoller hmain hstep =>
    obtain ⟨-, howner', hrunning, hthread, hcallback⟩ := PsiPoller.step_start hstep
    refine ⟨PsiPoller.step_owned hs.owned hstep, ?_, fun h => ?_, fun h => ?_,
      fun _ => hs.starting hmain, hcallback.trans hs.callback⟩
    · rcases howner' with howner' | howner' <;> simp [howner', MainControl.owner]
    · simp only at h
      split_ifs at h
    · simp only at h
      split_ifs at h
  | launch hmain hstep =>
    obtain ⟨hstarting, howner', hrunning, hcallback⟩ := PsiPoller.step_launch hs.owned hstep
    refine ⟨PsiPoller.step_owned hs.owned hstep, howner', fun h => by simp at h,
      fun h => by simp at h, fun _ => hs.running (.inl (hs.owned.starting hstarting).1),
      hcallback.trans hs.callback⟩
  | stop hmain hstep =>
    obtain ⟨hidle, howner', hrunning, hthread, hcallback⟩ := PsiPoller.step_stop hstep
    refine ⟨PsiPoller.step_owned hs.owned hstep, ?_, fun h => ?_, fun _ => hrunning, fun h => ?_,
      hcallback.trans hs.callback⟩
    · rcases howner' with howner' | howner' <;> simp [howner', MainControl.owner]
    · simp only at h
      split_ifs at h
    · simp only [hrunning, hthread, Bool.false_eq_true, false_or] at h
      exact hs.running (.inr h)
  | joined hmain hstep =>
    obtain ⟨hjoining, howner', hrunning, hthread, hcallback, hended⟩ := PsiPoller.step_joined hstep
    have hstopped := hrunning.trans (hs.owned.joining hjoining).1
    refine ⟨PsiPoller.step_owned hs.owned hstep, howner', fun h => by simp at h,
      fun _ => hstopped, fun h => ?_, hcallback.trans hs.callback⟩
    simp [hstopped, hthread] at h
  | stopRegistry hmain =>
    rw [hmain] at howner
    -- The poller is not running and nobody waits for its thread, so there is none.
    have hstopped := hs.stopping hmain
    have hthread : ¬ s.poller.thread.isSome = true := by
      rw [← hs.owned.idle howner, hstopped]
      exact Bool.false_ne_true
    refine ⟨hs.owned, howner, fun h => by simp at h, fun h => by simp at h, fun h => ?_,
      hs.callback⟩
    exact absurd h (not_or.2 ⟨by simp [hstopped], hthread⟩)
  | poll hloop hcall hstep => exact hs.loop hloop hstep s.daemon
  | call hstep hsample hdaemon => exact hs.loop rfl hstep _
  | registry hstart hstop hstep =>
    obtain ⟨hrunning, -⟩ := registry_step hstep hstart hstop
    exact ⟨hs.owned, hs.owner, fun h => hrunning.trans (hs.starting h), hs.stopping,
      fun h => hrunning.trans (hs.running h), hs.callback⟩
  | system hstep => exact ⟨hs.owned, hs.owner, hs.starting, hs.stopping, hs.running, hs.callback⟩

/-- A `start` of the registry that is not running succeeds. -/
def StartSucceeds (s : DaemonProcess) : ProcessEvent → Prop
  | .start calls => s.registry.running = false → Lifecycle.Succeed calls
  | _ => True

instance (s : DaemonProcess) : ∀ e, Decidable (StartSucceeds s e)
  | .start calls =>
    inferInstanceAs (Decidable (s.registry.running = false → Lifecycle.Succeed calls))
  | .startPoller | .launch | .stop | .joined | .stopRegistry | .poll _ | .call | .registry _
  | .system _ => isTrue trivial

/-- Where every `start` succeeds, a registry that runs has its thread. -/
theorem step_joinable (hs : s.registry.running = true → s.registry.joinable = true)
    (hC : StartSucceeds s e) (h : s.step toDouble A e = some (o, t)) :
    t.registry.running = true → t.registry.joinable = true := by
  have hstart : ∀ {calls : StartCalls} {o : Option String} {registry : Lifecycle},
      (s.registry.running = false → Lifecycle.Succeed calls) →
      s.registry.start calls = some (o, registry) →
      registry.running = true → registry.joinable = true := by
    intro calls o registry hC hstart hrunning
    cases hidle : s.registry.running with
    | true =>
      rw [Lifecycle.start, if_pos hidle] at hstart
      obtain ⟨-, rfl⟩ := Prod.mk.inj (Option.some.inj hstart)
      exact hs hidle
    | false =>
      rcases Lifecycle.start_cases hidle hstart with ⟨-, -, _, _, -, -, rfl⟩ | ⟨hfail, -⟩
      · rfl
      · exact absurd (hC hidle) hfail
  cases steps_of_step h with
  | throws hmain hthrows => exact hstart hC hthrows
  | start hmain hstarts => exact hstart hC hstarts
  | stopRegistry hmain =>
    intro hrunning
    exfalso
    simp only [Lifecycle.stop] at hrunning
    split_ifs at hrunning with hr
    · exact hr hrunning
  | registry hstart' hstop hstep =>
    obtain ⟨hrunning, hjoinable⟩ := registry_step hstep hstart' hstop
    rw [hrunning, hjoinable]
    exact hs
  | _ => exact hs

variable {tier_configs : List TierConfig} {configs : ClientId → ClientConfig}
  {es : List ProcessEvent} {os : List (Option ProcessOutput)}

/-- In every run of the process, however `main` calls `start` and `stop` and the threads take turns,
there is a polling thread, and so a callback that broadcasts, only while the registry runs; where no
`start` of the registry fails, its thread, which serves the clients, is there too. -/
theorem run_ordered
    (h : Machine.run (step toDouble A) (init tier_configs configs) es = some (os, s)) :
    (s.poller.thread.isSome = true → s.registry.running = true) ∧
      (Machine.Along (step toDouble A) StartSucceeds (init tier_configs configs) es →
        s.poller.thread.isSome = true → s.registry.joinable = true) := by
  have hs : Ordered s :=
    Machine.run_invariant (fun _ _ _ _ => step_ordered) (ordered_init tier_configs configs) h
  refine ⟨fun hsome => hs.running (.inr hsome), fun hC hsome => ?_⟩
  have hjoinable : s.registry.running = true → s.registry.joinable = true :=
    Machine.along_invariant (I := fun s : DaemonProcess =>
        s.registry.running = true → s.registry.joinable = true)
      (fun _ _ _ _ hs hC hstep => step_joinable hs hC hstep) (fun h => by simp [init] at h) hC h
  exact hjoinable (hs.running (.inr hsome))

end Order

/-- A `start` whose system calls succeed, and the first reading of the file up to the callback. -/
def firstReading (text : Bytes) : List ProcessEvent :=
  [.start ⟨some 3, true, true, some 4, true⟩, .startPoller, .launch, .poll .test,
    .poll (.read text), .poll .store, .call]

/-- Clients with 100 entries of one byte. -/
def smallClients : ClientId → ClientConfig := fun _ => ⟨7, 100, 1⟩

/-- The process of these. -/
def started : DaemonProcess := init PolicyEngine.defaultConfigs smallClients

theorem run_ordered_firstReading : ∃ os s,
    Machine.run (step some fun _ => .above) started (firstReading (ascii "some total=7")) =
      some (os, s) ∧
    s.poller.thread.isSome = true ∧ s.registry.running = true ∧ s.registry.joinable = true := by
  have hrun : (Machine.run (step some fun _ => .above) started
      (firstReading (ascii "some total=7"))).isSome = true := by
    decide +kernel
  obtain ⟨⟨os, s⟩, hrun⟩ := Option.isSome_iff_exists.1 hrun
  have hthread : (Machine.run (step some fun _ => .above) started
      (firstReading (ascii "some total=7"))).map (fun r => r.2.poller.thread.isSome) =
        some true := by
    decide +kernel
  rw [hrun, Option.map_some, Option.some.injEq] at hthread
  have hC : Machine.Along (step some fun _ => .above) StartSucceeds started
      (firstReading (ascii "some total=7")) := by
    decide +kernel
  obtain ⟨hrunning, hjoinable⟩ := run_ordered hrun
  exact ⟨os, s, hrun, hthread, hrunning hthread, hjoinable hC hthread⟩

/-! ## The samples -/

/-- The data that a step reads from the file. -/
def parsed (toDouble : ℚ → Option ℚ) : ProcessEvent → List ParsedPsi
  | .poll e => PsiPoller.parsed toDouble e
  | _ => []

/-- The sample that a step evaluates. -/
def sampleOf : Option ProcessOutput → List PsiData
  | some (.evaluated data) => [data]
  | _ => []

/-- The step of the clients or of the registry's thread among the steps of the process. -/
def systemOf : ProcessEvent → Option Event
  | .system e => some e
  | _ => none

/-- What is read and not evaluated yet. -/
def pending (poller : PsiPoller Unit) : List ParsedPsi :=
  (PsiPoller.toCall poller).map Prod.snd ++ PsiPoller.toStore poller

section Samples

variable {toDouble : ℚ → Option ℚ} {A : ClientId → LinkedHeap.Allocator}
  {s t : DaemonProcess} {e : ProcessEvent} {o : Option ProcessOutput}

/-- There is at most one reading on its way. -/
theorem pending_length (poller : PsiPoller Unit) : (pending poller).length ≤ 1 := by
  unfold pending PsiPoller.toCall PsiPoller.toStore
  cases poller.thread with
  | none => simp
  | some control => cases control <;> simp

/-- It depends on the thread alone. -/
theorem pending_congr {poller poller' : PsiPoller Unit} (h : poller'.thread = poller.thread) :
    pending poller' = pending poller := by
  simp only [pending, PsiPoller.toCall, PsiPoller.toStore, h]

/-- A step of the loop that is not the call leaves what it reads to be evaluated. -/
theorem pending_loop {poller poller' : PsiPoller Unit} {e : PollEvent Unit}
    {o : Option (PollOutput Unit)} (hcb : poller.callback = some ()) (hloop : e.isLoop = true)
    (he : e ≠ .call) (h : poller.step toDouble e = some (o, poller')) :
    pending poller' = pending poller ++ PsiPoller.parsed toDouble e := by
  have hstored := PsiPoller.step_stored h
  have hcalled := PsiPoller.step_called h
  obtain ⟨control, hcontrol, hsteps⟩ := PsiPoller.loops_of_isLoop h hloop
  -- What is stored asks for a call of the one callback, and no call is made.
  have hwanted : ((PsiPoller.stored o).flatMap PsiPoller.wanted).map Prod.snd =
      (PsiPoller.stored o).map Prod.fst := by
    cases hsteps <;> simp [PsiPoller.stored, PsiPoller.wanted, hcb]
  have hnone : PsiPoller.called o = [] := by
    cases hsteps with
    | call => exact absurd rfl he
    | _ => rfl
  rw [hnone, List.nil_append] at hcalled
  calc pending poller'
      = (PsiPoller.toCall poller ++ (PsiPoller.stored o).flatMap PsiPoller.wanted).map Prod.snd ++
          PsiPoller.toStore poller' := by rw [hcalled, pending]
    _ = (PsiPoller.toCall poller).map Prod.snd ++
          ((PsiPoller.stored o).map Prod.fst ++ PsiPoller.toStore poller') := by
        rw [List.map_append, hwanted, List.append_assoc]
    _ = pending poller ++ PsiPoller.parsed toDouble e := by
        rw [← hstored, pending, List.append_assoc]

/-- What a step reads is evaluated by it or left to be evaluated. -/
theorem step_samples (hs : Ordered s) (h : s.step toDouble A e = some (o, t)) :
    (pending s.poller ++ parsed toDouble e).map ParsedPsi.sample =
      (sampleOf o).map some ++ (pending t.poller).map ParsedPsi.sample := by
  cases steps_of_step h with
  | startPoller hmain hstep =>
    obtain ⟨-, -, -, hthread, -⟩ := PsiPoller.step_start hstep
    simp [parsed, sampleOf, pending_congr hthread]
  | launch hmain hstep =>
    have hnone := (hs.owned.starting (PsiPoller.step_launch hs.owned hstep).1).2
    cases (PsiPoller.steps_of_step hstep).2 with
    | launch => simp [parsed, sampleOf, pending, PsiPoller.toCall, PsiPoller.toStore, hnone]
    | launchJoinable hstarting hsome => simp [hnone] at hsome
    | loop hcontrol hloop => cases hloop
  | stop hmain hstep =>
    obtain ⟨-, -, -, hthread, -⟩ := PsiPoller.step_stop hstep
    simp [parsed, sampleOf, pending_congr hthread]
  | joined hmain hstep =>
    obtain ⟨-, -, -, hthread, -, hended⟩ := PsiPoller.step_joined hstep
    simp [parsed, sampleOf, pending, PsiPoller.toCall, PsiPoller.toStore, hthread, hended]
  | poll hloop hcall hstep =>
    rw [pending_loop hs.callback hloop hcall hstep]
    rfl
  | call hstep hsample hdaemon =>
    obtain ⟨control, hcontrol, hsteps⟩ := PsiPoller.loops_of_isLoop hstep rfl
    cases hsteps
    simp [parsed, sampleOf, pending, PsiPoller.toCall, PsiPoller.toStore, hcontrol, hsample]
  | _ => simp [parsed, sampleOf]

/-- A step of the process is a step of the daemon, or none of its steps. -/
theorem step_daemon (h : s.step toDouble A e = some (o, t)) :
    ∃ es' os', Machine.run (GovernorDaemon.step A) s.daemon es' = some (os', t.daemon) ∧
      GovernorDaemon.samples es' = sampleOf o ∧
      es'.filterMap GovernorDaemon.systemOfDaemon = [e].filterMap systemOf := by
  cases steps_of_step h with
  | call hstep hsample hdaemon =>
    refine ⟨[.psi _], [none], Machine.run_singleton_eq_some.2 ⟨none, ?_, rfl⟩, rfl, rfl⟩
    rw [GovernorDaemon.step, hdaemon, Option.map_some]
  | system hstep =>
    exact ⟨[.system _], [_], Machine.run_singleton_eq_some.2 ⟨_, hstep, rfl⟩, rfl, rfl⟩
  | _ => exact ⟨[], [], rfl, rfl, rfl⟩

variable {es : List ProcessEvent} {os : List (Option ProcessOutput)}

/-- What is read is evaluated or left to be evaluated, over a run. -/
theorem run_samples (hs : Ordered s) (h : Machine.run (step toDouble A) s es = some (os, t)) :
    (pending s.poller ++ es.flatMap (parsed toDouble)).map ParsedPsi.sample =
      (os.flatMap sampleOf).map some ++ (pending t.poller).map ParsedPsi.sample := by
  induction es generalizing s os with
  | nil =>
    simp only [Machine.run_nil, Option.some.injEq, Prod.mk.injEq] at h
    obtain ⟨rfl, rfl⟩ := h
    simp
  | cons e es ih =>
    obtain ⟨o, u, os', hstep, hrun, rfl⟩ := Machine.run_cons_eq_some.1 h
    have hrest := ih (step_ordered hs hstep) hrun
    rw [List.map_append] at hrest
    calc (pending s.poller ++ (e :: es).flatMap (parsed toDouble)).map ParsedPsi.sample
        = (pending s.poller ++ parsed toDouble e).map ParsedPsi.sample ++
            (es.flatMap (parsed toDouble)).map ParsedPsi.sample := by simp
      _ = (sampleOf o).map some ++ ((pending u.poller).map ParsedPsi.sample ++
            (es.flatMap (parsed toDouble)).map ParsedPsi.sample) := by
          rw [step_samples hs hstep, List.append_assoc]
      _ = ((o :: os').flatMap sampleOf).map some ++ (pending t.poller).map ParsedPsi.sample := by
          rw [hrest]
          simp

/-- A run of the process is a run of the daemon. -/
theorem run_daemon (h : Machine.run (step toDouble A) s es = some (os, t)) :
    ∃ es' os', Machine.run (GovernorDaemon.step A) s.daemon es' = some (os', t.daemon) ∧
      GovernorDaemon.samples es' = os.flatMap sampleOf ∧
      es'.filterMap GovernorDaemon.systemOfDaemon = es.filterMap systemOf := by
  induction es generalizing s os with
  | nil =>
    simp only [Machine.run_nil, Option.some.injEq, Prod.mk.injEq] at h
    obtain ⟨rfl, rfl⟩ := h
    exact ⟨[], [], rfl, rfl, rfl⟩
  | cons e es ih =>
    obtain ⟨o, u, os', hstep, hrun, rfl⟩ := Machine.run_cons_eq_some.1 h
    obtain ⟨es₁, os₁, hrun₁, hsamples₁, hsystem₁⟩ := step_daemon hstep
    obtain ⟨es₂, os₂, hrun₂, hsamples₂, hsystem₂⟩ := ih hrun
    refine ⟨es₁ ++ es₂, os₁ ++ os₂, Machine.run_append_eq_some.2 ⟨os₁, _, os₂, hrun₁, hrun₂, rfl⟩,
      ?_, ?_⟩
    · rw [GovernorDaemon.samples] at hsamples₁ hsamples₂ ⊢
      rw [List.filterMap_append, hsamples₁, hsamples₂, List.flatMap_cons]
    · rw [List.filterMap_append, hsystem₁, hsystem₂, ← List.filterMap_append]
      rfl

variable {tier_configs : List TierConfig} {configs : ClientId → ClientConfig}

/-- What a run does to the clients and the registry is the run of the system whose broadcasts, in
order, are `broadcasts`, and whose other steps are those of the process. -/
def Dispatches (A : ClientId → LinkedHeap.Allocator) (configs : ClientId → ClientConfig)
    (es : List ProcessEvent) (s : DaemonProcess) (broadcasts : List (Command × ℚ)) : Prop :=
  ∃ events outs, Machine.run (System.step A) (System.init configs) events =
      some (outs, s.daemon.system) ∧
    events.filterMap Event.broadcast? = broadcasts ∧
    events.filter (fun e => e.broadcast?.isNone) = es.filterMap systemOf

/-- A client with two entries of a byte registers, and the file says this three times. -/
def threeReadings (text : Bytes) : List ProcessEvent :=
  [.start ⟨some 3, true, true, some 4, true⟩, .startPoller, .launch,
    .system (.client 0 (.put "a" "1")), .system (.client 0 (.put "b" "2")), .system (.connect 0),
    .system (.client 0 .register), .system (.accept 5), .system (.receive 5)] ++
  (List.replicate 3 [.poll .test, .poll (.read text), .poll .store, .call, .poll .wake]).flatten

/-- The texts that a run reads from the file, where it is not empty. -/
def contents : ProcessEvent → List Bytes
  | .poll (.read content) => if content = [] then [] else [content]
  | _ => []

/-- What a step reads is what its text says. -/
theorem parsed_eq (e : ProcessEvent) : parsed toDouble e =
    (contents e).flatMap fun content =>
      (PsiPoller.parsePsiFile toDouble content).toOption.toList := by
  cases e with
  | poll e =>
    cases e with
    | read content =>
      simp only [parsed, contents, PsiPoller.parsed]
      split_ifs <;> simp
    | _ => rfl
  | _ => rfl

/-- What is read of texts that render records. -/
theorem parsed_of_renders {recs : List (PsiShare → Option PsiRecord)} {texts : List Bytes}
    (h : List.Forall₂ PsiPoller.Renders recs texts) :
    (texts.flatMap fun content =>
        (PsiPoller.parsePsiFile some content).toOption.toList).map ParsedPsi.sample =
      (recs.map PsiPoller.recordSample).map some := by
  induction h with
  | nil => rfl
  | cons hrenders hrest ih =>
    obtain ⟨data, hparse, hsample⟩ := hrenders.sample_eq
    rw [List.flatMap_cons, List.map_append, ih, hparse]
    simp [Except.toOption, hsample]

end Samples

/-- A record under pressure. -/
def busyRecord : PsiRecord where
  avg10 := .ofDigits (ascii "40") (ascii "20") (by decide) (by decide) (by decide) rfl
  avg60 := .ofDigits (ascii "3") (ascii "60") (by decide) (by decide) (by decide) rfl
  avg300 := .ofDigits (ascii "7") (ascii "25") (by decide) (by decide) (by decide) rfl
  total := 1234

/-- The text of it, and of no record for the other share. -/
def busyText : Bytes := ascii "some avg10=40.20 avg60=3.60 avg300=7.25 total=1234"

/-- The text renders the record. -/
theorem renders_busyText :
    PsiPoller.Renders (fun | .someLine => some busyRecord | .fullLine => none) busyText := by
  have hline : PsiPoller.RecordLine .someLine busyRecord busyText := by
    have hspace : PsiPoller.Inline (ascii " ") := by
      intro b hb
      obtain rfl : b = 32 := List.mem_singleton.1 hb
      decide
    refine @PsiPoller.RecordLine.tokens .someLine busyRecord
      (PsiKey.all.map fun k => (ascii " ", busyRecord.token k)) [] [] (fun p hp => ?_) ?_
      (fun _ h => absurd h List.not_mem_nil) fun _ h => absurd h List.not_mem_nil
    · obtain ⟨k, -, rfl⟩ := List.mem_map.1 hp
      exact ⟨List.cons_ne_nil _ _, hspace⟩
    · rw [List.append_nil, List.map_map]
      exact List.Perm.refl _
  refine @PsiPoller.Renders.lines _ (fun | .someLine => some busyText | .fullLine => none) []
    [busyText] (fun share => ?_) (fun _ h => absurd h List.not_mem_nil) (List.Perm.refl _)
  cases share with
  | someLine => exact .some hline
  | fullLine => exact .none

end DaemonProcess

end MemoryGovernor
