import MemoryGovernor.Policy.Engine
import MemoryGovernor.System.Sound

/-!
# The daemon

`GovernorDaemon` (`src/governor/governor_daemon.cpp`) with its clients: each sample of the poller
goes to the policy engine, and the action that comes back, if any, is broadcast. Everything else is
a step of the system of `System/Step.lean` other than a broadcast, at any time between two samples.
-/

namespace MemoryGovernor

/-- The state of the daemon and its clients. -/
structure GovernorDaemon where
  engine : PolicyEngine
  system : System

/-- A sample of the poller, or a step of the system. -/
inductive DaemonEvent
  | psi (data : PsiData)
  | system (e : Event)
deriving DecidableEq, Repr

namespace GovernorDaemon

/-- The constructor, and clients that have not done anything. -/
def init (tier_configs : List TierConfig) (configs : ClientId → ClientConfig) : GovernorDaemon :=
  ⟨PolicyEngine.new tier_configs, System.init configs⟩

/-- `dispatch_action`. -/
def dispatchAction (d : GovernorDaemon) (action : PolicyAction) : Option GovernorDaemon :=
  match action.type with
  | .shrink =>
    (d.system.broadcastShrink action.fraction).map fun system => { d with system := system }
  | .grow =>
    (d.system.broadcastGrow action.fraction).map fun system => { d with system := system }
  | .none => some d

/-- `on_psi_update`, less its log. -/
def onPsiUpdate (d : GovernorDaemon) (data : PsiData) : Option GovernorDaemon :=
  -- The engine has moved to its new tier before the action is dispatched.
  let r := d.engine.evaluate data
  let d := { d with engine := r.2 }
  if r.1.type ≠ .none then d.dispatchAction r.1 else some d

/-- One step. The system broadcasts only what the daemon dispatches. -/
def step (A : ClientId → LinkedHeap.Allocator) (d : GovernorDaemon) :
    DaemonEvent → Option (Option Message × GovernorDaemon)
  | .psi data => (d.onPsiUpdate data).map fun d => (none, d)
  -- A broadcast comes from a sample only.
  | .system (.broadcast _ _) => none
  | .system e => (d.system.step A e).map fun r => (r.1, { d with system := r.2 })

section Steps

variable {A : ClientId → LinkedHeap.Allocator} {d d' : GovernorDaemon} {o : Option Message}

/-- What a sample does: the engine moves, and the action is broadcast, if there is one. -/
theorem step_psi {data : PsiData} (h : step A d (.psi data) = some (o, d')) :
    d'.engine = (d.engine.evaluate data).2 ∧
      ((d.engine.evaluate data).1.type = .none ∧ d'.system = d.system ∨
        ∃ cmd, d.system.broadcast cmd (d.engine.evaluate data).1.fraction = some d'.system ∧
          (d.engine.evaluate data).1.type = match cmd with
            | .shrink => .shrink
            | .grow => .grow) := by
  obtain ⟨-, h⟩ := Machine.silent_eq_some.1 h
  unfold onPsiUpdate at h
  simp only at h
  split_ifs at h with htype
  · unfold dispatchAction at h
    split at h
    · next hshrink =>
      obtain ⟨st, hst, rfl⟩ := Option.map_eq_some_iff.1 h
      exact ⟨rfl, .inr ⟨.shrink, hst, hshrink⟩⟩
    · next hgrow =>
      obtain ⟨st, hst, rfl⟩ := Option.map_eq_some_iff.1 h
      exact ⟨rfl, .inr ⟨.grow, hst, hgrow⟩⟩
    · next hnone => exact absurd hnone htype
  · obtain rfl := Option.some.inj h
    exact ⟨rfl, .inl ⟨not_not.1 htype, rfl⟩⟩

/-- A step of the system that is not a broadcast is a step of the daemon. -/
theorem step_system {e : Event} (h : ∀ cmd fraction, e ≠ .broadcast cmd fraction) :
    step A d (.system e) = (d.system.step A e).map fun r => (r.1, { d with system := r.2 }) := by
  cases e with
  | broadcast cmd fraction => exact absurd rfl (h cmd fraction)
  | _ => rfl

/-- There is no other step. -/
theorem step_of_system {e : Event} (h : step A d (.system e) = some (o, d')) :
    d'.engine = d.engine ∧ d.system.step A e = some (o, d'.system) ∧
      ∀ cmd fraction, e ≠ .broadcast cmd fraction := by
  have hb : ∀ cmd fraction, e ≠ .broadcast cmd fraction := by
    rintro cmd fraction rfl
    cases h
  rw [step_system hb] at h
  obtain ⟨⟨o', st⟩, hst, heq⟩ := Option.map_eq_some_iff.1 h
  obtain ⟨rfl, rfl⟩ := Prod.mk.inj heq
  exact ⟨rfl, hst, hb⟩

/-- Every step of the daemon is a step of the system, or none. -/
theorem step_cases {e : DaemonEvent} (h : step A d e = some (o, d')) :
    d'.system = d.system ∨ ∃ e' o', d.system.step A e' = some (o', d'.system) ∧
      ∀ fraction, e' = .broadcast .grow fraction → ∃ data, e = .psi data ∧
        (d.engine.evaluate data).1.type = .grow ∧
        (d.engine.evaluate data).1.fraction = fraction := by
  cases e with
  | psi data =>
    obtain ⟨-, ⟨-, hsame⟩ | ⟨cmd, hst, htype⟩⟩ := step_psi h
    · exact .inl hsame
    · refine .inr ⟨.broadcast cmd (d.engine.evaluate data).1.fraction, none, ?_, ?_⟩
      · rw [System.step, hst, Option.map_some]
      · intro fraction heq
        obtain ⟨rfl, hfraction⟩ := Event.broadcast.inj heq
        exact ⟨data, rfl, htype, hfraction⟩
  | system e =>
    obtain ⟨-, hst, hb⟩ := step_of_system h
    exact .inr ⟨e, o, hst, fun fraction he => absurd he (hb .grow fraction)⟩

end Steps

end GovernorDaemon

end MemoryGovernor
