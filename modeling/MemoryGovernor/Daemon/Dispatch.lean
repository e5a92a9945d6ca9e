import MemoryGovernor.Daemon.Cycle
import MemoryGovernor.Policy.Ledger

/-!
# What the daemon dispatches

A run of the daemon is a run of its system in which each sample is the broadcast that the engine's
action asks for, or nothing where it asks for none (`systemEvents`, `run_systemEvents`). A broadcast
is the step of the system that sends the commands, so what was broadcast in a run is not a matter of
what the engine returned: the commands are in the connections. That the broadcasts are the actions
of the engine on the samples, in order, is `filterMap_systemEvents`.
-/

namespace MemoryGovernor

/-- The broadcast that an action asks for, with its fraction. -/
def PolicyAction.command? (action : PolicyAction) : Option (Command × ℚ) :=
  match action.type with
  | .shrink => some (.shrink, action.fraction)
  | .grow => some (.grow, action.fraction)
  | .none => none

/-- The command and the fraction of a step that broadcasts. -/
def Event.broadcast? : Event → Option (Command × ℚ)
  | .broadcast cmd fraction => some (cmd, fraction)
  | _ => none

namespace GovernorDaemon

/-- The steps of the system in a run of the daemon. -/
def systemEvents (engine : PolicyEngine) : List DaemonEvent → List Event
  | [] => []
  | .psi data :: es =>
    ((engine.evaluate data).1.command?.map fun c => Event.broadcast c.1 c.2).toList ++
      systemEvents (engine.evaluate data).2 es
  | .system e :: es => e :: systemEvents engine es

/-- The step of the system that is not a broadcast, among the steps of the daemon. -/
def systemOfDaemon : DaemonEvent → Option Event
  | .system e => some e
  | .psi _ => none

section Runs

variable {A : ClientId → LinkedHeap.Allocator} {d d' : GovernorDaemon} {es : List DaemonEvent}
  {os : List (Option Message)}

/-- A sample makes the broadcast that its action asks for, if any. -/
theorem psi_systemEvents {data : PsiData} {o : Option Message}
    (h : step A d (.psi data) = some (o, d')) :
    ∃ outs, Machine.run (System.step A) d.system
      ((d.engine.evaluate data).1.command?.map fun c => Event.broadcast c.1 c.2).toList =
        some (outs, d'.system) := by
  obtain ⟨-, ⟨hnone, hsame⟩ | ⟨cmd, hbroadcast, htype⟩⟩ := step_psi h
  · rw [PolicyAction.command?, hnone, hsame]
    exact ⟨[], rfl⟩
  · have hcommand : (d.engine.evaluate data).1.command? =
        some (cmd, (d.engine.evaluate data).1.fraction) := by
      rw [PolicyAction.command?, htype]
      cases cmd <;> rfl
    rw [hcommand]
    refine ⟨[none], Machine.run_singleton_eq_some.2 ⟨none, ?_, rfl⟩⟩
    rw [System.step, hbroadcast, Option.map_some]

/-- A run of the daemon is a run of its system, in which each sample is its broadcast. -/
theorem run_systemEvents (h : Machine.run (step A) d es = some (os, d')) :
    ∃ outs, Machine.run (System.step A) d.system (systemEvents d.engine es) =
      some (outs, d'.system) := by
  induction es generalizing d os with
  | nil =>
    obtain ⟨-, rfl⟩ := Prod.mk.inj (Option.some.inj h)
    exact ⟨[], rfl⟩
  | cons e es ih =>
    obtain ⟨o, u, os', hstep, hrun, rfl⟩ := Machine.run_cons_eq_some.1 h
    obtain ⟨outs, hrest⟩ := ih hrun
    cases e with
    | psi data =>
      rw [(step_psi hstep).1] at hrest
      obtain ⟨outs', hpsi⟩ := psi_systemEvents hstep
      exact ⟨outs' ++ outs, Machine.run_append_eq_some.2 ⟨outs', _, outs, hpsi, hrest, rfl⟩⟩
    | system e =>
      obtain ⟨hengine, hsystem, -⟩ := step_of_system hstep
      rw [hengine] at hrest
      exact ⟨o :: outs, Machine.run_cons_eq_some.2 ⟨o, _, outs, hsystem, hrest, rfl⟩⟩

/-- The broadcasts in these steps are the actions of the engine on the samples, and the other steps
are those of the clients and the registry's thread. -/
theorem filterMap_systemEvents (h : Machine.run (step A) d es = some (os, d')) :
    (systemEvents d.engine es).filterMap Event.broadcast? =
        (d.engine.actions (samples es)).filterMap PolicyAction.command? ∧
      (systemEvents d.engine es).filter (fun e => e.broadcast?.isNone) =
        es.filterMap systemOfDaemon := by
  induction es generalizing d os with
  | nil => exact ⟨rfl, rfl⟩
  | cons e es ih =>
    obtain ⟨o, u, os', hstep, hrun, rfl⟩ := Machine.run_cons_eq_some.1 h
    obtain ⟨hbroadcasts, hothers⟩ := ih hrun
    cases e with
    | psi data =>
      rw [(step_psi hstep).1] at hbroadcasts hothers
      have hsamples : samples (.psi data :: es) = data :: samples es := rfl
      have hsystems : (.psi data :: es).filterMap systemOfDaemon =
          es.filterMap systemOfDaemon := rfl
      rw [systemEvents, hsamples, hsystems, PolicyEngine.actions, List.filterMap_append,
        List.filter_append, hbroadcasts, hothers]
      cases hcommand : (d.engine.evaluate data).1.command? with
      | none => simp [hcommand]
      | some c => simp [hcommand, Event.broadcast?]
    | system e =>
      obtain ⟨hengine, -, hother⟩ := step_of_system hstep
      rw [hengine] at hbroadcasts hothers
      have hnone : e.broadcast? = none := by
        cases e with
        | broadcast cmd fraction => exact absurd rfl (hother cmd fraction)
        | _ => rfl
      have hsamples : samples (.system e :: es) = samples es := rfl
      rw [systemEvents, hsamples, ← hbroadcasts]
      simp [hnone, hothers, systemOfDaemon]

end Runs

end GovernorDaemon

end MemoryGovernor
