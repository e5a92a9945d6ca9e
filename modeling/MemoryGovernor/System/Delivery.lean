import MemoryGovernor.Registry.Settling
import MemoryGovernor.System.Sending

/-!
# From `send_message` to the table

A client whose threads send (`SendingClient`) and the daemon's event loop (`Epoll`), joined by the
bytes of a connection: what has come over it is a first part of what was written to it. The table
knows nothing of the client but what `send_message` has returned true for, and it knows all of that
once all is there and read.
-/

namespace MemoryGovernor

open Framing (InStep)
open ClientRegistry (replay)

namespace SendingClient

variable {u : SendingClient} {s : Epoll} {c d : ConnId} {outs : List (Option Returned)}

/-- A reader that has come to a frame that is cut off has read the messages before it at most, and
these are all where nothing is left to read. -/
theorem handled_of_cut {msgs handled todo : List Message} {msg : Message} {k : ℕ}
    {position : Framing.Position} {unread : Bytes} (hk : k < msg.frame.length)
    (hall : msgs ++ [msg] = handled ++ todo)
    (hin : InStep position (unread ++ msg.frame.drop k) (todo.map Message.toPayload)) :
    handled <+: msgs ∧ (unread = [] → handled = msgs) := by
  have hlen : (msg.frame.drop k).length ≤ msg.frame.length := by
    rw [List.length_drop]
    exact Nat.sub_le _ _
  have hrest : msg.frame.drop k ≠ [] := fun hnil =>
    absurd (List.drop_eq_nil_iff.1 hnil) (not_le.2 hk)
  have hne : todo ≠ [] := fun hnil =>
    hin.ne_nil (List.append_ne_nil_of_right_ne_nil unread hrest) (hnil ▸ rfl)
  obtain ⟨todo', m, rfl⟩ := (List.eq_nil_or_concat' todo).resolve_left hne
  rw [← List.append_assoc] at hall
  obtain ⟨rfl, hm⟩ := List.append_inj' hall rfl
  obtain rfl : msg = m := by simpa using hm
  refine ⟨List.prefix_append handled todo', fun hnil => ?_⟩
  rw [hnil, List.nil_append] at hin
  cases todo' with
  | nil => rw [List.append_nil]
  | cons m' todo' =>
    -- The frame of `msg` does not fit into a part of it.
    have hlt : (Framing.stream ((todo' ++ [msg]).map Message.toPayload)).length < _ :=
      InStep.stream_lt hin
    rw [List.map_append, Framing.stream, List.flatMap_append, List.length_append] at hlt
    have hmsg : (List.flatMap Framing.Payload.frame ([msg].map Message.toPayload)).length =
        msg.frame.length := by
      rw [Message.frame_eq]
      simp
    omega

/-- The threads of a client send, and the daemon's loop runs, each in any interleaving and with any
cuts of the bytes; no frame is divided by the client (`Undivided`), and the daemon gets each length
in one piece. Where the daemon has a connection of the client open, its entry is made of the first
few of the messages for which `send_message` has returned true on it, in that order; and of all of
them once the daemon has got what was written and has read it. -/
theorem run_delivered {es : List SendEvent} {es' : List EpollLabel} {outs' : List Unit} {fd : ℕ}
    (hclient : Machine.run step {} es = some (outs, u))
    (hundivided : Machine.Along step Undivided {} es)
    (hdaemon : Machine.run Epoll.step Epoll.init es' = some (outs', s))
    (hwhole : Machine.Along Epoll.step Epoll.WholeRead Epoll.init es')
    (harrived : s.sent d <+: u.stream c) (hfd : s.fds fd = some d) :
    ∃ handled, handled <+: delivered c outs ∧
      s.registry.clients.lookup fd = some (replay fd handled) ∧
      (s.sent d = u.stream c → s.inbox d = [] → handled = delivered c outs) := by
  have hsound : Sound outs u := Machine.along_outputs (I := Sound)
    (fun _ _ _ _ _ h hC hstep => sound_step h hC hstep) sound_init hundivided hclient
  have htracks : Epoll.init.Tracks := fun c fd hd => nomatch hd
  obtain ⟨hs, htracks⟩ : s.Sound ∧ s.Tracks :=
    Machine.along_invariant (I := fun s => s.Sound ∧ s.Tracks)
      (fun s e o t h hC hstep => ⟨Epoll.sound_step h.1 hstep, Epoll.tracks_step h.1 h.2 hC hstep⟩)
      ⟨Epoll.sound_init, htracks⟩ hwhole hdaemon
  obtain ⟨part, ⟨msg, k, hk, rfl⟩, hstream, -⟩ := hsound.streams c
  obtain ⟨late, hlate⟩ := harrived
  -- With the rest of the last frame, all that was sent is whole frames.
  have hall : s.sent d ++ (late ++ msg.frame.drop k) =
      (delivered c outs ++ [msg]).flatMap Message.frame := by
    rw [← List.append_assoc, hlate, hstream, List.append_assoc, List.take_append_drop,
      List.flatMap_append, List.flatMap_singleton]
  have hd := (hs.at_source.inverse fd d).1 hfd
  obtain ⟨handled, todo, hmsgs, hentry, hin⟩ := htracks d fd hd _ _ hall
  rw [← List.append_assoc] at hin
  obtain ⟨hpre, hmost⟩ := handled_of_cut hk hmsgs hin
  refine ⟨handled, hpre, hentry, fun hsent hnil => hmost ?_⟩
  have hnone : late = [] := by
    rw [← hsent] at hlate
    exact List.append_right_eq_self.1 hlate
  rw [hnil, hnone, List.append_nil]

/-- The daemon gets what the first connection of `twoSenders` has, and reads it. -/
def receiving : List EpollLabel :=
  [.connect, .arrive 0 (registering.frame ++ reporting.frame.take 4), .wait, .next,
    .accept (.watched 5), .acceptAgain, .wait, .next, .read (.data 4), .read (.data 80),
    .read (.data 4), .read .again]

/-- Its entry is the registration alone. -/
theorem run_delivered_twoSenders :
    (Machine.last Epoll.step Epoll.init receiving).registry.clients.lookup 5 =
      some ⟨5, 7, 2560, 0⟩ := by
  obtain ⟨outs, hclient⟩ : ∃ outs, Machine.run step {} twoSenders =
      some (outs, Machine.last step {} twoSenders) :=
    Machine.exists_run_eq_last _ _ (by decide +kernel)
  obtain ⟨outs', hdaemon⟩ : ∃ outs, Machine.run Epoll.step Epoll.init receiving =
      some (outs, Machine.last Epoll.step Epoll.init receiving) :=
    Machine.exists_run_eq_last _ _ (by decide +kernel)
  have houts : (Machine.run step {} twoSenders).map (delivered 0 ·.1) = some [registering] := by
    decide +kernel
  rw [hclient] at houts
  have hone : delivered 0 outs = [registering] := Option.some.inj houts
  have hfd : (Machine.last Epoll.step Epoll.init receiving).fds 5 = some 0 := by decide +kernel
  have hsame : (Machine.last Epoll.step Epoll.init receiving).sent 0 =
      (Machine.last step {} twoSenders).stream 0 := by decide +kernel
  obtain ⟨handled, -, hentry, hall⟩ := run_delivered (c := 0) hclient (by decide +kernel) hdaemon
    (by decide +kernel) (hsame ▸ List.prefix_rfl) hfd
  rw [hentry, hall hsame (by decide +kernel), hone]
  decide +kernel

end SendingClient

end MemoryGovernor
