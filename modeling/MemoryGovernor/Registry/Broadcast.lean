import MemoryGovernor.Lib.Machine
import MemoryGovernor.Lib.Outlet
import MemoryGovernor.Registry.ClientRegistry
import MemoryGovernor.Wire.Codec

/-!
# A broadcast, write by write

`broadcast_shrink` and `broadcast_grow` of `src/governor/client_registry.cpp` with the loop of
`send_to_client`. Both hold the registry's mutex from the first client to the last. The table has no
order that the source can rely on, so the clients come in any order. What the socket of a client
answers to the writes of its frame, one after another, is given for every client (`Outlet.Answer`).

A write to a peer that has closed raises `SIGPIPE`. What that does is for `main` to say, which sets
handlers for two other signals (`signals`).

The invariant (`AtWrite`) says of the current client that its writes so far did not fail and what it
has of its frame. A client that stops the loop or closes stops the broadcast or ends the process,
whatever the order (`stuck_step`); if there is none, the writes still to come bound the run
(`sending_step`).
-/

namespace MemoryGovernor

open Outlet (Answer accepted Open Reads Blocks Closes Settled)

/-- The signals that matter here. -/
inductive Signal
  | SIGINT
  | SIGTERM
  | SIGPIPE
deriving DecidableEq, Repr

/-- What a signal does to the process. -/
inductive Disposition
  /-- Each of these three ends the process. -/
  | default
  | ignore
  | handler
deriving DecidableEq, Repr

/-- The signals after `main` of `src/governor/main.cpp` has called `std::signal` twice. -/
def signals : Signal → Disposition :=
  Function.update (Function.update (fun _ => .default) .SIGINT .handler) .SIGTERM .handler

/-- A broadcast that is going on. -/
structure Broadcast where
  /-- The clients still to come with their frames, the current one first. -/
  todo : List (ℕ × Bytes)
  /-- The number of calls of `write` for the current client. -/
  writes : ℕ
  total_written : ℕ
  /-- What each descriptor has taken. -/
  delivered : ℕ → Bytes
  /-- `clients_mutex_` is held. -/
  locked : Bool
  /-- The process has not ended. -/
  alive : Bool

/-- What happens next. -/
inductive BroadcastEvent
  /-- A call of `write` on a socket that is as said. -/
  | write (answer : Answer)
  /-- The loop of `send_to_client` is at its end, or that of the broadcast. -/
  | leave
deriving DecidableEq, Repr

namespace Broadcast

/-- At the first client. The mutex is held. -/
def start (msgs : List (ℕ × Message)) : Broadcast :=
  ⟨msgs.map fun m => (m.1, m.2.frame), 0, 0, fun _ => [], true, true⟩

/-- The next client. -/
def nextClient (s : Broadcast) : Broadcast :=
  { s with todo := s.todo.tail, writes := 0, total_written := 0 }

/-- A `write` to a socket that has room for `n` bytes. Where there is no room it fails with
`EAGAIN`, and the loop tries again. -/
def wrote (s : Broadcast) (fd : ℕ) (frame : Bytes) (n : ℕ) : Broadcast :=
  let n := min n (frame.length - s.total_written)
  { s with
    writes := s.writes + 1
    total_written := s.total_written + n
    delivered := Function.update s.delivered fd
      (s.delivered fd ++ (frame.drop s.total_written).take n) }

/-- The broadcast, from one `write` to the next. -/
def step (σ : Signal → Disposition) (s : Broadcast) : BroadcastEvent → Option (Unit × Broadcast)
  | .write answer =>
    match s.todo with
    | (fd, frame) :: _ =>
      if s.alive ∧ s.total_written < frame.length then
        match answer with
        | .room n => some ((), s.wrote fd frame n)
        | .closed =>
          if σ .SIGPIPE = .default then some ((), { s with alive := false })
          -- Otherwise the write fails with `EPIPE`.
          else some ((), s.nextClient)
        | .failed => some ((), s.nextClient)
      else none
    | [] => none
  | .leave =>
    match s.todo with
    | (_, frame) :: _ =>
      if s.alive ∧ frame.length ≤ s.total_written then some ((), s.nextClient) else none
    | [] => if s.alive ∧ s.locked then some ((), { s with locked := false }) else none

/-- The writes to every client are answered as `W` says. -/
def Answers (W : ℕ → ℕ → Answer) (s : Broadcast) : BroadcastEvent → Prop
  | .write answer => ∀ p ∈ s.todo.head?, answer = W p.1 s.writes
  | .leave => True

/-- The broadcast has returned and released the mutex, the process goes on, and every client that
reads has its whole frame. -/
structure Succeeded (W : ℕ → ℕ → Answer) (msgs : List (ℕ × Message)) (s : Broadcast) : Prop where
  returned : s.todo = []
  unlocked : s.locked = false
  alive : s.alive = true
  delivered : ∀ m ∈ msgs, Reads (W m.1) → s.delivered m.1 = m.2.frame

/-- A write to one client gives the others nothing. -/
theorem wrote_delivered_of_ne {s : Broadcast} {fd fd' n : ℕ} {frame : Bytes} (h : fd' ≠ fd) :
    (s.wrote fd frame n).delivered fd' = s.delivered fd' :=
  Function.update_of_ne h _ _

/-- The ways in which a step goes after `main` has set its handlers. -/
inductive Steps (W : ℕ → ℕ → Answer) (s : Broadcast) : Broadcast → Prop
  | wrote {fd n : ℕ} {frame : Bytes} {rest : List (ℕ × Bytes)}
      (htodo : s.todo = (fd, frame) :: rest) (hlt : s.total_written < frame.length)
      (hanswer : W fd s.writes = .room n) : Steps W s (s.wrote fd frame n)
  | killed {fd : ℕ} {frame : Bytes} {rest : List (ℕ × Bytes)}
      (htodo : s.todo = (fd, frame) :: rest) (hlt : s.total_written < frame.length)
      (hanswer : W fd s.writes = .closed) : Steps W s { s with alive := false }
  | skipped {fd : ℕ} {frame : Bytes} {rest : List (ℕ × Bytes)}
      (htodo : s.todo = (fd, frame) :: rest) (hlt : s.total_written < frame.length)
      (hanswer : W fd s.writes = .failed) : Steps W s s.nextClient
  | complete {fd : ℕ} {frame : Bytes} {rest : List (ℕ × Bytes)}
      (htodo : s.todo = (fd, frame) :: rest) (hle : frame.length ≤ s.total_written) :
      Steps W s s.nextClient
  | unlock (htodo : s.todo = []) (hlocked : s.locked = true) :
      Steps W s { s with locked := false }

section Steps

variable {W : ℕ → ℕ → Answer} {s t : Broadcast} {e : BroadcastEvent} {o : Unit}

/-- Nothing happens after the end of the process. -/
theorem alive_of_step (hstep : step signals s e = some (o, t)) : s.alive = true := by
  cases e with
  | write answer =>
    simp only [step] at hstep
    split at hstep
    · exact (Option.ite_none_right_eq_some.1 hstep).1.1
    · cases hstep
  | leave =>
    simp only [step] at hstep
    split at hstep
    · exact (Option.ite_none_right_eq_some.1 hstep).1.1
    · exact (Option.ite_none_right_eq_some.1 hstep).1.1

/-- A step that is answered goes in one of these ways. -/
theorem steps_of_step (hans : Answers W s e) (hstep : step signals s e = some (o, t)) :
    Steps W s t := by
  cases e with
  | write answer =>
    simp only [step] at hstep
    split at hstep
    next fd frame rest htodo =>
      have hanswer : answer = W fd s.writes := hans (fd, frame) (by rw [htodo]; rfl)
      obtain ⟨h, hstep⟩ := Option.ite_none_right_eq_some.1 hstep
      cases answer with
      | room n =>
        obtain rfl := (Prod.mk.inj (Option.some.inj hstep)).2
        exact .wrote htodo h.2 hanswer.symm
      | closed =>
        have hkill : signals .SIGPIPE = .default := rfl
        simp only [if_pos hkill] at hstep
        obtain rfl := (Prod.mk.inj (Option.some.inj hstep)).2
        exact .killed htodo h.2 hanswer.symm
      | failed =>
        obtain rfl := (Prod.mk.inj (Option.some.inj hstep)).2
        exact .skipped htodo h.2 hanswer.symm
    next => cases hstep
  | leave =>
    simp only [step] at hstep
    split at hstep
    next fd frame rest htodo =>
      split_ifs at hstep with h
      obtain rfl := (Prod.mk.inj (Option.some.inj hstep)).2
      exact .complete htodo h.2
    next htodo =>
      split_ifs at hstep with h
      obtain rfl := (Prod.mk.inj (Option.some.inj hstep)).2
      exact .unlock htodo h.2

/-- The writes to the current client did not fail, and `total_written` is what they took. -/
def AtWrite (W : ℕ → ℕ → Answer) (s : Broadcast) : Prop :=
  ∀ p ∈ s.todo.head?, Open (W p.1) s.writes ∧
    s.total_written = min (accepted (W p.1) s.writes) p.2.length

theorem atWrite_nextClient (s : Broadcast) : AtWrite W s.nextClient :=
  fun _ _ => ⟨Outlet.open_zero _, (Nat.zero_min _).symm⟩

theorem atWrite_wrote {fd n : ℕ} {frame : Bytes} {rest : List (ℕ × Bytes)}
    (h : AtWrite W s) (htodo : s.todo = (fd, frame) :: rest) (hanswer : W fd s.writes = .room n) :
    AtWrite W (s.wrote fd frame n) := by
  intro p hp
  obtain rfl : (fd, frame) = p := by simpa [wrote, htodo] using hp
  obtain ⟨hopen, htotal⟩ := h (fd, frame) (by rw [htodo]; rfl)
  refine ⟨hopen.succ hanswer, ?_⟩
  have hsucc := Outlet.accepted_succ (W fd) s.writes
  rw [hanswer] at hsucc
  simp only [wrote, Answer.bytes] at hsucc htotal ⊢
  omega

/-- A client that is skipped or has its frame was no bad one. -/
theorem settled_of_complete {fd : ℕ} {frame : Bytes} {rest : List (ℕ × Bytes)} (h : AtWrite W s)
    (htodo : s.todo = (fd, frame) :: rest) (hle : frame.length ≤ s.total_written) :
    Settled (W fd) frame.length s.writes := by
  obtain ⟨hopen, htotal⟩ := h (fd, frame) (by rw [htodo]; rfl)
  simp only at htotal
  exact ⟨hopen, .inl (by omega)⟩

theorem settled_of_skipped {fd : ℕ} {frame : Bytes} {rest : List (ℕ × Bytes)} (h : AtWrite W s)
    (htodo : s.todo = (fd, frame) :: rest) (hanswer : W fd s.writes = .failed) :
    Settled (W fd) frame.length s.writes :=
  ⟨(h (fd, frame) (by rw [htodo]; rfl)).1, .inr hanswer⟩

/-- The process has ended, or one of the clients still to come stops the loop or closes. -/
def Stuck (W : ℕ → ℕ → Answer) (s : Broadcast) : Prop :=
  s.alive = false ∨ AtWrite W s ∧
    ∃ p ∈ s.todo, Blocks (W p.1) p.2.length ∨ Closes (W p.1) p.2.length

/-- The next client, after one that was no bad one. -/
theorem stuck_nextClient {fd : ℕ} {frame : Bytes} {rest : List (ℕ × Bytes)}
    (htodo : s.todo = (fd, frame) :: rest) (hsettled : Settled (W fd) frame.length s.writes)
    (hbad : ∃ p ∈ s.todo, Blocks (W p.1) p.2.length ∨ Closes (W p.1) p.2.length) :
    Stuck W s.nextClient := by
  obtain ⟨p, hp, hbad⟩ := hbad
  rw [htodo] at hp
  rcases List.mem_cons.1 hp with rfl | hrest
  · exact absurd hbad (not_or.2 ⟨hsettled.not_blocks, hsettled.not_closes⟩)
  · exact .inr ⟨atWrite_nextClient s, p, by rwa [nextClient, htodo], hbad⟩

/-- Such a client is never passed. -/
theorem stuck_step (h : Stuck W s) (hans : Answers W s e) (hstep : step signals s e = some (o, t)) :
    Stuck W t := by
  obtain ⟨hat, hbad⟩ := h.resolve_left (by rw [alive_of_step hstep]; decide)
  cases steps_of_step hans hstep with
  | wrote htodo hlt hanswer => exact .inr ⟨atWrite_wrote hat htodo hanswer, hbad⟩
  | killed htodo hlt hanswer => exact .inl rfl
  | skipped htodo hlt hanswer =>
    exact stuck_nextClient htodo (settled_of_skipped hat htodo hanswer) hbad
  | complete htodo hle => exact stuck_nextClient htodo (settled_of_complete hat htodo hle) hbad
  | unlock htodo hlocked =>
    obtain ⟨p, hp, -⟩ := hbad
    exact absurd hp (htodo ▸ List.not_mem_nil)

/-- No client is bad, and each that reads and is not to come has its frame. `K` bounds the writes to
a client that the loop needs. -/
structure Sending (W : ℕ → ℕ → Answer) (K : ℕ × Bytes → ℕ) (clients : List (ℕ × Bytes))
    (s : Broadcast) : Prop where
  alive : s.alive = true
  at_write : AtWrite W s
  writes_le : ∀ p ∈ s.todo.head?, s.writes ≤ K p + 1
  sent : ∃ sent, clients = sent ++ s.todo ∧ ∀ p ∈ sent, Reads (W p.1) → s.delivered p.1 = p.2
  current : ∀ p ∈ s.todo.head?, s.delivered p.1 = p.2.take s.total_written
  later : ∀ p ∈ s.todo.tail, s.delivered p.1 = []
  unlocked : s.locked = false → s.todo = []

/-- What is left to do. -/
def work (K : ℕ × Bytes → ℕ) (s : Broadcast) : ℕ :=
  (s.todo.map fun p => K p + 2).sum - s.writes + if s.locked then 1 else 0

variable {K : ℕ × Bytes → ℕ} {clients : List (ℕ × Bytes)} {fd : ℕ} {frame : Bytes}
  {rest : List (ℕ × Bytes)}

/-- The descriptors of the other clients are different. -/
theorem fd_ne {sent : List (ℕ × Bytes)} (hnodup : (clients.map Prod.fst).Nodup)
    (hsplit : clients = sent ++ (fd, frame) :: rest) :
    (∀ p ∈ sent, p.1 ≠ fd) ∧ ∀ p ∈ rest, p.1 ≠ fd := by
  rw [hsplit, List.map_append, List.map_cons] at hnodup
  obtain ⟨-, hcons, hdisjoint⟩ := List.nodup_append.1 hnodup
  constructor
  · exact fun p hp => hdisjoint p.1 (List.mem_map_of_mem hp) fd List.mem_cons_self
  · intro p hp heq
    have hmem : p.1 ∈ rest.map Prod.fst := List.mem_map_of_mem hp
    exact (List.nodup_cons.1 hcons).1 (heq ▸ hmem)

/-- A write that is taken, or for which there is no room. -/
theorem sending_wrote (h : Sending W K clients s) (hnodup : (clients.map Prod.fst).Nodup)
    (hK : ∀ p ∈ clients, Settled (W p.1) p.2.length (K p))
    (htodo : s.todo = (fd, frame) :: rest) (hlt : s.total_written < frame.length) {n : ℕ}
    (hanswer : W fd s.writes = .room n) :
    Sending W K clients (s.wrote fd frame n) ∧ (s.wrote fd frame n).work K < s.work K := by
  obtain ⟨sent, hsplit, hsent⟩ := h.sent
  obtain ⟨hsentNe, hrestNe⟩ := fd_ne hnodup (htodo ▸ hsplit)
  have hhead : (fd, frame) ∈ s.todo.head? := by rw [htodo]; rfl
  have hmem : (fd, frame) ∈ clients := by rw [hsplit, htodo]; simp
  -- The loop has not come to an end before this write.
  obtain ⟨hopen, htotal⟩ := h.at_write _ hhead
  simp only at hopen htotal
  have hle : s.writes ≤ K (fd, frame) := (hK _ hmem).le hopen (by simp only; omega)
  refine ⟨⟨h.alive, atWrite_wrote h.at_write htodo hanswer, fun p hp => ?_,
    ⟨sent, hsplit, fun p hp hreads => ?_⟩, fun p hp => ?_, fun p hp => ?_, h.unlocked⟩, ?_⟩
  · obtain rfl : (fd, frame) = p := by simpa [wrote, htodo] using hp
    exact Nat.succ_le_succ hle
  · rw [wrote_delivered_of_ne (hsentNe p hp)]
    exact hsent p hp hreads
  · obtain rfl : (fd, frame) = p := by simpa [wrote, htodo] using hp
    simp only [wrote, Function.update_self, h.current _ hhead, List.take_add]
  · have hp' : p ∈ s.todo.tail := hp
    rw [wrote_delivered_of_ne (hrestNe p (by rwa [htodo] at hp'))]
    exact h.later p hp
  · simp only [work, wrote, htodo, List.map_cons, List.sum_cons]
    omega

/-- The next client. -/
theorem sending_nextClient (h : Sending W K clients s) (htodo : s.todo = (fd, frame) :: rest)
    (hdone : Reads (W fd) → frame.length ≤ s.total_written) :
    Sending W K clients s.nextClient ∧ s.nextClient.work K < s.work K := by
  obtain ⟨sent, hsplit, hsent⟩ := h.sent
  have hhead : (fd, frame) ∈ s.todo.head? := by rw [htodo]; rfl
  have hle := h.writes_le _ hhead
  refine ⟨⟨h.alive, atWrite_nextClient s, fun p _ => Nat.zero_le _,
    ⟨sent ++ [(fd, frame)], ?_, fun p hp hreads => ?_⟩, fun p hp => ?_, fun p hp => ?_,
    fun hunlocked => ?_⟩, ?_⟩
  · rw [hsplit, nextClient, htodo]
    simp
  · rcases List.mem_append.1 hp with hp | hp
    · exact hsent p hp hreads
    · -- A client that reads has all of its frame.
      obtain rfl := List.mem_singleton.1 hp
      rw [nextClient, h.current _ hhead]
      exact List.take_of_length_le (hdone hreads)
  · exact h.later p (List.mem_of_mem_head? hp)
  · exact h.later p (List.mem_of_mem_tail hp)
  · rw [nextClient, h.unlocked hunlocked]
    rfl
  · simp only [work, nextClient, htodo, List.map_cons, List.sum_cons, List.tail_cons]
    omega

/-- Where no client is bad, a step makes progress and keeps it so. -/
theorem sending_step (hnodup : (clients.map Prod.fst).Nodup)
    (hK : ∀ p ∈ clients, Settled (W p.1) p.2.length (K p)) (h : Sending W K clients s)
    (hans : Answers W s e) (hstep : step signals s e = some (o, t)) :
    Sending W K clients t ∧ t.work K < s.work K := by
  cases steps_of_step hans hstep with
  | wrote htodo hlt hanswer => exact sending_wrote h hnodup hK htodo hlt hanswer
  | @killed fd frame rest htodo hlt hanswer =>
    -- A client that closes is a bad one.
    obtain ⟨sent, hsplit, -⟩ := h.sent
    have hmem : (fd, frame) ∈ clients := by rw [hsplit, htodo]; simp
    obtain ⟨hopen, htotal⟩ := h.at_write (fd, frame) (by rw [htodo]; rfl)
    simp only at hopen htotal
    exact absurd ⟨s.writes, hopen, by simp only; omega, hanswer⟩ (hK _ hmem).not_closes
  | skipped htodo hlt hanswer =>
    refine sending_nextClient h htodo fun hreads => ?_
    obtain ⟨n, hn⟩ := hreads.1 s.writes
    exact Answer.noConfusion (hn.symm.trans hanswer)
  | complete htodo hle => exact sending_nextClient h htodo fun _ => hle
  | unlock htodo hlocked =>
    refine ⟨⟨h.alive, h.at_write, h.writes_le, h.sent, h.current, h.later, fun _ => htodo⟩, ?_⟩
    simp [work, htodo, hlocked]

/-- Until it has returned the broadcast has a next step. -/
theorem sending_next {msgs : List (ℕ × Message)}
    (h : Sending W K (msgs.map fun m => (m.1, m.2.frame)) s) :
    Succeeded W msgs s ∨ ∃ e o t, Answers W s e ∧ step signals s e = some (o, t) := by
  cases htodo : s.todo with
  | nil =>
    cases hlocked : s.locked with
    | true =>
      refine .inr ⟨.leave, (), { s with locked := false }, trivial, ?_⟩
      simp only [step, htodo]
      rw [if_pos ⟨h.alive, hlocked⟩]
    | false =>
      obtain ⟨sent, hsplit, hsent⟩ := h.sent
      rw [htodo, List.append_nil] at hsplit
      refine .inl ⟨htodo, hlocked, h.alive, fun m hm hreads => ?_⟩
      exact hsent (m.1, m.2.frame) (hsplit ▸ List.mem_map_of_mem hm) hreads
  | cons p rest =>
    obtain ⟨fd, frame⟩ := p
    right
    rcases lt_or_ge s.total_written frame.length with hlt | hle
    · have hans : Answers W s (.write (W fd s.writes)) := by
        intro p hp
        obtain rfl : (fd, frame) = p := by simpa [htodo] using hp
        rfl
      have hsome : ∃ t, step signals s (.write (W fd s.writes)) = some ((), t) := by
        simp only [step, htodo]
        rw [if_pos ⟨h.alive, hlt⟩]
        cases W fd s.writes with
        | room n => exact ⟨_, rfl⟩
        | closed => exact ⟨_, if_pos rfl⟩
        | failed => exact ⟨_, rfl⟩
      obtain ⟨t, ht⟩ := hsome
      exact ⟨_, (), t, hans, ht⟩
    · refine ⟨.leave, (), s.nextClient, trivial, ?_⟩
      simp only [step, htodo]
      rw [if_pos ⟨h.alive, hle⟩]

/-- At the first client nobody has anything. -/
theorem sending_start (W : ℕ → ℕ → Answer) (K : ℕ × Bytes → ℕ) (msgs : List (ℕ × Message)) :
    Sending W K (msgs.map fun m => (m.1, m.2.frame)) (start msgs) where
  alive := rfl
  at_write := fun _ _ => ⟨Outlet.open_zero _, (Nat.zero_min _).symm⟩
  writes_le := fun _ _ => Nat.zero_le _
  sent := ⟨[], rfl, fun _ hp => absurd hp List.not_mem_nil⟩
  current := fun _ _ => rfl
  later := fun _ _ => rfl
  unlocked := fun h => (nomatch h)

/-- One such client is enough for a broadcast to fail. -/
theorem not_succeeds_of_bad {msgs : List (ℕ × Message)} {m : ℕ × Message} (hm : m ∈ msgs)
    (hbad : Blocks (W m.1) m.2.frame.length ∨ Closes (W m.1) m.2.frame.length) :
    ¬ Machine.Reaches (step signals) (Answers W) (Succeeded W msgs) (start msgs) := by
  have hstuck : Stuck W (start msgs) := .inr ⟨(sending_start W (fun _ => 0) msgs).at_write,
    (m.1, m.2.frame), List.mem_map_of_mem hm, hbad⟩
  refine Machine.not_reaches (fun _ _ _ _ => stuck_step) (fun s hs hok => ?_) hstuck
  rcases hs with hdead | ⟨-, p, hp, -⟩
  · exact Bool.noConfusion (hdead.symm.trans hok.alive)
  · exact absurd hp (hok.returned ▸ List.not_mem_nil)

/-- A broadcast returns, with the mutex released and the process going on, and has written the whole
frame to every client that reads, exactly when no client stops taking bytes and none has closed
while a part of its frame is to be written. This is so for every table, every order of its clients
and whatever the sockets answer. -/
theorem broadcast_succeeds_iff {cmd : Command} {fraction : ℚ} {r : ClientRegistry}
    {msgs cmds : List (ℕ × Message)} (hcmds : r.commands cmd fraction = some cmds)
    (horder : msgs.Perm cmds) (W : ℕ → ℕ → Answer) :
    Machine.Reaches (step signals) (Answers W) (Succeeded W msgs) (start msgs) ↔
      ∀ m ∈ msgs, ¬ Blocks (W m.1) m.2.frame.length ∧ ¬ Closes (W m.1) m.2.frame.length := by
  constructor
  · intro hreaches m hm
    exact not_or.1 fun hbad => not_succeeds_of_bad hm hbad hreaches
  · intro hgood
    have hsettled : ∀ p : ℕ × Bytes, ∃ k, p ∈ msgs.map (fun m => (m.1, m.2.frame)) →
        Settled (W p.1) p.2.length k := by
      intro p
      by_cases hp : p ∈ msgs.map fun m => (m.1, m.2.frame)
      · obtain ⟨m, hm, rfl⟩ := List.mem_map.1 hp
        obtain ⟨k, hk⟩ := Outlet.exists_settled_iff.2 (hgood m hm)
        exact ⟨k, fun _ => hk⟩
      · exact ⟨0, fun h => absurd h hp⟩
    choose K hK using hsettled
    have hnodup : ((msgs.map fun m => (m.1, m.2.frame)).map Prod.fst).Nodup := by
      have hkeys : (cmds.map Prod.fst).Nodup := by
        rw [(ClientRegistry.commands_spec hcmds).1]
        exact r.clients.keys_nodup
      rw [List.map_map]
      exact ((horder.map Prod.fst).nodup_iff).2 hkeys
    exact Machine.reaches_of_measure (work K) (fun _ _ _ _ => sending_step hnodup hK)
      (fun _ => sending_next) (sending_start W K msgs)

/-- Two clients, and the messages of a SHRINK to them. -/
def twoClients : ClientRegistry := (({} : ClientRegistry).addClient 5).addClient 6

def twoMessages : List (ℕ × Message) := [(6, { type := .SHRINK }), (5, { type := .SHRINK })]

/-- Both clients read. -/
def bothRead : ℕ → ℕ → Answer := fun _ _ => .room 10

/-- The client at descriptor 5 does not read. -/
def oneStalls : ℕ → ℕ → Answer := fun fd _ => if fd = 5 then .room 0 else .room 10

/-- The client at descriptor 5 has closed. -/
def oneCloses : ℕ → ℕ → Answer := fun fd _ => if fd = 5 then .closed else .room 10

/-- The broadcast to both succeeds, in the other order too. -/
theorem broadcast_succeeds_twoClients :
    Machine.Reaches (step signals) (Answers bothRead) (Succeeded bothRead twoMessages.reverse)
      (start twoMessages.reverse) := by
  have hcmds : twoClients.commands .shrink (1 / 4) = some twoMessages := by decide +kernel
  refine (broadcast_succeeds_iff hcmds (List.reverse_perm _) bothRead).2 fun m _ => ?_
  exact (Outlet.reads_const (by decide)).not_stops

/-- A client that stops reading, or has closed, is enough to make it fail while the other one
reads. -/
theorem broadcast_fails_twoClients :
    twoClients.commands .shrink (1 / 4) = some twoMessages ∧
      Reads (oneStalls 6) ∧ Reads (oneCloses 6) ∧
      ¬ Machine.Reaches (step signals) (Answers oneStalls) (Succeeded oneStalls twoMessages)
        (start twoMessages) ∧
      ¬ Machine.Reaches (step signals) (Answers oneCloses) (Succeeded oneCloses twoMessages)
        (start twoMessages) := by
  have hmem : (5, { type := .SHRINK }) ∈ twoMessages := by decide
  have hpos : 0 < (Message.frame { type := .SHRINK }).length := by decide +kernel
  have hreads : Reads fun _ => .room 10 := Outlet.reads_const (by decide)
  refine ⟨by decide +kernel, hreads, hreads, not_succeeds_of_bad hmem (.inl ?_),
    not_succeeds_of_bad hmem (.inr ?_)⟩
  · exact ⟨0, Outlet.open_zero _, hpos, fun _ _ => rfl⟩
  · exact ⟨0, Outlet.open_zero _, hpos, rfl⟩

end Steps

end Broadcast

end MemoryGovernor
