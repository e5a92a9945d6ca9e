import Mathlib.Algebra.Order.BigOperators.Group.Finset
import MemoryGovernor.Registry.Returning
import MemoryGovernor.Registry.Wakeups

/-!
# The event loop comes to rest

Once the clients stop sending, the thread of the loop has done all there is to do after finitely
many steps, and the table then says of every client that is still connected what that client told
last. Three facts carry this. The reader of each connection has followed its frames (`Tracks`), as
it does where each length is read in one piece. Every connection that was accepted and not closed is
open (`Present`). And each step of the thread lowers what is left to do (`work`), where a call of
`handle_client_message` would go on for good only in a frame that is not all there.

That the thread can take its next step is said of a registry whose mutex is free whenever the thread
asks for it. A broadcast that does not return holds it for good (`Registry/Broadcast.lean`). And
`accept` fails only where no connection waits: where it fails otherwise, as for want of descriptors,
the thread comes back to the same event at once, or leaves the connection unserved.
-/

namespace MemoryGovernor

open Framing (Position InStep)
open ClientRegistry (replay toldSize lookup_addClient lookup_removeClient)

/-- Where in `handle_client_message` the thread is, if it is there. -/
def EpollControl.position : EpollControl → Option Position
  | .reading _ _ position => some position
  | .loop | .accepting => none

/-- Where the thread is in a handler there is a step more to do. -/
def EpollControl.steps : EpollControl → ℕ
  | .loop => 0
  | .accepting | .reading _ _ _ => 1

namespace Epoll

/-- Where the reader of a connection is. -/
def positionOf (s : Epoll) (c : ConnId) : Position :=
  match s.control with
  | .reading source _ position => if source = .conn c then position else .header
  | _ => .header

/-- The connection's entry is made of the first messages that it has sent or will send, and its
reader is in step with the frames of the others. -/
def Follows (s : Epoll) (c : ConnId) (fd : ℕ) : Prop :=
  ∀ (msgs : List Message) (future : Bytes), s.sent c ++ future = msgs.flatMap Message.frame →
    ∃ handled todo, msgs = handled ++ todo ∧
      s.registry.clients.lookup fd = some (replay fd handled) ∧
      InStep (s.positionOf c) (s.inbox c ++ future) (todo.map Message.toPayload)

/-- The readers of the open connections have followed their frames. -/
def Tracks (s : Epoll) : Prop := ∀ c fd, s.descriptor c = some fd → s.Follows c fd

/-- Every connection that was accepted and that its client has not closed is open. -/
def Present (s : Epoll) : Prop :=
  ∀ c < s.accepted, s.peer c = .connected → ∃ fd, s.descriptor c = some fd

/-- A length is read in one piece. -/
def WholeRead (s : Epoll) : EpollLabel → Prop
  | .read (.data n) => s.control.position = some .header → n = 4
  | _ => True

/-- `accept` does not fail, and what it returns is added. -/
def Added : EpollLabel → Prop
  | .accept (.unwatched _) | .accept .failed => False
  | _ => True

/-- A step of the thread, where a wait is not one that only times out. -/
def ByThread (s : Epoll) : EpollLabel → Prop
  | .connect | .arrive _ _ | .hangup _ _ => False
  | .wait => s.watch.ready ≠ []
  | _ => True

/-- A step of the thread with the results that it gets where nothing fails. -/
def Own (s : Epoll) (e : EpollLabel) : Prop := s.ByThread e ∧ s.WholeRead e ∧ Added e

instance (s : Epoll) : ∀ e, Decidable (s.WholeRead e)
  | .read (.data n) => inferInstanceAs (Decidable (s.control.position = some .header → n = 4))
  | .read .wakeup | .read .again | .read .closed => isTrue trivial
  | .connect | .arrive _ _ | .hangup _ _ | .wait | .next | .acceptAgain | .accept _ =>
    isTrue trivial

instance : ∀ e, Decidable (Added e)
  | .accept (.unwatched _) | .accept .failed => isFalse not_false
  | .accept (.watched _) => isTrue trivial
  | .connect | .arrive _ _ | .hangup _ _ | .wait | .next | .acceptAgain | .read _ => isTrue trivial

instance (s : Epoll) : ∀ e, Decidable (s.ByThread e)
  | .connect | .arrive _ _ | .hangup _ _ => isFalse not_false
  | .wait => inferInstanceAs (Decidable (s.watch.ready ≠ []))
  | .next | .acceptAgain | .accept _ | .read _ => isTrue trivial

instance (s : Epoll) (e : EpollLabel) : Decidable (s.Own e) := inferInstanceAs (Decidable (_ ∧ _))

/-- The loop waits, and nothing is on the kernel's list. -/
def Rest (s : Epoll) : Prop :=
  s.control = .loop ∧ s.watch.reported = [] ∧ s.watch.ready = []

section Follows

variable {s t : Epoll} {c : ConnId} {fd client_fd : ℕ}

/-- What a connection's entry and reader depend on. -/
theorem Follows.congr (h : s.Follows c fd) (hsent : t.sent c = s.sent c)
    (hlook : t.registry.clients.lookup fd = s.registry.clients.lookup fd)
    (hpos : t.positionOf c = s.positionOf c) (hinbox : t.inbox c = s.inbox c) : t.Follows c fd := by
  intro msgs future hmsgs
  obtain ⟨handled, todo, hall, hentry, hin⟩ := h msgs future (hsent ▸ hmsgs)
  exact ⟨handled, todo, hall, hlook.trans hentry, by rwa [hpos, hinbox]⟩

/-- More has come: what was still to come is less. -/
theorem Follows.arrive (h : s.Follows c fd) {bytes : Bytes} (hsent : t.sent c = s.sent c ++ bytes)
    (hlook : t.registry.clients.lookup fd = s.registry.clients.lookup fd)
    (hpos : t.positionOf c = s.positionOf c) (hinbox : t.inbox c = s.inbox c ++ bytes) :
    t.Follows c fd := by
  intro msgs future hmsgs
  rw [hsent, List.append_assoc] at hmsgs
  obtain ⟨handled, todo, hall, hentry, hin⟩ := h msgs (bytes ++ future) hmsgs
  refine ⟨handled, todo, hall, hlook.trans hentry, ?_⟩
  rwa [hpos, hinbox, List.append_assoc]

/-- A new connection: nothing was read. -/
theorem follows_new (hunread : s.inbox c = s.sent c) (hpos : s.positionOf c = .header)
    (hlook : s.registry.clients.lookup fd = some (replay fd [])) : s.Follows c fd := by
  intro msgs future hmsgs
  refine ⟨[], msgs, rfl, hlook, ?_⟩
  rw [hpos, hunread, hmsgs, ← Message.stream_toPayload]
  exact InStep.header _

/-- The condition of the inner loop does not look at what is still to come. -/
theorem readPayload_append (r : Reader) (future : Bytes) (msg_len : ℕ) (got : Bytes) :
    { r with pending := r.pending ++ future }.readPayload client_fd msg_len got =
      { r.readPayload client_fd msg_len got with
        pending := (r.readPayload client_fd msg_len got).pending ++ future } := by
  unfold Reader.readPayload Reader.handlePayload
  split_ifs
  · rfl
  · cases Message.deserialize got with
    | ok msg => rfl
    | error err => rfl

/-- A `read` takes what is there, whatever comes after it. -/
theorem readStep_append {r r' : Reader} {e : ReadEvent} {o : Unit} (future : Bytes)
    (h : Reader.step client_fd r e = some (o, r')) :
    Reader.step client_fd { r with pending := r.pending ++ future } e =
      some (o, { r' with pending := r'.pending ++ future }) := by
  cases Reader.steps_of_step client_fd h with
  | wakeup hpos => simp only [Reader.step, hpos, if_true]
  | @short n hpos h1 h4 hn =>
    simp only [Reader.step, hpos]
    rw [if_pos ⟨h1, h4.le, hn.trans (by simp)⟩, if_pos h4, List.drop_append_of_le_length hn]
  | length hpos h4 =>
    have h4' : 4 ≤ (r.pending ++ future).length := h4.trans (by simp)
    rw [Reader.step_length (s := { r with pending := r.pending ++ future }) client_fd hpos h4']
    simp only [List.take_append_of_le_length h4, List.drop_append_of_le_length h4]
    exact congrArg (fun u => some ((), u))
      (readPayload_append { r with pending := r.pending.drop 4 } future _ _)
  | @part n msg_len got hpos h1 hlen hn =>
    have hn' : n ≤ (r.pending ++ future).length := hn.trans (by simp)
    rw [Reader.step_part (s := { r with pending := r.pending ++ future }) client_fd hpos h1 hlen
      hn']
    simp only [List.take_append_of_le_length hn, List.drop_append_of_le_length hn]
    exact congrArg (fun u => some ((), u))
      (readPayload_append { r with pending := r.pending.drop n } future _ _)
  | leave hpos => simp only [Reader.step, hpos]
  | retry hpos => simp only [Reader.step, hpos]
  | closed hpos =>
    obtain ⟨position, hsome⟩ := Option.ne_none_iff_exists'.1 hpos
    simp only [Reader.step, hsome]

/-- What a `read` of the connection keeps. -/
theorem Follows.read {e : ReadEvent} {r : Reader} (h : s.Follows c client_fd) (position : Position)
    (hpos : s.positionOf c = position) (hclosed : e ≠ .closed)
    (hwhole : Reader.WholeLength ⟨s.registry, some position, s.inbox c⟩ e)
    (hread : Reader.step client_fd ⟨s.registry, some position, s.inbox c⟩ e = some ((), r))
    (hsent : t.sent c = s.sent c) (hreg : t.registry = r.registry)
    (hpos' : t.positionOf c = r.position.getD .header) (hinbox : t.inbox c = r.pending) :
    t.Follows c client_fd := by
  intro msgs future hmsgs
  obtain ⟨handled, todo, rfl, hentry, hin⟩ := h msgs future (hsent ▸ hmsgs)
  have hfollows : @Reader.Follows client_fd s.registry [] todo
      ⟨s.registry, some position, s.inbox c ++ future⟩ := ⟨rfl, hpos ▸ hin⟩
  obtain ⟨handled', todo', rfl, hreg', hin'⟩ :=
    Reader.follows_step hfollows (by cases e <;> exact hwhole) hclosed
      (readStep_append future hread)
  refine ⟨handled ++ handled', todo', (List.append_assoc _ _ _).symm, ?_, ?_⟩
  · have hlook := Reader.lookup_handleMessages client_fd client_fd s.registry handled'
    rw [← hreg', if_pos rfl, hentry, Option.map_some] at hlook
    rw [hreg, hlook, replay, replay, List.foldl_append]
  · rw [hpos', hinbox]
    exact hin'

/-- Two open connections have two numbers. -/
theorem TableSound.fd_ne (h : s.TableSound) {c' : ConnId} {fd' : ℕ} (hd : s.descriptor c = some fd)
    (hd' : s.descriptor c' = some fd') (hne : c' ≠ c) : fd' ≠ fd := by
  rintro rfl
  exact hne (Option.some.inj (((h.inverse fd' c').2 hd').symm.trans ((h.inverse fd' c).2 hd)))

/-- A connection that is removed takes its own entry with it and no other. -/
theorem tracks_removeClient (hs : s.TableSound) (hd : s.descriptor c = some client_fd)
    (htracks : s.Tracks) (control : EpollControl)
    (hpos : ∀ c', c' ≠ c → positionOf { s with control := control } c' = s.positionOf c') :
    Tracks { s.removeClient client_fd with control := control } := by
  rw [removeClient_eq hs hd]
  intro c' fd' hd'
  simp only [Function.update_apply] at hd'
  split_ifs at hd' with hne
  refine (htracks c' fd' hd').congr rfl ?_ (hpos c' hne) rfl
  exact lookup_removeClient.trans (if_neg (hs.fd_ne hd hd' hne))

/-- A new connection has a new entry, and nothing of it was read. -/
theorem tracks_addConnection (hs : s.TableSound) (hcontrol : s.control = .accepting)
    (hfree : s.fds client_fd = none) (htracks : s.Tracks) :
    (s.addConnection client_fd).Tracks := by
  intro c fd hd
  simp only [addConnection, Function.update_apply] at hd
  split_ifs at hd with heq
  · obtain rfl := Option.some.inj hd
    refine follows_new (hs.unread c heq.ge) ?_ (lookup_addClient.trans (if_pos rfl))
    simp only [positionOf, addConnection, hcontrol]
  · refine (htracks c fd hd).congr rfl (lookup_addClient.trans (if_neg ?_)) rfl rfl
    rintro rfl
    rw [(hs.inverse fd c).2 hd] at hfree
    cases hfree

/-- The readers go on following. -/
theorem tracks_step {e : EpollLabel} {o : Unit} (h : s.Sound) (hs : s.Tracks)
    (hwhole : s.WholeRead e) (hstep : s.step e = some (o, t)) : t.Tracks := by
  obtain ⟨hat, hctl⟩ := h
  cases steps_of_step hstep with
  | connect => exact fun c fd hd => (hs c fd hd).congr rfl rfl rfl rfl
  | @arrive c₀ bytes hc hpeer hbytes =>
    rw [wakeConn_eq]
    intro c fd hd
    by_cases heq : c = c₀
    · subst heq
      exact (hs c fd hd).arrive (Function.update_self _ _ _) rfl rfl (Function.update_self _ _ _)
    · exact (hs c fd hd).congr (Function.update_of_ne heq _ _) rfl rfl
        (Function.update_of_ne heq _ _)
  | hangup hc hpeer =>
    rw [wakeConn_eq]
    exact fun c fd hd => (hs c fd hd).congr rfl rfl rfl rfl
  | wait => exact fun c fd hd => (hs c fd hd).congr rfl rfl rfl rfl
  | nextListen hcontrol hreported hfd =>
    exact fun c fd hd => (hs c fd hd).congr rfl rfl (by simp only [positionOf, hcontrol]) rfl
  | @nextRemove source report rs fd hcontrol hreported hfd hflags =>
    rw [hcontrol] at hat
    obtain ⟨hnext, hof⟩ := hat.next hreported
    cases source with
    | listen => exact absurd (hfd.symm.trans hof) (Option.some_ne_none _)
    | conn c =>
      obtain ⟨fd', hsome, hd, -⟩ := hof
      obtain rfl := Option.some.inj (hfd.symm.trans hsome)
      have htracks : Tracks { s with watch := s.watch.tail } := fun c fd hd =>
        (hs c fd hd).congr rfl rfl rfl rfl
      have hremoved := tracks_removeClient hnext.toTableSound hd htracks s.control fun _ _ => rfl
      rw [removeClient_eq hnext.toTableSound hd] at hremoved ⊢
      exact hremoved
  | nextRead hcontrol hreported hfd hflags =>
    exact fun c fd hd => (hs c fd hd).congr rfl rfl (by simp [positionOf, hcontrol]) rfl
  | acceptAgain hcontrol hnone =>
    exact fun c fd hd => (hs c fd hd).congr rfl rfl (by simp only [positionOf, hcontrol]) rfl
  | @accept result t hcontrol haccept =>
    cases result with
    | watched client_fd =>
      obtain ⟨-, hfree, rfl⟩ := acceptOne_watched haccept
      have hnew := tracks_addConnection hat.toTableSound hcontrol hfree hs
      exact fun c fd hd => (hnew c fd hd).congr rfl rfl rfl rfl
    | unwatched client_fd =>
      simp only [acceptOne] at haccept
      split_ifs at haccept
      obtain rfl := Option.some.inj haccept
      exact fun c fd hd => (hs c fd hd).congr rfl rfl rfl rfl
    | failed =>
      obtain rfl := Option.some.inj haccept
      exact hs
  | @readClosed source fd position hcontrol hclosed =>
    simp only [ControlSound, hcontrol] at hctl
    obtain ⟨c, rfl, hd⟩ := hctl
    refine tracks_removeClient hat.toTableSound hd hs .loop fun c' hne => ?_
    have hsource : Source.conn c ≠ .conn c' := fun heq => hne (Source.conn.inj heq).symm
    simp only [positionOf, hcontrol, if_neg hsource]
  | @read source fd position c e r hcontrol hfd hclosed hagain hread =>
    simp only [ControlSound, hcontrol] at hctl
    obtain ⟨c₀, rfl, hd⟩ := hctl
    obtain rfl : c₀ = c := Option.some.inj (((hat.inverse fd c₀).2 hd).symm.trans hfd)
    obtain ⟨htouches, -⟩ := readStep_facts hclosed (Option.some_ne_none _) hread
    intro c' fd' hd'
    by_cases hne : c' = c₀
    · subst hne
      obtain rfl : fd' = fd := Option.some.inj (hd'.symm.trans hd)
      refine (hs c' fd' hd).read position ?_ hclosed ?_ hread rfl rfl ?_
        (Function.update_self _ _ _)
      · simp only [positionOf, hcontrol, if_true]
      · cases e with
        | data n =>
          simp only [WholeRead, hcontrol, EpollControl.position] at hwhole
          exact hwhole
        | _ => trivial
      · cases hpos : r.position with
        | none => simp only [positionOf, Option.getD_none]
        | some position' => simp only [positionOf, if_true, Option.getD_some]
    · refine (hs c' fd' hd').congr rfl (htouches.2 fd' (hat.toTableSound.fd_ne hd hd' hne)) ?_
        (Function.update_of_ne hne _ _)
      have hsource : Source.conn c₀ ≠ .conn c' := fun heq => hne (Source.conn.inj heq).symm
      cases hpos : r.position with
      | none => simp only [positionOf, hcontrol, if_neg hsource]
      | some position' => simp only [positionOf, hcontrol, if_neg hsource]

theorem accepted_removeClient (s : Epoll) (client_fd : ℕ) :
    (s.removeClient client_fd).accepted = s.accepted := by
  unfold removeClient closeDescriptor
  split
  · rfl
  · dsimp only
    split <;> rfl

/-- Every connection that is accepted is added, and open until its client closes it. -/
theorem present_step {e : EpollLabel} {o : Unit} (h : s.Sound) (hs : s.Present) (hadded : Added e)
    (hstep : s.step e = some (o, t)) : t.Present := by
  intro c hlt hpeer
  obtain ⟨hpeer', hopen⟩ := open_step h hstep hpeer
  have hold : c < s.accepted → ∃ fd, t.descriptor c = some fd := by
    intro hlt
    obtain ⟨fd, hd⟩ := hs c hlt hpeer'
    exact ⟨fd, hopen fd hd⟩
  cases steps_of_step hstep with
  | connect => exact hold hlt
  | arrive => exact hold (by rwa [wakeConn_eq] at hlt)
  | hangup => exact hold (by rwa [wakeConn_eq] at hlt)
  | wait => exact hold hlt
  | nextListen => exact hold hlt
  | nextRemove => exact hold (by rwa [accepted_removeClient] at hlt)
  | nextRead => exact hold hlt
  | acceptAgain => exact hold hlt
  | @accept result t hcontrol haccept =>
    cases result with
    | watched fd =>
      obtain ⟨-, -, rfl⟩ := acceptOne_watched haccept
      rcases (Nat.lt_succ_iff.1 hlt).lt_or_eq with hlt' | rfl
      · exact hold hlt'
      · exact ⟨fd, Function.update_self _ _ _⟩
    | unwatched fd => exact hadded.elim
    | failed => exact hadded.elim
  | readClosed => exact hold (by simpa only [accepted_removeClient] using hlt)
  | read => exact hold hlt

end Follows

/-! ## What is left to do -/

/-- The bytes that have come and were not read. -/
def unread (s : Epoll) : ℕ := ∑ c ∈ Finset.range s.connected, (s.inbox c).length

/-- What is left to do. A connection that waits to be accepted may have to be listed too. -/
def work (s : Epoll) : ℕ :=
  4 * (s.connected - s.accepted) + s.unread + s.watch.load + s.control.steps

/-- What the clients have sent are these messages, each of them to the end, and the loop has dealt
with them as it should so far. -/
structure Settling (msgs : ConnId → List Message) (s : Epoll) : Prop where
  sound : s.Sound
  tracks : s.Tracks
  present : s.Present
  sent : ∀ c, s.sent c = (msgs c).flatMap Message.frame

section Settling

variable {s t : Epoll} {msgs : ConnId → List Message} {c : ConnId} {fd : ℕ}

/-- An open connection's reader has the frames of some messages before it. -/
theorem Settling.inStep (h : Settling msgs s) (hd : s.descriptor c = some fd) :
    ∃ handled todo, msgs c = handled ++ todo ∧
      s.registry.clients.lookup fd = some (replay fd handled) ∧
      InStep (s.positionOf c) (s.inbox c) (todo.map Message.toPayload) := by
  obtain ⟨handled, todo, hall, hentry, hin⟩ :=
    h.tracks c fd hd (msgs c) [] (by rw [List.append_nil, h.sent])
  exact ⟨handled, todo, hall, hentry, by rwa [List.append_nil] at hin⟩

/-- What is read of an open connection is no longer to be read. -/
theorem unread_lt (inbox : ConnId → Bytes) (hc : c < s.connected)
    (hother : ∀ c', c' ≠ c → inbox c' = s.inbox c') (hlt : (inbox c).length < (s.inbox c).length) :
    (∑ c ∈ Finset.range s.connected, (inbox c).length) < s.unread := by
  refine Finset.sum_lt_sum (fun c' _ => ?_) ⟨c, Finset.mem_range.2 hc, hlt⟩
  by_cases heq : c' = c
  · exact heq ▸ hlt.le
  · rw [hother c' heq]

/-- A `read` that returns bytes leaves fewer, and the handler goes on. -/
theorem readStep_data {r r' : Reader} {n : ℕ} {o : Unit} {client_fd : ℕ}
    (h : Reader.step client_fd r (.data n) = some (o, r')) :
    r'.pending.length < r.pending.length ∧ r'.position ≠ none := by
  cases Reader.steps_of_step client_fd h with
  | short hpos h1 h4 hn =>
    rw [List.length_drop]
    exact ⟨by omega, by rw [hpos]; exact Option.some_ne_none _⟩
  | length hpos h4 =>
    obtain ⟨hpending, hor⟩ := Reader.readPayload_cases client_fd
      { r with pending := r.pending.drop 4 } (Framing.readBe32 (r.pending.take 4)) []
    rw [hpending, List.length_drop]
    refine ⟨by omega, ?_⟩
    rcases hor with ⟨hpos, -⟩ | ⟨hpos, -⟩ <;> (rw [hpos]; exact Option.some_ne_none _)
  | @part n msg_len got hpos h1 hlen hn =>
    obtain ⟨hpending, hor⟩ := Reader.readPayload_cases client_fd
      { r with pending := r.pending.drop n } msg_len (got ++ r.pending.take n)
    rw [hpending, List.length_drop]
    refine ⟨by omega, ?_⟩
    rcases hor with ⟨hpos, -⟩ | ⟨hpos, -⟩ <;> (rw [hpos]; exact Option.some_ne_none _)

/-- The first report is one less to look at. -/
theorem load_tail {r : Source × EpollReport} {rs : List (Source × EpollReport)}
    (h : s.watch.reported = r :: rs) : s.watch.tail.load + 2 = s.watch.load := by
  simp only [Watch.load, Watch.tail, h, List.tail_cons, List.length_cons]
  omega

/-- The clients send nothing while the thread goes on. -/
theorem sent_step {e : EpollLabel} {o : Unit} (hby : s.ByThread e)
    (hstep : s.step e = some (o, t)) :
    t.sent = s.sent ∧ t.connected = s.connected ∧ t.peer = s.peer := by
  have hremove : ∀ (u : Epoll) (fd : ℕ), (u.removeClient fd).sent = u.sent ∧
      (u.removeClient fd).connected = u.connected ∧ (u.removeClient fd).peer = u.peer := by
    intro u fd
    unfold removeClient closeDescriptor
    split
    · exact ⟨rfl, rfl, rfl⟩
    · dsimp only
      split <;> exact ⟨rfl, rfl, rfl⟩
  cases steps_of_step hstep with
  | connect => exact hby.elim
  | arrive => exact hby.elim
  | hangup => exact hby.elim
  | wait => exact ⟨rfl, rfl, rfl⟩
  | nextListen => exact ⟨rfl, rfl, rfl⟩
  | nextRemove => exact hremove _ _
  | nextRead => exact ⟨rfl, rfl, rfl⟩
  | acceptAgain => exact ⟨rfl, rfl, rfl⟩
  | @accept result t hcontrol haccept =>
    cases result with
    | watched fd =>
      obtain ⟨-, -, rfl⟩ := acceptOne_watched haccept
      exact ⟨rfl, rfl, rfl⟩
    | unwatched fd =>
      simp only [acceptOne] at haccept
      split_ifs at haccept
      obtain rfl := Option.some.inj haccept
      exact ⟨rfl, rfl, rfl⟩
    | failed =>
      obtain rfl := Option.some.inj haccept
      exact ⟨rfl, rfl, rfl⟩
  | @readClosed source fd position hcontrol hclosed => exact hremove s fd
  | read => exact ⟨rfl, rfl, rfl⟩

/-- A step of the thread lowers what is left to do. -/
theorem work_lt {e : EpollLabel} {o : Unit} (h : Settling msgs s) (hown : s.Own e)
    (hstep : s.step e = some (o, t)) : t.work < s.work := by
  obtain ⟨hby, -, hadded⟩ := hown
  have hat := h.sound.at_source
  cases steps_of_step hstep with
  | connect => exact hby.elim
  | arrive => exact hby.elim
  | hangup => exact hby.elim
  | wait hcontrol hreported =>
    have hlt : (s.watch.report MAX_EVENTS s.flags).load < s.watch.load :=
      Watch.load_report_lt (by decide) hby hreported
    simp only [work, unread]
    omega
  | nextListen hcontrol hreported hfd =>
    have hload := load_tail hreported
    simp only [work, unread, hcontrol, EpollControl.steps]
    omega
  | @nextRemove source report rs fd hcontrol hreported hfd hflags =>
    rw [hcontrol] at hat
    obtain ⟨hnext, hof⟩ := hat.next hreported
    cases source with
    | listen => exact absurd (hfd.symm.trans hof) (Option.some_ne_none _)
    | conn c =>
      obtain ⟨fd', hsome, hd, -⟩ := hof
      obtain rfl := Option.some.inj (hfd.symm.trans hsome)
      rw [removeClient_eq hnext.toTableSound hd]
      have hload := load_tail hreported
      have hforget := s.watch.tail.load_forget_le (.conn c)
      simp only [work, unread]
      omega
  | nextRead hcontrol hreported hfd hflags =>
    have hload := load_tail hreported
    simp only [work, unread, hcontrol, EpollControl.steps]
    omega
  | acceptAgain hcontrol hnone =>
    simp only [work, unread, hcontrol, EpollControl.steps]
    omega
  | @accept result t hcontrol haccept =>
    obtain ⟨fd, rfl⟩ : ∃ fd, result = .watched fd := by
      cases result with
      | watched fd => exact ⟨fd, rfl⟩
      | unwatched fd => exact hadded.elim
      | failed => exact hadded.elim
    obtain ⟨hlt, -, rfl⟩ := acceptOne_watched haccept
    have hload : (if (s.addConnection fd).Pending (.conn s.accepted)
        then s.watch.wake (.conn s.accepted) else s.watch).load ≤ s.watch.load + 3 := by
      split_ifs
      · exact Watch.load_wake_le _ _
      · exact Nat.le_add_right _ _
    generalize (if (s.addConnection fd).Pending (.conn s.accepted)
      then s.watch.wake (.conn s.accepted) else s.watch) = watch at hload ⊢
    simp only [work, unread, addConnection]
    omega
  | @readClosed source fd position hcontrol hclosed =>
    have hctl := h.sound.control
    simp only [ControlSound, hcontrol] at hctl
    obtain ⟨c, rfl, hd⟩ := hctl
    rw [removeClient_eq hat.toTableSound hd]
    have hforget := s.watch.load_forget_le (.conn c)
    simp only [work, unread, hcontrol, EpollControl.steps]
    omega
  | @read source fd position c e r hcontrol hfd hclosed hagain hread =>
    have hctl := h.sound.control
    simp only [ControlSound, hcontrol] at hctl
    obtain ⟨c₀, rfl, hd⟩ := hctl
    obtain rfl : c₀ = c := Option.some.inj (((hat.inverse fd c₀).2 hd).symm.trans hfd)
    have hpos : s.positionOf c₀ = position := by simp only [positionOf, hcontrol, if_true]
    cases e with
    | wakeup =>
      cases Reader.steps_of_step fd hread with
      | wakeup hnone => cases hnone
    | closed => exact absurd rfl hclosed
    | data n =>
      obtain ⟨hlt, hsome⟩ := readStep_data hread
      obtain ⟨position', hpos'⟩ := Option.ne_none_iff_exists'.1 hsome
      have hc : c₀ < s.connected :=
        lt_of_lt_of_le (hat.descriptor_lt c₀ fd hd) hat.accepted_le
      have hunread := unread_lt (Function.update s.inbox c₀ r.pending) hc
        (fun c' hne => Function.update_of_ne hne _ _) (by rwa [Function.update_self])
      simp only [work, unread, hcontrol, hpos', EpollControl.steps] at hunread ⊢
      omega
    | again =>
      -- In a payload something of it would be there: only before a length nothing is.
      obtain ⟨handled, todo, -, -, hin⟩ := h.inStep hd
      rw [(hagain rfl).1] at hin
      have hheader : position = .header := hpos ▸ hin.eq_nil.1
      cases Reader.steps_of_step fd hread with
      | leave hleave =>
        simp only [work, unread, hcontrol, EpollControl.steps, Function.update_eq_self]
        omega
      | retry hretry =>
        rw [hheader] at hretry
        cases hretry

/-- What a step of the thread keeps. -/
theorem settling_step {e : EpollLabel} {o : Unit} (h : Settling msgs s) (hown : s.Own e)
    (hstep : s.step e = some (o, t)) : Settling msgs t := by
  obtain ⟨hby, hwhole, hadded⟩ := hown
  exact ⟨sound_step h.sound hstep, tracks_step h.sound h.tracks hwhole hstep,
    present_step h.sound h.present hadded hstep,
    fun c => by rw [(sent_step hby hstep).1, h.sent]⟩

/-- The kernel has a number for a new connection. -/
theorem exists_free (h : s.TableSound) : ∃ fd, s.fds fd = none := by
  obtain ⟨fd, hfd⟩ := Infinite.exists_notMem_finset s.registry.clients.keys.toFinset
  refine ⟨fd, Option.not_isSome_iff_eq_none.1 ?_⟩
  rw [← h.entry, AList.lookup_isSome, AList.mem_keys]
  rwa [List.mem_toFinset] at hfd

theorem exists_next {e : EpollLabel} (hown : s.Own e) (h : (s.step e).isSome) :
    ∃ e o t, s.Own e ∧ s.step e = some (o, t) := by
  obtain ⟨⟨o, t⟩, hstep⟩ := Option.isSome_iff_exists.1 h
  exact ⟨e, o, t, hown, hstep⟩

/-- A handler that reads has a next `read`. -/
theorem exists_read {position : Position} (h : Settling msgs s)
    (hcontrol : s.control = .reading (.conn c) fd position) (hd : s.descriptor c = some fd) :
    ∃ e o t, s.Own e ∧ s.step e = some (o, t) := by
  have hfd : s.fds fd = some c := (h.sound.at_source.inverse fd c).2 hd
  have hpos : s.positionOf c = position := by simp only [positionOf, hcontrol, if_true]
  obtain ⟨handled, todo, -, -, hin⟩ := h.inStep hd
  rw [hpos] at hin
  by_cases hnil : s.inbox c = []
  · cases hpeer : s.peer c with
    | connected =>
      -- Everything is read, so the reader is before a length.
      rw [hnil] at hin
      obtain rfl := hin.eq_nil.1
      refine exists_next (e := .read .again) ⟨trivial, trivial, trivial⟩ ?_
      simp [step, hcontrol, readClient, hfd, hnil, hpeer, Reader.step]
    | closed reset =>
      refine exists_next (e := .read .closed) ⟨trivial, trivial, trivial⟩ ?_
      simp [step, hcontrol, readClient, hfd, hnil, hpeer]
  · cases position with
    | header =>
      have h4 := hin.four_le hnil
      refine exists_next (e := .read (.data 4)) ⟨trivial, fun _ => rfl, trivial⟩ ?_
      simp only [step, hcontrol, readClient, hfd]
      rw [if_neg (by rintro ⟨⟨⟩, -⟩), Reader.step_length fd rfl h4]
      rfl
    | payload msg_len got =>
      obtain ⟨hlt, hpos⟩ := hin.payload_lt
      refine exists_next (e := .read (.data 1)) ⟨trivial, fun hheader => ?_, trivial⟩ ?_
      · rw [hcontrol] at hheader
        cases hheader
      · simp only [step, hcontrol, readClient, hfd]
        have hpart := Reader.step_part fd (n := 1)
          (s := ⟨s.registry, some (.payload msg_len got), s.inbox c⟩) rfl le_rfl hlt hpos
        rw [if_neg (by rintro ⟨⟨⟩, -⟩), hpart]
        rfl

/-- Where the loop is not at rest, the thread has a next step. -/
theorem rest_or_next (h : Settling msgs s) :
    s.Rest ∨ ∃ e o t, s.Own e ∧ s.step e = some (o, t) := by
  have hat := h.sound.at_source
  cases hcontrol : s.control with
  | loop =>
    cases hreported : s.watch.reported with
    | nil =>
      by_cases hready : s.watch.ready = []
      · exact .inl ⟨hcontrol, hreported, hready⟩
      · refine .inr (exists_next (e := .wait) ⟨hready, trivial, trivial⟩ ?_)
        simp [step, hcontrol, hreported]
    | cons r rs =>
      refine .inr (exists_next (e := .next) ⟨trivial, trivial, trivial⟩ ?_)
      obtain ⟨source, report⟩ := r
      cases hfd : report.fd with
      | none => simp [step, handleNext, hcontrol, hreported, hfd]
      | some client_fd =>
        simp only [step, handleNext, hcontrol, hreported, hfd]
        split_ifs <;> rfl
  | accepting =>
    rcases hat.accepted_le.lt_or_eq with hlt | heq
    · obtain ⟨fd, hfree⟩ := exists_free hat.toTableSound
      refine .inr (exists_next (e := .accept (.watched fd)) ⟨trivial, trivial, trivial⟩ ?_)
      simp [step, hcontrol, acceptOne, hlt, hfree]
    · refine .inr (exists_next (e := .acceptAgain) ⟨trivial, trivial, trivial⟩ ?_)
      simp [step, hcontrol, heq]
  | reading source fd position =>
    have hctl := h.sound.control
    simp only [ControlSound, hcontrol] at hctl
    obtain ⟨c, rfl, hd⟩ := hctl
    exact .inr (exists_read h hcontrol hd)

/-- At rest the table is that of the event loop's model after all the messages. -/
theorem agrees_rest (h : Settling msgs s) (hrest : s.Rest) :
    EventLoop.Agrees ⟨s.registry, s.fds, fun c => if c < s.accepted then msgs c else [],
      s.accepted⟩ := by
  have hat := h.sound.at_source
  obtain ⟨hcontrol, hreported, hready⟩ := hrest
  have hcovers := hat.covers
  rw [hcontrol] at hcovers
  refine ⟨fun fd => ?_, fun fd fd' c hfd hfd' => hat.toTableSound.fd_inj hfd hfd',
    fun fd c hfd => hat.descriptor_lt c fd ((hat.inverse fd c).1 hfd), fun c hc => ?_⟩
  · dsimp only
    cases hfd : s.fds fd with
    | none =>
      rw [Option.map_none]
      exact Option.not_isSome_iff_eq_none.1 (by rw [hat.entry, hfd]; simp)
    | some c =>
      have hd := (hat.inverse fd c).1 hfd
      obtain ⟨handled, todo, hall, hentry, hin⟩ := h.inStep hd
      have hnil : s.inbox c = [] := by
        by_contra hne
        exact hcovers.rest hready hreported _ (pending_conn.2 ⟨fd, hd, .inl hne⟩)
      rw [hnil] at hin
      obtain rfl : todo = [] := List.map_eq_nil_iff.1 hin.eq_nil.2
      rw [Option.map_some, if_pos (hat.descriptor_lt c fd hd), hall, List.append_nil]
      exact hentry
  · exact if_neg (not_lt.2 hc)

/-- At rest the open connections are those that were made and that their clients have not closed. -/
theorem open_rest (h : Settling msgs s) (hrest : s.Rest) :
    (∃ fd, s.fds fd = some c) ↔ c < s.connected ∧ s.peer c = .connected := by
  have hat := h.sound.at_source
  obtain ⟨hcontrol, hreported, hready⟩ := hrest
  have hcovers := hat.covers
  rw [hcontrol] at hcovers
  have hnone := hcovers.rest hready hreported
  constructor
  · rintro ⟨fd, hfd⟩
    have hd := (hat.inverse fd c).1 hfd
    refine ⟨lt_of_lt_of_le (hat.descriptor_lt c fd hd) hat.accepted_le, ?_⟩
    by_contra hne
    exact hnone _ (pending_conn.2 ⟨fd, hd, .inr hne⟩)
  · rintro ⟨hlt, hpeer⟩
    have hall : s.connected ≤ s.accepted := not_lt.1 (mt pending_listen.2 (hnone .listen))
    obtain ⟨fd, hd⟩ := h.present c (lt_of_lt_of_le hlt hall) hpeer
    exact ⟨fd, (hat.inverse fd c).2 hd⟩

/-- A run in which each length is read in one piece, `accept` fails only where no connection waits
and every connection that is accepted is added, up to a point where each client has sent whole
frames. Once the clients send nothing more, and while nobody keeps the registry's mutex, the thread
comes to rest: the number of its steps is bounded, and until it waits with nothing on the kernel's
list there is a next one. When it does, the table has an entry for each client that has not closed,
made of all its messages, and no other; so `get_client_count` is the number of these clients and
`get_total_cache_size` the sum of the sizes that they told last. -/
theorem run_settles {es : List EpollLabel} {outs : List Unit}
    (hrun : Machine.run step init es = some (outs, s))
    (hwhole : Machine.Along step WholeRead init es) (hadded : ∀ e ∈ es, Added e)
    (hsent : ∀ c, s.sent c = (msgs c).flatMap Message.frame) :
    Machine.Reaches step Own Rest s ∧
    ∀ es' outs' t, Machine.run step s es' = some (outs', t) → Machine.Along step Own s es' →
      t.Rest →
      (∀ c, c < s.connected → s.peer c = .connected → ∃ fd, t.fds fd = some c ∧
        t.registry.clients.lookup fd = some (replay fd (msgs c))) ∧
      ∃ conns : List ConnId, conns.Nodup ∧
        (∀ c, c ∈ conns ↔ c < s.connected ∧ s.peer c = .connected) ∧
        t.registry.getClientCount = conns.length ∧
        t.registry.getTotalCacheSize.toNat =
          (conns.map fun c => (toldSize (msgs c)).toNat).sum % 2^64 := by
  have htracks : Tracks init := fun c fd hd => nomatch hd
  have hpresent : Present init := fun c hlt => absurd hlt (Nat.not_lt_zero c)
  obtain ⟨hsound, htracks, hpresent⟩ : s.Sound ∧ s.Tracks ∧ s.Present :=
    Machine.along_invariant (I := fun s => s.Sound ∧ s.Tracks ∧ s.Present)
      (fun s e o t h hC hstep => ⟨sound_step h.1 hstep, tracks_step h.1 h.2.1 hC.1 hstep,
        present_step h.1 h.2.2 hC.2 hstep⟩)
      ⟨sound_init, htracks, hpresent⟩ (hwhole.and (Machine.along_of_forall hadded init)) hrun
  have hs : Settling msgs s := ⟨hsound, htracks, hpresent, hsent⟩
  refine ⟨Machine.reaches_of_measure work
    (fun s e o t h hown hstep => ⟨settling_step h hown hstep, work_lt h hown hstep⟩)
    (fun s h => rest_or_next h) hs, fun es' outs' t hrun' halong hrest => ?_⟩
  obtain ⟨ht, hconnected, hpeer⟩ : Settling msgs t ∧ t.connected = s.connected ∧ t.peer = s.peer :=
    Machine.along_invariant
      (I := fun t => Settling msgs t ∧ t.connected = s.connected ∧ t.peer = s.peer)
      (fun u e o v h hown hstep => by
        obtain ⟨-, hconnected, hpeer⟩ := sent_step hown.1 hstep
        exact ⟨settling_step h.1 hown hstep, hconnected.trans h.2.1, hpeer.trans h.2.2⟩)
      ⟨hs, rfl, rfl⟩ halong hrun'
  have hagrees := agrees_rest ht hrest
  have hopen : ∀ c, (∃ fd, t.fds fd = some c) ↔ c < s.connected ∧ s.peer c = .connected := by
    intro c
    rw [open_rest ht hrest, hconnected, hpeer]
  have hlt : ∀ c fd, t.fds fd = some c → c < t.accepted := fun c fd hfd => hagrees.fd_lt fd c hfd
  constructor
  · intro c hc hcp
    obtain ⟨fd, hfd⟩ := (hopen c).2 ⟨hc, hcp⟩
    have hentry := hagrees.entry fd
    simp only [hfd, Option.map_some, if_pos (hlt c fd hfd)] at hentry
    exact ⟨fd, hfd, hentry⟩
  · obtain ⟨conns, hnodup, hmem, hsizes⟩ := EventLoop.exists_conns hagrees
    refine ⟨conns, hnodup, fun c => (hmem c).trans (hopen c), ?_, ?_⟩
    · simpa [ClientRegistry.getClientCount] using congrArg List.length hsizes
    · rw [ClientRegistry.getTotalCacheSize_toNat]
      have hnat := congrArg (List.map UInt64.toNat) hsizes
      simp only [List.map_map] at hnat
      have htold : conns.map (fun c => (toldSize (if c < t.accepted then msgs c else [])).toNat) =
          conns.map fun c => (toldSize (msgs c)).toNat := by
        refine List.map_congr_left fun c hc => ?_
        obtain ⟨fd, hfd⟩ := (hmem c).1 hc
        rw [if_pos (hlt c fd hfd)]
      rw [← htold]
      exact congrArg (fun l : List ℕ => l.sum % 2^64) hnat

/-- A client registers 700 bytes before the loop has accepted it. -/
def earlyRegistration : List EpollLabel := [.connect, .arrive 0 Reader.registration.frame]

/-- What the thread does then. -/
def catchingUp : List EpollLabel :=
  [.wait, .next, .accept (.watched 5), .acceptAgain, .wait, .next, .read (.data 4),
    .read (.data 79), .read .again]

/-- The entry is the client's registration. -/
theorem run_settles_earlyRegistration :
    let s := Machine.last step init earlyRegistration
    let t := Machine.last step s catchingUp
    Machine.Reaches step Own Rest s ∧ t.Rest ∧
      ∃ fd, t.fds fd = some 0 ∧ t.registry.clients.lookup fd = some ⟨fd, 9, 700, 0⟩ := by
  intro s t
  obtain ⟨outs, hrun⟩ : ∃ outs, Machine.run step init earlyRegistration = some (outs, s) :=
    Machine.exists_run_eq_last _ _ (by decide +kernel)
  obtain ⟨outs', hrun'⟩ : ∃ outs, Machine.run step s catchingUp = some (outs, t) :=
    Machine.exists_run_eq_last _ _ (by decide +kernel)
  have hsent : ∀ c, s.sent c =
      (if c = 0 then [Reader.registration] else []).flatMap Message.frame := by
    intro c
    change (Function.update (fun _ => []) 0 ([] ++ Reader.registration.frame) :
      ConnId → Bytes) c = _
    rw [Function.update_apply]
    split_ifs
    · simp
    · rfl
  obtain ⟨hreaches, hsettled⟩ :=
    run_settles hrun (by decide +kernel) (by decide +kernel) hsent
  have hrest : t.Rest := by
    refine ⟨?_, ?_, ?_⟩ <;> decide +kernel
  obtain ⟨hentry, -⟩ := hsettled catchingUp outs' t hrun' (by decide +kernel) hrest
  exact ⟨hreaches, hrest, hentry 0 (by decide +kernel) (by decide +kernel)⟩

end Settling

end Epoll

end MemoryGovernor
