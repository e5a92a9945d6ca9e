import MemoryGovernor.Registry.Epoll

/-!
# No event is lost or stale

The invariant of the event loop with edge-triggered `epoll` (`Epoll.Sound`). Two things are kept
together. Whatever is pending is on the kernel's list, in the batch, or in the hands of the thread:
each handler goes on until nothing is left, and what comes while it runs puts its source on the list
again. And each event of a batch is of a connection that is still open under the number that the
event carries: a connection has one event in a batch, only its own event closes it, and the kernel
gives a new connection no number that is in use.
-/

namespace MemoryGovernor

open Framing (Position)
open ClientRegistry (lookup_addClient lookup_removeClient lookup_handleMessage)

namespace Epoll

/-- The report is one of its source: of the connection that has the number, with no flag of a client
that has closed unless it has. -/
def ReportsOf (s : Epoll) : Source → EpollReport → Prop
  | .listen, report => report.fd = none
  | .conn c, report => ∃ fd, report.fd = some fd ∧ s.descriptor c = some fd ∧ report.inp ∧
      (report.err ∨ report.hup → s.peer c ≠ .connected)

/-- The descriptors, the connections and the entries fit together. -/
structure TableSound (s : Epoll) : Prop where
  /-- The entries are those of the open descriptors. -/
  entry : ∀ fd, (s.registry.clients.lookup fd).isSome = (s.fds fd).isSome
  /-- A connection is watched under its number. -/
  inverse : ∀ fd c, s.fds fd = some c ↔ s.descriptor c = some fd
  descriptor_lt : ∀ c fd, s.descriptor c = some fd → c < s.accepted
  accepted_le : s.accepted ≤ s.connected
  /-- Nothing is read from a connection before it is accepted. -/
  unread : ∀ c, s.accepted ≤ c → s.inbox c = s.sent c

/-- The invariant, but for where the thread is, of which it only says the source in its hands. -/
structure SoundAt (s : Epoll) (current : Option Source) : Prop extends s.TableSound where
  /-- Nothing is pending that nobody knows of. -/
  covers : s.watch.Covers current s.Pending
  once : s.watch.Once current
  reported : ∀ r ∈ s.watch.reported, s.ReportsOf r.1 r.2

/-- The handler of a client's event reads the connection that the event was of. -/
def ControlSound (s : Epoll) : Prop :=
  match s.control with
  | .reading source client_fd _ => ∃ c, source = .conn c ∧ s.descriptor c = some client_fd
  | _ => True

/-- The invariant. -/
structure Sound (s : Epoll) : Prop where
  at_source : s.SoundAt s.control.source
  control : s.ControlSound

section Kernel

variable {s t : Epoll}

theorem pending_listen : s.Pending .listen ↔ s.accepted < s.connected := by
  unfold Pending flags
  split_ifs with h
  · exact iff_of_true rfl h
  · exact iff_of_false (by simp) h

/-- Something is to be done at a connection that is open where there is something to read, be it
that the client has closed. -/
theorem pending_conn {c : ConnId} : s.Pending (.conn c) ↔
    ∃ fd, s.descriptor c = some fd ∧ (s.inbox c ≠ [] ∨ s.peer c ≠ .connected) := by
  simp only [Pending, flags]
  split
  next hd => simp [hd]
  next fd hd hp =>
    split_ifs with hnil
    · simp [hp, hnil]
    · simp [hd, hnil]
  next fd reset hd hp => simp [hd, hp]

/-- What the kernel reports is of its source. -/
theorem reportsOf_of_flags {source : Source} {report : EpollReport}
    (h : s.flags source = some report) : s.ReportsOf source report := by
  cases source with
  | listen =>
    simp only [flags] at h
    split_ifs at h
    obtain rfl := Option.some.inj h
    rfl
  | conn c =>
    simp only [flags] at h
    split at h
    next => cases h
    next fd hd hp =>
      split_ifs at h
      obtain rfl := Option.some.inj h
      exact ⟨fd, rfl, hd, rfl, by simp⟩
    next fd reset hd hp =>
      obtain rfl := Option.some.inj h
      exact ⟨fd, rfl, hd, rfl, fun _ => by rw [hp]; rintro ⟨⟩⟩

/-- A report stays one of its source where the connection stays open under its number. -/
theorem ReportsOf.mono {source : Source} {report : EpollReport} (h : s.ReportsOf source report)
    (hd : ∀ c fd, source = .conn c → s.descriptor c = some fd → t.descriptor c = some fd)
    (hp : ∀ c, s.peer c ≠ .connected → t.peer c ≠ .connected) : t.ReportsOf source report := by
  cases source with
  | listen => exact h
  | conn c =>
    obtain ⟨fd, hfd, hdesc, hinp, hflags⟩ := h
    exact ⟨fd, hfd, hd c fd rfl hdesc, hinp, fun hor => hp c (hflags hor)⟩

/-- What the kernel does with a connection to which something comes. -/
theorem wakeConn_eq (s : Epoll) (c : ConnId) : s.wakeConn c =
    { s with watch := if (s.descriptor c).isSome then s.watch.wake (.conn c) else s.watch } := by
  unfold wakeConn
  cases s.descriptor c with
  | none => rfl
  | some fd => rfl

/-- A connection that is accepted and watched, told of at once if something has come over it. -/
theorem acceptOne_watched {client_fd : ℕ} (h : s.acceptOne (.watched client_fd) = some t) :
    s.accepted < s.connected ∧ s.fds client_fd = none ∧
      t = { s.addConnection client_fd with
        watch := if (s.addConnection client_fd).Pending (.conn s.accepted)
          then s.watch.wake (.conn s.accepted) else s.watch } := by
  simp only [acceptOne] at h
  split_ifs at h with hguard hpend
  · obtain rfl := Option.some.inj h
    refine ⟨hguard.1, hguard.2, ?_⟩
    rw [if_pos hpend, wakeConn_eq]
    simp [addConnection]
  · obtain rfl := Option.some.inj h
    exact ⟨hguard.1, hguard.2, by rw [if_neg hpend]; rfl⟩

end Kernel

section Table

variable {s t : Epoll} {c : ConnId} {client_fd : ℕ}

/-- Two open descriptors are two connections. -/
theorem TableSound.fd_inj (h : s.TableSound) {fd fd' : ℕ} (hfd : s.fds fd = some c)
    (hfd' : s.fds fd' = some c) : fd = fd' :=
  Option.some.inj (((h.inverse fd c).1 hfd).symm.trans ((h.inverse fd' c).1 hfd'))

/-- What is watched and where the thread is does not matter. -/
theorem TableSound.with_watch (h : s.TableSound) (watch : Watch Source EpollReport)
    (control : EpollControl) : TableSound { s with watch := watch, control := control } :=
  ⟨h.entry, h.inverse, h.descriptor_lt, h.accepted_le, h.unread⟩

/-- A connection that is not accepted has no number. -/
theorem TableSound.descriptor_accepted (h : s.TableSound) : s.descriptor s.accepted = none :=
  Option.eq_none_iff_forall_ne_some.2 fun fd hd => (h.descriptor_lt _ fd hd).ne rfl

/-- The descriptor of an open connection is closed and its entry erased. -/
theorem removeClient_eq (h : s.TableSound) (hd : s.descriptor c = some client_fd) :
    s.removeClient client_fd = { s with
      registry := s.registry.removeClient client_fd
      fds := Function.update s.fds client_fd none
      descriptor := Function.update s.descriptor c none
      watch := s.watch.forget (.conn c) } := by
  have hfd : s.fds client_fd = some c := (h.inverse client_fd c).2 hd
  obtain ⟨info, hinfo⟩ : ∃ info, s.registry.clients.lookup client_fd = some info :=
    Option.isSome_iff_exists.1 (by rw [h.entry, hfd]; rfl)
  simp only [removeClient, closeDescriptor, hinfo, hfd]

theorem TableSound.removeClient (h : s.TableSound) (hd : s.descriptor c = some client_fd) :
    (s.removeClient client_fd).TableSound := by
  have hfd : s.fds client_fd = some c := (h.inverse client_fd c).2 hd
  rw [removeClient_eq h hd]
  refine ⟨fun fd => ?_, fun fd c' => ?_, fun c' fd hc' => ?_, h.accepted_le, h.unread⟩
  · simp only [lookup_removeClient, Function.update_apply]
    split_ifs
    · rfl
    · exact h.entry fd
  · simp only [Function.update_apply]
    split_ifs with h₁ h₂ h₂
    · simp
    · refine iff_of_false (by simp) fun hc' => h₂ ?_
      subst h₁
      exact Option.some.inj (((h.inverse fd c').2 hc').symm.trans hfd)
    · refine iff_of_false (fun hc' => h₁ ?_) (by simp)
      subst h₂
      exact h.fd_inj hc' hfd
    · exact h.inverse fd c'
  · simp only [Function.update_apply] at hc'
    split_ifs at hc'
    exact h.descriptor_lt c' fd hc'

theorem TableSound.addConnection (h : s.TableSound) (hlt : s.accepted < s.connected)
    (hfree : s.fds client_fd = none) : (s.addConnection client_fd).TableSound := by
  refine ⟨fun fd => ?_, fun fd c' => ?_, fun c' fd hc' => ?_, hlt,
    fun c' hc' => h.unread c' (Nat.le_of_succ_le hc')⟩
  · simp only [Epoll.addConnection, lookup_addClient, Function.update_apply]
    split_ifs
    · rfl
    · exact h.entry fd
  · simp only [Epoll.addConnection, Function.update_apply]
    split_ifs with h₁ h₂ h₂
    · simp [h₁, h₂]
    · refine iff_of_false (fun heq => h₂ (Option.some.inj heq).symm) fun hc' => ?_
      subst h₁
      rw [(h.inverse fd c').2 hc'] at hfree
      cases hfree
    · refine iff_of_false (fun hc' => ?_) fun heq => h₁ (Option.some.inj heq).symm
      subst h₂
      have hd := (h.inverse fd _).1 hc'
      rw [h.descriptor_accepted] at hd
      cases hd
    · exact h.inverse fd c'
  · simp only [Epoll.addConnection, Function.update_apply] at hc'
    split_ifs at hc' with h₁
    · exact h₁ ▸ Nat.lt_succ_self _
    · exact Nat.lt_succ_of_lt (h.descriptor_lt c' fd hc')

end Table

section Preserved

variable {s t : Epoll} {current : Option Source} {c : ConnId} {client_fd : ℕ}

/-- Where the thread is does not matter but for the source in its hands. -/
theorem SoundAt.with_control (h : s.SoundAt current) (control : EpollControl) :
    SoundAt { s with control := control } current :=
  ⟨h.toTableSound.with_watch _ _, h.covers, h.once, h.reported⟩

/-- Something comes over a connection, and is pending where it is watched. -/
theorem SoundAt.wakeConn (h : s.SoundAt current) (c : ConnId) (sent inbox : ConnId → Bytes)
    (peer : ConnId → PeerState)
    (hother : ∀ c', c' ≠ c → inbox c' = s.inbox c' ∧ peer c' = s.peer c')
    (hunread : ∀ c', s.accepted ≤ c' → inbox c' = sent c')
    (hpeer : ∀ c', s.peer c' ≠ .connected → peer c' ≠ .connected) :
    ({ s with sent := sent, inbox := inbox, peer := peer }.wakeConn c).SoundAt current := by
  rw [wakeConn_eq]
  refine ⟨⟨h.entry, h.inverse, h.descriptor_lt, h.accepted_le, hunread⟩, ?_, ?_, ?_⟩
  · have hpend : ∀ k, k ≠ .conn c →
        Pending { s with sent := sent, inbox := inbox, peer := peer } k → s.Pending k := by
      intro k hne hk
      cases k with
      | listen => exact pending_listen.2 (pending_listen.1 hk)
      | conn c' =>
        obtain ⟨fd, hd, hor⟩ := pending_conn.1 hk
        have hne' : c' ≠ c := fun heq => hne (heq ▸ rfl)
        obtain ⟨hinbox, hpeer'⟩ := hother c' hne'
        exact pending_conn.2 ⟨fd, hd, hinbox ▸ hpeer' ▸ hor⟩
    split_ifs with hsome
    · exact h.covers.wake hpend
    · -- A connection that is not watched is not pending.
      refine h.covers.mono fun k hk => hpend k ?_ hk
      rintro rfl
      obtain ⟨fd, hd, -⟩ := pending_conn.1 hk
      exact hsome (Option.isSome_iff_exists.2 ⟨fd, hd⟩)
  · split_ifs
    · exact h.once.wake
    · exact h.once
  · have hrep : ∀ r ∈ s.watch.reported,
        ReportsOf { s with sent := sent, inbox := inbox, peer := peer } r.1 r.2 := fun r hr =>
      (h.reported r hr).mono (fun _ _ _ hd => hd) hpeer
    split_ifs
    · rw [Watch.reported_wake]
      exact hrep
    · exact hrep

/-- The connection in the hands of the thread is closed. -/
theorem SoundAt.removeClient (h : s.SoundAt (some (.conn c)))
    (hd : s.descriptor c = some client_fd) : (s.removeClient client_fd).SoundAt none := by
  have heq := removeClient_eq h.toTableSound hd
  have hpend : ∀ k, (s.removeClient client_fd).Pending k → s.Pending k ∧ k ≠ .conn c := by
    intro k hk
    rw [heq] at hk
    cases k with
    | listen => exact ⟨pending_listen.2 (pending_listen.1 hk), by rintro ⟨⟩⟩
    | conn c' =>
      obtain ⟨fd, hd', hor⟩ := pending_conn.1 hk
      simp only [Function.update_apply] at hd'
      split_ifs at hd' with hne
      exact ⟨pending_conn.2 ⟨fd, hd', hor⟩, fun heq => hne (Source.conn.inj heq)⟩
  have hwatch : (s.removeClient client_fd).watch = s.watch.forget (.conn c) := by rw [heq]
  refine ⟨h.toTableSound.removeClient hd, ?_, hwatch ▸ h.once.forget.done, fun r hr => ?_⟩
  · rw [hwatch]
    exact (h.covers.forget hpend).done fun hk => (hpend _ hk).2 rfl
  · -- The connection had one event in the batch, which is not in it any more.
    rw [hwatch] at hr
    have hnot : r.1 ≠ .conn c := fun hr' => h.once.current _ rfl (hr' ▸ List.mem_map_of_mem hr)
    refine (h.reported r hr).mono (fun c' fd hr' hc' => ?_) fun c' hp => by rwa [heq]
    have hne : c' ≠ c := fun hcc => hnot (hcc ▸ hr')
    rw [heq]
    exact (Function.update_of_ne hne _ _).trans hc'

/-- A connection is accepted and watched. -/
theorem SoundAt.watched (h : s.SoundAt current)
    (hacc : s.acceptOne (.watched client_fd) = some t) : t.SoundAt current := by
  obtain ⟨hlt, hfree, rfl⟩ := acceptOne_watched hacc
  have hpend : ∀ k, k ≠ .conn s.accepted → (s.addConnection client_fd).Pending k → s.Pending k := by
    intro k hne hk
    cases k with
    | listen => exact pending_listen.2 (Nat.lt_of_succ_lt (pending_listen.1 hk))
    | conn c' =>
      obtain ⟨fd, hd, hor⟩ := pending_conn.1 hk
      have hne' : c' ≠ s.accepted := fun heq => hne (heq ▸ rfl)
      exact pending_conn.2 ⟨fd, (Function.update_of_ne hne' _ _).symm.trans hd, hor⟩
  have hrep : ∀ r ∈ s.watch.reported, (s.addConnection client_fd).ReportsOf r.1 r.2 := by
    intro r hr
    refine (h.reported r hr).mono (fun c' fd _ hc' => ?_) fun _ hp => hp
    have hne : c' ≠ s.accepted := (h.descriptor_lt c' fd hc').ne
    exact (Function.update_of_ne hne _ _).trans hc'
  refine ⟨(h.toTableSound.addConnection hlt hfree).with_watch _ _, ?_, ?_, ?_⟩
  · split_ifs with hnew
    · exact h.covers.wake hpend
    · -- Nothing has come over the new connection yet.
      refine h.covers.mono fun k hk => hpend k ?_ hk
      rintro rfl
      exact hnew hk
  · split_ifs
    · exact h.once.wake
    · exact h.once
  · split_ifs
    · rw [Watch.reported_wake]
      exact hrep
    · exact hrep

/-- A connection is accepted, or refused, or `accept` fails. -/
theorem SoundAt.acceptOne (h : s.SoundAt current) {result : AcceptResult}
    (hacc : s.acceptOne result = some t) : t.SoundAt current := by
  cases result with
  | watched client_fd => exact h.watched hacc
  | unwatched client_fd =>
    simp only [Epoll.acceptOne] at hacc
    split_ifs at hacc with hlt
    obtain rfl := Option.some.inj hacc
    refine ⟨⟨h.entry, h.inverse, fun c fd hd => Nat.lt_succ_of_lt (h.descriptor_lt c fd hd), hlt,
      fun c hc => h.unread c (Nat.le_of_succ_le hc)⟩, h.covers.mono fun k hk => ?_, h.once,
      h.reported⟩
    cases k with
    | listen => exact pending_listen.2 (Nat.lt_of_succ_lt (pending_listen.1 hk))
    | conn c => exact pending_conn.2 (pending_conn.1 hk)
  | failed =>
    obtain rfl := Option.some.inj hacc
    exact h

/-- The loop goes on to the next event, whose report is one of its source. -/
theorem SoundAt.next (h : s.SoundAt none) {source : Source} {report : EpollReport}
    {rs : List (Source × EpollReport)} (hreported : s.watch.reported = (source, report) :: rs) :
    SoundAt { s with watch := s.watch.tail } (some source) ∧ s.ReportsOf source report := by
  have hhead : (source, report) ∈ s.watch.reported := hreported ▸ List.mem_cons_self
  refine ⟨⟨h.toTableSound.with_watch _ _, h.covers.next hreported, h.once.next hreported,
    fun r hr => ?_⟩, h.reported _ hhead⟩
  exact h.reported r (List.mem_of_mem_tail hr)

/-- No handler's table changes where the thread is. -/
theorem control_removeClient (s : Epoll) (client_fd : ℕ) :
    (s.removeClient client_fd).control = s.control := by
  unfold Epoll.removeClient closeDescriptor
  split
  · rfl
  · dsimp only
    split <;> rfl

theorem control_acceptOne {result : AcceptResult} (hacc : s.acceptOne result = some t) :
    t.control = s.control := by
  cases result with
  | watched client_fd =>
    obtain ⟨-, -, rfl⟩ := acceptOne_watched hacc
    rfl
  | unwatched client_fd =>
    simp only [Epoll.acceptOne] at hacc
    split_ifs at hacc
    obtain rfl := Option.some.inj hacc
    rfl
  | failed =>
    obtain rfl := Option.some.inj hacc
    rfl

/-- The entries are those that there were, and only the one of `client_fd` may have changed. -/
def Touches (client_fd : ℕ) (r r' : ClientRegistry) : Prop :=
  (∀ fd, (r'.clients.lookup fd).isSome = (r.clients.lookup fd).isSome) ∧
    ∀ fd, fd ≠ client_fd → r'.clients.lookup fd = r.clients.lookup fd

theorem Touches.refl (client_fd : ℕ) (r : ClientRegistry) : Touches client_fd r r :=
  ⟨fun _ => rfl, fun _ _ => rfl⟩

/-- What a message does to the table. -/
theorem touches_handleMessage (client_fd : ℕ) (r : ClientRegistry) (msg : Message) :
    Touches client_fd r (r.handleMessage client_fd msg) := by
  refine ⟨fun fd => ?_, fun fd hne => ?_⟩
  · simp only [lookup_handleMessage]
    split_ifs
    · exact Option.isSome_map
    · rfl
  · rw [lookup_handleMessage, if_neg hne]

/-- What a `read` does to the table and to where the handler is. -/
theorem readStep_facts {r r' : Reader} {e : ReadEvent} {o : Unit} (hclosed : e ≠ .closed)
    (hpos : r.position ≠ none) (h : Reader.step client_fd r e = some (o, r')) :
    Touches client_fd r.registry r'.registry ∧ (r'.position = none → e = .again) := by
  have hpayload : ∀ (u : Reader) (msg_len : ℕ) (got : Bytes),
      Touches client_fd u.registry (u.readPayload client_fd msg_len got).registry ∧
        (u.readPayload client_fd msg_len got).position ≠ none := by
    intro u msg_len got
    unfold Reader.readPayload Reader.handlePayload
    split_ifs
    · exact ⟨Touches.refl _ _, Option.some_ne_none _⟩
    · split
      next msg _ => exact ⟨touches_handleMessage _ _ msg, Option.some_ne_none _⟩
      next => exact ⟨Touches.refl _ _, Option.some_ne_none _⟩
  cases Reader.steps_of_step client_fd h with
  | wakeup hnone => exact absurd hnone hpos
  | short hheader h1 h4 hn => exact ⟨Touches.refl _ _, fun hnone => absurd hnone hpos⟩
  | length hheader h4 =>
    obtain ⟨htouches, hsome⟩ := hpayload { r with pending := r.pending.drop 4 }
      (Framing.readBe32 (r.pending.take 4)) []
    exact ⟨htouches, fun hnone => absurd hnone hsome⟩
  | @part n msg_len got hp h1 hlen hn =>
    obtain ⟨htouches, hsome⟩ := hpayload { r with pending := r.pending.drop n } msg_len
      (got ++ r.pending.take n)
    exact ⟨htouches, fun hnone => absurd hnone hsome⟩
  | leave => exact ⟨Touches.refl _ _, fun _ => rfl⟩
  | retry => exact ⟨Touches.refl _ _, fun _ => rfl⟩
  | closed => exact absurd rfl hclosed

/-- A handler that reads keeps the connection in its hands, or leaves nothing there. -/
theorem Sound.read {source : Source} {position : Position} {e : ReadEvent} {r : Reader}
    (h : s.Sound) (hcontrol : s.control = .reading source client_fd position)
    (hfd : s.fds client_fd = some c) (hclosed : e ≠ .closed)
    (hagain : e = .again → s.inbox c = [] ∧ s.peer c = .connected)
    (hread : Reader.step client_fd ⟨s.registry, some position, s.inbox c⟩ e = some ((), r)) :
    Sound { s with
      registry := r.registry
      inbox := Function.update s.inbox c r.pending
      control := match r.position with
        | none => .loop
        | some position => .reading source client_fd position } := by
  obtain ⟨htouches, hleave⟩ := readStep_facts hclosed (Option.some_ne_none _) hread
  obtain ⟨⟨htable, hcovers, honce, hrep⟩, hctl⟩ := h
  rw [hcontrol] at hcovers honce
  simp only [ControlSound, hcontrol] at hctl
  obtain ⟨c', rfl, hd⟩ := hctl
  obtain rfl : c' = c := Option.some.inj (((htable.inverse client_fd c').2 hd).symm.trans hfd)
  have htable' : TableSound { s with
      registry := r.registry
      inbox := Function.update s.inbox c' r.pending } := by
    refine ⟨fun fd => (htouches.1 fd).trans (htable.entry fd), htable.inverse, htable.descriptor_lt,
      htable.accepted_le, fun c hc => ?_⟩
    have hne : c ≠ c' := (lt_of_lt_of_le (htable.descriptor_lt c' client_fd hd) hc).ne'
    exact (Function.update_of_ne hne _ _).trans (htable.unread c hc)
  have hcovers' : s.watch.Covers (some (.conn c')) (Pending { s with
      registry := r.registry
      inbox := Function.update s.inbox c' r.pending }) := by
    refine hcovers.look fun k hne hk => ?_
    cases k with
    | listen => exact pending_listen.2 (pending_listen.1 hk)
    | conn c =>
      obtain ⟨fd, hd', hor⟩ := pending_conn.1 hk
      have hne' : c ≠ c' := fun heq => hne (heq ▸ rfl)
      simp only [Function.update_of_ne hne'] at hor
      exact pending_conn.2 ⟨fd, hd', hor⟩
  cases hpos : r.position with
  | some position' => exact ⟨⟨htable'.with_watch _ _, hcovers', honce, hrep⟩, c', rfl, hd⟩
  | none =>
    -- `EAGAIN`: nothing is there to read, and the client has not closed.
    obtain rfl := hleave hpos
    obtain ⟨hnil, hpeer⟩ := hagain rfl
    refine ⟨⟨htable'.with_watch _ _, hcovers'.done fun hk => ?_, honce.done, hrep⟩, trivial⟩
    obtain ⟨fd, -, hor⟩ := pending_conn.1 hk
    have hpending : r.pending = [] := by
      cases Reader.steps_of_step client_fd hread with
      | leave => exact hnil
      | retry => exact hnil
    simp only [Function.update_self] at hor
    rcases hor with hne | hne
    · exact hne hpending
    · exact hne hpeer

/-- What a step keeps. -/
theorem sound_step {e : EpollLabel} {o : Unit} (h : s.Sound) (hstep : s.step e = some (o, t)) :
    t.Sound := by
  obtain ⟨hat, hctl⟩ := h
  cases steps_of_step hstep with
  | connect =>
    refine ⟨⟨⟨hat.entry, hat.inverse, hat.descriptor_lt, Nat.le_succ_of_le hat.accepted_le,
      hat.unread⟩, ?_, hat.once.wake, ?_⟩, hctl⟩
    · refine hat.covers.wake fun k hne hk => ?_
      cases k with
      | listen => exact absurd rfl hne
      | conn c => exact pending_conn.2 (pending_conn.1 hk)
    · rw [Watch.reported_wake]
      exact hat.reported
  | @arrive c bytes hc hpeer hbytes =>
    have hsound := hat.wakeConn c (Function.update s.sent c (s.sent c ++ bytes))
      (Function.update s.inbox c (s.inbox c ++ bytes)) s.peer
      (fun c' hne => ⟨Function.update_of_ne hne _ _, rfl⟩)
      (fun c' hc' => ?_) fun _ hp => hp
    · exact ⟨by rw [wakeConn_eq] at hsound ⊢; exact hsound, by rw [wakeConn_eq]; exact hctl⟩
    · simp only [Function.update_apply]
      split_ifs with heq
      · rw [← heq, hat.unread c' hc']
      · exact hat.unread c' hc'
  | @hangup c reset hc hpeer =>
    have hsound := hat.wakeConn c s.sent s.inbox (Function.update s.peer c (.closed reset))
      (fun c' hne => ⟨rfl, Function.update_of_ne hne _ _⟩) hat.unread (fun c' hp => ?_)
    · exact ⟨by rw [wakeConn_eq] at hsound ⊢; exact hsound, by rw [wakeConn_eq]; exact hctl⟩
    · simp only [Function.update_apply]
      split_ifs
      · rintro ⟨⟩
      · exact hp
  | wait hcontrol hreported =>
    rw [hcontrol] at hat
    refine ⟨?_, hctl⟩
    rw [show EpollControl.source s.control = none from hcontrol ▸ rfl]
    exact ⟨hat.toTableSound.with_watch _ _, hat.covers.report hreported fun _ hk => hk,
      hat.once.report, fun r hr => reportsOf_of_flags (Watch.flags_of_mem_report hr)⟩
  | @nextListen source report rs hcontrol hreported hfd =>
    rw [hcontrol] at hat
    obtain ⟨hnext, hof⟩ := hat.next hreported
    cases source with
    | listen => exact ⟨hnext.with_control _, trivial⟩
    | conn c =>
      obtain ⟨fd, hsome, -⟩ := hof
      rw [hfd] at hsome
      cases hsome
  | @nextRemove source report rs client_fd hcontrol hreported hfd hflags =>
    rw [hcontrol] at hat
    obtain ⟨hnext, hof⟩ := hat.next hreported
    cases source with
    | listen => exact absurd (hfd.symm.trans hof) (Option.some_ne_none _)
    | conn c =>
      obtain ⟨fd, hsome, hd, -⟩ := hof
      obtain rfl := Option.some.inj (hfd.symm.trans hsome)
      have hloop :
          (Epoll.removeClient { s with watch := s.watch.tail } client_fd).control = .loop :=
        (control_removeClient _ _).trans hcontrol
      exact ⟨by rw [hloop]; exact hnext.removeClient hd, by rw [ControlSound, hloop]; trivial⟩
  | @nextRead source report rs client_fd hcontrol hreported hfd hflags =>
    rw [hcontrol] at hat
    obtain ⟨hnext, hof⟩ := hat.next hreported
    cases source with
    | listen => exact absurd (hfd.symm.trans hof) (Option.some_ne_none _)
    | conn c =>
      obtain ⟨fd, hsome, hd, -⟩ := hof
      obtain rfl := Option.some.inj (hfd.symm.trans hsome)
      exact ⟨hnext.with_control _, c, rfl, hd⟩
  | acceptAgain hcontrol hnone =>
    rw [hcontrol] at hat
    refine ⟨⟨hat.toTableSound.with_watch _ _, hat.covers.done fun hk => ?_, hat.once.done,
      hat.reported⟩, trivial⟩
    exact (pending_listen.1 hk).ne hnone
  | @accept result t hcontrol haccept =>
    have hsame : t.control = .accepting := (control_acceptOne haccept).trans hcontrol
    rw [hcontrol] at hat
    exact ⟨hsame ▸ hat.acceptOne haccept, by rw [ControlSound, hsame]; trivial⟩
  | @readClosed source client_fd position hcontrol hclosed =>
    simp only [ControlSound, hcontrol] at hctl
    obtain ⟨c, rfl, hd⟩ := hctl
    rw [hcontrol] at hat
    exact ⟨(hat.removeClient hd).with_control _, trivial⟩
  | @read source client_fd position c e r hcontrol hfd hclosed hagain hread =>
    exact Sound.read ⟨hat, hctl⟩ hcontrol hfd hclosed hagain hread

end Preserved

/-! ## Runs -/

section Runs

variable {s t : Epoll} {c : ConnId} {client_fd : ℕ}

/-- Before the first `epoll_wait` nothing is pending. -/
theorem sound_init : init.Sound := by
  refine ⟨⟨⟨fun _ => rfl, fun _ _ => by simp [init], fun _ _ h => ?_, le_rfl, fun _ _ => rfl⟩,
    fun k hk => ?_, ⟨List.nodup_nil, List.nodup_nil, fun _ h => ?_⟩, fun r hr => ?_⟩, trivial⟩
  · cases h
  · cases k with
    | listen => exact absurd (pending_listen.1 hk) (lt_irrefl 0)
    | conn c =>
      obtain ⟨fd, hd, -⟩ := pending_conn.1 hk
      cases hd
  · cases h
  · cases hr

/-- What every run keeps. -/
theorem run_sound {es : List EpollLabel} {outs : List Unit}
    (hrun : Machine.run step init es = some (outs, s)) : s.Sound :=
  Machine.run_invariant (fun _ _ _ _ h hstep => sound_step h hstep) sound_init hrun

/-- A run of the event loop, whatever the clients send and whenever they connect, send and close.
Whatever waits to be accepted, read or closed is known: its source is on the kernel's list, or in
the batch, or in the hands of the thread. So where the loop would wait in `epoll_wait` with nothing
on the list, every connection that was made is accepted, and the open ones have nothing to read and
a client that has not closed. -/
theorem run_nothing_lost {es : List EpollLabel} {outs : List Unit}
    (hrun : Machine.run step init es = some (outs, s)) :
    (∀ source, s.Pending source → source ∈ s.watch.ready ∨ source ∈ s.watch.sources ∨
      s.control.source = some source) ∧
    (s.control = .loop → s.watch.reported = [] → s.watch.ready = [] →
      s.accepted = s.connected ∧
      ∀ c fd, s.fds fd = some c → s.inbox c = [] ∧ s.peer c = .connected) := by
  have h := run_sound hrun
  refine ⟨h.at_source.covers, fun hcontrol hreported hready => ?_⟩
  have hcovers := h.at_source.covers
  rw [hcontrol] at hcovers
  have hnone := hcovers.rest hready hreported
  constructor
  · exact h.at_source.accepted_le.antisymm (not_lt.1 (mt pending_listen.2 (hnone .listen)))
  · intro c fd hfd
    have hnot := mt pending_conn.2 (hnone (.conn c))
    have hd := (h.at_source.inverse fd c).1 hfd
    constructor
    · by_contra hne
      exact hnot ⟨fd, hd, .inl hne⟩
    · by_contra hne
      exact hnot ⟨fd, hd, .inr hne⟩

/-- The second report of a client comes when the handler has read the first one and before its next
`read`, so its connection is put on the list again while it is in the hands of the thread. -/
def twoReports : List EpollLabel :=
  [.connect, .wait, .next, .arrive 0 Reader.registration.frame, .accept (.watched 5), .acceptAgain,
    .wait, .next, .read (.data 4), .read (.data 79), .arrive 0 Reader.registration.frame,
    .read (.data 4), .read (.data 79), .read .again, .wait]

/-- At the end the loop waits, and nothing is left. -/
theorem run_nothing_lost_twoReports :
    let s := Machine.last step init twoReports
    s.accepted = s.connected ∧ s.fds 5 = some 0 ∧ s.inbox 0 = [] ∧ s.peer 0 = .connected := by
  intro s
  obtain ⟨outs, hrun⟩ : ∃ outs, Machine.run step init twoReports = some (outs, s) :=
    Machine.exists_run_eq_last _ _ (by decide +kernel)
  have hrest := (run_nothing_lost hrun).2 (by decide +kernel) (by decide +kernel)
    (by decide +kernel)
  have hfd : s.fds 5 = some 0 := by decide +kernel
  exact ⟨hrest.1, hfd, hrest.2 0 5 hfd⟩

/-- A client that has closed has closed, and a connection is open until then. -/
theorem open_step {e : EpollLabel} {o : Unit} (h : s.Sound) (hstep : s.step e = some (o, t))
    (hpeer : t.peer c = .connected) :
    s.peer c = .connected ∧
      ∀ fd, s.descriptor c = some fd → t.descriptor c = some fd := by
  obtain ⟨hat, hctl⟩ := h
  have hremove : ∀ {u : Epoll} {c' : ConnId} {fd : ℕ}, u.TableSound →
      u.descriptor c' = some fd → u.peer c' ≠ .connected →
      (u.removeClient fd).peer c = .connected → u.peer c = .connected ∧
        ∀ fd', u.descriptor c = some fd' → (u.removeClient fd).descriptor c = some fd' := by
    intro u c' fd hu hd hclosed hopen
    rw [removeClient_eq hu hd] at hopen ⊢
    refine ⟨hopen, fun fd' hc => ?_⟩
    have hne : c ≠ c' := fun heq => hclosed (heq ▸ hopen)
    exact (Function.update_of_ne hne _ _).trans hc
  cases steps_of_step hstep with
  | connect => exact ⟨hpeer, fun _ hd => hd⟩
  | arrive =>
    rw [wakeConn_eq] at hpeer ⊢
    exact ⟨hpeer, fun _ hd => hd⟩
  | hangup hc hopen =>
    rw [wakeConn_eq] at hpeer ⊢
    refine ⟨?_, fun _ hd => hd⟩
    simp only [Function.update_apply] at hpeer
    split_ifs at hpeer
    exact hpeer
  | wait => exact ⟨hpeer, fun _ hd => hd⟩
  | nextListen => exact ⟨hpeer, fun _ hd => hd⟩
  | @nextRemove source report rs fd hcontrol hreported hfd hflags =>
    rw [hcontrol] at hat
    obtain ⟨hnext, hof⟩ := hat.next hreported
    cases source with
    | listen => exact absurd (hfd.symm.trans hof) (Option.some_ne_none _)
    | conn c' =>
      obtain ⟨fd', hsome, hd, hinp, hclosed⟩ := hof
      obtain rfl := Option.some.inj (hfd.symm.trans hsome)
      have hor : report.err = true ∨ report.hup = true := by tauto
      exact hremove hnext.toTableSound hd (hclosed hor) hpeer
  | nextRead => exact ⟨hpeer, fun _ hd => hd⟩
  | acceptAgain => exact ⟨hpeer, fun _ hd => hd⟩
  | @accept result t hcontrol haccept =>
    cases result with
    | watched fd =>
      obtain ⟨-, -, rfl⟩ := acceptOne_watched haccept
      exact ⟨hpeer, fun fd' hd =>
        (Function.update_of_ne (hat.descriptor_lt c fd' hd).ne _ _).trans hd⟩
    | unwatched fd =>
      simp only [acceptOne] at haccept
      split_ifs at haccept
      obtain rfl := Option.some.inj haccept
      exact ⟨hpeer, fun _ hd => hd⟩
    | failed =>
      obtain rfl := Option.some.inj haccept
      exact ⟨hpeer, fun _ hd => hd⟩
  | @readClosed source fd position hcontrol hclosed =>
    simp only [ControlSound, hcontrol] at hctl
    obtain ⟨c', rfl, hd⟩ := hctl
    exact hremove hat.toTableSound hd (hclosed c' ((hat.inverse fd c').2 hd)).2 hpeer
  | read => exact ⟨hpeer, fun _ hd => hd⟩

/-- A run of the event loop, and another one from where it ends, whatever the clients do. In the
batch that the loop is in, no connection has two events, and each event carries the number that is
still its connection's, though numbers of closed connections are given to new ones in the middle of
a batch. A connection that is open stays open under its number, with its entry, until its client
closes it: no event of another connection removes it. -/
theorem run_events_fresh {es es' : List EpollLabel} {outs outs' : List Unit}
    (hrun : Machine.run step init es = some (outs, s))
    (hrun' : Machine.run step s es' = some (outs', t)) :
    s.watch.sources.Nodup ∧
    (∀ c report, (.conn c, report) ∈ s.watch.reported →
      ∃ fd, report.fd = some fd ∧ s.fds fd = some c) ∧
    (∀ source fd position, s.control = .reading source fd position →
      ∃ c, source = .conn c ∧ s.fds fd = some c) ∧
    ∀ c fd, s.fds fd = some c → t.peer c = .connected →
      t.fds fd = some c ∧ (t.registry.clients.lookup fd).isSome := by
  have h := run_sound hrun
  refine ⟨h.at_source.once.sources, fun c report hmem => ?_, fun source fd position hcontrol => ?_,
    fun c fd hfd hpeer => ?_⟩
  · obtain ⟨fd, hsome, hd, -⟩ := h.at_source.reported _ hmem
    exact ⟨fd, hsome, (h.at_source.inverse fd c).2 hd⟩
  · have hctl := h.control
    simp only [ControlSound, hcontrol] at hctl
    obtain ⟨c, hc, hd⟩ := hctl
    exact ⟨c, hc, (h.at_source.inverse fd c).2 hd⟩
  · obtain ⟨ht, hopen⟩ := Machine.run_invariant
      (I := fun u => u.Sound ∧ (u.peer c = .connected → u.descriptor c = some fd))
      (fun u e o v hu hstep => ⟨sound_step hu.1 hstep, fun hv =>
        (open_step hu.1 hstep hv).2 fd (hu.2 (open_step hu.1 hstep hv).1)⟩)
      ⟨h, fun _ => (h.at_source.inverse fd c).1 hfd⟩ hrun'
    have hfd' := (ht.at_source.inverse fd c).2 (hopen hpeer)
    exact ⟨hfd', by rw [ht.at_source.entry, hfd']; rfl⟩

/-- Two clients, of which the first one closes. The batch that tells of it has an event of the
listening socket after it, and the third connection gets the number of the first. -/
def reuseInBatch : List EpollLabel :=
  [.connect, .connect, .wait, .next, .accept (.watched 5), .accept (.watched 6), .acceptAgain,
    .hangup 0 false, .connect, .arrive 1 Reader.registration.frame, .wait, .next, .next,
    .accept (.watched 5), .acceptAgain]

/-- The event of the second connection is handled after that. -/
def restOfBatch : List EpollLabel :=
  [.next, .read (.data 4), .read (.data 79), .read .again]

/-- The second connection's event is still one of it, and both connections stay. -/
theorem run_events_fresh_reuseInBatch :
    let s := Machine.last step init reuseInBatch
    let t := Machine.last step s restOfBatch
    s.watch.sources.Nodup ∧ s.fds 5 = some 2 ∧ s.fds 6 = some 1 ∧ t.fds 5 = some 2 ∧
      t.fds 6 = some 1 ∧ (t.registry.clients.lookup 6).isSome := by
  intro s t
  obtain ⟨outs, hrun⟩ : ∃ outs, Machine.run step init reuseInBatch = some (outs, s) :=
    Machine.exists_run_eq_last _ _ (by decide +kernel)
  obtain ⟨outs', hrun'⟩ : ∃ outs, Machine.run step s restOfBatch = some (outs, t) :=
    Machine.exists_run_eq_last _ _ (by decide +kernel)
  obtain ⟨hnodup, -, -, hopen⟩ := run_events_fresh hrun hrun'
  have h5 : s.fds 5 = some 2 := by decide +kernel
  have h6 : s.fds 6 = some 1 := by decide +kernel
  obtain ⟨h6', hentry⟩ := hopen 1 6 h6 (by decide +kernel)
  exact ⟨hnodup, h5, h6, (hopen 2 5 h5 (by decide +kernel)).1, h6', hentry⟩

end Runs

end Epoll

end MemoryGovernor
