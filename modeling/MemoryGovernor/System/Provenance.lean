import MemoryGovernor.System.Sound

/-!
# Where a SHRINK comes from

A SHRINK on its way to a client was computed by an earlier broadcast from the entry of the client's
connection, and the entry is the placeholder `0` until the daemon has read a size from that
connection. `FromTold` says that it was computed from a size that the client had told. In a run
whose broadcasts of SHRINKs find every client's size told, that holds of every SHRINK
(`shrink_from_told`). In other runs it need not: a client is accepted before it registers, and one
that its listener reconnects never registers (`shrink_from_placeholder`).
-/

namespace MemoryGovernor

open ClientRegistry (TellsSize toldSize)

namespace System

variable {A : ClientId → LinkedHeap.Allocator} {configs : ClientId → ClientConfig}

/-- A broadcast of a SHRINK finds that the daemon has read a size from every connection that is the
socket of the client that opened it. -/
def ToldBeforeShrink (st : System) : Event → Prop
  | .broadcast .shrink _ => ∀ e ∈ st.registry.clients.entries, ∀ c ∈ st.fds e.1,
      (st.clients (st.conns c).peer).sock_fd = some c →
      ∃ msg ∈ (st.conns c).up.received, TellsSize msg
  | _ => True

instance (st : System) : (e : Event) → Decidable (ToldBeforeShrink st e)
  | .broadcast .shrink _ =>
    inferInstanceAs (Decidable (∀ e ∈ st.registry.clients.entries, ∀ c ∈ st.fds e.1,
      (st.clients (st.conns c).peer).sock_fd = some c →
      ∃ msg ∈ (st.conns c).up.received, TellsSize msg))
  | .client _ _ | .connect _ | .reconnect _ | .stop _ | .accept _ | .receive _ | .remove _
  | .restart | .broadcast .grow _ => isTrue trivial

/-- In the run of `es`, the message on its way to client `k`, whose socket is connection `c`, was
computed by a broadcast from a size that the client had sent on `c` before. -/
def FromTold (A : ClientId → LinkedHeap.Allocator) (configs : ClientId → ClientConfig)
    (es : List Event) (k : ClientId) (c : ConnId) (msg : Message) : Prop :=
  ∃ (pre : List Event) (fraction : ℚ) (post : List Event) (os : List (Option Message))
      (st : System), es = pre ++ .broadcast .shrink fraction :: post ∧
    Machine.run (step A) (init configs) pre = some (os, st) ∧
    (st.clients k).sock_fd = some c ∧ ∃ told ∈ (st.conns c).up.sent, TellsSize told ∧
      msg.target_bytes.toNat = ⌊told.current_size_bytes.toNat * (1 - fraction)⌋₊

/-- The origin of a message does not depend on what comes later. -/
theorem FromTold.append {es : List Event} {k : ClientId} {c : ConnId} {msg : Message}
    (h : FromTold A configs es k c msg) (e : Event) : FromTold A configs (es ++ [e]) k c msg := by
  obtain ⟨pre, fraction, post, os, st, rfl, h⟩ := h
  exact ⟨pre, fraction, post ++ [e], os, st, by simp, h⟩

/-- What a broadcast of a SHRINK sends to a client whose size is told is computed from it. -/
theorem fromTold_of_commanded {es : List Event} {os : List (Option Message)} {st : System}
    (hrun : Machine.run (step A) (init configs) es = some (os, st)) {e : Event} {k : ClientId}
    {c : ConnId} (hs : (st.clients k).sock_fd = some c) (htold : ToldBeforeShrink st e)
    {msg : Message} (hmsg : Commanded st e k msg) (htype : msg.type = .SHRINK) :
    FromTold A configs (es ++ [e]) k c msg := by
  have hw := (run_sound hrun).wired
  obtain ⟨cmd, fraction, c', fd, info, rfl, hs', hfd, hlook, hcmd⟩ := hmsg
  obtain rfl : c = c' := Option.some.inj (hs.symm.trans hs')
  obtain ⟨t, ht, rfl⟩ := Option.map_eq_some_iff.1 hcmd
  obtain rfl : cmd = .shrink := by
    cases cmd with
    | shrink => rfl
    | grow => exact nomatch htype
  -- The entry is the client's, so the condition on the broadcast is about it.
  have hpeer : (st.clients (st.conns c).peer).sock_fd = some c := by rw [hw.sock_peer k c hs, hs]
  obtain ⟨told, hmem, htells, hsize⟩ := ClientRegistry.exists_toldSize
    (htold ⟨fd, info⟩ (AList.mem_lookup_iff.1 hlook) c hfd hpeer)
  have hentry := hw.entry fd c hfd
  rw [hlook] at hentry
  refine ⟨es, fraction, [], os, st, rfl, hrun, hs, told, List.mem_append_left _ hmem, htells, ?_⟩
  rw [truncate_toNat ht, Option.some.inj hentry, ClientRegistry.replay_current_size, hsize]
  rfl

/-- In a run whose SHRINKs are broadcast only when every client's size is told, every SHRINK on its
way to a client is computed from a size that the client told. -/
theorem sent_fromTold (es : List Event) {os : List (Option Message)} {st : System}
    (hrun : Machine.run (step A) (init configs) es = some (os, st))
    (htold : Machine.Along (step A) ToldBeforeShrink (init configs) es) {k : ClientId} {c : ConnId}
    (hs : (st.clients k).sock_fd = some c) {msg : Message} (hmsg : msg ∈ (st.conns c).down.sent)
    (htype : msg.type = .SHRINK) : FromTold A configs es k c msg := by
  induction es using List.reverseRecOn generalizing os st k c msg with
  | nil =>
    obtain ⟨-, rfl⟩ := Prod.mk.inj (Option.some.inj hrun)
    exact nomatch hs
  | append_singleton es e ih =>
    obtain ⟨os₁, st₁, os₂, hrun₁, hrun₂, -⟩ := Machine.run_append_eq_some.1 hrun
    obtain ⟨htold₁, htold₂⟩ := Machine.along_append htold hrun₁
    obtain ⟨o, hstep, -⟩ := Machine.run_singleton_eq_some.1 hrun₂
    have hlink := step_linkStep (run_sound hrun₁).wired hstep k
    have hconn : (st.link k).conn = some (st.conns c) := by rw [link_of_sock hs]
    -- A connection just opened has nothing on it; on the same one the message is old or commanded.
    rcases hlink.sent_down hconn with hnil | ⟨hsock, conn, hconn₁, hdown⟩
    · rw [hnil] at hmsg
      exact nomatch hmsg
    · have hs₁ : (st₁.clients k).sock_fd = some c := hsock.symm.trans hs
      rw [link_of_sock hs₁] at hconn₁
      obtain rfl := Option.some.inj hconn₁
      rcases hdown msg hmsg with hold | hnew
      · exact (ih hrun₁ htold₁ hs₁ hold htype).append e
      · exact fromTold_of_commanded hrun₁ hs₁ htold₂.1 hnew htype

/-- In a run whose SHRINKs are broadcast only when every client's size is told, the SHRINK that a
client's listener reads next, in any state reached, is computed from a size that the client had sent
on the same connection before the broadcast. -/
theorem shrink_from_told {es : List Event} {os : List (Option Message)} {st : System}
    (hrun : Machine.run (step A) (init configs) es = some (os, st))
    (htold : Machine.Along (step A) ToldBeforeShrink (init configs) es) {k : ClientId}
    {msg : Message} {l : Link} (hin : (st.link k).incoming = some (msg, l))
    (htype : msg.type = .SHRINK) :
    ∃ c, (st.clients k).sock_fd = some c ∧ FromTold A configs es k c msg := by
  obtain ⟨-, -, conn, down, hconn, hrecv, -⟩ := Link.incoming_eq_some.1 hin
  obtain ⟨c, hs, rfl⟩ := Option.map_eq_some_iff.1 hconn
  exact ⟨c, hs, sent_fromTold es hrun htold hs (Channel.mem_sent_of_receive? hrecv) htype⟩

/-- A client registers with two entries before a SHRINK by half. -/
theorem shrink_from_told_registered :
    let configs : ClientId → ClientConfig := fun _ => ⟨77, 4, 256⟩
    let es : List Event := [.client 0 (.put "a" "1"), .client 0 (.put "b" "2"), .connect 0,
      .client 0 .register, .accept 5, .receive 5, .broadcast .shrink (1/2)]
    let st := Machine.last (step fun _ => .above) (init configs) es
    Machine.Along (step fun _ => .above) ToldBeforeShrink (init configs) es ∧
      (st.link 0).incoming.map Prod.fst = some { type := .SHRINK, target_bytes := 256 } ∧
      ∃ c, (st.clients 0).sock_fd = some c ∧
        FromTold (fun _ => .above) configs es 0 c { type := .SHRINK, target_bytes := 256 } := by
  intro configs es st
  obtain ⟨os, hrun⟩ : ∃ os, Machine.run (step fun _ => .above) (init configs) es = some (os, st) :=
    Machine.exists_run_eq_last _ _ (by decide +kernel)
  have htold : Machine.Along (step fun _ => .above) ToldBeforeShrink (init configs) es := by
    decide +kernel
  have hin : (st.link 0).incoming.map Prod.fst =
      some { type := .SHRINK, target_bytes := 256 } := by decide +kernel
  refine ⟨htold, hin, ?_⟩
  obtain ⟨⟨msg, l⟩, hin, rfl⟩ := Option.map_eq_some_iff.1 hin
  exact shrink_from_told hrun htold hin rfl

/-- A client is accepted, and a SHRINK is broadcast before it registers. The listener then reads a
SHRINK to the placeholder, though the client had sent no size. -/
theorem shrink_from_placeholder :
    let configs : ClientId → ClientConfig := fun _ => ⟨77, 4, 256⟩
    let es : List Event := [.connect 0, .accept 5, .broadcast .shrink (1/2), .client 0 .register]
    let st := Machine.last (step fun _ => .above) (init configs) es
    (∃ os, Machine.run (step fun _ => .above) (init configs) es = some (os, st)) ∧
      (st.clients 0).sock_fd = some 0 ∧
      (st.link 0).incoming.map Prod.fst = some { type := .SHRINK, target_bytes := 0 } ∧
      ¬ FromTold (fun _ => .above) configs es 0 0 { type := .SHRINK, target_bytes := 0 } := by
  intro configs es st
  refine ⟨Machine.exists_run_eq_last _ _ (by decide +kernel), by decide +kernel,
    by decide +kernel, ?_⟩
  rintro ⟨pre, fraction, post, os, st₀, hes, hrun, -, told, htold, -⟩
  -- The broadcast is the third event, and the client has sent nothing before it.
  have hpre : pre = [.connect 0, .accept 5] := by
    rcases pre with _ | ⟨a, _ | ⟨b, _ | ⟨c, _ | ⟨d, pre⟩⟩⟩⟩ <;> simp_all [es]
  have hlast : st₀ = Machine.last (step fun _ => .above) (init configs)
      [.connect 0, .accept 5] := by
    rw [← hpre, Machine.last, hrun]
    rfl
  have hsent : (st₀.conns 0).up.sent = [] := by
    rw [hlast]
    decide +kernel
  rw [hsent] at htold
  exact nomatch htold

end System

end MemoryGovernor
