import MemoryGovernor.System.Sound

/-!
# What a SHRINK does

One client, connected through a descriptor of the daemon, with nothing in flight either way. The
daemon broadcasts a SHRINK, the application calls `get` and `put` for a while, and the client
handles the command. `run_shrink` computes the size of the cache then: the target, in entries, comes
from the size recorded, and counts only if it is below the capacity.

So a SHRINK takes effect exactly if the capacity is not zero (`shrink_effective_iff`): once an
earlier target below one entry has made it zero, the cache grows without bound and no target is
below it any more. And it evicts more than its fraction exactly if the size recorded, which no `put`
refreshes, is too far behind the cache (`shrink_keeps_fraction_iff`).
-/

namespace MemoryGovernor

open ClientRegistry (replay toldSize commandMessage)

/-! ## Calls of the application -/

/-- A call of the application on its cache. -/
inductive AppCall
  | put (key value : String)
  | get (key : String)
deriving DecidableEq, Repr

namespace AppCall

/-- The event of a call. -/
def event : AppCall → ClientEvent
  | put key value => .put key value
  | get key => .get key

/-- The call is a `put`. -/
def Writes : AppCall → Prop
  | put _ _ => True
  | get _ => False

/-- The cache after a call. -/
def apply (A : LinkedHeap.Allocator) (cache : SoundCache String String) :
    AppCall → SoundCache String String
  | put key value => cache.put A key value
  | get key => (cache.get key).2

/-- The cache after a sequence of calls. -/
def applyAll (A : LinkedHeap.Allocator) (cache : SoundCache String String) (calls : List AppCall) :
    SoundCache String String :=
  calls.foldl (apply A) cache

variable {A : LinkedHeap.Allocator} {cache : SoundCache String String}

theorem apply_capacity (call : AppCall) : (apply A cache call).capacity = cache.capacity := by
  cases call with
  | put key value => exact cache.put_capacity A key value
  | get key => exact (cache.get_size_capacity key).2

theorem size_le_apply (call : AppCall) : cache.size ≤ (apply A cache call).size := by
  cases call with
  | put key value => exact cache.size_le_put A key value
  | get key => exact (cache.get_size_capacity key).1.ge

theorem apply_bounded (h : cache.Bounded) (call : AppCall) : (apply A cache call).Bounded := by
  cases call with
  | put key value => exact h.put A key value
  | get key => exact h.get key

/-- A cache is empty after a call exactly if it was and the call is no `put`. -/
theorem apply_size_eq_zero (call : AppCall) :
    (apply A cache call).size = 0 ↔ cache.size = 0 ∧ ¬ call.Writes := by
  cases call with
  | put key value => simp [apply, Writes, (cache.put_size_pos A key value).ne']
  | get key => simp [apply, Writes, (cache.get_size_capacity key).1]

/-- Calls keep the capacity and the bound, and never make the cache smaller. -/
theorem applyAll_spec (calls : List AppCall) :
    (applyAll A cache calls).capacity = cache.capacity ∧
      cache.size ≤ (applyAll A cache calls).size ∧
      (cache.Bounded → (applyAll A cache calls).Bounded) ∧
      ((applyAll A cache calls).size = 0 ↔ cache.size = 0 ∧ ∀ call ∈ calls, ¬ call.Writes) := by
  unfold applyAll
  induction calls generalizing cache with
  | nil => simp
  | cons call calls ih =>
    obtain ⟨hcap, hle, hbounded, hzero⟩ := @ih (apply A cache call)
    rw [List.foldl_cons]
    refine ⟨hcap.trans (apply_capacity call), (size_le_apply call).trans hle,
      fun h => hbounded (apply_bounded h call), ?_⟩
    rw [hzero, apply_size_eq_zero, List.forall_mem_cons, and_assoc]

end AppCall

namespace Link

/-- A SHRINK takes effect if its target, in entries, is below the capacity. -/
theorem deliver_shrink {A : LinkedHeap.Allocator} {l : Link} {conn : Connection} {msg : Message}
    {down : Channel Message} (hl : l.client.listening = true) (hc : l.client.connected = true)
    (hconn : l.conn = some conn) (hrecv : conn.down.receive? = some (msg, down))
    (htype : msg.type = .SHRINK) (he : l.client.cache.estimated_entry_bytes ≠ 0) :
    ∃ l', l.step A .deliver = some (some msg, l') ∧
      let target := msg.target_bytes.toNat / l.client.cache.estimated_entry_bytes.toNat
      l'.size = if target < l.client.cache.cache.capacity then min target l.size else l.size := by
  have hin : l.incoming = some (msg, { l with conn := some { conn with down := down } }) :=
    incoming_eq_some.2 ⟨hl, hc, conn, down, hconn, hrecv, rfl⟩
  -- The read leaves the cache as it was.
  generalize hl₀ : ({ l with conn := some { conn with down := down } } : Link) = l₀ at hin
  have hclient : l₀.client = l.client := by rw [← hl₀]
  obtain ⟨r, hr⟩ : ∃ r, l.client.cache.handleShrink msg.target_bytes = some r :=
    GovernedCache.exists_applyTarget _ he msg.target_bytes
  rw [← hclient] at hr
  have hproc : l₀.processMessage msg = some (l₀.applied r) := by
    rw [processMessage, htype]
    exact Option.map_eq_some_iff.2 ⟨r, hr, rfl⟩
  refine ⟨_, deliver_eq_some.2 ⟨msg, _, hin, hproc, rfl⟩, ?_⟩
  simp only [size, ← hclient]
  obtain ⟨hlt, hsame⟩ | ⟨hlt, heq⟩ := applied_cases hr
  · rw [hsame, if_neg (of_decide_eq_false hlt)]
  · rw [heq, reportSize, send_cache, if_pos (of_decide_eq_true hlt)]
    exact SoundCache.resize_size _ _

end Link

namespace System

variable {A : ClientId → LinkedHeap.Allocator} {configs : ClientId → ClientConfig}
  {st st' : System} {k : ClientId} {info : ClientInfo}

/-- Client `k` is connected through a descriptor whose entry is `info`, its listener runs, and no
message is in flight. -/
structure Quiet (st : System) (k : ClientId) (info : ClientInfo) : Prop where
  connected : (st.clients k).connected = true
  listening : (st.clients k).listening = true
  route : ∃ c fd, (st.clients k).sock_fd = some c ∧ st.fds fd = some c ∧
    st.registry.clients.lookup fd = some info ∧
    (st.conns c).up.pending = [] ∧ (st.conns c).down.pending = []

/-- A broadcast of a SHRINK, calls of the application on client `k`'s cache, and the delivery of the
command to it. -/
def shrinkEvents (k : ClientId) (fraction : ℚ) (calls : List AppCall) : List Event :=
  .broadcast .shrink fraction ::
    (calls.map (fun call => .client k call.event) ++ [.client k .deliver])

/-- The size recorded for a quiet client is that of no more entries than it holds. -/
theorem Quiet.recorded_le (hq : Quiet st k info) (h : Sound configs st) :
    info.current_size_bytes.toNat ≤
      (st.link k).size * (configs k).estimated_entry_bytes.toNat := by
  obtain ⟨c, fd, hs, hfd, hlook, hup, -⟩ := hq.route
  obtain ⟨n, hn, htold⟩ := (h.link k).told hq.connected (st.conns c) (by rw [link_of_sock hs])
  have hentry := h.wired.entry fd c hfd
  rw [hlook] at hentry
  -- With nothing in flight, the size recorded is the one told last.
  have hsize : info.current_size_bytes = UInt64.ofNat n * (configs k).estimated_entry_bytes := by
    rw [Option.some.inj hentry, ClientRegistry.replay_current_size, ← h.entry_bytes k]
    simpa [Channel.sent, hup, link] using htold
  rw [hsize, UInt64.toNat_mul, UInt64.toNat_ofNat']
  calc n % 2^64 * (configs k).estimated_entry_bytes.toNat % 2^64
      ≤ n % 2^64 * (configs k).estimated_entry_bytes.toNat := Nat.mod_le _ _
    _ ≤ (st.link k).size * (configs k).estimated_entry_bytes.toNat :=
      Nat.mul_le_mul_right _ ((Nat.mod_le _ _).trans hn)

/-- A broadcast of a SHRINK is defined, and puts into flight to a quiet client the message computed
from its entry. -/
theorem Quiet.broadcast_shrink (hq : Quiet st k info) (h : Sound configs st) {fraction : ℚ}
    (h0 : 0 ≤ fraction) (h1 : fraction ≤ 1) :
    ∃ st₁ conn msg, st.broadcast .shrink fraction = some st₁ ∧
      st₁.link k = ⟨st.clients k, some conn⟩ ∧ conn.down.pending = [msg] ∧ msg.type = .SHRINK ∧
      msg.target_bytes.toNat = ⌊info.current_size_bytes.toNat * (1 - fraction)⌋₊ := by
  obtain ⟨c, fd, hs, hfd, hlook, -, hdown⟩ := hq.route
  obtain ⟨ms, hms⟩ := ClientRegistry.exists_commands fun _ info' _ =>
    ClientRegistry.exists_shrink_message h0 h1 info'
  have hst₁ : st.broadcast .shrink fraction = some (ms.foldl sendToClient st) := by
    rw [broadcast, hms, Option.map_some]
  have hentry := h.wired.entry fd c hfd
  rw [hlook] at hentry
  obtain ⟨msg, hmsg, hconn⟩ := broadcast_conns h.wired hst₁ hfd
  rw [← Option.some.inj hentry] at hmsg
  obtain ⟨t, ht, hmsg⟩ := Option.map_eq_some_iff.1 hmsg
  obtain ⟨conn, hc, hopen⟩ := (h.link k).socket hq.connected
  rw [link_of_sock hs] at hc
  obtain rfl := Option.some.inj hc
  have hs₁ : ((ms.foldl sendToClient st).clients k).sock_fd = some c := by simpa using hs
  refine ⟨_, (st.conns c).sendDown msg, msg, hst₁, ?_, ?_, by rw [← hmsg]; rfl, ?_⟩
  · rw [link_of_sock hs₁, hconn, foldl_sendToClient_clients]
  · simp [Connection.sendDown, hopen, hdown]
  · rw [← hmsg]
    exact truncate_toNat ht

/-- Calls of the application change its cache and nothing else that the client sees. -/
theorem run_calls (calls : List AppCall) (st : System) :
    ∃ os st', Machine.run (step A) st (calls.map fun call => .client k call.event) =
      some (os, st') ∧ st'.link k = (st.link k).withCache
        (AppCall.applyAll (A k) (st.link k).client.cache.cache calls) := by
  induction calls generalizing st with
  | nil => exact ⟨[], st, rfl, rfl⟩
  | cons call calls ih =>
    have hcall : (st.link k).step (A k) call.event =
        some (none, (st.link k).withCache (call.apply (A k) (st.link k).client.cache.cache)) := by
      cases call <;> rfl
    generalize hl : (st.link k).withCache (call.apply (A k) (st.link k).client.cache.cache) = l
      at hcall
    have hstep : step A st (.client k call.event) = some (none, st.setLink k l) := by
      rw [step, hcall, Option.map_some]
    obtain ⟨os, st', hrun, hlink⟩ := ih (st.setLink k l)
    rw [link_setLink_self (by rw [← hl]; rfl), ← hl] at hlink
    exact ⟨none :: os, st', Machine.run_cons_eq_some.2 ⟨none, _, os, hstep, hrun, rfl⟩, hlink⟩

/-- The run of a broadcast, calls, and the delivery, from a quiet client: the size of the cache at
its end. -/
theorem run_shrink (h : Sound configs st) (hq : Quiet st k info)
    (he : (configs k).estimated_entry_bytes ≠ 0) {fraction : ℚ} (h0 : 0 ≤ fraction)
    (h1 : fraction ≤ 1) (calls : List AppCall) :
    ∃ os msg st', Machine.run (step A) st (shrinkEvents k fraction calls) =
      some (os ++ [some msg], st') ∧ msg.type = .SHRINK ∧
      let cache := (st.link k).client.cache.cache
      let size := (AppCall.applyAll (A k) cache calls).size
      let target := ⌊info.current_size_bytes.toNat * (1 - fraction)⌋₊ /
        (configs k).estimated_entry_bytes.toNat
      (st'.link k).size = if target < cache.capacity then min target size else size := by
  obtain ⟨st₁, conn, msg, hst₁, hlink₁, hdown, htype, htarget⟩ := hq.broadcast_shrink h h0 h1
  obtain ⟨os, st₂, hrun, hlink₂⟩ := run_calls calls st₁
  rw [hlink₁] at hlink₂
  have hrecv : conn.down.receive? = some (msg, ⟨conn.down.received ++ [msg], []⟩) :=
    Channel.receive?_eq_some.2 ⟨hdown, rfl⟩
  have hbytes := h.entry_bytes k
  have hne : (st.clients k).cache.estimated_entry_bytes ≠ 0 := by
    rw [hbytes]
    exact he
  obtain ⟨l, hdeliver, hsize⟩ := Link.deliver_shrink (A := A k) (l := st₂.link k)
    (by rw [hlink₂]; exact hq.listening) (by rw [hlink₂]; exact hq.connected)
    (by rw [hlink₂]; rfl) hrecv htype (by rw [hlink₂]; exact hne)
  have hends := Link.step_ends hdeliver
  have hstep : step A st₂ (.client k .deliver) = some (some msg, st₂.setLink k l) := by
    rw [step, hdeliver, Option.map_some]
  refine ⟨none :: os, msg, st₂.setLink k l, Machine.run_cons_eq_some.2
    ⟨none, st₁, os ++ [some msg], by rw [step, hst₁, Option.map_some], ?_, rfl⟩, htype, ?_⟩
  · exact Machine.run_append_eq_some.2 ⟨os, st₂, [some msg], hrun,
      Machine.run_singleton_eq_some.2 ⟨_, hstep, rfl⟩, rfl⟩
  · rw [link_setLink_self hends, hsize, htarget, hlink₂]
    simp only [Link.withCache, Link.size, hbytes, AppCall.applyAll_spec]
    rfl

/-! ## The effect -/

section Arithmetic

variable {n m c t s e : ℕ} {fraction : ℚ}

/-- The target in entries is worth no more than the fraction of the size it is computed from. -/
theorem target_mul_le (h1 : fraction ≤ 1) (hs : s ≤ n * e) :
    ((⌊s * (1 - fraction)⌋₊ / e : ℕ) * e : ℚ) ≤ (1 - fraction) * (n * e) := by
  have hnonneg : 0 ≤ s * (1 - fraction) := mul_nonneg (Nat.cast_nonneg _) (by linarith)
  calc ((⌊s * (1 - fraction)⌋₊ / e : ℕ) * e : ℚ)
      ≤ ⌊s * (1 - fraction)⌋₊ := by exact_mod_cast Nat.div_mul_le_self _ e
    _ ≤ s * (1 - fraction) := Nat.floor_le hnonneg
    _ ≤ (n * e : ℕ) * (1 - fraction) :=
      mul_le_mul_of_nonneg_right (by exact_mod_cast hs) (by linarith)
    _ = (1 - fraction) * (n * e) := by push_cast; ring

/-- What a SHRINK leaves is within the fraction exactly if the capacity is not zero or nothing is
left. Here `n` entries have become `m`, the capacity is `c` and the target `t`. -/
theorem size_le_fraction_iff (he : 0 < e) (h0 : 0 < fraction) (h1 : fraction ≤ 1) (hnm : n ≤ m)
    (hmc : 0 < c → m ≤ c) (ht : (t * e : ℚ) ≤ (1 - fraction) * (n * e)) :
    (((if t < c then min t m else m : ℕ) * e : ℚ) ≤ (1 - fraction) * (n * e)) ↔
      0 < c ∨ m = 0 := by
  have he' : (0 : ℚ) < e := by exact_mod_cast he
  rcases Nat.eq_zero_or_pos c with rfl | hc
  · -- At capacity zero no target is below it, and all `m` entries stay.
    simp only [Nat.not_lt_zero, if_false, lt_irrefl, false_or]
    constructor
    · intro hle
      by_contra hm
      have hm' : (0 : ℚ) < m := by exact_mod_cast Nat.pos_of_ne_zero hm
      have hnm' : (n : ℚ) ≤ m := by exact_mod_cast hnm
      nlinarith [mul_pos (mul_pos h0 hm') he', mul_nonneg (sub_nonneg.2 h1)
        (mul_nonneg (sub_nonneg.2 hnm') he'.le)]
    · rintro rfl
      obtain rfl := Nat.le_zero.1 hnm
      simp
  · -- Otherwise at most the target stays, applied or not.
    simp only [hc, true_or, iff_true]
    refine le_trans ?_ ht
    have hle : (if t < c then min t m else m) ≤ t := by
      split_ifs with htc
      · exact min_le_left t m
      · exact (hmc hc).trans (not_lt.1 htc)
    gcongr

/-- It keeps as many entries as the fraction of what there were exactly if the capacity is zero or
the size `s` that the target is computed from pays for them. -/
theorem fraction_le_size_iff (he : 0 < e) (h0 : 0 ≤ fraction) (h1 : fraction ≤ 1) (hnm : n ≤ m)
    (hmc : 0 < c → m ≤ c) (ht : t = ⌊s * (1 - fraction)⌋₊ / e) :
    ⌊(1 - fraction) * n⌋₊ ≤ (if t < c then min t m else m) ↔
      c = 0 ∨ (⌊(1 - fraction) * n⌋₊ * e : ℚ) ≤ (1 - fraction) * s := by
  have hnonneg : 0 ≤ s * (1 - fraction) := mul_nonneg (Nat.cast_nonneg _) (by linarith)
  have hqt : ⌊(1 - fraction) * n⌋₊ ≤ t ↔
      (⌊(1 - fraction) * n⌋₊ * e : ℚ) ≤ (1 - fraction) * s := by
    rw [ht, Nat.le_div_iff_mul_le he, Nat.le_floor_iff hnonneg, mul_comm (s : ℚ)]
    push_cast
    rfl
  have hqm : ⌊(1 - fraction) * n⌋₊ ≤ m := by
    refine le_trans (Nat.floor_le_of_le ?_) hnm
    nlinarith [mul_nonneg h0 (Nat.cast_nonneg (α := ℚ) n)]
  rw [← hqt]
  split_ifs with htc
  · have hc : c ≠ 0 := (Nat.zero_le t).trans_lt htc |>.ne'
    simp [hc, hqm]
  · -- A target that does not count is at least the capacity, which the entries are within.
    simp only [hqm, true_iff]
    rcases Nat.eq_zero_or_pos c with hc | hc
    · exact .inl hc
    · exact .inr (hqm.trans ((hmc hc).trans (not_lt.1 htc)))

end Arithmetic

/-- The number of bytes of an entry is positive if it is not zero. -/
theorem entry_bytes_pos (he : (configs k).estimated_entry_bytes ≠ 0) :
    0 < (configs k).estimated_entry_bytes.toNat :=
  Nat.pos_of_ne_zero fun h => he (UInt64.toNat_inj.1 h)

/-- After calls of the application on a sound client's cache it is still within its capacity, if
that is not zero. -/
theorem applyAll_size_le (h : Sound configs st) (calls : List AppCall)
    (hc : 0 < (st.clients k).cache.cache.capacity) :
    (AppCall.applyAll (A k) (st.clients k).cache.cache calls).size ≤
      (st.clients k).cache.cache.capacity := by
  obtain ⟨hcap, -, hbounded, -⟩ := @AppCall.applyAll_spec (A k) (st.clients k).cache.cache calls
  have hle := hbounded (h.link k).bounded
  rw [SoundCache.Bounded, hcap] at hle
  exact hle hc

/-- In every state of every run, and whatever the application does meanwhile: once a client that was
quiet has handled a SHRINK, its cache is within the fraction of what it was, exactly if its capacity
was not zero, or it was empty and nothing was put into it. -/
theorem shrink_effective_iff {es : List Event} {os : List (Option Message)}
    (hrun : Machine.run (step A) (init configs) es = some (os, st)) (hq : Quiet st k info)
    (he : (configs k).estimated_entry_bytes ≠ 0) {fraction : ℚ} (h0 : 0 < fraction)
    (h1 : fraction ≤ 1) (calls : List AppCall) :
    let cache := (st.clients k).cache.cache
    let e := (configs k).estimated_entry_bytes.toNat
    ∃ os' msg st', Machine.run (step A) st (shrinkEvents k fraction calls) =
      some (os' ++ [some msg], st') ∧ msg.type = .SHRINK ∧
      (((st'.clients k).cache.cache.size * e : ℚ) ≤ (1 - fraction) * (cache.size * e) ↔
        0 < cache.capacity ∨ cache.size = 0 ∧ ∀ call ∈ calls, ¬ call.Writes) := by
  intro cache e
  have h := run_sound hrun
  obtain ⟨os', msg, st', hrun', htype, hsize⟩ := run_shrink h hq he h0.le h1 calls
  obtain ⟨-, hle, -, hzero⟩ := @AppCall.applyAll_spec (A k) cache calls
  refine ⟨os', msg, st', hrun', htype, ?_⟩
  rw [show (st'.clients k).cache.cache.size = _ from hsize, ← hzero]
  exact size_le_fraction_iff (entry_bytes_pos he) h0 h1 hle (applyAll_size_le h calls)
    (target_mul_le h1 (hq.recorded_le h))

/-- A client that registered with two entries, quiet at a SHRINK by half: with a third entry put
before it handles the command, it is left with no more than half of what the two were worth. -/
theorem shrink_effective_iff_registered :
    let configs : ClientId → ClientConfig := fun _ => ⟨77, 4, 256⟩
    let es : List Event := [.client 0 (.put "a" "1"), .client 0 (.put "b" "2"), .connect 0,
      .client 0 .register, .accept 5, .receive 5]
    let st := Machine.last (step fun _ => .above) (init configs) es
    Quiet st 0 ⟨5, 77, 512, 0⟩ ∧ (configs 0).estimated_entry_bytes ≠ 0 ∧
      ∃ os msg st', Machine.run (step fun _ => .above) st
          (shrinkEvents 0 (1/2) [.put "c" "3"]) = some (os ++ [some msg], st') ∧
        msg.type = .SHRINK ∧ ((st'.clients 0).cache.cache.size * (256 : ℕ) : ℚ) ≤
          (1 - 1/2) * ((st.clients 0).cache.cache.size * (256 : ℕ)) := by
  intro configs es st
  obtain ⟨os, hrun⟩ : ∃ os, Machine.run (step fun _ => .above) (init configs) es = some (os, st) :=
    Machine.exists_run_eq_last _ _ (by decide +kernel)
  have hq : Quiet st 0 ⟨5, 77, 512, 0⟩ :=
    ⟨by decide +kernel, by decide +kernel, 0, 5, by decide +kernel⟩
  have he : (configs 0).estimated_entry_bytes ≠ 0 := by decide
  obtain ⟨os', msg, st', hrun', htype, heffect⟩ :=
    shrink_effective_iff hrun hq he one_half_pos one_half_lt_one.le [.put "c" "3"]
  have hcap : 0 < (st.clients 0).cache.cache.capacity := by decide +kernel
  exact ⟨hq, he, os', msg, st', hrun', htype, heffect.2 (.inl hcap)⟩

/-- A client that registers an empty cache is shrunk to capacity zero. What is put into its cache
afterwards is out of reach of every later SHRINK: quiet with two entries, it still has both after a
SHRINK by half. -/
theorem shrink_not_effective_at_zero :
    let configs : ClientId → ClientConfig := fun _ => ⟨77, 4, 256⟩
    let es : List Event := [.connect 0, .client 0 .register, .accept 5, .receive 5,
      .broadcast .shrink (1/2), .client 0 .deliver, .receive 5,
      .client 0 (.put "a" "1"), .client 0 (.put "b" "2")]
    let st := Machine.last (step fun _ => .above) (init configs) es
    (∃ os, Machine.run (step fun _ => .above) (init configs) es = some (os, st)) ∧
      Quiet st 0 ⟨5, 77, 0, 0⟩ ∧
      ∃ os st', Machine.run (step fun _ => .above) st (shrinkEvents 0 (1/2) []) = some (os, st') ∧
        ¬ ((st'.clients 0).cache.cache.size * (256 : ℕ) : ℚ) ≤
          (1 - 1/2) * ((st.clients 0).cache.cache.size * (256 : ℕ)) := by
  intro configs es st
  have hq : Quiet st 0 ⟨5, 77, 0, 0⟩ :=
    ⟨by decide +kernel, by decide +kernel, 0, 5, by decide +kernel⟩
  obtain ⟨os, hrun⟩ : ∃ os, Machine.run (step fun _ => .above) st (shrinkEvents 0 (1/2) []) =
      some (os, Machine.last (step fun _ => .above) st (shrinkEvents 0 (1/2) [])) :=
    Machine.exists_run_eq_last _ _ (by decide +kernel)
  exact ⟨Machine.exists_run_eq_last _ _ (by decide +kernel), hq, os, _, hrun, by decide +kernel⟩

/-- In every state of every run, and whatever the application does meanwhile: once a client that was
quiet has handled a SHRINK, its cache holds as many entries as the fraction of those it held,
exactly if its capacity was zero, or the size recorded for it pays, less the fraction, for as
many. -/
theorem shrink_keeps_fraction_iff {es : List Event} {os : List (Option Message)}
    (hrun : Machine.run (step A) (init configs) es = some (os, st)) (hq : Quiet st k info)
    (he : (configs k).estimated_entry_bytes ≠ 0) {fraction : ℚ} (h0 : 0 ≤ fraction)
    (h1 : fraction ≤ 1) (calls : List AppCall) :
    let cache := (st.clients k).cache.cache
    let e := (configs k).estimated_entry_bytes.toNat
    let kept := ⌊(1 - fraction) * cache.size⌋₊
    ∃ os' msg st', Machine.run (step A) st (shrinkEvents k fraction calls) =
      some (os' ++ [some msg], st') ∧ msg.type = .SHRINK ∧
      (kept ≤ (st'.clients k).cache.cache.size ↔
        cache.capacity = 0 ∨
          (kept * e : ℚ) ≤ (1 - fraction) * info.current_size_bytes.toNat) := by
  intro cache e kept
  have h := run_sound hrun
  obtain ⟨os', msg, st', hrun', htype, hsize⟩ := run_shrink h hq he h0 h1 calls
  obtain ⟨-, hle, -, -⟩ := @AppCall.applyAll_spec (A k) cache calls
  refine ⟨os', msg, st', hrun', htype, ?_⟩
  rw [show (st'.clients k).cache.cache.size = _ from hsize]
  exact fraction_le_size_iff (entry_bytes_pos he) h0 h1 hle (applyAll_size_le h calls) rfl

/-- A client that registered with two entries keeps one of them at a SHRINK by half. -/
theorem shrink_keeps_fraction_iff_registered :
    let configs : ClientId → ClientConfig := fun _ => ⟨77, 4, 256⟩
    let es : List Event := [.client 0 (.put "a" "1"), .client 0 (.put "b" "2"), .connect 0,
      .client 0 .register, .accept 5, .receive 5]
    let st := Machine.last (step fun _ => .above) (init configs) es
    Quiet st 0 ⟨5, 77, 512, 0⟩ ∧ (configs 0).estimated_entry_bytes ≠ 0 ∧
      ∃ os msg st', Machine.run (step fun _ => .above) st (shrinkEvents 0 (1/2) []) =
          some (os ++ [some msg], st') ∧ msg.type = .SHRINK ∧
        ⌊(1 - 1/2 : ℚ) * (2 : ℕ)⌋₊ ≤ (st'.clients 0).cache.cache.size := by
  intro configs es st
  obtain ⟨os, hrun⟩ : ∃ os, Machine.run (step fun _ => .above) (init configs) es = some (os, st) :=
    Machine.exists_run_eq_last _ _ (by decide +kernel)
  have hq : Quiet st 0 ⟨5, 77, 512, 0⟩ :=
    ⟨by decide +kernel, by decide +kernel, 0, 5, by decide +kernel⟩
  have he : (configs 0).estimated_entry_bytes ≠ 0 := by decide
  have hsize : (st.clients 0).cache.cache.size = 2 := by decide +kernel
  have hkept := shrink_keeps_fraction_iff hrun hq he one_half_pos.le one_half_lt_one.le []
  simp only [hsize] at hkept
  obtain ⟨os', msg, st', hrun', htype, hkept⟩ := hkept
  refine ⟨hq, he, os', msg, st', hrun', htype, hkept.2 (.inr ?_)⟩
  have hbytes : (configs 0).estimated_entry_bytes.toNat = 256 := rfl
  have htold : UInt64.toNat 512 = 512 := rfl
  rw [hbytes, htold]
  norm_num

/-- A client registers an empty cache and then fills it with two entries, which the daemon does not
learn. A SHRINK by half leaves it with none. -/
theorem shrink_evicts_all_unreported :
    let configs : ClientId → ClientConfig := fun _ => ⟨77, 4, 256⟩
    let es : List Event := [.connect 0, .client 0 .register, .accept 5, .receive 5,
      .client 0 (.put "a" "1"), .client 0 (.put "b" "2")]
    let st := Machine.last (step fun _ => .above) (init configs) es
    (∃ os, Machine.run (step fun _ => .above) (init configs) es = some (os, st)) ∧
      Quiet st 0 ⟨5, 77, 0, 0⟩ ∧
      ∃ os st', Machine.run (step fun _ => .above) st (shrinkEvents 0 (1/2) []) = some (os, st') ∧
        ¬ ⌊(1 - 1/2 : ℚ) * (st.clients 0).cache.cache.size⌋₊ ≤
          (st'.clients 0).cache.cache.size := by
  intro configs es st
  have hq : Quiet st 0 ⟨5, 77, 0, 0⟩ :=
    ⟨by decide +kernel, by decide +kernel, 0, 5, by decide +kernel⟩
  obtain ⟨os, hrun⟩ : ∃ os, Machine.run (step fun _ => .above) st (shrinkEvents 0 (1/2) []) =
      some (os, Machine.last (step fun _ => .above) st (shrinkEvents 0 (1/2) [])) :=
    Machine.exists_run_eq_last _ _ (by decide +kernel)
  refine ⟨Machine.exists_run_eq_last _ _ (by decide +kernel), hq, os, _, hrun, ?_⟩
  have hsize : (st.clients 0).cache.cache.size = 2 := by decide +kernel
  have hempty : ((Machine.last (step fun _ => .above) st
    (shrinkEvents 0 (1/2) [])).clients 0).cache.cache.size = 0 := by decide +kernel
  rw [hsize, hempty]
  norm_num

end System

end MemoryGovernor
