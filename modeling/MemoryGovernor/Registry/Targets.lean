import MemoryGovernor.Registry.EventLoop

/-!
# The range of the targets

Whether the products of `broadcast_shrink` and `broadcast_grow` (`src/governor/client_registry.cpp`)
are in the range of `uint64_t`, to which they are converted. A size is any number of 64 bits that a
client has sent. Scaled down it stays in the range; scaled up it does where it is small enough, and
otherwise the conversion is undefined (`inRange_iff_small`). For every fraction it does where it can
be doubled (`forall_inRange_iff`). No message is checked for this, so the sizes in the table are
small if those in all messages are (`preserves_sizes`).
-/

namespace MemoryGovernor

open ClientRegistry (commandMessage record TellsSize)

namespace EventLoop

/-- The fraction of a size that is added to it leaves it in the range. -/
def SmallSize (fraction : ℚ) (size : UInt64) : Prop := size.toNat * (1 + fraction) < 2^64

/-- Both targets of an entry are defined, that of a `SHRINK` is no larger than the size, and that of
a `GROW` is no smaller. -/
def EntryInRange (fraction : ℚ) (info : ClientInfo) : Prop :=
  ∃ shrink grow, commandMessage .shrink fraction info = some shrink ∧
    commandMessage .grow fraction info = some grow ∧
    shrink.target_bytes ≤ info.current_size_bytes ∧ info.current_size_bytes ≤ grow.target_bytes

/-- So they are for every client of the table. -/
def InRange (fraction : ℚ) (s : EventLoop) : Prop :=
  ∀ fd info, s.registry.clients.lookup fd = some info → EntryInRange fraction info

/-- Twice the size is in the range. -/
def DoublesInRange (size : UInt64) : Prop := size.toNat < 2^63

/-- Every size in the table meets `P`. -/
def Sizes (P : UInt64 → Prop) (s : EventLoop) : Prop :=
  ∀ fd info, s.registry.clients.lookup fd = some info → P info.current_size_bytes

/-- Every size that the messages of a batch tell meets `P`. -/
def TellsSizes (P : UInt64 → Prop) (_ : EventLoop) (batch : List EpollEvent) : Prop :=
  ∀ e ∈ batch, ∀ msg ∈ eventMessages e, TellsSize msg → P msg.current_size_bytes

instance (fraction : ℚ) (size : UInt64) : Decidable (SmallSize fraction size) :=
  inferInstanceAs (Decidable (_ < _))

instance (size : UInt64) : Decidable (DoublesInRange size) := inferInstanceAs (Decidable (_ < _))

instance (P : UInt64 → Prop) [DecidablePred P] (s : EventLoop) (batch : List EpollEvent) :
    Decidable (TellsSizes P s batch) := inferInstanceAs (Decidable (∀ _ ∈ _, _))

section Targets

variable {fraction : ℚ} {s t : EventLoop} {info : ClientInfo}

/-- A message with a target in the range. -/
theorem commandMessage_eq_some {cmd : Command} {msg : Message}
    (h : commandMessage cmd fraction info = some msg) :
    msg.target_bytes.toNat = ⌊(info.current_size_bytes.toNat : ℚ) * cmd.factor fraction⌋₊ := by
  obtain ⟨target_bytes, htarget, rfl⟩ := Option.map_eq_some_iff.1 h
  exact truncate_toNat htarget

/-- The target of a `GROW` is defined exactly for a small size. -/
theorem exists_grow_message (h0 : 0 ≤ fraction) :
    (∃ msg, commandMessage .grow fraction info = some msg) ↔
      SmallSize fraction info.current_size_bytes := by
  have hnonneg : (0 : ℚ) ≤ info.current_size_bytes.toNat * (1 + fraction) := by positivity
  constructor
  · rintro ⟨msg, h⟩
    obtain ⟨target_bytes, htarget, -⟩ := Option.map_eq_some_iff.1 h
    rw [truncate, Option.ite_none_right_eq_some] at htarget
    exact htarget.1.2
  · intro hsmall
    obtain ⟨target_bytes, htarget⟩ := truncate_isSome hnonneg hsmall
    exact ⟨_, Option.map_eq_some_iff.2 ⟨target_bytes, htarget, rfl⟩⟩

/-- Both targets are in range exactly for a small size. -/
theorem entryInRange_iff (h0 : 0 ≤ fraction) (h1 : fraction ≤ 1) (info : ClientInfo) :
    EntryInRange fraction info ↔ SmallSize fraction info.current_size_bytes := by
  have hsize : (0 : ℚ) ≤ info.current_size_bytes.toNat := Nat.cast_nonneg _
  constructor
  · rintro ⟨-, grow, -, hgrow, -⟩
    exact (exists_grow_message h0).1 ⟨grow, hgrow⟩
  · intro hsmall
    obtain ⟨shrink, hshrink⟩ := ClientRegistry.exists_shrink_message h0 h1 info
    obtain ⟨grow, hgrow⟩ := (exists_grow_message h0).2 hsmall
    refine ⟨shrink, grow, hshrink, hgrow, ?_, ?_⟩
    · rw [UInt64.le_iff_toNat_le, commandMessage_eq_some hshrink, Command.factor]
      refine Nat.floor_le_of_le ?_
      nlinarith
    · rw [UInt64.le_iff_toNat_le, commandMessage_eq_some hgrow, Command.factor]
      refine Nat.le_floor ?_
      nlinarith

/-- In a table every target is in range exactly where every size is small. -/
theorem inRange_iff_small (h0 : 0 ≤ fraction) (h1 : fraction ≤ 1) (s : EventLoop) :
    InRange fraction s ↔ Sizes (SmallSize fraction) s :=
  forall₃_congr fun _ info _ => entryInRange_iff h0 h1 info

/-- A size is small for every fraction exactly if it can be doubled. -/
theorem forall_smallSize_iff {size : UInt64} :
    (∀ fraction : ℚ, 0 ≤ fraction → fraction ≤ 1 → SmallSize fraction size) ↔
      DoublesInRange size := by
  have hsize : (0 : ℚ) ≤ size.toNat := Nat.cast_nonneg _
  constructor
  · intro h
    have hone : (size.toNat : ℚ) * (1 + 1) < 2^64 := h 1 (by norm_num) le_rfl
    have hhalf : (size.toNat : ℚ) < 2^63 := by linarith
    exact_mod_cast hhalf
  · intro h fraction h0 h1
    have hhalf : (size.toNat : ℚ) < 2^63 := by exact_mod_cast h
    rw [SmallSize]
    nlinarith

/-- In a table every target is in range for every fraction exactly where every size can be
doubled. -/
theorem forall_inRange_iff (s : EventLoop) :
    (∀ fraction : ℚ, 0 ≤ fraction → fraction ≤ 1 → InRange fraction s) ↔
      Sizes DoublesInRange s := by
  constructor
  · intro h fd info hlook
    refine forall_smallSize_iff.1 fun fraction h0 h1 => ?_
    exact (inRange_iff_small h0 h1 s).1 (h fraction h0 h1) fd info hlook
  · intro h fraction h0 h1
    refine (inRange_iff_small h0 h1 s).2 fun fd info hlook => ?_
    exact forall_smallSize_iff.2 (h fd info hlook) fraction h0 h1

section Sizes

variable {P : UInt64 → Prop}

/-- A new entry has the size 0. -/
theorem sizes_acceptOne (hzero : P 0) (h : Sizes P s) {result : AcceptResult}
    (hstep : s.acceptOne result = some t) : Sizes P t := by
  cases result with
  | watched client_fd =>
    simp only [acceptOne] at hstep
    split_ifs at hstep
    obtain rfl := Option.some.inj hstep
    intro fd info hlook
    simp only [ClientRegistry.lookup_addClient] at hlook
    split_ifs at hlook
    · obtain rfl := Option.some.inj hlook
      exact hzero
    · exact h fd info hlook
  | unwatched client_fd =>
    simp only [acceptOne] at hstep
    split_ifs at hstep
    obtain rfl := Option.some.inj hstep
    exact h
  | failed =>
    obtain rfl := Option.some.inj hstep
    exact h

/-- A client that is removed leaves the sizes of the others. -/
theorem sizes_removeClient (h : Sizes P s) (client_fd : ℕ) :
    Sizes P (s.removeClient client_fd) := by
  unfold removeClient
  cases s.registry.clients.lookup client_fd with
  | none => exact h
  | some info =>
    intro fd info hlook
    simp only [ClientRegistry.lookup_removeClient] at hlook
    split_ifs at hlook
    exact h fd info hlook

/-- A message leaves the sizes, but for the one that it tells. -/
theorem sizes_processMessage (h : Sizes P s) (client_fd : ℕ) (c : ConnId) {msg : Message}
    (hmsg : TellsSize msg → P msg.current_size_bytes) :
    Sizes P (processMessage client_fd c s msg) := by
  intro fd info hlook
  simp only [processMessage, ClientRegistry.lookup_handleMessage] at hlook
  split_ifs at hlook with hfd
  · obtain ⟨old, hold, rfl⟩ := Option.map_eq_some_iff.1 hlook
    rw [ClientRegistry.record_current_size]
    split_ifs with htells
    · exact hmsg htells
    · exact h fd old hold
  · exact h fd info hlook

/-- Every handler that reads only sizes that meet `P` keeps such sizes in the table. -/
theorem preserves_sizes (hzero : P 0) :
    Preserves (Sizes P) fun msg => TellsSize msg → P msg.current_size_bytes where
  acceptOne h hstep := sizes_acceptOne hzero h hstep
  removeClient client_fd h := sizes_removeClient h client_fd
  processMessage _ hmsg h := sizes_processMessage h _ _ hmsg

/-- What is told in a run is what is recorded after it. -/
theorem run_sizes (hzero : P 0) {batches : List (List EpollEvent)} {outs : List Unit}
    (hrun : Machine.run step init batches = some (outs, s))
    (htells : Machine.Along step (TellsSizes P) init batches) : Sizes P s := by
  have hinit : Sizes P init := fun fd info hlook => (nomatch hlook)
  exact Machine.along_invariant (I := Sizes P)
    (fun _ _ _ _ h htells hstep => (preserves_sizes hzero).step htells h hstep) hinit htells hrun

end Sizes

/-- In any state the targets of both broadcasts are in range, for every client, exactly where every
recorded size is small; for every fraction exactly where every recorded size can be doubled. In a
run of the event loop so are they where every size that a client has told is small, or can be
doubled. -/
theorem inRange_iff (s : EventLoop) :
    (∀ fraction : ℚ, 0 ≤ fraction → fraction ≤ 1 →
      (InRange fraction s ↔ Sizes (SmallSize fraction) s)) ∧
    ((∀ fraction : ℚ, 0 ≤ fraction → fraction ≤ 1 → InRange fraction s) ↔
      Sizes DoublesInRange s) ∧
    ∀ (batches : List (List EpollEvent)) outs,
      Machine.run step init batches = some (outs, s) →
      (∀ fraction : ℚ, 0 ≤ fraction → fraction ≤ 1 →
        Machine.Along step (TellsSizes (SmallSize fraction)) init batches → InRange fraction s) ∧
      (Machine.Along step (TellsSizes DoublesInRange) init batches →
        ∀ fraction : ℚ, 0 ≤ fraction → fraction ≤ 1 → InRange fraction s) := by
  refine ⟨fun _ h0 h1 => inRange_iff_small h0 h1 s, forall_inRange_iff s,
    fun batches outs hrun => ⟨fun fraction h0 h1 htells => ?_, fun htells => ?_⟩⟩
  · have hzero : SmallSize fraction 0 := by simp [SmallSize]
    exact (inRange_iff_small h0 h1 s).2 (run_sizes hzero hrun htells)
  · exact (forall_inRange_iff s).2 (run_sizes (by decide) hrun htells)

/-- Two clients register, the first one with as much as `1.1` times of which is in the range. -/
def smallBatches : List (List EpollEvent) :=
  [[.listen [.watched 5, .watched 6]],
    [.client 5 false false true
      [{ type := .REGISTER, pid := 9, current_size_bytes := 16769767339735956014 }] .again,
    .client 6 false false true [{ type := .REPORT_SIZE, current_size_bytes := 300 }] .again]]

/-- Their targets are in range. -/
theorem inRange_smallBatches : InRange (1 / 10) (Machine.last step init smallBatches) := by
  obtain ⟨outs, hrun⟩ : ∃ outs, Machine.run step init smallBatches =
      some (outs, Machine.last step init smallBatches) := Machine.exists_run_eq_last _ _ rfl
  exact ((inRange_iff _).2.2 _ _ hrun).1 (1 / 10) (by norm_num) (by norm_num) (by decide +kernel)

/-- A client registers the largest size there is. -/
def largestBatches : List (List EpollEvent) :=
  [[.listen [.watched 5]],
    [.client 5 false false true
      [{ type := .REGISTER, pid := 9, current_size_bytes := 18446744073709551615 }] .again]]

/-- A tenth more is not in the range, and the conversion for its `GROW` is undefined. -/
theorem not_inRange_largestBatches :
    ∃ outs s, Machine.run step init largestBatches = some (outs, s) ∧ ¬ InRange (1 / 10) s ∧
      s.registry.clients.lookup 5 = some ⟨5, 9, 18446744073709551615, 0⟩ ∧
      commandMessage .grow (1 / 10) ⟨5, 9, 18446744073709551615, 0⟩ = none := by
  obtain ⟨outs, hrun⟩ : ∃ outs, Machine.run step init largestBatches =
      some (outs, Machine.last step init largestBatches) := Machine.exists_run_eq_last _ _ rfl
  have hentry : (Machine.last step init largestBatches).registry.clients.lookup 5 =
      some ⟨5, 9, 18446744073709551615, 0⟩ := rfl
  have hundefined : commandMessage .grow (1 / 10) ⟨5, 9, 18446744073709551615, 0⟩ = none := by
    decide +kernel
  refine ⟨outs, _, hrun, fun hrange => ?_, hentry, hundefined⟩
  obtain ⟨-, grow, -, hgrow, -⟩ := hrange 5 _ hentry
  rw [hundefined] at hgrow
  cases hgrow

end Targets

end EventLoop

end MemoryGovernor
