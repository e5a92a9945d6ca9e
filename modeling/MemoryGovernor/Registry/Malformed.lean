import MemoryGovernor.Registry.Reader
import MemoryGovernor.Wire.Decoding

/-!
# Payloads that are no message

What a payload of any bytes does to the table when `handle_client_message` reads it. The handler
decodes it inside of a `try` block, so it is either recorded or ignored, and the handler is before
the next length either way (`run_frame`). A payload is recorded if its numbers convert and its type
is one of the two that tell a size. The values are those that the scanner takes (`HasValue`). The
decoder has a default where the size has none, and converts as much of a value as is a number, so
not every recorded size is one that the client wrote (`Recorded`).
-/

namespace MemoryGovernor

open Bytes (ascii)
open Framing (be32 readBe32 length_append_take)
open Message (HasValue)
open Numeral (UnsignedDecimal UnsignedText)

namespace Reader

variable (client_fd : ℕ)

/-- The rest of the outer loop as far as the table goes. -/
def applyPayload (r : ClientRegistry) (json : Bytes) : ClientRegistry :=
  match Message.deserialize json with
  | .ok msg => r.handleMessage client_fd msg
  | .error _ => r

/-- The reads by which the last bytes of a payload come, this many: any parts of them, and failed
reads between the parts. -/
inductive Delivers : ℕ → List ReadEvent → Prop
  | done : Delivers 0 []
  | part {k n : ℕ} {es : List ReadEvent} (hk : 1 ≤ k) (h : Delivers n es) :
      Delivers (k + n) (.data k :: es)
  | again {n : ℕ} {es : List ReadEvent} (hn : 0 < n) (h : Delivers n es) : Delivers n (.again :: es)

section Frame

variable {client_fd} {payload : Bytes} {parts : List ReadEvent}

/-- A payload that is read to the end is applied. -/
theorem handlePayload_eq_applyPayload (s : Reader) (json : Bytes) :
    s.handlePayload client_fd json =
      { s with registry := applyPayload client_fd s.registry json, position := some .header } := by
  unfold handlePayload applyPayload
  cases Message.deserialize json <;> rfl

/-- Nothing is left to deliver. -/
theorem Delivers.eq_nil (h : Delivers 0 parts) : parts = [] := by
  generalize hn : 0 = n at h
  cases h with
  | done => rfl
  | part hk h => omega
  | again hpos h => omega

/-- In a payload, the rest of it is read in any parts, and then it is applied. -/
theorem run_parts (r : ClientRegistry) (rest : Bytes) {n : ℕ} (h : Delivers n parts) (hn : 0 < n)
    (got missing : Bytes) (hmissing : missing.length = n) :
    ∃ outs, Machine.run (step client_fd)
        ⟨r, some (.payload (got.length + n) got), missing ++ rest⟩ parts =
      some (outs, ⟨applyPayload client_fd r (got ++ missing), some .header, rest⟩) := by
  induction h generalizing got missing with
  | done => omega
  | @part k n es hk h ih =>
    have hlen : k ≤ (missing ++ rest).length := by
      rw [List.length_append]
      omega
    have htake : (missing ++ rest).take k = missing.take k :=
      List.take_append_of_le_length (by omega)
    have hdrop : (missing ++ rest).drop k = missing.drop k ++ rest :=
      List.drop_append_of_le_length (by omega)
    have hgot : (got ++ missing.take k).length = got.length + k := length_append_take (by omega)
    have hstep : step client_fd ⟨r, some (.payload (got.length + (k + n)) got), missing ++ rest⟩
        (.data k) = some ((), readPayload client_fd
          ⟨r, some (.payload (got.length + (k + n)) got), missing.drop k ++ rest⟩
          (got.length + (k + n)) (got ++ missing.take k)) := by
      rw [step_part client_fd rfl hk (by omega) hlen, htake, hdrop]
    rcases Nat.eq_zero_or_pos n with rfl | hpos
    · -- This part is the last one.
      obtain rfl := h.eq_nil
      have hall : missing.take k = missing := List.take_of_length_le (by omega)
      have hnil : missing.drop k = [] := List.drop_of_length_le (by omega)
      rw [readPayload, if_neg (by omega), handlePayload_eq_applyPayload, hall, hnil] at hstep
      exact ⟨[()], Machine.run_singleton_eq_some.2 ⟨(), hstep, rfl⟩⟩
    · rw [readPayload, if_pos (by omega)] at hstep
      obtain ⟨outs, hrun⟩ := ih hpos (got ++ missing.take k) (missing.drop k)
        (by rw [List.length_drop]; omega)
      rw [List.append_assoc, List.take_append_drop, hgot, Nat.add_assoc] at hrun
      exact ⟨() :: outs, Machine.run_cons_eq_some.2 ⟨(), _, outs, hstep, hrun, rfl⟩⟩
  | again hpos h ih =>
    obtain ⟨outs, hrun⟩ := ih hn got missing hmissing
    exact ⟨() :: outs, Machine.run_cons_eq_some.2 ⟨(), _, outs, rfl, hrun, rfl⟩⟩

/-- A frame is read, and its payload is applied, whatever it is. -/
theorem run_frame (client_fd : ℕ) (r : ClientRegistry) (rest : Bytes)
    (hlen : payload.length < 2^32) (h : Delivers payload.length parts) :
    ∃ outs, Machine.run (step client_fd)
        ⟨r, some .header, be32 payload.length ++ (payload ++ rest)⟩ (.data 4 :: parts) =
      some (outs, ⟨applyPayload client_fd r payload, some .header, rest⟩) := by
  have htake : (be32 payload.length ++ (payload ++ rest)).take 4 = be32 payload.length := rfl
  have hstep : step client_fd ⟨r, some .header, be32 payload.length ++ (payload ++ rest)⟩
      (.data 4) =
      some ((), readPayload client_fd ⟨r, some .header, payload ++ rest⟩ payload.length []) := by
    rw [step_length client_fd rfl (by simp)]
    dsimp only
    rw [htake, Framing.readBe32_be32 hlen]
    rfl
  rcases Nat.eq_zero_or_pos payload.length with hzero | hpos
  · obtain rfl : payload = [] := List.eq_nil_of_length_eq_zero hzero
    obtain rfl := h.eq_nil
    rw [readPayload, if_neg (by simp), handlePayload_eq_applyPayload] at hstep
    exact ⟨[()], Machine.run_singleton_eq_some.2 ⟨(), hstep, rfl⟩⟩
  · rw [readPayload, if_pos (by simpa using hpos)] at hstep
    obtain ⟨outs, hrun⟩ := run_parts r rest h hpos [] payload rfl
    rw [List.length_nil, Nat.zero_add, List.nil_append] at hrun
    exact ⟨() :: outs, Machine.run_cons_eq_some.2 ⟨(), _, outs, hstep, hrun, rfl⟩⟩

end Frame

/-! ## What is recorded -/

/-- The value of the size in a payload. -/
def HasSize (json value : Bytes) : Prop := HasValue (ascii "current_size_bytes") value json

/-- The value of the type is one that tells a size. -/
def TypeTells (json : Bytes) : Prop :=
  HasValue (ascii "type") (ascii "REGISTER") json ∨
    HasValue (ascii "type") (ascii "REPORT_SIZE") json

/-- No entry changes. -/
def Unchanged (r r' : ClientRegistry) : Prop :=
  ∀ fd, r'.clients.lookup fd = r.clients.lookup fd

/-- The payload tells a size, and nothing changes but the client's entry, in which a size that meets
`P` is recorded now. -/
def Records (P : UInt64 → Prop) (json : Bytes) (r r' : ClientRegistry) : Prop :=
  TypeTells json ∧ (∀ fd, fd ≠ client_fd → r'.clients.lookup fd = r.clients.lookup fd) ∧
    ∃ info, r'.clients.lookup client_fd = some info ∧ P info.current_size_bytes

/-- The size that is written in the payload, as an unsigned decimal. -/
def Written (json : Bytes) (size : UInt64) : Prop :=
  ∃ value, HasSize json value ∧ UnsignedDecimal value size.toNat

/-- The size that a payload records: the default where it has none, the number where one is written,
and nothing from a value that is not a number of 64 bits. -/
structure Recorded (json : Bytes) (size : UInt64) : Prop where
  missing : (∀ value, ¬ HasSize json value) → size = 0
  written : ∀ value n, HasSize json value → UnsignedDecimal value n → size.toNat = n
  unsigned : ∀ value, HasSize json value → UnsignedText value

section Recorded

variable {json payload : Bytes} {parts : List ReadEvent}

theorem colon_notMem_size : 58 ∉ ascii "current_size_bytes" := by decide

/-- The text that is converted is the value of the size. -/
theorem HasSize.extractString_eq {value : Bytes} (h : HasSize json value) :
    Message.extractString json (ascii "current_size_bytes") = value :=
  HasValue.extractString_eq h colon_notMem_size

/-- The size of a message is what the value of its key reads as. -/
theorem recorded_of_field {size : UInt64} (h : Message.field Numeral.stoull
      (Message.extractString json (ascii "current_size_bytes")) 0 = .ok size) :
    Recorded json size where
  missing hnone := by
    have hnil : Message.extractString json (ascii "current_size_bytes") = [] :=
      by_contra fun hne => hnone _ (Message.hasValue_extractString colon_notMem_size hne)
    rw [Message.field, if_pos hnil] at h
    exact (Except.ok.inj h).symm
  written value n hvalue hn := by
    rw [hvalue.extractString_eq, Message.field, if_neg hvalue.ne_nil, Numeral.stoull,
      hn.scan_eq] at h
    simp only [Bool.false_eq_true, if_false] at h
    split_ifs at h with hlt
    obtain rfl := Except.ok.inj h
    exact UInt64.toNat_ofNat_of_lt' hlt
  unsigned value hvalue := by
    rw [hvalue.extractString_eq, Message.field, if_neg hvalue.ne_nil] at h
    exact Numeral.exists_stoull.1 ⟨size, h⟩

/-- A message of a type that tells a size has that type as its value. -/
theorem typeTells_of_type {type : MessageType} (h : type = .REGISTER ∨ type = .REPORT_SIZE)
    (htype : MessageType.stringToType (Message.extractString json (ascii "type")) = type) :
    TypeTells json := by
  have hkey : 58 ∉ ascii "type" := by decide
  have hvalue : ∀ name : Bytes, name ≠ [] →
      Message.extractString json (ascii "type") = name → HasValue (ascii "type") name json := by
    rintro name hne rfl
    exact Message.hasValue_extractString hkey hne
  rcases h with rfl | rfl
  · exact .inl (hvalue _ (by decide) (MessageType.eq_of_stringToType htype (by decide)))
  · exact .inr (hvalue _ (by decide) (MessageType.eq_of_stringToType htype (by decide)))

/-- A payload is ignored or recorded. -/
theorem applyPayload_cases (client_fd : ℕ) (r : ClientRegistry) (json : Bytes) :
    Unchanged r (applyPayload client_fd r json) ∨
      Records client_fd (Recorded json) json r (applyPayload client_fd r json) := by
  unfold applyPayload
  cases hmsg : Message.deserialize json with
  | error err => exact .inl fun _ => rfl
  | ok msg =>
    obtain ⟨htype, -, -, hsize, -⟩ := Message.deserialize_eq_ok.1 hmsg
    have hlook : ∀ fd, (r.handleMessage client_fd msg).clients.lookup fd =
        if fd = client_fd then (r.clients.lookup fd).map fun info => ClientRegistry.record info msg
        else r.clients.lookup fd := fun _ => ClientRegistry.lookup_handleMessage msg
    by_cases htells : ClientRegistry.TellsSize msg
    · cases hentry : r.clients.lookup client_fd with
      | none =>
        refine .inl fun fd => ?_
        rw [hlook]
        split_ifs with hfd
        · rw [hfd, hentry]
          rfl
        · rfl
      | some info =>
        refine .inr ⟨typeTells_of_type htells htype, fun fd hne => by rw [hlook, if_neg hne],
          ClientRegistry.record info msg, by rw [hlook, if_pos rfl, hentry]; rfl, ?_⟩
        rw [ClientRegistry.record_current_size, if_pos htells]
        exact recorded_of_field hsize
    · -- A message of another type leaves the entry as it is.
      have hsame : ∀ info, ClientRegistry.record info msg = info := by
        intro info
        obtain ⟨hregister, hreport⟩ := not_or.1 htells
        rw [ClientRegistry.record, if_neg hregister, if_neg hreport]
      refine .inl fun fd => ?_
      rw [hlook]
      split_ifs with hfd
      · cases r.clients.lookup fd with
        | none => rfl
        | some info => rw [Option.map_some, hsame]
      · rfl

/-- A payload of any bytes comes in a frame, its length in one piece. Then no entry changes, or the
payload tells a size and only the client's entry changes, to what `Recorded` says. In both cases
what comes after the frame is read as if a call began there with the new table. -/
theorem run_payload (client_fd : ℕ) (r : ClientRegistry) (rest : Bytes)
    (hlen : payload.length < 2^32) (h : Delivers payload.length parts) :
    ∃ r', (∃ outs, Machine.run (step client_fd)
          ⟨r, some .header, be32 payload.length ++ (payload ++ rest)⟩ (.data 4 :: parts) =
        some (outs, ⟨r', some .header, rest⟩)) ∧
      (Unchanged r r' ∨ Records client_fd (Recorded payload) payload r r') ∧
      ∀ es t, (∃ outs, Machine.run (step client_fd)
          ⟨r, some .header, be32 payload.length ++ (payload ++ rest)⟩ ((.data 4 :: parts) ++ es) =
            some (outs, t)) ↔
        ∃ outs, Machine.run (step client_fd) ⟨r', some .header, rest⟩ es = some (outs, t) := by
  obtain ⟨outs, hrun⟩ := run_frame client_fd r rest hlen h
  refine ⟨applyPayload client_fd r payload, ⟨outs, hrun⟩, applyPayload_cases client_fd r payload,
    fun es t => ⟨?_, ?_⟩⟩
  · rintro ⟨outs', hrun'⟩
    obtain ⟨os₁, t', os₂, h₁, h₂, -⟩ := Machine.run_append_eq_some.1 hrun'
    obtain ⟨-, rfl⟩ := Prod.mk.inj (Option.some.inj (hrun.symm.trans h₁))
    exact ⟨os₂, h₂⟩
  · rintro ⟨os₂, h₂⟩
    exact ⟨outs ++ os₂, Machine.run_append_eq_some.2 ⟨outs, _, os₂, hrun, h₂, rfl⟩⟩

end Recorded

/-- The registry after the client has registered its 700 bytes. -/
def registered : ClientRegistry := accepted.handleMessage 5 registration

/-- A report without a size. -/
def withoutSize : Bytes := ascii "\x7b\"type\":\"REPORT_SIZE\"\x7d"

/-- A report with a size that has a sign. -/
def negativeSize : Bytes := ascii "\x7b\"type\":\"REPORT_SIZE\",\"current_size_bytes\":-1\x7d"

/-- What the report without a size does to the entry. -/
theorem lookup_withoutSize :
    (applyPayload 5 registered withoutSize).clients.lookup 5 = some ⟨5, 9, 0, 0⟩ := by
  decide +kernel

/-- The report without a size is delivered in two pieces, and 0 is recorded in the place of 700. -/
theorem run_payload_withoutSize :
    registered.clients.lookup 5 = some ⟨5, 9, 700, 0⟩ ∧ ∃ r', (∃ outs, Machine.run (step 5)
        ⟨registered, some .header, be32 22 ++ (withoutSize ++ [])⟩ [.data 4, .data 10, .data 12] =
          some (outs, ⟨r', some .header, []⟩)) ∧
      Records 5 (fun size => size = 0) withoutSize registered r' := by
  have hparts : Delivers withoutSize.length [.data 10, .data 12] :=
    .part (k := 10) (by decide) (.part (k := 12) (by decide) .done)
  have hentry : registered.clients.lookup 5 = some ⟨5, 9, 700, 0⟩ := by decide +kernel
  obtain ⟨r', ⟨outs, hrun⟩, hcases, -⟩ := run_payload 5 registered [] (by decide) hparts
  refine ⟨hentry, r', ⟨outs, hrun⟩, ?_⟩
  rcases hcases with hunchanged | ⟨htells, hothers, info, hinfo, hrecorded⟩
  · obtain ⟨outs', hrun'⟩ := run_frame 5 registered [] (by decide) hparts
    obtain rfl : r' = applyPayload 5 registered withoutSize :=
      congrArg Reader.registry (Prod.mk.inj (Option.some.inj (hrun.symm.trans hrun'))).2
    have hsame := hunchanged 5
    rw [lookup_withoutSize, hentry] at hsame
    exact absurd (congrArg ClientInfo.current_size_bytes (Option.some.inj hsame)) (by decide)
  · have hnone : ∀ value, ¬ HasSize withoutSize value := fun value hvalue =>
      hvalue.ne_nil (hvalue.extractString_eq.symm.trans (by decide +kernel))
    exact ⟨htells, hothers, info, hinfo, hrecorded.missing hnone⟩

/-- An entry that was changed to a size which is not written in the payload. -/
theorem not_written {r r' : ClientRegistry} {json : Bytes} {info info' : ClientInfo}
    (hentry : r.clients.lookup client_fd = some info)
    (hentry' : r'.clients.lookup client_fd = some info') (hne : info' ≠ info)
    (hscan : ∀ n, Numeral.scan (Message.extractString json (ascii "current_size_bytes")) ≠
      some (false, n)) :
    ¬ (Unchanged r r' ∨ Records client_fd (Written json) json r r') := by
  rintro (hunchanged | ⟨-, -, size, -, value, hvalue, hwritten⟩)
  · have hsame := hunchanged client_fd
    rw [hentry, hentry'] at hsame
    exact hne (Option.some.inj hsame)
  · rw [hvalue.extractString_eq] at hscan
    exact hscan _ hwritten.scan_eq

/-- Neither of the two reports has written the size that is recorded. -/
theorem recorded_not_written :
    (∃ r' outs, Machine.run (step 5)
        ⟨registered, some .header, be32 22 ++ (withoutSize ++ [])⟩ [.data 4, .data 22] =
          some (outs, ⟨r', some .header, []⟩) ∧
      ¬ (Unchanged registered r' ∨ Records 5 (Written withoutSize) withoutSize registered r')) ∧
    ∃ r' outs, Machine.run (step 5)
        ⟨registered, some .header, be32 46 ++ (negativeSize ++ [])⟩ [.data 4, .data 46] =
          some (outs, ⟨r', some .header, []⟩) ∧
      ¬ (Unchanged registered r' ∨
        Records 5 (Written negativeSize) negativeSize registered r') := by
  have hentry : registered.clients.lookup 5 = some ⟨5, 9, 700, 0⟩ := by decide +kernel
  -- The number that `stoull` makes of the sign.
  have hnegative : (applyPayload 5 registered negativeSize).clients.lookup 5 =
      some ⟨5, 9, 2^64 - 1, 0⟩ := by
    decide +kernel
  constructor
  · have hparts : Delivers withoutSize.length [.data 22] := .part (n := 0) (by decide) .done
    obtain ⟨outs, hrun⟩ := run_frame 5 registered [] (by decide) hparts
    refine ⟨_, outs, hrun, not_written 5 hentry lookup_withoutSize (by decide) fun n => ?_⟩
    have hscan : Numeral.scan
        (Message.extractString withoutSize (ascii "current_size_bytes")) = none := by
      decide +kernel
    rw [hscan]
    exact (Option.some_ne_none _).symm
  · have hparts : Delivers negativeSize.length [.data 46] := .part (n := 0) (by decide) .done
    obtain ⟨outs, hrun⟩ := run_frame 5 registered [] (by decide +kernel) hparts
    refine ⟨_, outs, hrun, not_written 5 hentry hnegative (by decide +kernel) fun n => ?_⟩
    have hscan : Numeral.scan
        (Message.extractString negativeSize (ascii "current_size_bytes")) = some (true, 1) := by
      decide +kernel
    rw [hscan]
    exact fun heq => (nomatch (Prod.mk.inj (Option.some.inj heq)).1)

end Reader

end MemoryGovernor
