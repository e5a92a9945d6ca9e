import MemoryGovernor.Wire.Codec

/-!
# What the decoder accepts

The texts of which `deserialize` makes a message. What the scanner takes as the value of a key is a
relation between the pieces of a text (`HasValue`); it asks for no object around them, so a key may
be the value of another, and a value that nothing ends is none. A field is converted where its key
has a value, and what the conversion throws is thrown. So a text decodes exactly if the values of
the four numbers are ones that their conversions accept (`exists_deserialize`), and what the message
says of a field depends on the value of that field only (`deserialize_eq_ok`).
-/

namespace MemoryGovernor

open Bytes Numeral

namespace Message

open MessageType (stringToType)

/-- What the scanner takes as the value of a key. The key stands in quotes, for the first time.
After the next colon come blanks and quotes, and then the value. It goes up to the next quote where
a quote is what comes right before it, and otherwise up to a comma or a closing brace. -/
inductive HasValue (key value : Bytes) : Bytes → Prop
  | mk {before middle skip rest : Bytes} {d : UInt8}
      (hfirst : First (quoted key) before (middle ++ 58 :: (skip ++ (value ++ d :: rest))))
      (hmiddle : 58 ∉ middle) (hskip : ∀ b ∈ skip, b ∈ skipped)
      (hhead : ∃ b v, value = b :: v ∧ b ∉ skipped)
      (hvalue : ∀ b ∈ value, b ∉ delimiters skip) (hd : d ∈ delimiters skip) :
      HasValue key value
        (before ++ (quoted key ++ (middle ++ 58 :: (skip ++ (value ++ d :: rest)))))

section Values

variable {json key value : Bytes}

theorem HasValue.ne_nil (h : HasValue key value json) : value ≠ [] := by
  cases h with
  | mk hfirst hmiddle hskip hhead hvalue hd =>
    obtain ⟨b, v, rfl, -⟩ := hhead
    exact List.cons_ne_nil b v

/-- A colon that is not in the key is not in its quotes. -/
theorem colon_notMem_quoted (hkey : 58 ∉ key) : 58 ∉ quoted key := by
  simpa [quoted, quote] using hkey

/-- The value of a key is extracted. -/
theorem HasValue.extractString_eq (h : HasValue key value json) (hkey : 58 ∉ key) :
    extractString json key = value := by
  cases h with
  | @mk before middle skip rest d hfirst hmiddle hskip hhead hvalue hd =>
    have hcolon : 58 ∉ quoted key ++ middle := fun hmem =>
      (List.mem_append.1 hmem).elim (colon_notMem_quoted hkey) hmiddle
    have hextract := Message.extractString_eq before middle skip rest hfirst hcolon hskip hhead
      hvalue hd
    rwa [List.append_assoc (quoted key)] at hextract

/-- The positions that the scanner finds where it extracts something. -/
theorem exists_positions (hne : extractString json key ≠ []) : ∃ pos colon start stop,
    json.find (quoted key) 0 = some pos ∧ json.find (ascii ":") pos = some colon ∧
      json.findFirstNotOf skipped (colon + 1) = some start ∧
      (if json[start - 1]? = some quote then json.find [quote] start
        else json.findFirstOf (ascii ",\x7d") start) = some stop ∧
      extractString json key = json.substr start (stop - start) := by
  have hskipped : ascii " \t\"" = skipped := rfl
  rw [extractString] at hne
  cases hpos : json.find (quoted key) 0 with
  | none => exact absurd (by rw [hpos]) hne
  | some pos =>
    simp only [hpos] at hne
    cases hcolon : json.find (ascii ":") pos with
    | none => exact absurd (by rw [hcolon]) hne
    | some colon =>
      simp only [hcolon, hskipped] at hne
      cases hstart : json.findFirstNotOf skipped (colon + 1) with
      | none => exact absurd (by rw [hstart]) hne
      | some start =>
        simp only [hstart] at hne
        cases hstop : (if json[start - 1]? = some quote then json.find [quote] start
            else json.findFirstOf (ascii ",\x7d") start) with
        | none => exact absurd (by rw [hstop]) hne
        | some stop =>
          refine ⟨pos, colon, start, stop, rfl, hcolon, hstart, hstop, ?_⟩
          simp only [extractString, hpos, hcolon, hskipped, hstart, hstop]

/-- What is extracted is the value of the key, unless it is nothing. -/
theorem hasValue_extractString (hkey : 58 ∉ key) (hne : extractString json key ≠ []) :
    HasValue key (extractString json key) json := by
  obtain ⟨pos, colon, start, stop, hpos, hcolon, hstart, hstop, hextract⟩ := exists_positions hne
  -- The key.
  rw [find_zero] at hpos
  obtain ⟨before, s, rfl, rfl, hfirst⟩ := exists_first_of_search hpos
  -- The colon, which is not in the key.
  have hset : ascii ":" = [58] := rfl
  rw [hset, find_singleton] at hcolon
  obtain ⟨m, c, after, hs, rfl, hm, hc⟩ := exists_append_of_findFirstOf hcolon
  obtain rfl := List.mem_singleton.1 hc
  obtain ⟨middle, rfl, rfl⟩ : ∃ middle, m = quoted key ++ middle ∧ s = middle ++ 58 :: after := by
    rcases List.append_eq_append_iff.1 hs with ⟨middle, rfl, rfl⟩ | ⟨r, hr, hafter⟩
    · exact ⟨middle, rfl, rfl⟩
    · cases r with
      | nil =>
        rw [List.append_nil] at hr
        exact ⟨[], by rw [hr, List.append_nil], hafter.symm⟩
      | cons b r =>
        obtain ⟨rfl, -⟩ := List.cons.inj hafter
        exact absurd (hr ▸ List.mem_append_right m List.mem_cons_self) (colon_notMem_quoted hkey)
  -- What is skipped, and the value up to its end.
  have hjson : before ++ (quoted key ++ (middle ++ 58 :: after)) =
      (before ++ (quoted key ++ middle) ++ [58]) ++ after := by
    simp only [List.append_assoc, List.cons_append, List.nil_append]
  have hlen : before.length + (quoted key ++ middle).length + 1 =
      (before ++ (quoted key ++ middle) ++ [58]).length := by
    simp only [List.length_append, List.length_singleton]
  rw [hjson, hlen] at hstart
  obtain ⟨skip, b, v, rfl, rfl, hskip, hb⟩ := exists_append_of_findFirstNotOf hstart
  have hset' := stop_eq_findFirstOf (before ++ (quoted key ++ middle)) skip (b :: v)
  have hlen' : (before ++ (quoted key ++ middle)).length + 1 + skip.length =
      (before ++ (quoted key ++ middle) ++ [58]).length + skip.length := by
    simp only [List.length_append, List.length_singleton]
  have hjson' : (before ++ (quoted key ++ middle)) ++ 58 :: (skip ++ b :: v) =
      before ++ (quoted key ++ (middle ++ 58 :: (skip ++ b :: v))) := by
    simp only [List.append_assoc]
  rw [hlen', hjson'] at hset'
  rw [hset'] at hstop
  have hsplit : before ++ (quoted key ++ (middle ++ 58 :: (skip ++ b :: v))) =
      (before ++ (quoted key ++ middle) ++ [58] ++ skip) ++ b :: v := by
    simp only [List.append_assoc, List.cons_append, List.nil_append]
  rw [hsplit, ← List.length_append] at hstop hextract
  obtain ⟨value, d, rest, hv, rfl, hvalue, hd⟩ := exists_append_of_findFirstOf hstop
  rw [Nat.add_sub_cancel_left, hv, substr_append] at hextract
  rw [hv] at hsplit hfirst hne ⊢
  rw [← hsplit] at hextract
  rw [hextract] at hne ⊢
  refine .mk hfirst (fun hmem => ?_) hskip ?_ hvalue hd
  · exact hm 58 (List.mem_append_right _ hmem) (List.mem_singleton.2 rfl)
  · -- The value is not empty, so it starts with the byte at which the skipping stopped.
    obtain ⟨b', v', rfl⟩ := List.exists_cons_of_ne_nil hne
    exact ⟨b', v', rfl, (List.cons.inj hv).1 ▸ hb⟩

/-- What holds of the value of a key if it has one. -/
theorem forall_hasValue {P : Bytes → Prop} (hkey : 58 ∉ key) :
    (∀ value, HasValue key value json → P value) ↔
      extractString json key = [] ∨ P (extractString json key) := by
  constructor
  · intro h
    by_cases hne : extractString json key = []
    · exact .inl hne
    · exact .inr (h _ (hasValue_extractString hkey hne))
  · intro h value hvalue
    have heq := hvalue.extractString_eq hkey
    rw [heq] at h
    exact h.resolve_left hvalue.ne_nil

end Values

variable {json : Bytes} {msg : Message}

/-- One conversion after another. -/
theorem bind_eq_ok {ε α β : Type} {x : Except ε α} {f : α → Except ε β} {b : β} :
    x >>= f = .ok b ↔ ∃ a, x = .ok a ∧ f a = .ok b := by
  cases x with
  | error err => exact ⟨fun h => (nomatch h), fun ⟨_, h, _⟩ => (nomatch h)⟩
  | ok a => exact ⟨fun h => ⟨a, rfl, h⟩, fun ⟨_, ha, h⟩ => Except.ok.inj ha ▸ h⟩

/-- A message field by field. -/
theorem deserialize_eq_ok : deserialize json = .ok msg ↔
    stringToType (extractString json (ascii "type")) = msg.type ∧
    field stoi (extractString json (ascii "pid")) 0 = .ok msg.pid ∧
    field stoull (extractString json (ascii "target_bytes")) 0 = .ok msg.target_bytes ∧
    field stoull (extractString json (ascii "current_size_bytes")) 0 = .ok msg.current_size_bytes ∧
    field stoi (extractString json (ascii "tier")) 0 = .ok msg.tier := by
  simp only [deserialize, bind_eq_ok]
  constructor
  · rintro ⟨pid, hpid, target_bytes, htarget, current_size_bytes, hcurrent, tier, htier, hmsg⟩
    obtain rfl := Except.ok.inj hmsg
    exact ⟨rfl, hpid, htarget, hcurrent, htier⟩
  · rintro ⟨htype, hpid, htarget, hcurrent, htier⟩
    refine ⟨_, hpid, _, htarget, _, hcurrent, _, htier, ?_⟩
    rw [htype]
    rfl

/-- A field is converted where its conversion accepts the value of its key, if it has one. -/
theorem exists_field {α : Type} {conversion : Bytes → Except Numeral.Error α} {key : Bytes}
    {Accepted : Bytes → Prop} (hkey : 58 ∉ key)
    (h : ∀ s, (∃ x, conversion s = .ok x) ↔ Accepted s) (default : α) :
    (∃ x, field conversion (extractString json key) default = .ok x) ↔
      ∀ value, HasValue key value json → Accepted value := by
  rw [forall_hasValue hkey, field]
  split_ifs with hs
  · exact iff_of_true ⟨default, rfl⟩ (.inl hs)
  · exact (h _).trans (or_iff_right hs).symm

/-- The value of each number, if its key has one, is accepted by its conversion. -/
structure Decodable (json : Bytes) : Prop where
  pid : ∀ value, HasValue (ascii "pid") value json → IntText value
  target_bytes : ∀ value, HasValue (ascii "target_bytes") value json → UnsignedText value
  current_size_bytes : ∀ value, HasValue (ascii "current_size_bytes") value json →
    UnsignedText value
  tier : ∀ value, HasValue (ascii "tier") value json → IntText value

/-- The conversions of the numbers succeed exactly where their values are accepted. -/
theorem decodable_iff : Decodable json ↔
    (∃ x, field stoi (extractString json (ascii "pid")) 0 = .ok x) ∧
    (∃ x, field stoull (extractString json (ascii "target_bytes")) 0 = .ok x) ∧
    (∃ x, field stoull (extractString json (ascii "current_size_bytes")) 0 = .ok x) ∧
    ∃ x, field stoi (extractString json (ascii "tier")) 0 = .ok x := by
  rw [exists_field (isKey_of_mem (by decide)).colon_notMem (fun _ => exists_stoi),
    exists_field (isKey_of_mem (by decide)).colon_notMem (fun _ => exists_stoull),
    exists_field (isKey_of_mem (by decide)).colon_notMem (fun _ => exists_stoull),
    exists_field (isKey_of_mem (by decide)).colon_notMem (fun _ => exists_stoi)]
  exact ⟨fun h => ⟨h.pid, h.target_bytes, h.current_size_bytes, h.tier⟩,
    fun ⟨hpid, htarget, hcurrent, htier⟩ => ⟨hpid, htarget, hcurrent, htier⟩⟩

/-- The decoder returns a message of exactly these texts, and throws on all others. -/
theorem exists_deserialize : (∃ msg, deserialize json = .ok msg) ↔ Decodable json := by
  rw [decodable_iff]
  constructor
  · rintro ⟨msg, h⟩
    obtain ⟨-, hpid, htarget, hcurrent, htier⟩ := deserialize_eq_ok.1 h
    exact ⟨⟨_, hpid⟩, ⟨_, htarget⟩, ⟨_, hcurrent⟩, ⟨_, htier⟩⟩
  · rintro ⟨⟨pid, hpid⟩, ⟨target_bytes, htarget⟩, ⟨current_size_bytes, hcurrent⟩, tier, htier⟩
    exact ⟨⟨stringToType (extractString json (ascii "type")), pid, target_bytes,
      current_size_bytes, tier⟩, deserialize_eq_ok.2 ⟨rfl, hpid, htarget, hcurrent, htier⟩⟩

instance (json : Bytes) : Decidable (Decodable json) :=
  match h : deserialize json with
  | .ok msg => isTrue (exists_deserialize.1 ⟨msg, h⟩)
  | .error _ => isFalse fun hd => by
    obtain ⟨msg, hmsg⟩ := exists_deserialize.2 hd
    rw [h] at hmsg
    cases hmsg

end Message

end MemoryGovernor
