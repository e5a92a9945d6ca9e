import MemoryGovernor.Lib.Framing
import MemoryGovernor.Lib.Numerals
import MemoryGovernor.Wire.Message

/-!
# The codec

`Message::serialize`, `deserialize` and `frame` of `include/governor/protocol.h`, byte by byte. The
decoder is no parser: for each field it searches the text for the key in quotes, then for the next
colon, skips blanks and quotes, and takes what comes before a quote or before a comma or brace.

What it gets from a text of which the pieces around one field are known is `extractString_eq`. In
the text of a message these pieces are the fields before, which the search for the key must pass
over (`Bytes.Passes`), the key, and a value that does not hold its delimiters. So each field is
found, and the numbers are read back (`deserialize_payload`).
-/

namespace MemoryGovernor

open Bytes Numeral

namespace MessageType

/-- `type_to_string`. -/
def typeToString : MessageType → Bytes
  | REGISTER => ascii "REGISTER"
  | REPORT_SIZE => ascii "REPORT_SIZE"
  | SHRINK => ascii "SHRINK"
  | GROW => ascii "GROW"
  | ACK => ascii "ACK"
  | HEARTBEAT => ascii "HEARTBEAT"
  | UNKNOWN => ascii "UNKNOWN"

/-- `string_to_type`. -/
def stringToType (s : Bytes) : MessageType :=
  if s = ascii "REGISTER" then REGISTER
  else if s = ascii "REPORT_SIZE" then REPORT_SIZE
  else if s = ascii "SHRINK" then SHRINK
  else if s = ascii "GROW" then GROW
  else if s = ascii "ACK" then ACK
  else if s = ascii "HEARTBEAT" then HEARTBEAT
  else UNKNOWN

/-- A type is read back. -/
theorem stringToType_typeToString (t : MessageType) : stringToType (typeToString t) = t := by
  cases t <;> decide

/-- Only its own name is read as a type, unless that is UNKNOWN. -/
theorem eq_of_stringToType {s : Bytes} {t : MessageType} (h : stringToType s = t)
    (ht : t ≠ UNKNOWN) : s = typeToString t := by
  subst h
  unfold stringToType at ht ⊢
  split_ifs at ht ⊢ with h₁ h₂ h₃ h₄ h₅ h₆
  · exact h₁
  · exact h₂
  · exact h₃
  · exact h₄
  · exact h₅
  · exact h₆
  · exact absurd rfl ht

end MessageType

namespace Message

open MessageType (typeToString stringToType)

/-- `serialize`. -/
def serialize (msg : Message) : Bytes :=
  ascii "\x7b" ++
    ascii "\"type\":\"" ++ typeToString msg.type ++ ascii "\"," ++
    ascii "\"pid\":" ++ decimalInt msg.pid.toInt ++ ascii "," ++
    ascii "\"target_bytes\":" ++ decimal msg.target_bytes.toNat ++ ascii "," ++
    ascii "\"current_size_bytes\":" ++ decimal msg.current_size_bytes.toNat ++ ascii "," ++
    ascii "\"tier\":" ++ decimalInt msg.tier.toInt ++
    ascii "\x7d"

/-- `extract_string` of `deserialize`. -/
def extractString (json key : Bytes) : Bytes :=
  match json.find (quoted key) 0 with
  | none => []
  | some pos => match json.find (ascii ":") pos with
    | none => []
    | some pos => match json.findFirstNotOf (ascii " \t\"") (pos + 1) with
      | none => []
      | some start =>
        let stop := if json[start - 1]? = some quote then json.find [quote] start
          else json.findFirstOf (ascii ",\x7d") start
        match stop with
        | none => []
        | some stop => json.substr start (stop - start)

/-- A field of `deserialize`: its conversion, or its default where the text is empty. -/
def field {α : Type} (conversion : Bytes → Except Numeral.Error α) (s : Bytes) (default : α) :
    Except Numeral.Error α :=
  if s = [] then .ok default else conversion s

/-- `deserialize`. It throws what the conversions throw. -/
def deserialize (json : Bytes) : Except Numeral.Error Message := do
  let msg : Message := {}
  let type := stringToType (extractString json (ascii "type"))
  let pid ← field stoi (extractString json (ascii "pid")) msg.pid
  let target_bytes ← field stoull (extractString json (ascii "target_bytes")) msg.target_bytes
  let current_size_bytes ←
    field stoull (extractString json (ascii "current_size_bytes")) msg.current_size_bytes
  let tier ← field stoi (extractString json (ascii "tier")) msg.tier
  return ⟨type, pid, target_bytes, current_size_bytes, tier⟩

/-- The text that `frame` sends. -/
def payload (msg : Message) : Bytes := msg.serialize ++ ascii "\n"

/-- `frame`. The length is cast to 32 bits. -/
def frame (msg : Message) : Bytes :=
  Framing.be32 (msg.payload.length % 2^32) ++ msg.payload

/-! ## Extraction -/

/-- The blanks and quotes that come before a value. -/
def skipped : Bytes := ascii " \t\""

/-- What ends a value, from what was skipped before it. -/
def delimiters (skip : Bytes) : Bytes :=
  if skip.getLast? = some quote then [quote] else ascii ",\x7d"

/-- The search for the end of the value that starts after what was skipped. -/
theorem stop_eq_findFirstOf (before skip s : Bytes) :
    (if (before ++ 58 :: (skip ++ s))[before.length + 1 + skip.length - 1]? = some quote
      then (before ++ 58 :: (skip ++ s)).find [quote] (before.length + 1 + skip.length)
      else (before ++ 58 :: (skip ++ s)).findFirstOf (ascii ",\x7d")
        (before.length + 1 + skip.length)) =
      (before ++ 58 :: (skip ++ s)).findFirstOf (delimiters skip)
        (before.length + 1 + skip.length) := by
  have hlast : (before ++ 58 :: (skip ++ s))[before.length + 1 + skip.length - 1]? =
      (58 :: skip).getLast? := by
    have hget := getElem?_append_getLast before (List.cons_ne_nil 58 skip) s
    rwa [List.length_cons, Nat.add_comm skip.length, ← Nat.add_assoc] at hget
  have hquote : (58 :: skip).getLast? = some quote ↔ skip.getLast? = some quote := by
    cases skip with
    | nil => decide
    | cons c skip => rw [List.getLast?_cons_cons]
  rw [hlast, delimiters, find_singleton]
  simp only [hquote]
  split_ifs <;> rfl

/-- The value of a key in a text that is known around it. -/
theorem extractString_eq {key value : Bytes} {d : UInt8} (before middle skip rest : Bytes)
    (hfirst : First (quoted key) before (middle ++ 58 :: (skip ++ (value ++ d :: rest))))
    (hcolon : 58 ∉ quoted key ++ middle) (hskip : ∀ b ∈ skip, b ∈ skipped)
    (hhead : ∃ b v, value = b :: v ∧ b ∉ skipped)
    (hvalue : ∀ b ∈ value, b ∉ delimiters skip) (hd : d ∈ delimiters skip) :
    extractString (before ++ ((quoted key ++ middle) ++ 58 :: (skip ++ (value ++ d :: rest)))) key =
      value := by
  obtain ⟨b, v, hv, hb⟩ := hhead
  have hcolonSet : ∀ c ∈ quoted key ++ middle, c ∉ ascii ":" := by
    intro c hc hmem
    obtain rfl : c = 58 := List.mem_singleton.1 hmem
    exact hcolon hc
  generalize hjson :
    before ++ ((quoted key ++ middle) ++ 58 :: (skip ++ (value ++ d :: rest))) = json
  -- The key, and the colon after it.
  have hfind : json.find (quoted key) 0 = some before.length := by
    rw [find_zero, ← hjson, List.append_assoc (quoted key)]
    exact hfirst.search_eq
  have hcolonPos : json.find (ascii ":") before.length =
      some (before.length + (quoted key ++ middle).length) := by
    have hset : ascii ":" = [58] := rfl
    rw [hset, find_singleton, ← hset, ← hjson]
    exact findFirstOf_append hcolonSet (by decide)
  -- What is skipped, up to the value.
  generalize hpos : before.length + (quoted key ++ middle).length = pos at hcolonPos
  have hstart : json.findFirstNotOf skipped (pos + 1) = some (pos + 1 + skip.length) := by
    have hlen : pos + 1 = (before ++ (quoted key ++ middle) ++ [58]).length := by
      rw [← hpos]
      simp only [List.length_append, List.length_singleton]
    have hsplit : json = (before ++ (quoted key ++ middle) ++ [58]) ++
        (skip ++ b :: (v ++ d :: rest)) := by
      rw [← hjson, hv]
      simp only [List.append_assoc, List.cons_append, List.nil_append]
    rw [hlen, hsplit]
    exact findFirstNotOf_append hskip hb
  -- The end of the value.
  have hlen : (before ++ (quoted key ++ middle)).length = pos := by
    rw [← hpos, List.length_append]
  have hvalueLen :
      pos + 1 + skip.length = (before ++ (quoted key ++ middle) ++ 58 :: skip).length := by
    rw [List.length_append, hlen, List.length_cons]
    omega
  have hsplit :
      json = (before ++ (quoted key ++ middle)) ++ 58 :: (skip ++ (value ++ d :: rest)) := by
    rw [← hjson, List.append_assoc before]
  have hsplit' :
      json = (before ++ (quoted key ++ middle) ++ 58 :: skip) ++ (value ++ d :: rest) := by
    rw [hsplit, List.append_assoc _ (58 :: skip), List.cons_append]
  have hstop : (if json[pos + 1 + skip.length - 1]? = some quote
      then json.find [quote] (pos + 1 + skip.length)
      else json.findFirstOf (ascii ",\x7d") (pos + 1 + skip.length)) =
      some (pos + 1 + skip.length + value.length) := by
    have hset := stop_eq_findFirstOf (before ++ (quoted key ++ middle)) skip (value ++ d :: rest)
    rw [← hsplit, hlen] at hset
    rw [hset, hvalueLen, hsplit']
    exact findFirstOf_append hvalue hd
  have hvalueEq : json.substr (pos + 1 + skip.length) value.length = value := by
    rw [hvalueLen, hsplit']
    exact substr_append _ _ _
  have hskipped : ascii " \t\"" = skipped := rfl
  simp only [extractString, hfind, hcolonPos, hskipped, hstart, hstop, Nat.add_sub_cancel_left,
    hvalueEq]

/-! ## The text of a message -/

/-- The keys. -/
def keys : List Bytes :=
  [ascii "type", ascii "pid", ascii "target_bytes", ascii "current_size_bytes", ascii "tier"]

/-- What the search for a key needs of it: the bytes that it does not hold. -/
structure IsKey (key : Bytes) : Prop where
  ne_nil : key ≠ []
  quote_notMem : quote ∉ key
  colon_notMem : 58 ∉ key
  comma_notMem : 44 ∉ key
  numeral_notMem : key.any isNumeral = false
  ne_type : ∀ t, key ≠ typeToString t

theorem isKey_of_mem {key : Bytes} (h : key ∈ keys) : IsKey key where
  ne_nil := (by decide : ∀ key ∈ keys, key ≠ []) key h
  quote_notMem := (by decide : ∀ key ∈ keys, quote ∉ key) key h
  colon_notMem := (by decide : ∀ key ∈ keys, 58 ∉ key) key h
  comma_notMem := (by decide : ∀ key ∈ keys, 44 ∉ key) key h
  numeral_notMem := (by decide : ∀ key ∈ keys, key.any isNumeral = false) key h
  ne_type t := by
    cases t
    all_goals exact (by decide : ∀ key ∈ keys, key ≠ typeToString _) key h

/-- A field and the comma after it. -/
def fieldText (name value : Bytes) : Bytes := quoted name ++ 58 :: (value ++ [44])

/-- The text of a message, field by field. -/
theorem payload_eq (msg : Message) : msg.payload =
    ascii "\x7b" ++ (fieldText (ascii "type") (quoted (typeToString msg.type)) ++
      (fieldText (ascii "pid") (decimalInt msg.pid.toInt) ++
        (fieldText (ascii "target_bytes") (decimalInt msg.target_bytes.toNat) ++
          (fieldText (ascii "current_size_bytes") (decimalInt msg.current_size_bytes.toNat) ++
            (quoted (ascii "tier") ++ 58 :: (decimalInt msg.tier.toInt ++ 125 :: [10])))))) := by
  -- The pieces of the source's text, cut at the keys.
  have htype : ascii "\"type\":\"" = quoted (ascii "type") ++ [58, quote] := rfl
  have hpid : ascii "\"pid\":" = quoted (ascii "pid") ++ [58] := rfl
  have htarget : ascii "\"target_bytes\":" = quoted (ascii "target_bytes") ++ [58] := rfl
  have hcurrent : ascii "\"current_size_bytes\":" = quoted (ascii "current_size_bytes") ++ [58] :=
    rfl
  have htier : ascii "\"tier\":" = quoted (ascii "tier") ++ [58] := rfl
  have hend : ascii "\"," = [quote, 44] := rfl
  have hcomma : ascii "," = [44] := rfl
  have hclose : ascii "\x7d" = [125] := rfl
  have hnewline : ascii "\n" = [10] := rfl
  have hname : quoted (typeToString msg.type) = quote :: (typeToString msg.type ++ [quote]) := rfl
  simp only [payload, serialize, fieldText, htype, hpid, htarget, hcurrent, htier, hend, hcomma,
    hclose, hnewline, hname, decimalInt_natCast, List.append_assoc, List.cons_append,
    List.nil_append]

section Fields

variable {key name before rest : Bytes}

/-- A text does not start as the key does with a byte that the key does not hold. -/
theorem head?_ne_of_notMem {b : UInt8} (h : b ∉ key) (s : Bytes) : (b :: s).head? ≠ key.head? := by
  intro heq
  exact h (List.mem_of_mem_head? heq.symm)

/-- The search for a key passes over the field of another one if it does over the value there. -/
theorem IsKey.passes_fieldText {value : Bytes} (h : IsKey key) (hname : quote ∉ name)
    (hne : key ≠ name) (hvalue : Passes key value) (hhead : (value ++ [44]).head? ≠ key.head?) :
    Passes key (fieldText name value) := by
  have hcomma : Passes key [44] := passes_of_notMem (by decide)
  have hcolon : Passes key [58] := passes_of_notMem (by decide)
  have hafter : Passes key ([58] ++ (value ++ [44])) :=
    hcolon.append (hvalue.append hcomma (head?_ne_of_notMem h.comma_notMem _)) hhead
  exact (passes_quoted h.quote_notMem hname hne h.ne_nil).append hafter
    (head?_ne_of_notMem h.colon_notMem _)

/-- The search for a key passes over the type. -/
theorem IsKey.passes_type (h : IsKey key) (hne : key ≠ ascii "type") (t : MessageType) :
    Passes key (fieldText (ascii "type") (quoted (typeToString t))) := by
  have hquote : quote ∉ typeToString t := by cases t <;> decide
  exact h.passes_fieldText (by decide) hne
    (passes_quoted h.quote_notMem hquote (h.ne_type t) h.ne_nil)
    (head?_ne_of_notMem h.quote_notMem _)

/-- The search for a key passes over the number of another one. -/
theorem IsKey.passes_number (h : IsKey key) (name : Bytes) (hname : quote ∉ name) (hne : key ≠ name)
    (z : ℤ) :
    Passes key (fieldText name (decimalInt z)) := by
  have hset : [quote].any isNumeral = false := rfl
  have hquote : quote ∉ decimalInt z := fun hmem =>
    notMem_of_mem_decimalInt hset hmem List.mem_cons_self
  refine h.passes_fieldText hname hne (passes_of_notMem hquote) ?_
  obtain ⟨b, s, hs⟩ := List.exists_cons_of_ne_nil (decimalInt_ne_nil z)
  rw [hs]
  exact head?_ne_of_notMem (notMem_of_mem_decimalInt h.numeral_notMem (hs ▸ List.mem_cons_self)) _

/-- The search passes over one more field. -/
theorem IsKey.passes_append (h : IsKey key) {value : Bytes} (hbefore : Passes key before)
    (hfield : Passes key (fieldText name value)) : Passes key (before ++ fieldText name value) :=
  hbefore.append hfield (head?_ne_of_notMem h.quote_notMem _)

/-- The search passes over the brace and the type. -/
theorem IsKey.passes_start (h : IsKey key) (hne : key ≠ ascii "type") (t : MessageType) :
    Passes key (ascii "\x7b" ++ fieldText (ascii "type") (quoted (typeToString t))) :=
  h.passes_append (passes_of_notMem (by decide)) (h.passes_type hne t)

/-- A number is extracted. -/
theorem IsKey.extract_number (h : IsKey key) (rest : Bytes) (hbefore : Passes key before) (z : ℤ)
    {d : UInt8} (hd : d ∈ ascii ",\x7d") :
    extractString (before ++ (quoted key ++ 58 :: (decimalInt z ++ d :: rest))) key =
      decimalInt z := by
  have hskipped : skipped.any isNumeral = false := by decide
  have hdelimiters : (delimiters []).any isNumeral = false := by decide
  obtain ⟨b, s, hs⟩ := List.exists_cons_of_ne_nil (decimalInt_ne_nil z)
  have hb : b ∉ skipped := notMem_of_mem_decimalInt hskipped (hs ▸ List.mem_cons_self)
  have hcolon : 58 ∉ quoted key ++ [] := by
    simpa [quoted, quote] using h.colon_notMem
  have hextract := extractString_eq before [] [] rest (hbefore.first h.quote_notMem _) hcolon
    (by simp) ⟨b, s, hs, hb⟩ (fun b hb => notMem_of_mem_decimalInt hdelimiters hb) hd
  simpa only [List.append_nil, List.nil_append] using hextract

/-- The number of a field is extracted. -/
theorem IsKey.extract_field (h : IsKey key) (hbefore : Passes key before) (z : ℤ) :
    extractString (before ++ (fieldText key (decimalInt z) ++ rest)) key = decimalInt z := by
  simpa only [fieldText, List.append_assoc, List.cons_append, List.nil_append] using
    h.extract_number rest hbefore z (d := 44) (by decide)

/-- The type is extracted. -/
theorem extract_type (t : MessageType) (rest : Bytes) :
    extractString (ascii "\x7b" ++ (fieldText (ascii "type") (quoted (typeToString t)) ++ rest))
      (ascii "type") = typeToString t := by
  have hquote : quote ∉ typeToString t := by cases t <;> decide
  have hvalue : ∀ b ∈ typeToString t, b ∉ delimiters [quote] := by
    rintro b hb hmem
    obtain rfl : b = quote := List.mem_singleton.1 hmem
    exact hquote hb
  have hskip : ∀ b ∈ [quote], b ∈ skipped := by
    rintro b hb
    rw [List.mem_singleton.1 hb]
    decide
  have hhead : ∃ b v, typeToString t = b :: v ∧ b ∉ skipped := by
    cases t <;> exact ⟨_, _, rfl, by decide⟩
  have hkey : quote ∉ ascii "type" := by decide
  have hend : quote ∈ delimiters [quote] := by decide
  have hextract := extractString_eq (ascii "\x7b") [] [quote] (44 :: rest)
    ((passes_of_notMem (by decide)).first hkey _) (by decide) hskip hhead hvalue hend
  simpa only [fieldText, quoted, List.append_assoc, List.cons_append, List.nil_append,
    List.append_nil] using hextract

end Fields

/-! ## The round trip -/

section RoundTrip

variable (msg : Message)

theorem extract_pid : extractString msg.payload (ascii "pid") = decimalInt msg.pid.toInt := by
  have h : IsKey (ascii "pid") := isKey_of_mem (by decide)
  rw [payload_eq, ← List.append_assoc]
  exact h.extract_field (h.passes_start (by decide) msg.type) _

theorem extract_target_bytes : extractString msg.payload (ascii "target_bytes") =
    decimalInt msg.target_bytes.toNat := by
  have h : IsKey (ascii "target_bytes") := isKey_of_mem (by decide)
  have hpid := h.passes_append (h.passes_start (by decide) msg.type)
    (h.passes_number (ascii "pid") (by decide) (by decide) msg.pid.toInt)
  rw [payload_eq, ← List.append_assoc, ← List.append_assoc]
  exact h.extract_field hpid _

theorem extract_current_size_bytes : extractString msg.payload (ascii "current_size_bytes") =
    decimalInt msg.current_size_bytes.toNat := by
  have h : IsKey (ascii "current_size_bytes") := isKey_of_mem (by decide)
  have hpid := h.passes_append (h.passes_start (by decide) msg.type)
    (h.passes_number (ascii "pid") (by decide) (by decide) msg.pid.toInt)
  have htarget := h.passes_append hpid
    (h.passes_number (ascii "target_bytes") (by decide) (by decide) msg.target_bytes.toNat)
  rw [payload_eq, ← List.append_assoc, ← List.append_assoc, ← List.append_assoc]
  exact h.extract_field htarget _

theorem extract_tier : extractString msg.payload (ascii "tier") = decimalInt msg.tier.toInt := by
  have h : IsKey (ascii "tier") := isKey_of_mem (by decide)
  have hpid := h.passes_append (h.passes_start (by decide) msg.type)
    (h.passes_number (ascii "pid") (by decide) (by decide) msg.pid.toInt)
  have htarget := h.passes_append hpid
    (h.passes_number (ascii "target_bytes") (by decide) (by decide) msg.target_bytes.toNat)
  have hcurrent := h.passes_append htarget
    (h.passes_number (ascii "current_size_bytes") (by decide) (by decide)
      msg.current_size_bytes.toNat)
  rw [payload_eq, ← List.append_assoc, ← List.append_assoc, ← List.append_assoc,
    ← List.append_assoc]
  exact h.extract_number _ hcurrent _ (by decide)

/-- A number that is there is converted. -/
theorem field_decimalInt {α : Type} (conversion : Bytes → Except Numeral.Error α) (z : ℤ)
    (default : α) : field conversion (decimalInt z) default = conversion (decimalInt z) :=
  if_neg (decimalInt_ne_nil z)

/-- The decoder reads a message back from its text. -/
theorem deserialize_payload : deserialize msg.payload = .ok msg := by
  have htype : stringToType (extractString msg.payload (ascii "type")) = msg.type := by
    rw [payload_eq, extract_type, MessageType.stringToType_typeToString]
  have hint : ∀ x : Int32, stoi (decimalInt x.toInt) = .ok x := fun x => by
    have hread : stoi (decimalInt x.toInt ++ []) = .ok x := stoi_decimalInt x (by simp)
    rwa [List.append_nil] at hread
  have hull : ∀ x : UInt64, stoull (decimalInt x.toNat) = .ok x := fun x => by
    have hread : stoull (decimal x.toNat ++ []) = .ok x := stoull_decimal x (by simp)
    rwa [List.append_nil, ← decimalInt_natCast] at hread
  simp only [deserialize, htype, extract_pid, extract_target_bytes, extract_current_size_bytes,
    extract_tier, field_decimalInt, hint, hull]
  rfl

/-- The text of a message is never empty and always short. -/
theorem payload_length : 1 ≤ msg.payload.length ∧ msg.payload.length ≤ 65536 := by
  have htype : (typeToString msg.type).length ≤ 11 := by cases msg.type <;> decide
  have hint : ∀ x : Int32, (decimalInt x.toInt).length ≤ 11 := fun x => by
    have hlo := x.le_toInt
    have hhi := x.toInt_lt
    exact decimalInt_length_le (by decide) (by omega)
  have hull : ∀ x : UInt64, (decimal x.toNat).length ≤ 20 := fun x => by
    have hhi := x.toNat_lt
    exact decimal_length_le (by decide) (by omega)
  have hpid := hint msg.pid
  have htier := hint msg.tier
  have htarget := hull msg.target_bytes
  have hcurrent := hull msg.current_size_bytes
  have hkeys : (keys.map List.length).sum = 41 := rfl
  simp only [keys, List.map_cons, List.map_nil, List.sum_cons, List.sum_nil] at hkeys
  have hbrace : (ascii "\x7b").length = 1 := rfl
  rw [payload_eq]
  simp only [fieldText, decimalInt_natCast, List.length_append, List.length_cons, quoted_length,
    List.length_nil]
  omega

/-- A message as a payload. -/
def toPayload : Framing.Payload where
  bytes := msg.payload
  length_pos := (payload_length msg).1
  length_lt := by
    have hle := (payload_length msg).2
    omega

/-- The frame of a message is the frame of its text. -/
theorem frame_eq : msg.frame = msg.toPayload.frame := by
  have hlt : msg.payload.length < 2^32 := msg.toPayload.length_lt
  rw [frame, Nat.mod_eq_of_lt hlt]
  rfl

/-- Frames of messages, one after another, are a stream. -/
theorem stream_toPayload (msgs : List Message) :
    Framing.stream (msgs.map toPayload) = msgs.flatMap frame := by
  rw [Framing.stream, List.flatMap_map]
  exact List.flatMap_congr fun msg _ => (frame_eq msg).symm

/-- The frame of every message is four bytes with the length of the rest and then the rest, its
text. The length is one that the client accepts, and the decoder reads the message back from the
text. So no two messages have the same frame. -/
theorem frame_roundTrip :
    (∀ msg : Message, msg.frame = Framing.be32 (msg.serialize ++ ascii "\n").length ++
        (msg.serialize ++ ascii "\n") ∧
      1 ≤ (msg.serialize ++ ascii "\n").length ∧ (msg.serialize ++ ascii "\n").length ≤ 65536 ∧
      Framing.readBe32 (msg.frame.take 4) = (msg.serialize ++ ascii "\n").length ∧
      deserialize (msg.serialize ++ ascii "\n") = .ok msg) ∧
    Function.Injective frame := by
  constructor
  · intro msg
    obtain ⟨hpos, hle⟩ := payload_length msg
    have hframe : msg.frame = Framing.be32 msg.payload.length ++ msg.payload := frame_eq msg
    refine ⟨hframe, hpos, hle, ?_, deserialize_payload msg⟩
    have htake : msg.frame.take 4 = Framing.be32 msg.payload.length := by
      rw [hframe]
      exact List.take_left' (Framing.be32_length _)
    rw [htake]
    exact Framing.readBe32_be32 msg.toPayload.length_lt
  · intro msg msg' heq
    have hdrop : ∀ m : Message, m.frame.drop 4 = m.payload := fun m =>
      List.drop_left' (Framing.be32_length _)
    have hpayload : msg.payload = msg'.payload := by rw [← hdrop msg, heq, hdrop]
    have hok : (.ok msg : Except Numeral.Error Message) = .ok msg' := by
      rw [← deserialize_payload msg, hpayload, deserialize_payload]
    exact Except.ok.inj hok

end RoundTrip

end Message

end MemoryGovernor
