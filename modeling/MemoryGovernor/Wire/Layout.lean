import MemoryGovernor.Wire.Decoding

/-!
# Layouts of a message

The texts of a message other than the one that `serialize` writes. A JSON object lists the fields in
any order, with blanks around its tokens, and may leave out a field that has its default (`Layout`).
The decoder reads all of them as that message (`deserialize_text`).

The search for a key passes over every other field (`skips_memberText`), so it finds the field in
any order, or nothing where the field is left out. What comes between the colon and the value is
skipped; what comes after a number, up to the comma or the brace, becomes part of its text, and the
conversion ignores it.
-/

namespace MemoryGovernor

open Bytes Numeral

namespace Message

open MessageType (typeToString stringToType)

/-- The fields. -/
inductive Field
  | type
  | pid
  | target_bytes
  | current_size_bytes
  | tier
deriving DecidableEq, Repr

namespace Field

/-- The key of a field. -/
def key : Field → Bytes
  | type => ascii "type"
  | pid => ascii "pid"
  | target_bytes => ascii "target_bytes"
  | current_size_bytes => ascii "current_size_bytes"
  | tier => ascii "tier"

/-- The value of a field. -/
def value (msg : Message) : Field → Bytes
  | type => quoted (typeToString msg.type)
  | pid => decimalInt msg.pid.toInt
  | target_bytes => decimalInt msg.target_bytes.toNat
  | current_size_bytes => decimalInt msg.current_size_bytes.toNat
  | tier => decimalInt msg.tier.toInt

/-- The field has the value that `Message` gives it by default. -/
def IsDefault (msg : Message) : Field → Prop
  | type => msg.type = ({} : Message).type
  | pid => msg.pid = ({} : Message).pid
  | target_bytes => msg.target_bytes = ({} : Message).target_bytes
  | current_size_bytes => msg.current_size_bytes = ({} : Message).current_size_bytes
  | tier => msg.tier = ({} : Message).tier

/-- A key holds none of the bytes around it. -/
theorem isKey (f : Field) : IsKey f.key := isKey_of_mem (by cases f <;> decide)

/-- No two fields have the same key. -/
theorem key_ne {f f' : Field} (h : f' ≠ f) : f.key ≠ f'.key := by
  cases f <;> cases f' <;> first | exact absurd rfl h | decide

end Field

/-- The blanks around the tokens of a field. -/
structure Spacing where
  beforeKey : Bytes
  afterKey : Bytes
  beforeValue : Bytes
  afterValue : Bytes
  blanks_beforeKey : Blanks beforeKey
  blanks_afterKey : Blanks afterKey
  blanks_beforeValue : Blanks beforeValue
  blanks_afterValue : Blanks afterValue

/-- No blanks. -/
def Spacing.none : Spacing where
  beforeKey := []
  afterKey := []
  beforeValue := []
  afterValue := []
  blanks_beforeKey := by simp [Blanks]
  blanks_afterKey := by simp [Blanks]
  blanks_beforeValue := by simp [Blanks]
  blanks_afterValue := by simp [Blanks]

/-- A field of the message with its blanks. -/
def memberText (msg : Message) (m : Field × Spacing) : Bytes :=
  m.2.beforeKey ++ (quoted m.1.key ++ (m.2.afterKey ++
    58 :: (m.2.beforeValue ++ (m.1.value msg ++ m.2.afterValue))))

/-- An object with the fields of a message: those that are left out have their defaults. -/
structure Layout (msg : Message) where
  lead : Bytes
  /-- The blanks of an object without fields. -/
  space : Bytes
  members : List (Field × Spacing)
  trail : Bytes
  isSpace_lead : ∀ b ∈ lead, isSpace b = true
  blanks_space : Blanks space
  nodup : (members.map Prod.fst).Nodup
  isDefault_of_notMem : ∀ f, f ∉ members.map Prod.fst → f.IsDefault msg
  isSpace_trail : ∀ b ∈ trail, isSpace b = true

/-- The text of the object. -/
def Layout.text {msg : Message} (l : Layout msg) : Bytes :=
  l.lead ++ (123 :: l.space ++ ([44].intercalate (l.members.map msg.memberText) ++ 125 :: l.trail))

/-- White space, a brace, a colon or a comma. -/
def isStructural (b : UInt8) : Bool := isSpace b || decide (b ∈ ascii "\x7b\x7d:,")

section Skips

variable {msg : Message} {f : Field} {s : Bytes}

theorem isStructural_of_blanks (hs : Blanks s) : ∀ b ∈ s, isStructural b = true := fun b hb => by
  rw [isStructural, isSpace_of_blanks hs b hb, Bool.true_or]

/-- What separates the fields and their parts is passed over. -/
theorem skips_of_isStructural (f : Field) (hs : ∀ b ∈ s, isStructural b = true) :
    Skips f.key s := by
  have hquote : isStructural quote = false := by decide
  have hkey : f.key.any isStructural = false := by cases f <;> decide
  refine skips_of_notMem f.isKey.ne_nil (fun hmem => ?_) fun b hb hmem => ?_
  · exact Bool.false_ne_true (hquote.symm.trans (hs quote hmem))
  · exact List.any_eq_false.1 hkey b hmem (hs b hb)

/-- So is a number. -/
theorem skips_decimalInt (f : Field) (z : ℤ) : Skips f.key (decimalInt z) := by
  have hset : [quote].any isNumeral = false := rfl
  refine skips_of_notMem f.isKey.ne_nil (fun hmem => ?_) fun b hb => ?_
  · exact notMem_of_mem_decimalInt hset hmem List.mem_cons_self
  · exact notMem_of_mem_decimalInt f.isKey.numeral_notMem hb

/-- So is the value of any field. -/
theorem skips_value (msg : Message) (f f' : Field) : Skips f.key (f'.value msg) := by
  cases f' with
  | type =>
    have hquote : quote ∉ typeToString msg.type := by cases msg.type <;> decide
    exact skips_quoted f.isKey.quote_notMem hquote (f.isKey.ne_type _) f.isKey.ne_nil
  | pid => exact skips_decimalInt f _
  | target_bytes => exact skips_decimalInt f _
  | current_size_bytes => exact skips_decimalInt f _
  | tier => exact skips_decimalInt f _

/-- The search for a key passes over the other fields. -/
theorem skips_memberText (msg : Message) (m : Field × Spacing) (h : m.1 ≠ f) :
    Skips f.key (msg.memberText m) := by
  have hbetween : ∀ b ∈ m.2.afterKey ++ ([58] ++ m.2.beforeValue), isStructural b = true := by
    intro b hb
    rcases List.mem_append.1 hb with hb | hb
    · exact isStructural_of_blanks m.2.blanks_afterKey b hb
    · rcases List.mem_append.1 hb with hb | hb
      · rw [List.mem_singleton.1 hb]
        decide
      · exact isStructural_of_blanks m.2.blanks_beforeValue b hb
  have hkey : Skips f.key (quoted m.1.key) :=
    skips_quoted f.isKey.quote_notMem m.1.isKey.quote_notMem (Field.key_ne h) f.isKey.ne_nil
  have hbefore := skips_of_isStructural f (isStructural_of_blanks m.2.blanks_beforeKey)
  have hafter := skips_of_isStructural f (isStructural_of_blanks m.2.blanks_afterValue)
  have htext : msg.memberText m = m.2.beforeKey ++ (quoted m.1.key ++
      ((m.2.afterKey ++ ([58] ++ m.2.beforeValue)) ++ (m.1.value msg ++ m.2.afterValue))) := by
    simp only [memberText, List.append_assoc, List.cons_append, List.nil_append]
  rw [htext]
  exact hbefore.append (hkey.append ((skips_of_isStructural f hbetween).append
    ((skips_value msg f m.1).append hafter)))

end Skips

/-- One of the texts between commas. -/
theorem intercalate_append_cons (as bs : List Bytes) (a : Bytes) :
    [44].intercalate (as ++ a :: bs) =
      as.flatMap (fun x => x ++ [44]) ++ (a ++ bs.flatMap fun x => 44 :: x) := by
  have hlast : ∀ (bs : List Bytes) (a : Bytes),
      [44].intercalate (a :: bs) = a ++ bs.flatMap fun x => 44 :: x := by
    intro bs
    induction bs with
    | nil => simp
    | cons b bs ih =>
      intro a
      rw [List.intercalate_cons_cons, ih b, List.flatMap_cons, List.append_assoc]
      rfl
  induction as with
  | nil => exact hlast bs a
  | cons x as ih =>
    have hne : as ++ a :: bs ≠ [] := by simp
    rw [List.cons_append, List.intercalate_cons_of_ne_nil hne, ih, List.flatMap_cons]
    simp only [List.append_assoc]

section Blanks

variable {s : Bytes}

/-- Blanks before a value are skipped. -/
theorem mem_skipped_of_blanks (hs : Blanks s) : ∀ b ∈ s, b ∈ skipped := fun b hb => by
  have hsub : ascii " \t" ⊆ skipped := List.subset_append_left (ascii " \t") [quote]
  exact hsub (hs b hb)

/-- After blanks a value ends at a comma or a brace. -/
theorem delimiters_of_blanks (hs : Blanks s) : delimiters s = ascii ",\x7d" := by
  have hquote : quote ∉ ascii " \t" := by decide
  exact if_neg fun hlast => hquote (hs quote (List.mem_of_getLast? hlast))

/-- The key is followed by no other colon than its own. -/
theorem colon_notMem (f : Field) (hs : Blanks s) : 58 ∉ quoted f.key ++ s := by
  have hcolon : (58 : UInt8) ≠ quote := by decide
  have hblank : 58 ∉ s := fun hmem => absurd (hs 58 hmem) (by decide)
  simp [quoted, f.isKey.colon_notMem, hcolon, hblank]

end Blanks

namespace Layout

variable {msg : Message} (l : Layout msg) {f : Field}

/-- What comes before the fields is passed over. -/
theorem skips_start (f : Field) : Skips f.key (l.lead ++ 123 :: l.space) := by
  refine skips_of_isStructural f fun b hb => ?_
  rcases List.mem_append.1 hb with hb | hb
  · rw [isStructural, l.isSpace_lead b hb, Bool.true_or]
  · rcases List.mem_cons.1 hb with rfl | hb
    · decide
    · exact isStructural_of_blanks l.blanks_space b hb

/-- The text around a field that is listed: the search for its key passes over what comes before it,
and a comma or a brace comes after it. -/
theorem exists_split (hf : f ∈ l.members.map Prod.fst) :
    ∃ (sp : Spacing) (before : Bytes) (d : UInt8) (rest : Bytes),
      Skips f.key before ∧ d ∈ ascii ",\x7d" ∧ l.text = before ++ ((quoted f.key ++ sp.afterKey) ++
        58 :: (sp.beforeValue ++ (f.value msg ++ (sp.afterValue ++ d :: rest)))) := by
  obtain ⟨m, hm, rfl⟩ := List.mem_map.1 hf
  obtain ⟨l₁, l₂, hmembers⟩ := List.append_of_mem hm
  have hother : ∀ m' ∈ l₁, m'.1 ≠ m.1 := by
    have hnodup := l.nodup
    rw [hmembers, List.map_append, List.map_cons, List.nodup_append] at hnodup
    exact fun m' hm' => hnodup.2.2 m'.1 (List.mem_map_of_mem hm') m.1 List.mem_cons_self
  -- What comes after the field starts with the comma or the brace.
  obtain ⟨d, rest, hd, hrest⟩ : ∃ d rest, d ∈ ascii ",\x7d" ∧
      (l₂.map msg.memberText).flatMap (fun x => 44 :: x) ++ 125 :: l.trail = d :: rest := by
    cases l₂ with
    | nil => exact ⟨125, _, by decide, rfl⟩
    | cons m' l₂ => exact ⟨44, _, by decide, rfl⟩
  have hpieces : Skips m.1.key ((l₁.map msg.memberText).flatMap fun x => x ++ [44]) := by
    refine skips_flatMap m.1.isKey.ne_nil fun x hx => ?_
    obtain ⟨m', hm', rfl⟩ := List.mem_map.1 hx
    refine (skips_memberText msg m' (hother m' hm')).append (skips_of_isStructural m.1 ?_)
    intro b hb
    rw [List.mem_singleton.1 hb]
    decide
  have hblanks := skips_of_isStructural m.1 (isStructural_of_blanks m.2.blanks_beforeKey)
  refine ⟨m.2, _, d, rest, (l.skips_start m.1).append (hpieces.append hblanks), hd, ?_⟩
  rw [text, hmembers, List.map_append, List.map_cons, intercalate_append_cons, ← hrest, memberText]
  simp only [List.append_assoc, List.cons_append]

/-- A number that is listed is extracted, with the blanks after it. -/
theorem extract_number (hf : f ∈ l.members.map Prod.fst) {z : ℤ}
    (hvalue : f.value msg = decimalInt z) :
    ∃ after, Blanks after ∧ extractString l.text f.key = decimalInt z ++ after := by
  obtain ⟨sp, before, d, rest, hbefore, hd, htext⟩ := l.exists_split hf
  refine ⟨sp.afterValue, sp.blanks_afterValue, ?_⟩
  have hskipped : skipped.any isNumeral = false := by decide
  have hdelimiters : (ascii ",\x7d").any isNumeral = false := by decide
  obtain ⟨b, s, hs⟩ := List.exists_cons_of_ne_nil (decimalInt_ne_nil z)
  have hhead : ∃ b v, decimalInt z ++ sp.afterValue = b :: v ∧ b ∉ skipped :=
    ⟨b, s ++ sp.afterValue, by rw [hs, List.cons_append],
      notMem_of_mem_decimalInt hskipped (hs ▸ List.mem_cons_self)⟩
  have hend := delimiters_of_blanks sp.blanks_beforeValue
  have hin : ∀ b ∈ decimalInt z ++ sp.afterValue, b ∉ delimiters sp.beforeValue := by
    rw [hend]
    intro b hb hmem
    rcases List.mem_append.1 hb with hb | hb
    · exact notMem_of_mem_decimalInt hdelimiters hb hmem
    · have hblank : (ascii ",\x7d").all (fun b => decide (b ∉ ascii " \t")) = true := by decide
      exact of_decide_eq_true (List.all_eq_true.1 hblank b hmem) (sp.blanks_afterValue b hb)
  have hextract := extractString_eq before sp.afterKey sp.beforeValue rest
    (hbefore.passes.first f.isKey.quote_notMem _) (colon_notMem f sp.blanks_afterKey)
    (mem_skipped_of_blanks sp.blanks_beforeValue) hhead hin (hend ▸ hd)
  rwa [htext, hvalue, ← List.append_assoc (decimalInt z)]

/-- The type is extracted where it is listed. -/
theorem extract_type (hf : Field.type ∈ l.members.map Prod.fst) :
    extractString l.text (ascii "type") = typeToString msg.type := by
  obtain ⟨sp, before, d, rest, hbefore, -, htext⟩ := l.exists_split hf
  have hquote : quote ∉ typeToString msg.type := by cases msg.type <;> decide
  have hskip : ∀ b ∈ sp.beforeValue ++ [quote], b ∈ skipped := by
    intro b hb
    rcases List.mem_append.1 hb with hb | hb
    · exact mem_skipped_of_blanks sp.blanks_beforeValue b hb
    · rw [List.mem_singleton.1 hb]
      decide
  have hend : delimiters (sp.beforeValue ++ [quote]) = [quote] :=
    if_pos (List.getLast?_concat ..)
  have hhead : ∃ b v, typeToString msg.type = b :: v ∧ b ∉ skipped := by
    cases msg.type <;> exact ⟨_, _, rfl, by decide⟩
  have hin : ∀ b ∈ typeToString msg.type, b ∉ delimiters (sp.beforeValue ++ [quote]) := by
    rw [hend]
    intro b hb hmem
    obtain rfl : b = quote := List.mem_singleton.1 hmem
    exact hquote hb
  have hextract := extractString_eq before sp.afterKey (sp.beforeValue ++ [quote])
    (sp.afterValue ++ d :: rest) (hbefore.passes.first Field.type.isKey.quote_notMem _)
    (colon_notMem .type sp.blanks_afterKey) hskip hhead hin
    (hend ▸ List.mem_singleton.2 rfl)
  have hvalue : sp.beforeValue ++ (Field.type.value msg ++ (sp.afterValue ++ d :: rest)) =
      (sp.beforeValue ++ [quote]) ++
        (typeToString msg.type ++ quote :: (sp.afterValue ++ d :: rest)) := by
    simp only [Field.value, quoted, List.append_assoc, List.cons_append, List.nil_append]
  rwa [htext, hvalue]

/-- Of a field that is left out nothing is extracted. -/
theorem extract_of_notMem (hf : f ∉ l.members.map Prod.fst) : extractString l.text f.key = [] := by
  have hpieces : ∀ x ∈ l.members.map msg.memberText, Skips f.key x := by
    intro x hx
    obtain ⟨m, hm, rfl⟩ := List.mem_map.1 hx
    refine skips_memberText msg m ?_
    rintro rfl
    exact hf (List.mem_map_of_mem hm)
  have hcomma : Skips f.key [44] := skips_of_isStructural f fun b hb => by
    rw [List.mem_singleton.1 hb]
    decide
  have hmembers : Skips f.key ([44].intercalate (l.members.map msg.memberText)) := by
    cases hlist : l.members.map msg.memberText with
    | nil => exact skips_of_isStructural f (by simp)
    | cons x xs =>
      have hsplit := intercalate_append_cons [] xs x
      rw [hlist] at hpieces
      obtain ⟨hx, hxs⟩ := List.forall_mem_cons.1 hpieces
      rw [List.nil_append, List.flatMap_nil, List.nil_append] at hsplit
      rw [hsplit]
      exact hx.append (skips_flatMap f.isKey.ne_nil fun y hy => hcomma.append (hxs y hy))
  have hend : Skips f.key (125 :: l.trail) := by
    refine skips_of_isStructural f fun b hb => ?_
    rcases List.mem_cons.1 hb with rfl | hb
    · decide
    · rw [isStructural, l.isSpace_trail b hb, Bool.true_or]
  have hskips : Skips f.key l.text := by
    have hall := (l.skips_start f).append (hmembers.append hend)
    rwa [List.append_assoc] at hall
  have hfind : l.text.find (quoted f.key) 0 = none := by
    rw [find_zero]
    exact hskips.search_eq_none f.isKey.ne_nil
  rw [extractString, hfind]

/-- A number is read back, listed or left out. -/
theorem field_number {α : Type} {conversion : Bytes → Except Numeral.Error α} {default x : α}
    {z : ℤ} (hvalue : f.value msg = decimalInt z)
    (hread : ∀ after, Blanks after → conversion (decimalInt z ++ after) = .ok x)
    (hdefault : f.IsDefault msg → x = default) :
    field conversion (extractString l.text f.key) default = .ok x := by
  by_cases hf : f ∈ l.members.map Prod.fst
  · obtain ⟨after, hafter, hextract⟩ := l.extract_number hf hvalue
    have hne : decimalInt z ++ after ≠ [] :=
      List.append_ne_nil_of_left_ne_nil (decimalInt_ne_nil z) _
    rw [hextract, field, if_neg hne, hread after hafter]
  · rw [l.extract_of_notMem hf, field, if_pos rfl, hdefault (l.isDefault_of_notMem f hf)]

/-- Whatever the order of the fields, the blanks around them, and the fields that are left out: the
decoder reads the message back. -/
theorem deserialize_text : deserialize l.text = .ok msg := by
  have hint : ∀ (x : Int32) (after : Bytes), Blanks after →
      stoi (decimalInt x.toInt ++ after) = .ok x :=
    fun x after hafter => stoi_decimalInt x (not_isDigit_of_blanks hafter)
  have hull : ∀ (x : UInt64) (after : Bytes), Blanks after →
      stoull (decimalInt x.toNat ++ after) = .ok x := fun x after hafter => by
    rw [decimalInt_natCast]
    exact stoull_decimal x (not_isDigit_of_blanks hafter)
  have htype : stringToType (extractString l.text (ascii "type")) = msg.type := by
    by_cases hf : Field.type ∈ l.members.map Prod.fst
    · rw [l.extract_type hf, MessageType.stringToType_typeToString]
    · have hnone : extractString l.text (ascii "type") = [] := l.extract_of_notMem hf
      have hdefault : msg.type = ({} : Message).type := l.isDefault_of_notMem .type hf
      rw [hnone, hdefault]
      decide
  exact deserialize_eq_ok.2 ⟨htype, l.field_number (f := .pid) rfl (hint msg.pid) id,
    l.field_number (f := .target_bytes) rfl (hull msg.target_bytes) id,
    l.field_number (f := .current_size_bytes) rfl (hull msg.current_size_bytes) id,
    l.field_number (f := .tier) rfl (hint msg.tier) id⟩

/-- The layout of `serialize`: every field in order, and no blanks. -/
def serialized (msg : Message) : Layout msg where
  lead := []
  space := []
  members := [.type, .pid, .target_bytes, .current_size_bytes, .tier].map fun f => (f, .none)
  trail := [10]
  isSpace_lead := by simp
  blanks_space := by simp [Blanks]
  nodup := by
    rw [List.map_map]
    decide
  isDefault_of_notMem f hf := by
    rw [List.map_map] at hf
    exact absurd (by cases f <;> decide) hf
  isSpace_trail := by simp [isSpace]

/-- What is sent in a frame is this text. -/
theorem text_serialized (msg : Message) : (serialized msg).text = msg.payload := by
  have hopen : ascii "\x7b" = [123] := rfl
  rw [payload_eq, hopen]
  simp only [text, serialized, memberText, Spacing.none, Field.value, Field.key, fieldText,
    List.map_cons, List.map_nil, List.intercalate_cons_cons, List.intercalate_singleton,
    List.append_assoc, List.cons_append, List.nil_append]

example : deserialize (ascii "\x7b \"tier\" :\t3 , \"type\": \"GROW\" \x7d") =
    .ok { type := .GROW, tier := 3 } := by
  decide +kernel

end Layout

end Message

end MemoryGovernor
