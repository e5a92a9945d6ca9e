import MemoryGovernor.Psi.Parser

/-!
# What the kernel writes

The texts of `/proc/pressure/memory` that `parse_psi_file` is written for, and that it reads them
right. A record is three averages, decimals with two digits after the point, and a total. A line
renders a record as its four tokens, in any order, after the name of the share, with white space
between them and other tokens among them (`RecordLine`). A text has a line for each of its records,
and other lines (`Renders`).

Neither the order of the lines nor that of the tokens matters to the parser, because no field is set
twice: the settings of a text are those of its records in some order (`settings_perm`), and the last
value set for a field is the only one (`lastValue_of_perm`).
-/

namespace MemoryGovernor

open Bytes (ascii)
open Numeral (isSpace isDigit decimal value AllDigits Plain)

/-- A decimal with two digits after the point. -/
structure Hundredths where
  whole : Bytes
  fraction : Bytes
  allDigits_whole : AllDigits whole
  whole_ne_nil : whole ≠ []
  allDigits_fraction : AllDigits fraction
  fraction_length : fraction.length = 2

namespace Hundredths

/-- How it is written. -/
def text (x : Hundredths) : Bytes := x.whole ++ 46 :: x.fraction

/-- The number. -/
def number (x : Hundredths) : ℚ := value (x.whole ++ x.fraction) / 100

/-- A decimal from its digits. -/
def ofDigits (whole fraction : Bytes) (hwhole : whole.all isDigit = true) (hne : whole ≠ [])
    (hfraction : fraction.all isDigit = true) (hlen : fraction.length = 2) : Hundredths :=
  ⟨whole, fraction, List.all_eq_true.1 hwhole, hne, List.all_eq_true.1 hfraction, hlen⟩

/-- It is written in plain decimal. -/
theorem plain_text (x : Hundredths) : Plain x.text x.number := by
  have hne : x.fraction ≠ [] := by
    intro hnil
    have hlen := x.fraction_length
    rw [hnil] at hlen
    cases hlen
  have hplain := Plain.fraction x.allDigits_whole x.whole_ne_nil x.allDigits_fraction hne
  have hten : (10 : ℚ) ^ x.fraction.length = 100 := by
    rw [x.fraction_length]
    norm_num
  rwa [hten] at hplain

end Hundredths

/-- The numbers of a line. -/
structure PsiRecord where
  avg10 : Hundredths
  avg60 : Hundredths
  avg300 : Hundredths
  total : UInt64

namespace PsiKey

/-- The name of a key. -/
def name : PsiKey → Bytes
  | avg10 => ascii "avg10"
  | avg60 => ascii "avg60"
  | avg300 => ascii "avg300"
  | total => ascii "total"

/-- The keys. -/
def all : List PsiKey := [avg10, avg60, avg300, total]

/-- A name is known. -/
theorem ofName_name (k : PsiKey) : ofName k.name = some k := by cases k <;> decide

/-- Any other name is not known. -/
theorem ofName_eq_none {key : Bytes} (h : ∀ k : PsiKey, key ≠ k.name) : ofName key = none := by
  have h10 : key ≠ ascii "avg10" := h avg10
  have h60 : key ≠ ascii "avg60" := h avg60
  have h300 : key ≠ ascii "avg300" := h avg300
  have htotal : key ≠ ascii "total" := h total
  rw [ofName, if_neg h10, if_neg h60, if_neg h300, if_neg htotal]

end PsiKey

/-- A line is its fields. -/
theorem PsiLine.ext_get {l l' : PsiLine} (h : ∀ k, l.get k = l'.get k) : l = l' := by
  cases l
  cases l'
  have h10 := h .avg10
  have h60 := h .avg60
  have h300 := h .avg300
  have htotal := h .total
  simp only [get] at h10 h60 h300 htotal
  rw [h10, h60, h300, htotal]

/-- The word that starts a line. -/
def PsiShare.name : PsiShare → Bytes
  | someLine => ascii "some"
  | fullLine => ascii "full"

/-- It is a word. -/
theorem PsiShare.word_name (share : PsiShare) :
    share.name ≠ [] ∧ ∀ b ∈ share.name, isSpace b = false := by
  have hname : share.name ≠ [] ∧ share.name.all (fun b => !isSpace b) = true := by
    cases share <;> decide
  exact ⟨hname.1, fun b hb => by simpa using List.all_eq_true.1 hname.2 b hb⟩

namespace PsiRecord

/-- How the value of a key is written. -/
def text (r : PsiRecord) : PsiKey → Bytes
  | .avg10 => r.avg10.text
  | .avg60 => r.avg60.text
  | .avg300 => r.avg300.text
  | .total => decimal r.total.toNat

/-- The token of a key. -/
def token (r : PsiRecord) (k : PsiKey) : Bytes := k.name ++ 61 :: r.text k

/-- The record as the parser has it. -/
def line (r : PsiRecord) : PsiLine :=
  ⟨.finite r.avg10.number, .finite r.avg60.number, .finite r.avg300.number, r.total⟩

end PsiRecord

namespace PsiPoller

/-- White space other than a newline. -/
def Inline (s : Bytes) : Prop := ∀ b ∈ s, isSpace b = true ∧ b ≠ 10

/-- A token without `=`, or with another key. -/
structure Extra (token : Bytes) : Prop where
  ne_nil : token ≠ []
  not_isSpace : ∀ b ∈ token, isSpace b = false
  otherKey : 61 ∉ token ∨
    ∃ key val, token = key ++ 61 :: val ∧ 61 ∉ key ∧ ∀ k : PsiKey, key ≠ k.name

/-- The lines of a record. -/
inductive RecordLine (share : PsiShare) (r : PsiRecord) : Bytes → Prop
  | tokens {parts : List (Bytes × Bytes)} {extras : List Bytes} {trailing : Bytes}
      (hgaps : ∀ p ∈ parts, p.1 ≠ [] ∧ Inline p.1)
      (htokens : (parts.map Prod.snd).Perm (PsiKey.all.map r.token ++ extras))
      (hextras : ∀ token ∈ extras, Extra token) (htrailing : Inline trailing) :
      RecordLine share r (share.name ++ (parts.flatMap (fun p => p.1 ++ p.2) ++ trailing))

/-- A line that the parser passes over. It may be empty, as the one after a newline at the end
is. -/
structure OtherLine (line : Bytes) : Prop where
  newline_notMem : 10 ∉ line
  not_prefix : ∀ share : PsiShare, ¬ share.name <+: line

/-- The texts with these records. -/
inductive Renders (records : PsiShare → Option PsiRecord) : Bytes → Prop
  | lines {recordLine : PsiShare → Option Bytes} {others lines : List Bytes}
      (hrecords : ∀ share, Option.Rel (RecordLine share) (records share) (recordLine share))
      (hothers : ∀ line ∈ others, OtherLine line)
      (hlines : lines.Perm
        ((recordLine .someLine).toList ++ (recordLine .fullLine).toList ++ others)) :
      Renders records ([10].intercalate lines)

/-! ## Words and lines -/

section Words

variable {w s : Bytes} {b : UInt8}

/-- White space before a text is skipped. -/
theorem words_append_of_isSpace (hs : ∀ b ∈ w, isSpace b = true) (s : Bytes) :
    words (w ++ s) = words s := by
  induction w with
  | nil => rfl
  | cons b w ih =>
    obtain ⟨hb, hw⟩ := List.forall_mem_cons.1 hs
    -- An empty word ends at the blank.
    have hsplit : (b :: (w ++ s)).splitOnP isSpace = [] :: (w ++ s).splitOnP isSpace :=
      List.splitOnP_append_cons_of_forall_mem (List.forall_mem_nil _) b hb (w ++ s)
    rw [List.cons_append, words, hsplit, List.filter_cons_of_neg (by simp)]
    exact ih hw

/-- A word ends where white space follows. -/
theorem words_append (hw : ∀ b ∈ w, isSpace b = false) (hne : w ≠ [])
    (hs : ∀ b ∈ s.head?, isSpace b = true) : words (w ++ s) = w :: words s := by
  cases s with
  | nil =>
    rw [List.append_nil, words, List.splitOnP_eq_singleton hw,
      List.filter_cons_of_pos (by simpa using hne)]
    rfl
  | cons b s =>
    have hb : isSpace b = true := hs b rfl
    have hskip : words (b :: s) = words s :=
      words_append_of_isSpace (w := [b]) (by simpa using hb) s
    rw [hskip, words, List.splitOnP_append_cons_of_forall_mem hw b hb,
      List.filter_cons_of_pos (by simpa using hne)]
    rfl

/-- Tokens with white space before each of them start with white space. -/
theorem isSpace_head_parts {parts : List (Bytes × Bytes)} {trailing : Bytes}
    (hgaps : ∀ p ∈ parts, p.1 ≠ [] ∧ Inline p.1) (htrailing : Inline trailing) :
    ∀ b ∈ (parts.flatMap (fun p => p.1 ++ p.2) ++ trailing).head?, isSpace b = true := by
  intro b hb
  cases parts with
  | nil => exact (htrailing b (List.mem_of_mem_head? hb)).1
  | cons p parts =>
    obtain ⟨hp, hinline⟩ := hgaps p List.mem_cons_self
    obtain ⟨c, gap, hgap⟩ := List.exists_cons_of_ne_nil hp
    rw [List.flatMap_cons, hgap] at hb
    obtain rfl : c = b := Option.some.inj hb
    exact (hinline c (hgap ▸ List.mem_cons_self)).1

/-- They are the words. -/
theorem words_parts {parts : List (Bytes × Bytes)} {trailing : Bytes}
    (hgaps : ∀ p ∈ parts, p.1 ≠ [] ∧ Inline p.1)
    (htokens : ∀ p ∈ parts, p.2 ≠ [] ∧ ∀ b ∈ p.2, isSpace b = false) (htrailing : Inline trailing) :
    words (parts.flatMap (fun p => p.1 ++ p.2) ++ trailing) = parts.map Prod.snd := by
  induction parts with
  | nil =>
    have hskip := words_append_of_isSpace (fun b hb => (htrailing b hb).1) []
    rw [List.append_nil] at hskip
    exact hskip
  | cons p parts ih =>
    obtain ⟨hp, hgaps⟩ := List.forall_mem_cons.1 hgaps
    obtain ⟨⟨hne, hspace⟩, htokens⟩ := List.forall_mem_cons.1 htokens
    rw [List.flatMap_cons, List.append_assoc, List.append_assoc,
      words_append_of_isSpace (fun b hb => (hp.2 b hb).1),
      words_append hspace hne (isSpace_head_parts hgaps htrailing), ih hgaps htokens,
      List.map_cons]

end Words

/-! ## Settings of a text -/

section Settings

variable {share : PsiShare} {r : PsiRecord} {token line : Bytes}

/-- Bytes without `=` in them. -/
theorem notMem_equals {s : Bytes} (h : 61 ∉ s) : ∀ b ∈ s, b ∉ ascii "=" := by
  intro b hb hmem
  obtain rfl : b = 61 := List.mem_singleton.1 hmem
  exact h hb

/-- A token is cut at its first `=`. -/
theorem tokenSetting_append {key : Bytes} (hkey : 61 ∉ key) (val : Bytes) :
    tokenSetting (key ++ 61 :: val) = (PsiKey.ofName key).map fun k => (k, val) := by
  have hfind : (key ++ 61 :: val).find (ascii "=") 0 = some key.length := by
    have heq : ascii "=" = [61] := rfl
    rw [heq, Bytes.find_singleton, ← heq]
    simpa using Bytes.findFirstOf_append (a := []) (s := val) (notMem_equals hkey) (d := 61)
      (by decide)
  have hkeyEq : (key ++ 61 :: val).substr 0 key.length = key := by
    simpa using Bytes.substr_append [] key (61 :: val)
  have hval : (key ++ 61 :: val).drop (key.length + 1) = val := by
    rw [← List.drop_drop, List.drop_left]
    rfl
  rw [tokenSetting, hfind, Option.bind_some, hkeyEq, hval]

/-- An extra token sets nothing. -/
theorem Extra.tokenSetting_eq (h : Extra token) : tokenSetting token = none := by
  rcases h.otherKey with hmem | ⟨key, val, rfl, hkey, hother⟩
  · have hset : token.findIdx? (fun b => decide (b ∈ ascii "=")) = none := by
      rw [List.findIdx?_eq_none_iff]
      exact fun b hb => decide_eq_false (notMem_equals hmem b hb)
    have hfind : token.find (ascii "=") 0 = none := by
      have heq : ascii "=" = [61] := rfl
      rw [heq, Bytes.find_singleton, ← heq, Bytes.findFirstOf, List.drop_zero, hset]
      rfl
    rw [tokenSetting, hfind]
    rfl
  · rw [tokenSetting_append hkey, PsiKey.ofName_eq_none hother]
    rfl

/-- The token of a key sets that key. -/
theorem tokenSetting_token (r : PsiRecord) (k : PsiKey) :
    tokenSetting (r.token k) = some (k, r.text k) := by
  have hkey : 61 ∉ k.name := by cases k <;> decide
  rw [PsiRecord.token, tokenSetting_append hkey, PsiKey.ofName_name]
  rfl

/-- A value is read as the number of the record. -/
theorem names_text (r : PsiRecord) (k : PsiKey) : Names some k (r.text k) (r.line.get k) := by
  cases k with
  | avg10 => exact ⟨_, _, r.avg10.plain_text, rfl, rfl⟩
  | avg60 => exact ⟨_, _, r.avg60.plain_text, rfl, rfl⟩
  | avg300 => exact ⟨_, _, r.avg300.plain_text, rfl, rfl⟩
  | total =>
    have hvalue : value (r.text .total) = r.total.toNat := Numeral.value_decimal _
    refine ⟨Numeral.allDigits_decimal _, Numeral.decimal_ne_nil _, hvalue ▸ r.total.toNat_lt, ?_⟩
    rw [hvalue, UInt64.ofNat_toNat]
    rfl

/-- A value holds no white space. -/
theorem not_isSpace_text (r : PsiRecord) (k : PsiKey) : ∀ b ∈ r.text k, isSpace b = false := by
  have hdigit : ∀ b, isDigit b = true ∨ b = 46 → isSpace b = false := by
    rintro b (hb | rfl)
    · exact (Numeral.not_isSpace_of_isDigit hb).1
    · decide
  intro b hb
  cases k with
  | avg10 => exact hdigit b (r.avg10.plain_text.isDigit_or hb)
  | avg60 => exact hdigit b (r.avg60.plain_text.isDigit_or hb)
  | avg300 => exact hdigit b (r.avg300.plain_text.isDigit_or hb)
  | total => exact hdigit b (.inl (Numeral.isDigit_of_mem_decimal hb))

/-- The tokens of a line are words. -/
theorem word_of_mem_tokens {extras : List Bytes} (hextras : ∀ token ∈ extras, Extra token)
    (h : token ∈ PsiKey.all.map r.token ++ extras) :
    token ≠ [] ∧ ∀ b ∈ token, isSpace b = false := by
  rcases List.mem_append.1 h with h | h
  · obtain ⟨k, -, rfl⟩ := List.mem_map.1 h
    have hname : k.name ≠ [] ∧ k.name.all (fun b => !isSpace b) = true := by cases k <;> decide
    refine ⟨List.append_ne_nil_of_left_ne_nil hname.1 _, fun b hb => ?_⟩
    rcases List.mem_append.1 hb with hb | hb
    · simpa using List.all_eq_true.1 hname.2 b hb
    · rcases List.mem_cons.1 hb with rfl | hb
      · decide
      · exact not_isSpace_text r k b hb
  · exact ⟨(hextras token h).ne_nil, (hextras token h).not_isSpace⟩

/-- What a record sets. -/
def recordSettings (share : PsiShare) (r : PsiRecord) : List PsiSetting :=
  PsiKey.all.map fun k => ⟨share, k, r.text k⟩

/-- The line of a share sets fields of that share. -/
theorem lineSettings_append (share : PsiShare) (s : Bytes) :
    lineSettings (share.name ++ s) = shareSettings share (words (share.name ++ s)).tail := by
  cases share with
  | someLine => exact if_pos (List.prefix_append _ s)
  | fullLine =>
    have hsome : ¬ ascii "some" <+: ascii "full" ++ s := fun h =>
      absurd (List.cons_prefix_cons.1 h).1 (by decide)
    exact (if_neg hsome).trans (if_pos (List.prefix_append _ s))

/-- Any other line sets nothing. -/
theorem OtherLine.lineSettings_eq (h : OtherLine line) : lineSettings line = [] :=
  (if_neg (h.not_prefix .someLine)).trans (if_neg (h.not_prefix .fullLine))

/-- What a line sets is what its record does, in some order. -/
theorem RecordLine.lineSettings_perm (h : RecordLine share r line) :
    (lineSettings line).Perm (recordSettings share r) := by
  cases h with
  | @tokens parts extras trailing hgaps htokens hextras htrailing =>
    have hparts : ∀ p ∈ parts, p.2 ≠ [] ∧ ∀ b ∈ p.2, isSpace b = false := fun p hp =>
      word_of_mem_tokens hextras (htokens.subset (List.mem_map_of_mem hp))
    have hname := share.word_name
    have hwords := words_append hname.2 hname.1 (isSpace_head_parts hgaps htrailing)
    rw [words_parts hgaps hparts htrailing] at hwords
    have hextra : extras.filterMap (fun token =>
        (tokenSetting token).map fun x => (⟨share, x.1, x.2⟩ : PsiSetting)) = [] := by
      rw [List.filterMap_eq_nil_iff]
      intro token htoken
      rw [(hextras token htoken).tokenSetting_eq]
      rfl
    have hrecord : (PsiKey.all.map r.token).filterMap (fun token =>
        (tokenSetting token).map fun x => (⟨share, x.1, x.2⟩ : PsiSetting)) =
        recordSettings share r := by
      rw [List.filterMap_map, recordSettings, ← List.filterMap_eq_map]
      refine List.filterMap_congr fun k _ => ?_
      rw [Function.comp_apply, tokenSetting_token]
      rfl
    rw [lineSettings_append, hwords, List.tail_cons, shareSettings]
    have hperm := htokens.filterMap fun token =>
      (tokenSetting token).map fun x => (⟨share, x.1, x.2⟩ : PsiSetting)
    rwa [List.filterMap_append, hextra, hrecord, List.append_nil] at hperm

/-- The line of a record holds no newline. -/
theorem RecordLine.newline_notMem (h : RecordLine share r line) : 10 ∉ line := by
  have hword : ∀ s : Bytes, (∀ b ∈ s, isSpace b = false) → 10 ∉ s := fun s hs hmem =>
    absurd (hs 10 hmem) (by decide)
  cases h with
  | @tokens parts extras trailing hgaps htokens hextras htrailing =>
    rw [List.mem_append, List.mem_append, List.mem_flatMap]
    rintro (hname | ⟨p, hp, hmem⟩ | hmem)
    · exact hword _ share.word_name.2 hname
    · rcases List.mem_append.1 hmem with hmem | hmem
      · exact ((hgaps p hp).2 10 hmem).2 rfl
      · have htoken := word_of_mem_tokens hextras (htokens.subset (List.mem_map_of_mem hp))
        exact hword _ htoken.2 hmem
    · exact (htrailing 10 hmem).2 rfl

/-- Lines without newlines in them are read back, but for an empty one at the end, which sets
nothing. -/
theorem settings_intercalate {lines : List Bytes} (h : ∀ line ∈ lines, 10 ∉ line) :
    settings ([10].intercalate lines) = lines.flatMap lineSettings := by
  rcases eq_or_ne lines [] with rfl | hne
  · rfl
  · have hsplit : ([10].intercalate lines).splitOn 10 = lines := List.splitOn_intercalate 10 h hne
    unfold settings getlines
    rw [hsplit]
    dsimp only
    split_ifs with hlast
    · have hempty : lineSettings [] = [] := rfl
      conv_rhs => rw [← List.dropLast_append_getLast? [] hlast]
      rw [List.flatMap_append, List.flatMap_singleton, hempty, List.append_nil]
    · rfl

/-- What a text sets is what its records do, in some order. -/
theorem Renders.settings_perm {records : PsiShare → Option PsiRecord} {content : Bytes}
    (h : Renders records content) : (settings content).Perm
      ((records .someLine).toList.flatMap (recordSettings .someLine) ++
        (records .fullLine).toList.flatMap (recordSettings .fullLine)) := by
  cases h with
  | @lines recordLine others lines hrecords hothers hlines =>
    have hnewline : ∀ line ∈ lines, 10 ∉ line := by
      have hrecord : ∀ share, ∀ line ∈ (recordLine share).toList, 10 ∉ line := by
        intro share line hline
        have hrel := hrecords share
        rw [Option.mem_toList] at hline
        rw [hline] at hrel
        generalize records share = record at hrel
        cases hrel with
        | some hline => exact hline.newline_notMem
      intro line hline
      rcases List.mem_append.1 (hlines.subset hline) with hline | hline
      · exact (List.mem_append.1 hline).elim (hrecord _ _) (hrecord _ _)
      · exact (hothers line hline).newline_notMem
    have hshare : ∀ share, ((recordLine share).toList.flatMap lineSettings).Perm
        ((records share).toList.flatMap (recordSettings share)) := by
      intro share
      have hrel := hrecords share
      generalize records share = record, recordLine share = line at hrel
      cases hrel with
      | none => exact List.Perm.refl _
      | some hline => simpa using hline.lineSettings_perm
    have hother : others.flatMap lineSettings = [] :=
      List.flatMap_eq_nil_iff.2 fun line hline => (hothers line hline).lineSettings_eq
    rw [settings_intercalate hnewline]
    refine (hlines.flatMap_right lineSettings).trans ?_
    rw [List.flatMap_append, List.flatMap_append, hother, List.append_nil]
    exact (hshare .someLine).append (hshare .fullLine)

/-- Where a field is set at most once, the order does not matter. -/
theorem lastValue_of_perm {xs ys : List PsiSetting} {k : PsiKey} (h : xs.Perm ys)
    (hone : (ys.filter fun x => x.share = share ∧ x.key = k).length ≤ 1) :
    lastValue share k xs = lastValue share k ys := by
  have hfilter := h.filter fun x => decide (x.share = share ∧ x.key = k)
  have heq : (xs.filter fun x => x.share = share ∧ x.key = k) =
      ys.filter fun x => x.share = share ∧ x.key = k := by
    cases hys : ys.filter fun x => x.share = share ∧ x.key = k with
    | nil =>
      rw [hys] at hfilter
      exact hfilter.eq_nil
    | cons x rest =>
      obtain rfl : rest = [] := by
        rw [hys] at hone
        exact List.eq_nil_of_length_eq_zero (by simpa using hone)
      rw [hys] at hfilter
      exact List.perm_singleton.1 hfilter
  rw [lastValue, lastValue, heq]

/-- A field of a record is set once. -/
theorem filter_recordSettings (share share' : PsiShare) (k : PsiKey) (record : Option PsiRecord) :
    (record.toList.flatMap (recordSettings share')).filter
        (fun x => x.share = share ∧ x.key = k) =
      if share' = share then record.toList.map fun r => ⟨share, k, r.text k⟩ else [] := by
  cases record with
  | none => simp
  | some r =>
    rw [Option.toList_some, List.flatMap_singleton, List.map_singleton, recordSettings]
    split_ifs with h
    · subst h
      cases k <;> simp [PsiKey.all]
    · simp [h]

/-- So a field has the value of its record, if that is there. -/
theorem Renders.lastValue_eq {records : PsiShare → Option PsiRecord} {content : Bytes}
    (h : Renders records content) (share : PsiShare) (k : PsiKey) :
    lastValue share k (settings content) = (records share).map fun r => r.text k := by
  have honly : ((records .someLine).toList.flatMap (recordSettings .someLine) ++
      (records .fullLine).toList.flatMap (recordSettings .fullLine)).filter
        (fun x => x.share = share ∧ x.key = k) =
      (records share).toList.map fun r => ⟨share, k, r.text k⟩ := by
    rw [List.filter_append, filter_recordSettings, filter_recordSettings]
    cases share <;> simp
  have hone := congrArg List.length honly
  rw [List.length_map] at hone
  rw [lastValue_of_perm h.settings_perm (hone ▸ Option.length_toList_le), lastValue, honly]
  cases records share <;> rfl

end Settings

/-! ## The parser -/

/-- The record of a share as the parser has it: 0 where it is not there. -/
def recordLine (records : PsiShare → Option PsiRecord) (share : PsiShare) : PsiLine :=
  ((records share).map PsiRecord.line).getD {}

/-- The parser recovers the records of every text that renders them, and a record that is not there
leaves its fields 0. -/
theorem parse_renders {records : PsiShare → Option PsiRecord} {content : Bytes}
    (h : Renders records content) : parsePsiFile some content =
      .ok ⟨recordLine records .someLine, recordLine records .fullLine⟩ := by
  -- Every value is that of a record.
  have hnames : ∀ x ∈ settings content, ∃ v, Names some x.key x.val v := by
    have hrecord : ∀ share, ∀ x ∈ (records share).toList.flatMap (recordSettings share),
        ∃ v, Names some x.key x.val v := by
      intro share x hx
      obtain ⟨r, -, hx⟩ := List.mem_flatMap.1 hx
      obtain ⟨k, -, rfl⟩ := List.mem_map.1 hx
      exact ⟨_, names_text r k⟩
    exact fun x hx => (List.mem_append.1 (h.settings_perm.subset hx)).elim
      (hrecord _ x) (hrecord _ x)
  obtain ⟨data, hparse, hlast⟩ := parse_wellFormed hnames
  have hline : ∀ share, data.line share = recordLine records share := by
    intro share
    refine PsiLine.ext_get fun k => ?_
    have hget := hlast share k
    rw [h.lastValue_eq share k] at hget
    unfold recordLine
    cases hrecord : records share with
    | none =>
      rw [hrecord] at hget
      exact hget
    | some r =>
      rw [hrecord] at hget
      exact Except.ok.inj ((convert_of_names hget).symm.trans (convert_of_names (names_text r k)))
  rw [hparse, ← hline .someLine, ← hline .fullLine]
  rfl

/-- The sample of some records, 0 where a record is not there. -/
def recordSample (records : PsiShare → Option PsiRecord) : PsiData :=
  let number (share : PsiShare) (avg : PsiRecord → Hundredths) : ℚ :=
    ((records share).map fun r => (avg r).number).getD 0
  let total (share : PsiShare) : UInt64 := ((records share).map PsiRecord.total).getD 0
  ⟨number .someLine PsiRecord.avg10, number .someLine PsiRecord.avg60,
    number .someLine PsiRecord.avg300, total .someLine, number .fullLine PsiRecord.avg10,
    number .fullLine PsiRecord.avg60, number .fullLine PsiRecord.avg300, total .fullLine⟩

/-- A text that renders records parses, and the sample that the engine gets is that of the
records. -/
theorem Renders.sample_eq {records : PsiShare → Option PsiRecord} {content : Bytes}
    (h : Renders records content) :
    ∃ data, parsePsiFile some content = .ok data ∧ data.sample = some (recordSample records) := by
  have hconverts : ∀ x ∈ settings content, Converts some x := by
    intro x hx
    rcases List.mem_append.1 (h.settings_perm.subset hx) with hx | hx <;>
      · obtain ⟨r, -, hx⟩ := List.mem_flatMap.1 hx
        obtain ⟨k, -, rfl⟩ := List.mem_map.1 hx
        exact (converts_iff some).2 ⟨_, convert_of_names (names_text r k)⟩
  obtain ⟨data, happly⟩ := exists_apply hconverts {}
  refine ⟨data, (parsePsiFile_eq some content).trans happly, ?_⟩
  have hget : ∀ share k, (data.line share).get k =
      (((records share).map PsiRecord.line).getD {}).get k := by
    intro share k
    have hlast := (getLast_of_apply happly).2 share k
    rw [h.lastValue_eq share k] at hlast
    cases hrecord : records share with
    | none =>
      rw [hrecord] at hlast
      cases share <;> exact hlast
    | some r =>
      rw [hrecord] at hlast
      exact Except.ok.inj (hlast.symm.trans (convert_of_names (names_text r k)))
  have hsome : data.someLine = ((records .someLine).map PsiRecord.line).getD {} :=
    PsiLine.ext_get fun k => hget .someLine k
  have hfull : data.fullLine = ((records .fullLine).map PsiRecord.line).getD {} :=
    PsiLine.ext_get fun k => hget .fullLine k
  simp only [ParsedPsi.sample, hsome, hfull, recordSample]
  cases records .someLine <;> cases records .fullLine <;> rfl

/-- A record of small numbers. -/
def quietRecord : PsiRecord where
  avg10 := .ofDigits (ascii "1") (ascii "10") (by decide) (by decide) (by decide) rfl
  avg60 := .ofDigits (ascii "0") (ascii "50") (by decide) (by decide) (by decide) rfl
  avg300 := .ofDigits (ascii "00") (ascii "05") (by decide) (by decide) (by decide) rfl
  total := 7890

/-- Its line, backwards and with other tokens. -/
def quietParts : List (Bytes × Bytes) :=
  [(ascii "\t", ascii "total=7890"), (ascii "  ", ascii "cpu"), (ascii " ", ascii "avg300=00.05"),
    (ascii " \t", ascii "avg60=0.50"), (ascii " ", ascii "avg1=9.99"),
    (ascii " ", ascii "avg10=1.10")]

/-- The line of these parts. -/
def quietLine : Bytes := ascii "full" ++ (quietParts.flatMap (fun p => p.1 ++ p.2) ++ ascii " ")

/-- The line after another one, and no `some` line. -/
theorem parse_renders_quiet :
    parsePsiFile some (ascii
        "cpu some\nfull\ttotal=7890  cpu avg300=00.05 \tavg60=0.50 avg1=9.99 avg10=1.10 \n") =
      .ok ⟨{}, ⟨.finite (110 / 100), .finite (50 / 100), .finite (5 / 100), 7890⟩⟩ := by
  have hline : RecordLine .fullLine quietRecord quietLine := by
    have hinline : ∀ s : Bytes, s.all (fun b => isSpace b && b != 10) = true → Inline s :=
      fun s hs b hb => by simpa using List.all_eq_true.1 hs b hb
    have hgaps : quietParts.all (fun p => p.1 != [] && p.1.all fun b => isSpace b && b != 10) =
        true := by
      decide
    have htokens : (quietParts.map Prod.snd).Perm
        (PsiKey.all.map quietRecord.token ++ [ascii "cpu", ascii "avg1=9.99"]) := by
      decide +kernel
    have hword : ∀ s : Bytes, s.all (fun b => !isSpace b) = true → ∀ b ∈ s, isSpace b = false :=
      fun s hs b hb => by simpa using List.all_eq_true.1 hs b hb
    refine .tokens (fun p hp => ?_) htokens ?_ (hinline _ (by decide))
    · have hp := List.all_eq_true.1 hgaps p hp
      rw [Bool.and_eq_true, bne_iff_ne] at hp
      exact ⟨hp.1, hinline _ hp.2⟩
    · intro token htoken
      rcases List.mem_cons.1 htoken with rfl | htoken
      · exact ⟨by decide, hword _ (by decide), .inl (by decide)⟩
      · obtain rfl := List.mem_singleton.1 htoken
        exact ⟨by decide, hword _ (by decide),
          .inr ⟨ascii "avg1", ascii "9.99", rfl, by decide, fun k => by cases k <;> decide⟩⟩
  have htext : Renders (fun | .someLine => none | .fullLine => some quietRecord)
      ([10].intercalate [ascii "cpu some", quietLine, []]) := by
    refine @Renders.lines _ (fun | .someLine => none | .fullLine => some quietLine)
      [ascii "cpu some", []] _ (fun share => ?_) ?_ ?_
    · cases share with
      | someLine => exact .none
      | fullLine => exact .some hline
    · intro line hmem
      rcases List.mem_cons.1 hmem with rfl | hmem
      · exact ⟨by decide, fun share => by cases share <;> decide⟩
      · obtain rfl := List.mem_singleton.1 hmem
        exact ⟨by decide, fun share => by cases share <;> decide⟩
    · exact List.Perm.swap _ _ _
  have hcontent : [10].intercalate [ascii "cpu some", quietLine, []] = ascii
      "cpu some\nfull\ttotal=7890  cpu avg300=00.05 \tavg60=0.50 avg1=9.99 avg10=1.10 \n" := by
    decide +kernel
  rw [← hcontent]
  exact parse_renders htext

end PsiPoller

end MemoryGovernor
