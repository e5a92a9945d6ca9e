import MemoryGovernor.Lib.Floats
import MemoryGovernor.Psi.Poller

/-!
# The PSI parser

`parse_psi_file` of `src/governor/psi_poller.cpp`, and the round of `poll_loop` that calls it. The
parser cuts the text into lines and the lines into tokens, and sets a field for each token
`key=value` with a known key. The conversions throw on some values, and nothing catches what they
throw, neither the parser nor the loop.

What the parser does depends on these settings only, in order (`parsePsiFile_eq`): it returns if
each value converts, and then a field is what the last value set for it reads as
(`getLast_of_apply`). Whether that is the number of a well-formed token is a matter of the text
(`parse_iff`).
-/

namespace MemoryGovernor

open Bytes (ascii)
open Numeral (isSpace stod stoull AllDigits Plain RealText UnsignedText value)

/-- The four fields that `parse_line` sets. -/
structure PsiLine where
  avg10 : Double := .finite 0
  avg60 : Double := .finite 0
  avg300 : Double := .finite 0
  total : UInt64 := 0
deriving DecidableEq, Repr

/-- `PsiData` as the parser fills it: what it reads for a `double` need not be a number. -/
structure ParsedPsi where
  someLine : PsiLine := {}
  fullLine : PsiLine := {}
deriving DecidableEq, Repr

namespace PsiPoller

/-- The lines that `std::getline` reads. A newline at the end starts no line. -/
def getlines (content : Bytes) : List Bytes :=
  let ls := content.splitOn 10
  if ls.getLast? = some [] then ls.dropLast else ls

/-- The words that `>>` reads. -/
def words (line : Bytes) : List Bytes := (line.splitOnP isSpace).filter fun w => w ≠ []

section Parser

variable (toDouble : ℚ → Option ℚ)

/-- The body of the loop in `parse_line`. -/
def parseToken (line : PsiLine) (token : Bytes) : Except Numeral.Error PsiLine :=
  match token.find (ascii "=") 0 with
  | none => .ok line
  | some eq =>
    let key := token.substr 0 eq
    let val := token.drop (eq + 1)
    if key = ascii "avg10" then (stod toDouble val).map fun x => { line with avg10 := x }
    else if key = ascii "avg60" then (stod toDouble val).map fun x => { line with avg60 := x }
    else if key = ascii "avg300" then (stod toDouble val).map fun x => { line with avg300 := x }
    else if key = ascii "total" then (stoull val).map fun n => { line with total := n }
    else .ok line

/-- `parse_line`. The first word is read and not looked at. -/
def parseLine (line : PsiLine) (l : Bytes) : Except Numeral.Error PsiLine :=
  (words l).tail.foldlM (parseToken toDouble) line

/-- The body of the loop in `parse_psi_file`. -/
def parseNext (data : ParsedPsi) (line : Bytes) : Except Numeral.Error ParsedPsi :=
  if ascii "some" <+: line then
    (parseLine toDouble data.someLine line).map fun l => { data with someLine := l }
  else if ascii "full" <+: line then
    (parseLine toDouble data.fullLine line).map fun l => { data with fullLine := l }
  else .ok data

/-- `parse_psi_file`. -/
def parsePsiFile (content : Bytes) : Except Numeral.Error ParsedPsi :=
  (getlines content).foldlM (parseNext toDouble) {}

/-- A round of `poll_loop` that reads `content`: the data it stores and hands to the callback. What
the parser throws leaves the loop, and ends the process. -/
def poll (latest_data : ParsedPsi) (content : Bytes) : Except Numeral.Error ParsedPsi :=
  if content = [] then .ok latest_data else parsePsiFile toDouble content

end Parser

end PsiPoller

/-! ## Settings -/

/-- The keys that the parser knows. -/
inductive PsiKey
  | avg10
  | avg60
  | avg300
  | total
deriving DecidableEq, Repr

namespace PsiKey

/-- The type of a key's field. -/
def Value : PsiKey → Type
  | avg10 | avg60 | avg300 => Double
  | total => UInt64

/-- The key of this name. -/
def ofName (name : Bytes) : Option PsiKey :=
  if name = ascii "avg10" then some avg10
  else if name = ascii "avg60" then some avg60
  else if name = ascii "avg300" then some avg300
  else if name = ascii "total" then some total
  else none

/-- The conversion of a key's values. -/
def convert (toDouble : ℚ → Option ℚ) : (k : PsiKey) → Bytes → Except Numeral.Error k.Value
  | avg10 | avg60 | avg300 => stod toDouble
  | total => stoull

end PsiKey

namespace PsiLine

/-- The field of a key. -/
def get (line : PsiLine) : (k : PsiKey) → k.Value
  | .avg10 => line.avg10
  | .avg60 => line.avg60
  | .avg300 => line.avg300
  | .total => line.total

/-- The field of a key set. -/
def set (line : PsiLine) : (k : PsiKey) → k.Value → PsiLine
  | .avg10, x => { line with avg10 := x }
  | .avg60, x => { line with avg60 := x }
  | .avg300, x => { line with avg300 := x }
  | .total, n => { line with total := n }

@[simp]
theorem get_set_self (line : PsiLine) (k : PsiKey) (v : k.Value) : (line.set k v).get k = v := by
  cases k <;> rfl

theorem get_set_of_ne {k k' : PsiKey} (h : k' ≠ k) (line : PsiLine) (v : k.Value) :
    (line.set k v).get k' = line.get k' := by
  cases k <;> cases k' <;> first | rfl | exact absurd rfl h

end PsiLine

/-- The two lines of the file. -/
inductive PsiShare
  | someLine
  | fullLine
deriving DecidableEq, Repr

namespace ParsedPsi

/-- The line's fields. -/
def line (data : ParsedPsi) : PsiShare → PsiLine
  | .someLine => data.someLine
  | .fullLine => data.fullLine

/-- The line's fields replaced. -/
def setLine (data : ParsedPsi) : PsiShare → PsiLine → ParsedPsi
  | .someLine, l => { data with someLine := l }
  | .fullLine, l => { data with fullLine := l }

@[simp]
theorem line_setLine (data : ParsedPsi) (share : PsiShare) (l : PsiLine) :
    (data.setLine share l).line share = l := by
  cases share <;> rfl

theorem line_setLine_of_ne {share share' : PsiShare} (h : share' ≠ share) (data : ParsedPsi)
    (l : PsiLine) : (data.setLine share l).line share' = data.line share' := by
  cases share <;> cases share' <;> first | rfl | exact absurd rfl h

@[simp]
theorem setLine_setLine (data : ParsedPsi) (share : PsiShare) (l l' : PsiLine) :
    (data.setLine share l).setLine share l' = data.setLine share l' := by
  cases share <;> rfl

@[simp]
theorem setLine_line (data : ParsedPsi) (share : PsiShare) :
    data.setLine share (data.line share) = data := by
  cases share <;> rfl

/-- The sample that the policy engine works with, where every average is a number. -/
def sample (data : ParsedPsi) : Option PsiData := do
  let some_avg10 ← data.someLine.avg10.number
  let some_avg60 ← data.someLine.avg60.number
  let some_avg300 ← data.someLine.avg300.number
  let full_avg10 ← data.fullLine.avg10.number
  let full_avg60 ← data.fullLine.avg60.number
  let full_avg300 ← data.fullLine.avg300.number
  return ⟨some_avg10, some_avg60, some_avg300, data.someLine.total,
    full_avg10, full_avg60, full_avg300, data.fullLine.total⟩

end ParsedPsi

/-- A field of a line with the text of its new value. -/
structure PsiSetting where
  share : PsiShare
  key : PsiKey
  val : Bytes
deriving DecidableEq, Repr

namespace PsiPoller

/-- The key and the value of a token, if the parser knows the key. -/
def tokenSetting (token : Bytes) : Option (PsiKey × Bytes) :=
  (token.find (ascii "=") 0).bind fun eq =>
    (PsiKey.ofName (token.substr 0 eq)).map fun k => (k, token.drop (eq + 1))

/-- What the tokens of a line set. -/
def shareSettings (share : PsiShare) (tokens : List Bytes) : List PsiSetting :=
  tokens.filterMap fun token => (tokenSetting token).map fun r => ⟨share, r.1, r.2⟩

/-- What a line sets. -/
def lineSettings (line : Bytes) : List PsiSetting :=
  if ascii "some" <+: line then shareSettings .someLine (words line).tail
  else if ascii "full" <+: line then shareSettings .fullLine (words line).tail
  else []

/-- What the text sets, in order. -/
def settings (content : Bytes) : List PsiSetting := (getlines content).flatMap lineSettings

section Settings

variable (toDouble : ℚ → Option ℚ)

/-- A field of the data set to the value of a text. -/
def apply (data : ParsedPsi) (x : PsiSetting) : Except Numeral.Error ParsedPsi :=
  (x.key.convert toDouble x.val).map fun v => data.setLine x.share ((data.line x.share).set x.key v)

/-- A token sets a field or nothing. -/
theorem parseToken_eq (line : PsiLine) (token : Bytes) : parseToken toDouble line token =
    match tokenSetting token with
    | none => .ok line
    | some (k, val) => (k.convert toDouble val).map (line.set k) := by
  unfold parseToken tokenSetting PsiKey.ofName
  cases token.find (ascii "=") 0 with
  | none => rfl
  | some eq =>
    simp only [Option.bind_some]
    split_ifs <;> rfl

/-- The tokens of a line set its fields one after another. -/
theorem parseTokens_eq (share : PsiShare) (tokens : List Bytes) (data : ParsedPsi) :
    (tokens.foldlM (parseToken toDouble) (data.line share)).map (data.setLine share) =
      (shareSettings share tokens).foldlM (apply toDouble) data := by
  induction tokens generalizing data with
  | nil => simp [shareSettings, Except.map, pure, Except.pure]
  | cons token tokens ih =>
    rw [List.foldlM_cons, parseToken_eq, shareSettings, List.filterMap_cons]
    cases tokenSetting token with
    | none => exact ih data
    | some r =>
      obtain ⟨k, val⟩ := r
      simp only [Option.map_some, List.foldlM_cons]
      cases hconv : k.convert toDouble val with
      | error err => simp only [apply, hconv]; rfl
      | ok v =>
        -- The rest of the line goes on from the data with this field set.
        have hrest := ih (data.setLine share ((data.line share).set k v))
        rw [ParsedPsi.line_setLine] at hrest
        simp only [apply, hconv]
        refine Eq.trans ?_ hrest
        congr 1
        funext l
        exact (ParsedPsi.setLine_setLine data share _ l).symm

/-- So do the lines of the text: what the parser does is what the settings do, one after another. -/
theorem parsePsiFile_eq (content : Bytes) :
    parsePsiFile toDouble content = (settings content).foldlM (apply toDouble) {} := by
  have hline : ∀ (data : ParsedPsi) (line : Bytes),
      parseNext toDouble data line = (lineSettings line).foldlM (apply toDouble) data := by
    intro data line
    unfold parseNext lineSettings
    split_ifs
    · exact parseTokens_eq toDouble .someLine (words line).tail data
    · exact parseTokens_eq toDouble .fullLine (words line).tail data
    · rfl
  have hlines : ∀ (lines : List Bytes) (data : ParsedPsi),
      lines.foldlM (parseNext toDouble) data =
        (lines.flatMap lineSettings).foldlM (apply toDouble) data := by
    intro lines
    induction lines with
    | nil => exact fun _ => rfl
    | cons line lines ih =>
      intro data
      rw [List.foldlM_cons, List.flatMap_cons, List.foldlM_append, hline]
      congr 1
      funext data
      exact ih data
  exact hlines (getlines content) {}

/-- The conversion of the value does not throw: a number starts the text for which it reports no
range error, or, for an average, an infinity or a NaN does. -/
def Converts (x : PsiSetting) : Prop :=
  match x.key with
  | .avg10 | .avg60 | .avg300 => RealText toDouble x.val
  | .total => UnsignedText x.val

theorem converts_iff {x : PsiSetting} :
    Converts toDouble x ↔ ∃ v, x.key.convert toDouble x.val = .ok v := by
  unfold Converts
  rcases x with ⟨share, key, val⟩
  cases key with
  | avg10 | avg60 | avg300 => exact Numeral.exists_stod.symm
  | total => exact Numeral.exists_stoull.symm

/-- The last value that is set for a field. -/
def lastValue (share : PsiShare) (k : PsiKey) (xs : List PsiSetting) : Option Bytes :=
  ((xs.filter fun x => x.share = share ∧ x.key = k).getLast?).map PsiSetting.val

variable {toDouble} {xs : List PsiSetting} {data : ParsedPsi} {share : PsiShare} {k : PsiKey}

/-- One setting more. -/
theorem lastValue_concat (share : PsiShare) (k : PsiKey) (xs : List PsiSetting) (x : PsiSetting) :
    lastValue share k (xs ++ [x]) =
      if x.share = share ∧ x.key = k then some x.val else lastValue share k xs := by
  rw [lastValue, List.filter_append]
  split_ifs with h
  · simp [h]
  · simp [h, lastValue]

/-- Where every value converts, the settings can be made one after another. -/
theorem exists_apply (h : ∀ x ∈ xs, Converts toDouble x) (data : ParsedPsi) :
    ∃ data', xs.foldlM (apply toDouble) data = .ok data' := by
  induction xs generalizing data with
  | nil => exact ⟨data, rfl⟩
  | cons x xs ih =>
    obtain ⟨hx, hxs⟩ := List.forall_mem_cons.1 h
    obtain ⟨v, hv⟩ := (converts_iff toDouble).1 hx
    obtain ⟨data', hdata'⟩ := ih hxs (data.setLine x.share ((data.line x.share).set x.key v))
    refine ⟨data', ?_⟩
    rw [List.foldlM_cons, apply, hv]
    exact hdata'

/-- A setting leaves the other fields alone. -/
theorem get_setting_of_ne {x : PsiSetting} {v : x.key.Value} (h : ¬ (x.share = share ∧ x.key = k)) :
    ((data.setLine x.share ((data.line x.share).set x.key v)).line share).get k =
      (data.line share).get k := by
  by_cases hshare : share = x.share
  · subst hshare
    rw [ParsedPsi.line_setLine]
    exact PsiLine.get_set_of_ne (fun hk => h ⟨rfl, hk.symm⟩) _ _
  · rw [ParsedPsi.line_setLine_of_ne hshare]

/-- Where they can be made, every value has converted, and a field is what the last value set for it
reads as. -/
theorem getLast_of_apply {data₀ : ParsedPsi} (h : xs.foldlM (apply toDouble) data₀ = .ok data) :
    (∀ x ∈ xs, Converts toDouble x) ∧ ∀ share k,
      match lastValue share k xs with
      | none => (data.line share).get k = (data₀.line share).get k
      | some val => k.convert toDouble val = .ok ((data.line share).get k) := by
  induction xs using List.reverseRecOn generalizing data with
  | nil =>
    obtain rfl : data₀ = data := Except.ok.inj h
    exact ⟨by simp, fun _ _ => rfl⟩
  | append_singleton xs x ih =>
    rw [List.foldlM_append] at h
    cases hxs : xs.foldlM (apply toDouble) data₀ with
    | error err =>
      rw [hxs] at h
      cases h
    | ok data₁ =>
      rw [hxs] at h
      have hx : apply toDouble data₁ x = .ok data := by
        simp only [List.foldlM_cons, List.foldlM_nil, bind_pure] at h
        exact h
      cases hv : x.key.convert toDouble x.val with
      | error err =>
        rw [apply, hv] at hx
        cases hx
      | ok v =>
        rw [apply, hv] at hx
        obtain rfl := Except.ok.inj hx
        obtain ⟨hall, hlast⟩ := ih hxs
        refine ⟨fun y hy => ?_, fun share k => ?_⟩
        · rcases List.mem_append.1 hy with hy | hy
          · exact hall y hy
          · obtain rfl := List.mem_singleton.1 hy
            exact (converts_iff toDouble).2 ⟨v, hv⟩
        · rw [lastValue_concat]
          split_ifs with heq
          · obtain ⟨rfl, rfl⟩ := heq
            simp only [ParsedPsi.line_setLine, PsiLine.get_set_self]
            exact hv
          · rw [get_setting_of_ne heq]
            exact hlast share k

/-- A round of the loop goes on exactly where every value converts. -/
theorem poll_iff (toDouble : ℚ → Option ℚ) (content : Bytes) (latest_data : ParsedPsi) :
    (∃ latest_data', poll toDouble latest_data content = .ok latest_data') ↔
      ∀ x ∈ settings content, Converts toDouble x := by
  unfold poll
  split_ifs with hnil
  · subst hnil
    exact ⟨fun _ x hx => absurd hx List.not_mem_nil, fun _ => ⟨latest_data, rfl⟩⟩
  · rw [parsePsiFile_eq]
    exact ⟨fun ⟨_, h⟩ => (getLast_of_apply h).1, fun h => exists_apply h {}⟩

end Settings

/-! ## Well-formed tokens -/

/-- The text of a value is a well-formed number, and `v` is that number in the field's type: a plain
decimal for an average, digits for a total. -/
def Names (toDouble : ℚ → Option ℚ) : (k : PsiKey) → Bytes → k.Value → Prop
  | .avg10, val, v | .avg60, val, v | .avg300, val, v =>
    ∃ x y, Plain val x ∧ toDouble x = some y ∧ v = Double.finite y
  | .total, val, v => AllDigits val ∧ val ≠ [] ∧ value val < 2^64 ∧ v = UInt64.ofNat (value val)

/-- The number of a well-formed value is what the value is read as. -/
theorem convert_of_names {toDouble : ℚ → Option ℚ} {k : PsiKey} {val : Bytes} {v : k.Value}
    (h : Names toDouble k val v) : k.convert toDouble val = .ok v := by
  cases k with
  | total =>
    obtain ⟨hdigits, hne, hlt, rfl⟩ := h
    exact Numeral.stoull_digits hdigits hne hlt
  | avg10 | avg60 | avg300 =>
    obtain ⟨x, y, hplain, hy, rfl⟩ := h
    have hstod := Numeral.stod_plain toDouble hplain
    rw [hy] at hstod
    exact hstod

/-- A value of a field is its default, or the number of a well-formed token for that field. -/
def FromTokens (toDouble : ℚ → Option ℚ) (content : Bytes) (share : PsiShare) (k : PsiKey)
    (v : k.Value) : Prop :=
  v = ({} : PsiLine).get k ∨ ∃ val, ⟨share, k, val⟩ ∈ settings content ∧ Names toDouble k val v

/-- A value that may stand last for a field: it reads as 0, or as a well-formed value for the field
does, which may be itself. -/
def PassesFor (toDouble : ℚ → Option ℚ) (content : Bytes) (share : PsiShare) (k : PsiKey)
    (val : Bytes) : Prop :=
  k.convert toDouble val = .ok (({} : PsiLine).get k) ∨
    ∃ val' v, ⟨share, k, val'⟩ ∈ settings content ∧ Names toDouble k val' v ∧
      k.convert toDouble val = .ok v

/-- The last value for a field stands in the text. -/
theorem mem_of_lastValue {xs : List PsiSetting} {share : PsiShare} {k : PsiKey} {val : Bytes}
    (h : lastValue share k xs = some val) : ⟨share, k, val⟩ ∈ xs := by
  obtain ⟨x, hx, rfl⟩ := Option.map_eq_some_iff.1 h
  obtain ⟨hmem, heq⟩ := List.mem_filter.1 (List.mem_of_getLast? hx)
  obtain ⟨rfl, rfl⟩ := of_decide_eq_true heq
  exact hmem

/-- What such a value is read as comes from a well-formed token, or is the default. -/
theorem fromTokens_iff {toDouble : ℚ → Option ℚ} {content : Bytes} {share : PsiShare} {k : PsiKey}
    {val : Bytes} {v : k.Value} (hv : k.convert toDouble val = .ok v) :
    FromTokens toDouble content share k v ↔ PassesFor toDouble content share k val := by
  constructor
  · rintro (rfl | ⟨val', hmem, hnames⟩)
    · exact .inl hv
    · exact .inr ⟨val', v, hmem, hnames, hv⟩
  · rintro (hzero | ⟨val', v', hmem, hnames, hv'⟩)
    · exact .inl (Except.ok.inj (hv.symm.trans hzero))
    · obtain rfl := Except.ok.inj (hv.symm.trans hv')
      exact .inr ⟨val', hmem, hnames⟩

/-- The parser returns, so that the round of the loop does, with every field 0 or the number of a
well-formed token for it, exactly when two things hold of the text: every value for a known key on a
`some` or `full` line converts, and the last value for each field reads as 0 or as one of the
well-formed values for it. -/
theorem parse_iff (toDouble : ℚ → Option ℚ) (content : Bytes) :
    (∃ data, parsePsiFile toDouble content = .ok data ∧
      (∀ share k, FromTokens toDouble content share k ((data.line share).get k)) ∧
      ∀ latest_data, ∃ latest_data', poll toDouble latest_data content = .ok latest_data') ↔
    (∀ x ∈ settings content, Converts toDouble x) ∧
      ∀ share k val, lastValue share k (settings content) = some val →
        PassesFor toDouble content share k val := by
  rw [parsePsiFile_eq]
  constructor
  · rintro ⟨data, hparse, hfields, -⟩
    obtain ⟨hall, hlast⟩ := getLast_of_apply hparse
    refine ⟨hall, fun share k val hval => ?_⟩
    have hget := hlast share k
    rw [hval] at hget
    exact (fromTokens_iff hget).1 (hfields share k)
  · rintro ⟨hall, hlastValue⟩
    obtain ⟨data, hparse⟩ := exists_apply hall {}
    obtain ⟨-, hlast⟩ := getLast_of_apply hparse
    refine ⟨data, hparse, fun share k => ?_, fun latest_data => ?_⟩
    · have hget := hlast share k
      cases hval : lastValue share k (settings content) with
      | none =>
        rw [hval] at hget
        refine .inl (hget.trans ?_)
        cases share <;> rfl
      | some val =>
        rw [hval] at hget
        exact (fromTokens_iff hget).2 (hlastValue share k val hval)
    · exact (poll_iff toDouble content latest_data).2 hall

/-- A value that does not convert, and one that does but is not a number. -/
theorem parse_garbled :
    (∀ data, parsePsiFile Numeral.exactly (ascii "some avg10=x") ≠ .ok data) ∧
      (∀ latest_data, poll Numeral.exactly latest_data (ascii "some avg10=x") =
        .error .invalid_argument) ∧
      ∃ data, parsePsiFile Numeral.exactly (ascii "some avg10=1.5x") = .ok data ∧
        ¬ FromTokens Numeral.exactly (ascii "some avg10=1.5x") .someLine .avg10
          ((data.line .someLine).get .avg10) := by
  have hthrows : parsePsiFile Numeral.exactly (ascii "some avg10=x") =
      .error .invalid_argument := by
    decide +kernel
  have hreads : parsePsiFile Numeral.exactly (ascii "some avg10=1.5x") =
      .ok { someLine := { avg10 := .finite (3 / 2) } } := by
    decide +kernel
  have hsettings : settings (ascii "some avg10=1.5x") = [⟨.someLine, .avg10, ascii "1.5x"⟩] := by
    decide +kernel
  refine ⟨fun data h => ?_, fun latest_data => ?_, _, hreads, ?_⟩
  · rw [hthrows] at h
    cases h
  · rw [poll, if_neg (by decide), hthrows]
  · rintro (hzero | ⟨val, hval, x, y, hplain, -, -⟩)
    · exact absurd (Double.finite.inj hzero) (by decide +kernel)
    · rw [hsettings, List.mem_singleton] at hval
      obtain rfl : val = ascii "1.5x" := congrArg PsiSetting.val hval
      -- The last letter is no part of a number.
      exact absurd (hplain.isDigit_or (b := 120) (by decide)) (by decide)

/-- On well-formed values the parser returns, and every field is the number of its last token, or
the default where it has none. -/
theorem parse_wellFormed {toDouble : ℚ → Option ℚ} {content : Bytes}
    (h : ∀ x ∈ settings content, ∃ v, Names toDouble x.key x.val v) :
    ∃ data, parsePsiFile toDouble content = .ok data ∧ ∀ share k,
      match lastValue share k (settings content) with
      | none => (data.line share).get k = ({} : PsiLine).get k
      | some val => Names toDouble k val ((data.line share).get k) := by
  have hall : ∀ x ∈ settings content, Converts toDouble x := fun x hx =>
    (converts_iff toDouble).2 ((h x hx).imp fun v hv => convert_of_names hv)
  obtain ⟨data, hparse⟩ := exists_apply hall {}
  obtain ⟨-, hlast⟩ := getLast_of_apply hparse
  refine ⟨data, (parsePsiFile_eq toDouble content).trans hparse, fun share k => ?_⟩
  have hget := hlast share k
  cases hval : lastValue share k (settings content) with
  | none =>
    rw [hval] at hget
    refine hget.trans ?_
    cases share <;> rfl
  | some val =>
    rw [hval] at hget
    obtain ⟨v, hv⟩ := h _ (mem_of_lastValue hval)
    obtain rfl := Except.ok.inj ((convert_of_names hv).symm.trans hget)
    exact hv

/-- The loop over any number of rounds: the thread survives exactly the texts whose values
convert. -/
theorem polls_iff (toDouble : ℚ → Option ℚ) (contents : List Bytes) (latest_data : ParsedPsi) :
    (∃ latest_data', contents.foldlM (poll toDouble) latest_data = .ok latest_data') ↔
      ∀ content ∈ contents, ∀ x ∈ settings content, Converts toDouble x := by
  induction contents generalizing latest_data with
  | nil => simp [pure, Except.pure]
  | cons content contents ih =>
    rw [List.foldlM_cons, List.forall_mem_cons, ← poll_iff toDouble content latest_data]
    cases poll toDouble latest_data content with
    | error err =>
      refine ⟨fun ⟨_, h⟩ => (nomatch h), fun ⟨⟨_, h⟩, _⟩ => (nomatch h)⟩
    | ok data =>
      exact (ih data).trans (and_iff_right ⟨data, rfl⟩).symm

end PsiPoller

end MemoryGovernor
