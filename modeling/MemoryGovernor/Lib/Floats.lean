import Mathlib.Algebra.Order.Field.Rat
import MemoryGovernor.Lib.Numerals

/-!
# Reading floating-point numbers

`std::stod`, which reads what `strtod` does: after white space and a sign, decimal or hexadecimal
digits with a point and an exponent, an infinity, or a NaN, and it ignores what follows. It throws
where nothing of this is there, and where `strtod` reports that the number is out of range
(`exists_stod`).

How the platform rounds a number to a `double`, and when it reports a range error, is the parameter
`toDouble`. For numbers written in plain decimal, digits with or without a point, what is read is
the number they stand for (`stod_plain`).
-/

/-- A `double`. -/
inductive Double
  | finite (x : ℚ)
  | infinite (negative : Bool)
  | nan
deriving DecidableEq, Repr

/-- The number that a `double` is, if it is one. -/
def Double.number : Double → Option ℚ
  | finite x => some x
  | infinite _ | nan => none

namespace Numeral

/-- `tolower`. -/
def lower (b : UInt8) : UInt8 := if 65 ≤ b ∧ b ≤ 90 then b + 32 else b

/-- `isxdigit`. -/
def isHexDigit (b : UInt8) : Bool := isDigit b ∨ 97 ≤ lower b ∧ lower b ≤ 102

/-- The number that hexadecimal digits stand for. -/
def hexValue (s : Bytes) : ℕ :=
  s.foldl (fun n b => 16 * n + if isDigit b then b.toNat - 48 else (lower b).toNat - 87) 0

/-- Digits, with a point among them or without: the digits, the number of them after the point, and
what follows. -/
def significand (isDigit : UInt8 → Bool) (s : Bytes) : Option (Bytes × ℕ × Bytes) :=
  let whole := s.takeWhile isDigit
  let rest := s.dropWhile isDigit
  let r := match rest with
    | [] => ([], rest)
    | b :: s => if b = 46 then (s.takeWhile isDigit, s.dropWhile isDigit) else ([], rest)
  if whole ++ r.1 = [] then none else some (whole ++ r.1, r.1.length, r.2)

/-- An exponent after its letter, or 0 where there is none. -/
def exponent (letter : UInt8) : Bytes → ℤ
  | [] => 0
  | b :: s =>
    if lower b = letter then
      let r := sign s
      let n := value (r.2.takeWhile isDigit)
      if r.1 then -n else n
    else 0

/-- A number in decimal. -/
def decimalReal (s : Bytes) : Option ℚ :=
  (significand isDigit s).map fun r => value r.1 * 10 ^ (exponent 101 r.2.2 - r.2.1)

/-- A number in hexadecimal, with a binary exponent. -/
def hexReal : Bytes → Option ℚ
  | b :: c :: s =>
    if b = 48 ∧ lower c = 120 then
      (significand isHexDigit s).map fun r => hexValue r.1 * 2 ^ (exponent 112 r.2.2 - 4 * r.2.1)
    else none
  | _ => none

/-- What `strtod` reads after the sign. -/
def magnitude (s : Bytes) : Option Double :=
  if Bytes.ascii "inf" <+: s.map lower then some (.infinite false)
  else if Bytes.ascii "nan" <+: s.map lower then some .nan
  else ((hexReal s).or (decimalReal s)).map .finite

/-- A platform that does not round: a number that rounding would leave in the range of the type is a
`double`. -/
def exactly (x : ℚ) : Option ℚ := if |x| < 2^1024 - 2^970 then some x else none

/-- `std::stod`. -/
def stod (toDouble : ℚ → Option ℚ) (s : Bytes) : Except Error Double :=
  let r := sign (s.dropWhile isSpace)
  match magnitude r.2 with
  | none => .error .invalid_argument
  | some (.finite x) =>
    match toDouble (if r.1 then -x else x) with
    | some x => .ok (.finite x)
    | none => .error .out_of_range
  | some (.infinite _) => .ok (.infinite r.1)
  | some .nan => .ok .nan

/-! ## What the conversion accepts -/

/-- What follows the white space and the sign is a number, as its first bytes tell: a digit, a point
and a digit, or an infinity or a NaN in letters of any case. -/
def StartsReal (s : Bytes) : Prop :=
  (∃ b t, s = b :: t ∧ isDigit b = true) ∨ (∃ b t, s = 46 :: b :: t ∧ isDigit b = true) ∨
    Bytes.ascii "inf" <+: s.map lower ∨ Bytes.ascii "nan" <+: s.map lower

/-- There are digits exactly where the first byte, or the one after a point, is a digit. -/
theorem exists_significand {s : Bytes} : (∃ r, significand isDigit s = some r) ↔
    (∃ b t, s = b :: t ∧ isDigit b = true) ∨ ∃ b t, s = 46 :: b :: t ∧ isDigit b = true := by
  cases s with
  | nil => simp [significand]
  | cons b s =>
    cases hb : isDigit b with
    | true =>
      refine iff_of_true ?_ (.inl ⟨b, s, rfl, hb⟩)
      rw [significand, if_neg (by simp [hb])]
      exact ⟨_, rfl⟩
    | false =>
      have hfirst : ¬ ∃ b' t, b :: s = b' :: t ∧ isDigit b' = true := by
        rintro ⟨b', t, heq, hb'⟩
        obtain ⟨rfl, -⟩ := List.cons.inj heq
        exact Bool.false_ne_true (hb.symm.trans hb')
      rw [or_iff_right hfirst]
      by_cases hpoint : b = 46
      · subst hpoint
        cases s with
        | nil => simp [significand, hb]
        | cons c s => cases hc : isDigit c <;> simp [significand, hb, hc]
      · refine iff_of_false ?_ fun ⟨_, _, heq, _⟩ => hpoint (List.cons.inj heq).1
        simp [significand, hb, hpoint]

/-- A number is read exactly where one starts. -/
theorem exists_magnitude {s : Bytes} : (∃ r, magnitude s = some r) ↔ StartsReal s := by
  unfold magnitude StartsReal
  split_ifs with hinf hnan
  · exact iff_of_true ⟨_, rfl⟩ (.inr (.inr (.inl hinf)))
  · exact iff_of_true ⟨_, rfl⟩ (.inr (.inr (.inr hnan)))
  · rw [or_iff_left (not_or.2 ⟨hinf, hnan⟩), ← exists_significand]
    cases hsignificand : significand isDigit s with
    | some r =>
      refine iff_of_true ?_ ⟨r, rfl⟩
      rw [decimalReal, hsignificand]
      cases hexReal s <;> exact ⟨_, rfl⟩
    | none =>
      -- A hexadecimal number starts with a digit too.
      have hhex : hexReal s = none := by
        rcases s with - | ⟨b, - | ⟨c, s⟩⟩
        · rfl
        · rfl
        · rw [hexReal, if_neg]
          rintro ⟨rfl, -⟩
          obtain ⟨r, hr⟩ := exists_significand.2 (.inl ⟨48, c :: s, rfl, by decide⟩)
          exact absurd (hsignificand.symm.trans hr) (Option.some_ne_none r).symm
      rw [decimalReal, hsignificand, hhex]
      simp

/-- The texts that `stod` converts: after white space and a sign a number starts, and it is in the
range of the type, unless it is an infinity or a NaN. -/
def RealText (toDouble : ℚ → Option ℚ) (s : Bytes) : Prop :=
  let r := sign (s.dropWhile isSpace)
  StartsReal r.2 ∧ ∀ x, magnitude r.2 = some (.finite x) →
    ∃ y, toDouble (if r.1 then -x else x) = some y

theorem exists_stod {toDouble : ℚ → Option ℚ} {s : Bytes} :
    (∃ v, stod toDouble s = .ok v) ↔ RealText toDouble s := by
  unfold stod RealText
  simp only [← exists_magnitude]
  cases magnitude (sign (s.dropWhile isSpace)).2 with
  | none => simp
  | some r =>
    cases r with
    | finite x =>
      cases htoDouble : toDouble (if (sign (s.dropWhile isSpace)).1 then -x else x) <;>
        simp [htoDouble]
    | infinite negative => simp
    | nan => simp

/-! ## Plain decimals -/

/-- A number in plain decimal: digits, or digits with a point between them. -/
inductive Plain : Bytes → ℚ → Prop
  | whole {ds : Bytes} (hds : AllDigits ds) (hne : ds ≠ []) : Plain ds (value ds)
  | fraction {ds fs : Bytes} (hds : AllDigits ds) (hne : ds ≠ []) (hfs : AllDigits fs)
      (hfsne : fs ≠ []) : Plain (ds ++ 46 :: fs) (value (ds ++ fs) / 10 ^ fs.length)

section Plain

variable {s ds fs : Bytes} {b : UInt8} {x : ℚ}

/-- A plain decimal holds only digits and points. -/
theorem Plain.isDigit_or (h : Plain s x) (hb : b ∈ s) : isDigit b = true ∨ b = 46 := by
  cases h with
  | whole hds hne => exact .inl (hds b hb)
  | fraction hds hne hfs hfsne =>
    rcases List.mem_append.1 hb with hb | hb
    · exact .inl (hds b hb)
    · exact (List.mem_cons.1 hb).symm.imp_left (hfs b)

/-- A digit is no letter. -/
theorem lower_of_isDigit (h : isDigit b = true) : lower b = b ∧ b.toNat ≤ 57 := by
  have hle := (isDigit_iff.1 h).2
  refine ⟨if_neg fun hb => ?_, hle⟩
  have h65 : 65 ≤ b.toNat := UInt8.le_iff_toNat_le.1 hb.1
  omega

/-- What starts with a digit, and not with the mark of a hexadecimal number, is read as decimal. -/
theorem magnitude_of_digit (h : isDigit b = true) (hs : ∀ c ∈ s.head?, lower c ≠ 120) :
    magnitude (b :: s) = (decimalReal (b :: s)).map .finite := by
  obtain ⟨hlower, hle⟩ := lower_of_isDigit h
  have hletter : ∀ (c : UInt8) (t : Bytes), 57 < c.toNat → ¬ c :: t <+: (b :: s).map lower := by
    intro c t hc hpre
    rw [List.map_cons, hlower] at hpre
    obtain ⟨rfl, -⟩ := List.cons_prefix_cons.1 hpre
    omega
  have hhex : hexReal (b :: s) = none := by
    cases s with
    | nil => rfl
    | cons c s => exact if_neg fun hx => hs c rfl hx.2
  have hinf : ¬ Bytes.ascii "inf" <+: (b :: s).map lower := hletter 105 [110, 102] (by decide)
  have hnan : ¬ Bytes.ascii "nan" <+: (b :: s).map lower := hletter 110 [97, 110] (by decide)
  rw [magnitude, if_neg hinf, if_neg hnan, hhex, Option.none_or]

/-- Digits are their own significand. -/
theorem significand_whole (hds : AllDigits ds) (hne : ds ≠ []) :
    significand isDigit ds = some (ds, 0, []) := by
  have htake : ds.takeWhile isDigit = ds := List.takeWhile_eq_self_iff.2 hds
  have hdrop : ds.dropWhile isDigit = [] := List.dropWhile_eq_nil_iff.2 hds
  simp [significand, htake, hdrop, hne]

/-- So are digits with a point between them, without the point. -/
theorem significand_fraction (hds : AllDigits ds) (hne : ds ≠ []) (hfs : AllDigits fs) :
    significand isDigit (ds ++ 46 :: fs) = some (ds ++ fs, fs.length, []) := by
  have hpoint : isDigit 46 = false := by decide
  have htake : (ds ++ 46 :: fs).takeWhile isDigit = ds := by
    rw [List.takeWhile_append_of_pos hds, List.takeWhile_cons, if_neg (by simp [hpoint]),
      List.append_nil]
  have hdrop : (ds ++ 46 :: fs).dropWhile isDigit = 46 :: fs := by
    rw [List.dropWhile_append_of_pos hds, List.dropWhile_cons, if_neg (by simp [hpoint])]
  have htake' : fs.takeWhile isDigit = fs := List.takeWhile_eq_self_iff.2 hfs
  have hdrop' : fs.dropWhile isDigit = [] := List.dropWhile_eq_nil_iff.2 hfs
  simp [significand, htake, hdrop, htake', hdrop', hne]

/-- A plain decimal is read as its number. -/
theorem magnitude_plain (h : Plain s x) : magnitude s = some (.finite x) := by
  cases h with
  | whole hds hne =>
    obtain ⟨b, t, rfl⟩ := List.exists_cons_of_ne_nil hne
    have hnext : ∀ c ∈ t.head?, lower c ≠ 120 := by
      intro c hc
      have hmem : c ∈ b :: t := List.mem_cons_of_mem b (List.mem_of_mem_head? hc)
      obtain ⟨hlower, hle⟩ := lower_of_isDigit (hds c hmem)
      rw [hlower]
      rintro rfl
      exact absurd hle (by decide)
    rw [magnitude_of_digit (hds b List.mem_cons_self) hnext, decimalReal, significand_whole hds hne]
    simp [exponent]
  | @fraction ds fs hds hne hfs hfsne =>
    obtain ⟨b, t, rfl⟩ := List.exists_cons_of_ne_nil hne
    have hnext : ∀ c ∈ (t ++ 46 :: fs).head?, lower c ≠ 120 := by
      intro c hc
      cases t with
      | nil =>
        obtain rfl : 46 = c := Option.some.inj hc
        decide
      | cons d t =>
        obtain rfl : d = c := Option.some.inj hc
        obtain ⟨hlower, hle⟩ := lower_of_isDigit (hds d (by simp))
        rw [hlower]
        rintro rfl
        exact absurd hle (by decide)
    rw [List.cons_append, magnitude_of_digit (hds b List.mem_cons_self) hnext, ← List.cons_append,
      decimalReal, significand_fraction hds hne hfs]
    simp [exponent, div_eq_mul_inv]

/-- A plain decimal starts with a digit. -/
theorem Plain.head (h : Plain s x) : ∃ b t, s = b :: t ∧ isDigit b = true := by
  cases h with
  | whole hds hne =>
    obtain ⟨b, t, rfl⟩ := List.exists_cons_of_ne_nil hne
    exact ⟨b, t, rfl, hds b List.mem_cons_self⟩
  | fraction hds hne hfs hfsne =>
    obtain ⟨b, t, rfl⟩ := List.exists_cons_of_ne_nil hne
    exact ⟨b, _, rfl, hds b List.mem_cons_self⟩

/-- `stod` of a plain decimal is its number, unless that is out of range. -/
theorem stod_plain (toDouble : ℚ → Option ℚ) (h : Plain s x) : stod toDouble s =
    match toDouble x with
    | some x => .ok (.finite x)
    | none => .error .out_of_range := by
  obtain ⟨b, t, rfl, hb⟩ := h.head
  obtain ⟨hspace, hminus, hplus⟩ := not_isSpace_of_isDigit hb
  have hsign : sign ((b :: t).dropWhile isSpace) = (false, b :: t) := by
    rw [List.dropWhile_cons_of_neg (by simp [hspace]), sign, if_neg hminus, if_neg hplus]
  simp only [stod, hsign, magnitude_plain h]
  rfl

end Plain

end Numeral
