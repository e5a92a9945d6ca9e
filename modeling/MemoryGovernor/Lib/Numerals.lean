import Mathlib.Data.List.TakeWhile
import Mathlib.Data.Nat.Digits.Lemmas
import MemoryGovernor.Lib.Bytes

/-!
# Decimal numerals

How integers are written and read. `decimal` and `decimalInt` are what an output stream writes.
`stoi` and `stoull` are the conversions of the C++ library: they skip white space, take a sign and
as many digits as there are, ignore what follows, and throw where there is no digit or the number
does not fit. A number that was written is read back, whatever follows that is no digit
(`stoi_decimalInt`, `stoull_decimal`).
-/

namespace Numeral

/-- `isspace`. -/
def isSpace (b : UInt8) : Bool := b = 32 ∨ 9 ≤ b ∧ b ≤ 13

/-- `isdigit`. -/
def isDigit (b : UInt8) : Bool := 48 ≤ b ∧ b ≤ 57

/-- The character of a digit. -/
def digit (d : ℕ) : UInt8 := UInt8.ofNat (48 + d)

/-- A natural number in decimal. -/
def decimal (n : ℕ) : Bytes := if n = 0 then [digit 0] else (Nat.digits 10 n).reverse.map digit

/-- An integer in decimal. -/
def decimalInt (z : ℤ) : Bytes :=
  if z < 0 then 45 :: decimal z.natAbs else decimal z.natAbs

/-- The number that digits stand for. -/
def value (s : Bytes) : ℕ := s.foldl (fun n b => 10 * n + (b.toNat - 48)) 0

/-! ## Writing -/

section Decimal

variable {n d : ℕ}

theorem digit_toNat (hd : d < 10) : (digit d).toNat = 48 + d := by
  rw [digit, UInt8.toNat_ofNat']
  exact Nat.mod_eq_of_lt (by omega)

theorem isDigit_iff {b : UInt8} : isDigit b = true ↔ 48 ≤ b.toNat ∧ b.toNat ≤ 57 := by
  rw [isDigit, decide_eq_true_iff, UInt8.le_iff_toNat_le, UInt8.le_iff_toNat_le]
  rfl

theorem isDigit_digit (hd : d < 10) : isDigit (digit d) = true := by
  rw [isDigit_iff, digit_toNat hd]
  omega

/-- Every byte of a number is a digit. -/
theorem isDigit_of_mem_decimal {b : UInt8} (hb : b ∈ decimal n) : isDigit b = true := by
  unfold decimal at hb
  split_ifs at hb with hn
  · rw [List.mem_singleton.1 hb]
    exact isDigit_digit (by decide)
  · obtain ⟨d, hd, rfl⟩ := List.mem_map.1 hb
    exact isDigit_digit (Nat.digits_lt_base (by decide) (List.mem_reverse.1 hd))

theorem decimal_ne_nil (n : ℕ) : decimal n ≠ [] := by
  unfold decimal
  split_ifs with hn
  · exact List.cons_ne_nil _ _
  · simp [Nat.digits_ne_nil_iff_ne_zero.2 hn]

/-- A number below a power of ten has no more digits than the exponent. -/
theorem decimal_length_le {k : ℕ} (hk : 0 < k) (hn : n < 10 ^ k) : (decimal n).length ≤ k := by
  unfold decimal
  split_ifs with h
  · exact hk
  · rw [List.length_map, List.length_reverse]
    exact (Nat.digits_length_le_iff (by decide) n).2 hn

@[simp]
theorem decimalInt_natCast (n : ℕ) : decimalInt n = decimal n := by
  rw [decimalInt, if_neg (by omega), Int.natAbs_natCast]

theorem decimalInt_ne_nil (z : ℤ) : decimalInt z ≠ [] := by
  unfold decimalInt
  split_ifs
  · exact List.cons_ne_nil _ _
  · exact decimal_ne_nil _

/-- With its sign an integer has at most one byte more. -/
theorem decimalInt_length_le {z : ℤ} {k : ℕ} (hk : 0 < k) (hz : z.natAbs < 10 ^ k) :
    (decimalInt z).length ≤ k + 1 := by
  have hlen := decimal_length_le hk hz
  unfold decimalInt
  split_ifs
  · exact Nat.succ_le_succ hlen
  · exact Nat.le_succ_of_le hlen

/-- A digit or the sign: the bytes of integers. -/
def isNumeral (b : UInt8) : Bool := isDigit b || b == 45

/-- Every byte of an integer is one of these. -/
theorem isNumeral_of_mem_decimalInt {b : UInt8} {z : ℤ} (hb : b ∈ decimalInt z) :
    isNumeral b = true := by
  rw [isNumeral, Bool.or_eq_true, beq_iff_eq]
  unfold decimalInt at hb
  split_ifs at hb
  · rcases List.mem_cons.1 hb with rfl | hb
    · exact .inr rfl
    · exact .inl (isDigit_of_mem_decimal hb)
  · exact .inl (isDigit_of_mem_decimal hb)

/-- A set without these bytes and an integer have none in common. -/
theorem notMem_of_mem_decimalInt {set : Bytes} (hset : set.any isNumeral = false) {b : UInt8}
    {z : ℤ} (hb : b ∈ decimalInt z) : b ∉ set := fun hmem =>
  List.any_eq_false.1 hset b hmem (isNumeral_of_mem_decimalInt hb)

end Decimal

/-! ## Reading -/

/-- Digits and one more. -/
theorem value_concat (s : Bytes) (b : UInt8) :
    value (s ++ [b]) = 10 * value s + (b.toNat - 48) := by
  rw [value, List.foldl_append]
  rfl

/-- A number that was written is read back. -/
theorem value_decimal (n : ℕ) : value (decimal n) = n := by
  have hdigits : ∀ l : List ℕ, (∀ d ∈ l, d < 10) →
      value (l.reverse.map digit) = Nat.ofDigits 10 l := by
    intro l
    induction l with
    | nil => intro _; rfl
    | cons d l ih =>
      intro hl
      obtain ⟨hd, hrest⟩ := List.forall_mem_cons.1 hl
      rw [List.reverse_cons, List.map_append, List.map_singleton, value_concat, ih hrest,
        digit_toNat hd, Nat.ofDigits_cons]
      omega
  unfold decimal
  split_ifs with hn
  · rw [hn]
    rfl
  · rw [hdigits _ fun d hd => Nat.digits_lt_base (by decide) hd, Nat.ofDigits_digits]

/-- What the conversions throw. -/
inductive Error
  | invalid_argument
  | out_of_range
deriving DecidableEq, Repr

/-- The sign and the digits that a conversion reads. -/
def sign : Bytes → Bool × Bytes
  | [] => (false, [])
  | b :: s => if b = 45 then (true, s) else if b = 43 then (false, s) else (false, b :: s)

/-- The sign and the number that a conversion reads, unless there is no digit. -/
def scan (s : Bytes) : Option (Bool × ℕ) :=
  let r := sign (s.dropWhile isSpace)
  let digits := r.2.takeWhile isDigit
  if digits = [] then none else some (r.1, value digits)

/-- `std::stoi`. -/
def stoi (s : Bytes) : Except Error Int32 :=
  match scan s with
  | none => .error .invalid_argument
  | some (negative, n) =>
    let z : ℤ := if negative then -n else n
    if -2^31 ≤ z ∧ z < 2^31 then .ok (Int32.ofInt z) else .error .out_of_range

/-- `std::stoull`. A sign negates the result in the unsigned type. -/
def stoull (s : Bytes) : Except Error UInt64 :=
  match scan s with
  | none => .error .invalid_argument
  | some (negative, n) =>
    if n < 2^64 then .ok (if negative then -UInt64.ofNat n else UInt64.ofNat n)
    else .error .out_of_range

/-- Digits and nothing else. -/
def AllDigits (s : Bytes) : Prop := ∀ b ∈ s, isDigit b = true

section RoundTrip

variable {s rest : Bytes}

/-- Digits end where something else follows. -/
theorem AllDigits.takeWhile_append (hs : AllDigits s)
    (hrest : ∀ b ∈ rest.head?, isDigit b = false) : (s ++ rest).takeWhile isDigit = s := by
  rw [List.takeWhile_append_of_pos hs]
  cases rest with
  | nil => simp
  | cons b rest => rw [List.takeWhile_cons, if_neg (by simp [hrest b rfl]), List.append_nil]

/-- A number is digits. -/
theorem allDigits_decimal (n : ℕ) : AllDigits (decimal n) := fun _ hb => isDigit_of_mem_decimal hb

/-- A byte that starts a number is neither white space nor a sign. -/
theorem not_isSpace_of_isDigit {b : UInt8} (hb : isDigit b = true) :
    isSpace b = false ∧ b ≠ 45 ∧ b ≠ 43 := by
  rw [isDigit_iff] at hb
  have hne : ∀ c : UInt8, c.toNat < 48 → b ≠ c := by
    rintro c hc rfl
    omega
  refine ⟨?_, hne 45 (by decide), hne 43 (by decide)⟩
  rw [isSpace, decide_eq_false_iff_not, UInt8.le_iff_toNat_le, UInt8.le_iff_toNat_le]
  rintro (rfl | ⟨-, hle⟩)
  · exact absurd hb.1 (by decide)
  · have h13 : b.toNat ≤ 13 := hle
    omega

/-- White space before a number is skipped. -/
theorem scan_append_of_isSpace {a : Bytes} (ha : ∀ b ∈ a, isSpace b = true) (s : Bytes) :
    scan (a ++ s) = scan s := by
  rw [scan, scan, List.dropWhile_append_of_pos ha]

/-- What a conversion reads from digits, where something else follows. -/
theorem scan_digits_append (hs : AllDigits s) (hne : s ≠ [])
    (hrest : ∀ b ∈ rest.head?, isDigit b = false) : scan (s ++ rest) = some (false, value s) := by
  have hdigits := hs.takeWhile_append hrest
  -- The first byte is a digit, so there is nothing to skip and no sign.
  obtain ⟨b, t, rfl⟩ := List.exists_cons_of_ne_nil hne
  obtain ⟨hspace, hminus, hplus⟩ := not_isSpace_of_isDigit (hs b List.mem_cons_self)
  have hsign : sign ((b :: t ++ rest).dropWhile isSpace) = (false, b :: t ++ rest) := by
    rw [List.cons_append, List.dropWhile_cons_of_neg (by simp [hspace]), sign, if_neg hminus,
      if_neg hplus]
  simp only [scan, hsign, hdigits, if_neg hne]

/-- What a conversion reads from a number. -/
theorem scan_decimal (n : ℕ) (hrest : ∀ b ∈ rest.head?, isDigit b = false) :
    scan (decimal n ++ rest) = some (false, n) := by
  rw [scan_digits_append (allDigits_decimal n) (decimal_ne_nil n) hrest, value_decimal]

/-- What a conversion reads from a number after a minus sign. -/
theorem scan_minus_decimal (n : ℕ) (hrest : ∀ b ∈ rest.head?, isDigit b = false) :
    scan (45 :: (decimal n ++ rest)) = some (true, n) := by
  have hsign : sign ((45 :: (decimal n ++ rest)).dropWhile isSpace) =
      (true, decimal n ++ rest) := by
    rw [List.dropWhile_cons_of_neg (by decide), sign, if_pos rfl]
  simp only [scan, hsign, (allDigits_decimal n).takeWhile_append hrest,
    if_neg (decimal_ne_nil n), value_decimal]

/-- An integer of 32 bits is read back. -/
theorem stoi_decimalInt (x : Int32) (hrest : ∀ b ∈ rest.head?, isDigit b = false) :
    stoi (decimalInt x.toInt ++ rest) = .ok x := by
  have hscan : scan (decimalInt x.toInt ++ rest) =
      some (decide (x.toInt < 0), x.toInt.natAbs) := by
    unfold decimalInt
    split_ifs with hneg
    · rw [List.cons_append, scan_minus_decimal _ hrest]
      simp [hneg]
    · rw [scan_decimal _ hrest]
      simp [hneg]
  have hz : (if decide (x.toInt < 0) = true then -(x.toInt.natAbs : ℤ) else x.toInt.natAbs) =
      x.toInt := by
    split_ifs with hneg
    · have := of_decide_eq_true hneg
      omega
    · have := of_decide_eq_false (Bool.eq_false_iff.2 hneg)
      omega
  rw [stoi, hscan]
  simp only [hz, if_pos (show -2^31 ≤ x.toInt ∧ x.toInt < 2^31 from ⟨x.le_toInt, x.toInt_lt⟩),
    Int32.ofInt_toInt]

/-- An unsigned integer of 64 bits is read back. -/
theorem stoull_decimal (x : UInt64) (hrest : ∀ b ∈ rest.head?, isDigit b = false) :
    stoull (decimal x.toNat ++ rest) = .ok x := by
  rw [stoull, scan_decimal _ hrest]
  simp [x.toNat_lt]

end RoundTrip

/-! ## Digits -/

/-- Digits are read to the end. -/
theorem scan_digits {s : Bytes} (hs : AllDigits s) (hne : s ≠ []) :
    scan s = some (false, value s) := by
  have hnone : ∀ b ∈ ([] : Bytes).head?, isDigit b = false := fun b hb => (nomatch hb)
  have hscan := scan_digits_append hs hne hnone
  rwa [List.append_nil] at hscan

/-- `stoull` of digits is their number, if it fits. -/
theorem stoull_digits {s : Bytes} (hs : AllDigits s) (hne : s ≠ []) (hlt : value s < 2^64) :
    stoull s = .ok (UInt64.ofNat (value s)) := by
  simp only [stoull, scan_digits hs hne, if_pos hlt]
  rfl

/-- The text of an unsigned number, with blanks before and after it. -/
def UnsignedDecimal (s : Bytes) (n : ℕ) : Prop :=
  ∃ before digits after, s = before ++ (digits ++ after) ∧ Bytes.Blanks before ∧
    Bytes.Blanks after ∧ AllDigits digits ∧ digits ≠ [] ∧ value digits = n

/-- Blanks are white space. -/
theorem isSpace_of_blanks {s : Bytes} (hs : Bytes.Blanks s) : ∀ b ∈ s, isSpace b = true :=
  fun b hb => List.all_eq_true.1 (by decide : (Bytes.ascii " \t").all isSpace = true) b (hs b hb)

/-- Blanks do not start with a digit. -/
theorem not_isDigit_of_blanks {s : Bytes} (hs : Bytes.Blanks s) :
    ∀ b ∈ s.head?, isDigit b = false := by
  intro b hb
  have hspace := isSpace_of_blanks hs b (List.mem_of_mem_head? hb)
  exact Bool.eq_false_iff.2 fun hdigit =>
    Bool.false_ne_true ((not_isSpace_of_isDigit hdigit).1.symm.trans hspace)

/-- Its blanks do not matter. -/
theorem UnsignedDecimal.scan_eq {s : Bytes} {n : ℕ} (h : UnsignedDecimal s n) :
    scan s = some (false, n) := by
  obtain ⟨before, digits, after, rfl, hbefore, hafter, hdigits, hne, rfl⟩ := h
  rw [scan_append_of_isSpace (isSpace_of_blanks hbefore)]
  exact scan_digits_append hdigits hne (not_isDigit_of_blanks hafter)

/-! ## What the conversions accept -/

/-- The integer that a sign and a number stand for. -/
def signed (r : Bool × ℕ) : ℤ := if r.1 then -r.2 else r.2

/-- The texts that `stoi` converts: there is a digit, and the number fits. -/
def IntText (s : Bytes) : Prop := ∃ r ∈ scan s, -2^31 ≤ signed r ∧ signed r < 2^31

/-- The texts that `stoull` converts. -/
def UnsignedText (s : Bytes) : Prop := ∃ r ∈ scan s, r.2 < 2^64

instance (s : Bytes) : Decidable (IntText s) := inferInstanceAs (Decidable (∃ _ ∈ scan s, _))

instance (s : Bytes) : Decidable (UnsignedText s) := inferInstanceAs (Decidable (∃ _ ∈ scan s, _))

theorem exists_stoi {s : Bytes} : (∃ x, stoi s = .ok x) ↔ IntText s := by
  unfold stoi IntText
  cases scan s with
  | none => simp
  | some r =>
    simp only [Option.mem_some_iff, exists_eq_left', signed]
    split_ifs <;> simp_all

theorem exists_stoull {s : Bytes} : (∃ x, stoull s = .ok x) ↔ UnsignedText s := by
  unfold stoull UnsignedText
  cases scan s with
  | none => simp
  | some r =>
    simp only [Option.mem_some_iff, exists_eq_left']
    split_ifs <;> simp_all

end Numeral
