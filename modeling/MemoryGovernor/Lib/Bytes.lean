import Mathlib.Data.List.Basic
import Mathlib.Data.List.Infix

/-!
# Searching byte strings

A string of a C program is a list of bytes. The searches of its string type return the first
position at or after a given one: of a text (`find`), of a byte in a set (`findFirstOf`) or not in
one (`findFirstNotOf`); `substr` cuts a piece out.

What a search finds in a text that is known piece by piece follows from the pieces: a piece without
the wanted bytes is passed over (`findFirstOf_append`), and so on; and what was found gives the
pieces of the text (`exists_append_of_findFirstOf`, `exists_first_of_search`). The one search that
needs more is that of a text in quotes, `quoted key`, among other texts in quotes: `Passes key a`
says that it finds nothing in the piece `a`, whatever follows, and these pieces can be put together
(`Passes.append`, `Skips.append`).
-/

/-- A string, byte by byte. -/
abbrev Bytes := List UInt8

namespace Bytes

/-- The bytes of an ASCII string. -/
def ascii (s : String) : Bytes := s.toList.map Char.toUInt8

/-- Spaces and tabs, and nothing else. -/
def Blanks (s : Bytes) : Prop := ∀ b ∈ s, b ∈ ascii " \t"

/-- The first position of a text. -/
def search (needle : Bytes) : Bytes → Option ℕ
  | [] => if needle = [] then some 0 else none
  | b :: s => if needle <+: b :: s then some 0 else (search needle s).map (· + 1)

/-- The first position of a text at or after `pos`. -/
def find (s needle : Bytes) (pos : ℕ) : Option ℕ :=
  if pos ≤ s.length then (search needle (s.drop pos)).map (· + pos) else none

/-- The first position at or after `pos` of one of the bytes of `set`. -/
def findFirstOf (s set : Bytes) (pos : ℕ) : Option ℕ :=
  ((s.drop pos).findIdx? fun b => decide (b ∈ set)).map (· + pos)

/-- The first position at or after `pos` of a byte other than those of `set`. -/
def findFirstNotOf (s set : Bytes) (pos : ℕ) : Option ℕ :=
  ((s.drop pos).findIdx? fun b => decide (b ∉ set)).map (· + pos)

/-- The `len` bytes from `pos` on, or as many as there are. -/
def substr (s : Bytes) (pos len : ℕ) : Bytes := (s.drop pos).take len

section Searches

variable {a b s needle set : Bytes}

/-- Where the needle is, it is found. -/
theorem search_prefix_self (needle s : Bytes) : search needle (needle ++ s) = some 0 := by
  have hpre : needle <+: needle ++ s := List.prefix_append needle s
  cases hs : needle ++ s with
  | nil => rw [search, if_pos (List.append_eq_nil_iff.1 hs).1]
  | cons c s' => rw [search, if_pos (hs ▸ hpre)]

/-- A piece without the first byte of the needle is passed over. -/
theorem search_append_of_notMem {n : UInt8} (h : n ∉ a) :
    search (n :: needle) (a ++ s) = (search (n :: needle) s).map (· + a.length) := by
  induction a with
  | nil => simp
  | cons c a ih =>
    obtain ⟨hc, ha⟩ := not_or.1 (mt List.mem_cons.2 h)
    have hpre : ¬ n :: needle <+: c :: (a ++ s) := fun hp => hc (List.cons_prefix_cons.1 hp).1
    rw [List.cons_append, search, if_neg hpre, ih ha, Option.map_map, List.length_cons]
    rfl

theorem find_zero (s needle : Bytes) : find s needle 0 = search needle s := by
  simp [find]

/-- The search of a text of one byte is that of a byte in a set of one. -/
theorem search_singleton (c : UInt8) (s : Bytes) :
    search [c] s = s.findIdx? fun b => decide (b ∈ [c]) := by
  induction s with
  | nil => rfl
  | cons b s ih =>
    have hpre : [c] <+: b :: s ↔ b ∈ [c] := by
      rw [List.cons_prefix_cons, List.mem_singleton, eq_comm]
      exact and_iff_left (List.nil_prefix)
    rw [search, List.findIdx?_cons, ih]
    simp only [hpre, decide_eq_true_eq]

theorem find_singleton (s : Bytes) (c : UInt8) (pos : ℕ) :
    find s [c] pos = findFirstOf s [c] pos := by
  rw [find, findFirstOf, search_singleton]
  split_ifs with hpos
  · rfl
  · rw [List.drop_eq_nil_of_le (not_le.1 hpos).le]
    rfl

/-- The first byte of a set after a piece without them. -/
theorem findFirstOf_append {d : UInt8} (ha : ∀ c ∈ b, c ∉ set) (hd : d ∈ set) :
    findFirstOf (a ++ (b ++ d :: s)) set a.length = some (a.length + b.length) := by
  have hb : b.findIdx? (fun c => decide (c ∈ set)) = none := by simpa using ha
  rw [findFirstOf, List.drop_left, List.findIdx?_append, hb, List.findIdx?_cons]
  simp [hd, Nat.add_comm]

/-- The first byte outside of a set after a piece of its bytes. -/
theorem findFirstNotOf_append {d : UInt8} (ha : ∀ c ∈ b, c ∈ set) (hd : d ∉ set) :
    findFirstNotOf (a ++ (b ++ d :: s)) set a.length = some (a.length + b.length) := by
  have hb : b.findIdx? (fun c => decide (c ∉ set)) = none := by simpa using ha
  rw [findFirstNotOf, List.drop_left, List.findIdx?_append, hb, List.findIdx?_cons]
  simp [hd, Nat.add_comm]

/-- The needle stands between the pieces `a` and `b`, and starts nowhere before. -/
def First (needle a b : Bytes) : Prop :=
  ∀ a' b' : Bytes, a ++ (needle ++ b) = a' ++ (needle ++ b') → a.length ≤ a'.length

/-- A position that is found is that of the needle, for the first time. -/
theorem exists_first_of_search {k : ℕ} (h : search needle s = some k) :
    ∃ a b, s = a ++ (needle ++ b) ∧ a.length = k ∧ First needle a b := by
  induction s generalizing k with
  | nil =>
    rw [search, Option.ite_none_right_eq_some] at h
    obtain ⟨rfl, hk⟩ := h
    obtain rfl := Option.some.inj hk
    exact ⟨[], [], rfl, rfl, fun _ _ _ => Nat.zero_le _⟩
  | cons c s ih =>
    rw [search] at h
    split_ifs at h with hpre
    · obtain rfl := Option.some.inj h
      obtain ⟨b, hb⟩ := hpre
      exact ⟨[], b, hb.symm, rfl, fun _ _ _ => Nat.zero_le _⟩
    · obtain ⟨k, hk, rfl⟩ := Option.map_eq_some_iff.1 h
      obtain ⟨a, b, rfl, rfl, hfirst⟩ := ih hk
      refine ⟨c :: a, b, rfl, rfl, fun a' b' heq => ?_⟩
      cases a' with
      | nil => exact absurd ⟨b', heq.symm⟩ hpre
      | cons c' a' => exact Nat.succ_le_succ (hfirst a' b' (List.cons.inj heq).2)

/-- Where the needle stands for the first time, it is found. -/
theorem First.search_eq (h : First needle a b) :
    search needle (a ++ (needle ++ b)) = some a.length := by
  cases hs : search needle (a ++ (needle ++ b)) with
  | some k =>
    obtain ⟨a', b', heq, rfl, hfirst⟩ := exists_first_of_search hs
    exact congrArg some (le_antisymm (hfirst a b heq.symm) (h a' b' heq))
  | none =>
    exfalso
    clear h
    induction a with
    | nil => exact absurd ((search_prefix_self needle b).symm.trans hs) (Option.some_ne_none 0)
    | cons c a ih =>
      rw [List.cons_append, search] at hs
      split_ifs at hs with hpre
      exact ih (Option.map_eq_none_iff.1 hs)

/-- The first place at which a byte meets a test divides the text. -/
theorem exists_append_of_findIdx? {p : UInt8 → Bool} {k : ℕ} (h : s.findIdx? p = some k) :
    ∃ b d r, s = b ++ d :: r ∧ b.length = k ∧ (∀ c ∈ b, p c = false) ∧ p d = true := by
  induction s generalizing k with
  | nil => cases h
  | cons c s ih =>
    rw [List.findIdx?_cons] at h
    split_ifs at h with hc
    · obtain rfl := Option.some.inj h
      exact ⟨[], c, s, rfl, rfl, List.forall_mem_nil _, hc⟩
    · obtain ⟨k, hk, rfl⟩ := Option.map_eq_some_iff.1 h
      obtain ⟨b, d, r, rfl, rfl, hb, hd⟩ := ih hk
      exact ⟨c :: b, d, r, rfl, rfl, List.forall_mem_cons.2 ⟨Bool.eq_false_iff.2 hc, hb⟩, hd⟩

/-- What a search for a byte of a set passes over, and what it finds. -/
theorem exists_append_of_findFirstOf {k : ℕ} (h : findFirstOf (a ++ s) set a.length = some k) :
    ∃ b d r, s = b ++ d :: r ∧ k = a.length + b.length ∧ (∀ c ∈ b, c ∉ set) ∧ d ∈ set := by
  rw [findFirstOf, List.drop_left] at h
  obtain ⟨n, hn, rfl⟩ := Option.map_eq_some_iff.1 h
  obtain ⟨b, d, r, rfl, rfl, hb, hd⟩ := exists_append_of_findIdx? hn
  exact ⟨b, d, r, rfl, Nat.add_comm _ _, fun c hc => of_decide_eq_false (hb c hc),
    of_decide_eq_true hd⟩

/-- What a search for a byte outside of a set passes over, and what it finds. -/
theorem exists_append_of_findFirstNotOf {k : ℕ}
    (h : findFirstNotOf (a ++ s) set a.length = some k) :
    ∃ b d r, s = b ++ d :: r ∧ k = a.length + b.length ∧ (∀ c ∈ b, c ∈ set) ∧ d ∉ set := by
  rw [findFirstNotOf, List.drop_left] at h
  obtain ⟨n, hn, rfl⟩ := Option.map_eq_some_iff.1 h
  obtain ⟨b, d, r, rfl, rfl, hb, hd⟩ := exists_append_of_findIdx? hn
  exact ⟨b, d, r, rfl, Nat.add_comm _ _,
    fun c hc => not_not.1 (of_decide_eq_false (hb c hc)), of_decide_eq_true hd⟩

/-- The piece between two positions. -/
theorem substr_append (a b s : Bytes) : substr (a ++ (b ++ s)) a.length b.length = b := by
  rw [substr, List.drop_left, List.take_left]

/-- The last byte of a piece. -/
theorem getElem?_append_getLast (a : Bytes) (hb : b ≠ []) (s : Bytes) :
    (a ++ (b ++ s))[a.length + b.length - 1]? = b.getLast? := by
  have hpos : 0 < b.length := List.length_pos_of_ne_nil hb
  rw [List.getElem?_append_right (by omega), List.getElem?_append_left (by omega),
    List.getLast?_eq_getElem?]
  congr 1
  omega

end Searches

/-! ## Texts in quotes -/

/-- The quote. -/
def quote : UInt8 := 34

/-- A text in quotes. -/
def quoted (s : Bytes) : Bytes := quote :: (s ++ [quote])

@[simp]
theorem quoted_length (s : Bytes) : (quoted s).length = s.length + 2 := by simp [quoted]

/-- The search of `key` in quotes finds nothing in the piece `a`, whatever follows that does not
start as `key` does. -/
def Passes (key a : Bytes) : Prop :=
  ∀ s : Bytes, s.head? ≠ key.head? →
    search (quoted key) (a ++ s) = (search (quoted key) s).map (· + a.length)

section Passes

variable {key a b name : Bytes}

/-- A piece without quotes. -/
theorem passes_of_notMem (h : quote ∉ a) : Passes key a :=
  fun _ _ => search_append_of_notMem h

/-- One piece after another. -/
theorem Passes.append (ha : Passes key a) (hb : Passes key b) (hhead : b.head? ≠ key.head?) :
    Passes key (a ++ b) := by
  intro s hs
  have hbs : (b ++ s).head? ≠ key.head? := by
    cases b with
    | nil => exact hs
    | cons c b => exact hhead
  rw [List.append_assoc, ha _ hbs, hb s hs, Option.map_map, List.length_append]
  congr 1
  funext n
  simp only [Function.comp_apply]
  omega

/-- Two texts without quotes that are each followed by one are the same if one starts as the other
does. -/
theorem eq_of_prefix_quote (hkey : quote ∉ key) (hname : quote ∉ name) {s : Bytes}
    (h : key ++ [quote] <+: name ++ quote :: s) : key = name := by
  induction key generalizing name with
  | nil =>
    cases name with
    | nil => rfl
    | cons c name =>
      have hc : quote = c := (List.cons_prefix_cons.1 h).1
      exact absurd (hc ▸ List.mem_cons_self) hname
  | cons k key ih =>
    obtain ⟨hk, hkey⟩ := not_or.1 (mt List.mem_cons.2 hkey)
    cases name with
    | nil => exact absurd (List.cons_prefix_cons.1 h).1.symm hk
    | cons c name =>
      obtain ⟨rfl, hrest⟩ := List.cons_prefix_cons.1 h
      rw [ih hkey (fun hmem => hname (List.mem_cons_of_mem _ hmem)) hrest]

/-- Another text in quotes. Its first quote is not that of the key because the texts differ, and its
second one because of what follows. -/
theorem passes_quoted (hkey : quote ∉ key) (hname : quote ∉ name) (hne : key ≠ name)
    (hnil : key ≠ []) : Passes key (quoted name) := by
  intro s hs
  have hfirst : ¬ quoted key <+: quote :: (name ++ (quote :: s)) := fun hp =>
    hne (eq_of_prefix_quote hkey hname (List.cons_prefix_cons.1 hp).2)
  have hsecond : ¬ quoted key <+: quote :: s := by
    intro hp
    have hrest : key ++ [quote] <+: s := (List.cons_prefix_cons.1 hp).2
    cases key with
    | nil => exact hnil rfl
    | cons k key =>
      cases s with
      | nil => simp at hrest
      | cons c s => exact hs (by rw [(List.cons_prefix_cons.1 hrest).1]; rfl)
  have hmid : search (quoted key) (name ++ (quote :: s)) =
      (search (quoted key) (quote :: s)).map (· + name.length) := search_append_of_notMem hname
  have hlast : search (quoted key) (quote :: s) = (search (quoted key) s).map (· + 1) := by
    rw [search, if_neg hsecond]
  have hsplit : quoted name ++ s = quote :: (name ++ (quote :: s)) := by simp [quoted]
  rw [hsplit, search, if_neg hfirst, hmid, hlast, Option.map_map, Option.map_map, quoted_length]
  congr 1
  funext n
  simp only [Function.comp_apply]
  omega

/-- After pieces that are passed over, the key is found. -/
theorem Passes.search_eq (h : Passes key a) (hkey : quote ∉ key) (s : Bytes) :
    search (quoted key) (a ++ (quoted key ++ s)) = some a.length := by
  have hhead : (quoted key ++ s).head? ≠ key.head? := by
    intro heq
    cases key with
    | nil => cases heq
    | cons k key =>
      have hk : quote = k := Option.some.inj heq
      exact hkey (hk ▸ List.mem_cons_self)
  rw [h _ hhead, search_prefix_self]
  simp

/-- After pieces that are passed over, the key stands for the first time. -/
theorem Passes.first (h : Passes key a) (hkey : quote ∉ key) (b : Bytes) :
    First (quoted key) a b := by
  obtain ⟨a', b', heq, hlen, hfirst⟩ := exists_first_of_search (h.search_eq hkey b)
  intro c d hcd
  rw [← hlen]
  exact hfirst c d (heq.symm.trans hcd)

/-- The search passes over the piece, which does not start as `key` does. Such pieces can be put
together in any way. -/
structure Skips (key a : Bytes) : Prop where
  passes : Passes key a
  head?_ne : a.head? ≠ key.head?

theorem Skips.append (ha : Skips key a) (hb : Skips key b) : Skips key (a ++ b) := by
  refine ⟨ha.passes.append hb.passes hb.head?_ne, ?_⟩
  cases a with
  | nil => exact hb.head?_ne
  | cons c a => exact ha.head?_ne

/-- A piece without quotes and without bytes of the key. -/
theorem skips_of_notMem (hnil : key ≠ []) (hquote : quote ∉ a) (h : ∀ c ∈ a, c ∉ key) :
    Skips key a := by
  refine ⟨passes_of_notMem hquote, fun heq => ?_⟩
  obtain ⟨k, key, rfl⟩ := List.exists_cons_of_ne_nil hnil
  exact h k (List.mem_of_mem_head? heq) List.mem_cons_self

/-- Another text in quotes. -/
theorem skips_quoted (hkey : quote ∉ key) (hname : quote ∉ name) (hne : key ≠ name)
    (hnil : key ≠ []) : Skips key (quoted name) := by
  refine ⟨passes_quoted hkey hname hne hnil, fun heq => ?_⟩
  exact hkey (List.mem_of_mem_head? heq.symm)

/-- Any number of pieces. -/
theorem skips_flatMap {α : Type*} {l : List α} {f : α → Bytes} (hnil : key ≠ [])
    (h : ∀ x ∈ l, Skips key (f x)) : Skips key (l.flatMap f) := by
  induction l with
  | nil => exact skips_of_notMem hnil (by simp) (by simp)
  | cons x l ih =>
    obtain ⟨hx, hl⟩ := List.forall_mem_cons.1 h
    exact hx.append (ih hl)

/-- In a text of such pieces the key is not found. -/
theorem Skips.search_eq_none (h : Skips key a) (hnil : key ≠ []) :
    search (quoted key) a = none := by
  have hend : ([] : Bytes).head? ≠ key.head? := by
    obtain ⟨k, key, rfl⟩ := List.exists_cons_of_ne_nil hnil
    exact (Option.some_ne_none k).symm
  have hquoted : quoted key ≠ [] := List.cons_ne_nil _ _
  have hsearch := h.passes [] hend
  rw [List.append_nil] at hsearch
  rw [hsearch, search, if_neg hquoted]
  rfl

end Passes

end Bytes
