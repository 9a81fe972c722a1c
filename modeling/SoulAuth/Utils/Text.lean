import Mathlib.Algebra.GroupWithZero.Nat
import Mathlib.Data.List.DropRight

/-! # Text

Strings are lists of characters, so that a property of all identifiers is
an induction over a list. The functions of this file are the string methods
of the standard library that the program calls, under the same names.
-/

namespace SoulAuth

/-- A string of the program. -/
abbrev Str := List Char

/-- The membership tests of texts all use this one instance. -/
instance Str.instLawfulBEq : LawfulBEq Str := inferInstance

namespace Str

/-- `char::is_whitespace`: the Unicode property `White_Space`. -/
def isWhitespace (c : Char) : Bool :=
  let n := c.toNat
  (9 ≤ n && n ≤ 13) || n = 0x20 || n = 0x85 || n = 0xA0 || n = 0x1680 ||
    (0x2000 ≤ n && n ≤ 0x200A) || n = 0x2028 || n = 0x2029 || n = 0x202F ||
    n = 0x205F || n = 0x3000

/-- `char::is_control`: the general category `Cc`. -/
def isControl (c : Char) : Bool :=
  let n := c.toNat
  n ≤ 0x1F || (0x7F ≤ n && n ≤ 0x9F)

/-- Remove the characters satisfying `p` from both ends. -/
def trimBoth (p : Char → Bool) (s : Str) : Str := (s.dropWhile p).rdropWhile p

/-- `str::trim`. -/
def trim (s : Str) : Str := trimBoth isWhitespace s

/-- `str::trim_matches` with one character. -/
def trimMatches (c : Char) (s : Str) : Str := trimBoth (· == c) s

/-- `str::trim_end_matches` with one character. -/
def trimEndMatches (c : Char) (s : Str) : Str := s.rdropWhile (· == c)

/-- `str::len`: the number of bytes of the UTF-8 encoding. -/
def byteLen (s : Str) : Nat := (s.map fun c => c.utf8Size).sum

/-- `str::to_ascii_lowercase`. -/
def toAsciiLowercase (s : Str) : Str := s.map Char.toLower

/-- `char::is_ascii_alphanumeric`. -/
def isAsciiAlphanumeric (c : Char) : Bool := c.isAlphanum

/-- `str::strip_prefix`. -/
def stripPrefix : Str → Str → Option Str
  | [], s => some s
  | _ :: _, [] => none
  | p :: ps, c :: cs => if p = c then stripPrefix ps cs else none

/-- `str::split_once` at the first occurrence of a character. -/
def splitOnce (d : Char) : Str → Option (Str × Str)
  | [] => none
  | c :: cs =>
    if c = d then some ([], cs)
    else (splitOnce d cs).map fun p => (c :: p.1, p.2)

/-- `str::replace` of one character by another. -/
def replaceChar (a b : Char) (s : Str) : Str := s.map fun c => if c = a then b else c

/-- `str::split_whitespace`, with the word read so far. -/
def splitWhitespaceFrom (word : Str) : Str → List Str
  | [] => if word = [] then [] else [word]
  | c :: cs =>
    if isWhitespace c then
      if word = [] then splitWhitespaceFrom [] cs else word :: splitWhitespaceFrom [] cs
    else splitWhitespaceFrom (word ++ [c]) cs

/-- `str::split_whitespace`. -/
def splitWhitespace (s : Str) : List Str := splitWhitespaceFrom [] s

/-- `str::contains` with a string. -/
def containsStr (s t : Str) : Bool := s.tails.any fun u => (stripPrefix t u).isSome

/-! ## Lemmas -/

theorem rdropWhile_eq_self {p : Char → Bool} {s : Str} (h : ∀ c ∈ s, p c = false) :
    s.rdropWhile p = s := by
  rw [List.rdropWhile_eq_self_iff]
  intro hne
  simpa using h _ (List.getLast_mem hne)

theorem dropWhile_eq_self {p : Char → Bool} {s : Str} (h : ∀ c ∈ s, p c = false) :
    s.dropWhile p = s := by
  cases s with
  | nil => rfl
  | cons c cs => simp [List.dropWhile, h c (by simp)]

/-- Trimming leaves a string alone that has none of the characters. -/
theorem trimBoth_eq_self {p : Char → Bool} {s : Str} (h : ∀ c ∈ s, p c = false) :
    trimBoth p s = s := by
  rw [trimBoth, dropWhile_eq_self h, rdropWhile_eq_self h]

/-- A string that lacks a character of `p` does not start with `p`. -/
theorem stripPrefix_eq_none {p s : Str} {d : Char} (hd : d ∈ p) (hs : d ∉ s) :
    stripPrefix p s = none := by
  induction p generalizing s with
  | nil => simp at hd
  | cons a p ih =>
    cases s with
    | nil => rfl
    | cons c s =>
      by_cases hac : a = c
      · subst hac
        have hne : d ≠ a := fun h => hs (by simp [h])
        simp only [stripPrefix, if_true]
        exact ih (by simpa [hne] using hd) fun h => hs (by simp [h])
      · simp [stripPrefix, hac]

theorem splitOnce_eq_none {d : Char} {s : Str} (hs : d ∉ s) : splitOnce d s = none := by
  induction s with
  | nil => rfl
  | cons c s ih =>
    have hc : c ≠ d := fun h => hs (by simp [h])
    simp [splitOnce, hc, ih fun h => hs (by simp [h])]

theorem splitOnce_append {d : Char} {s t : Str} (hs : d ∉ s) :
    splitOnce d (s ++ d :: t) = some (s, t) := by
  induction s with
  | nil => simp [splitOnce]
  | cons c s ih =>
    have hc : c ≠ d := fun h => hs (by simp [h])
    simp [splitOnce, hc, ih fun h => hs (by simp [h])]

/-- Letters and digits are visible ASCII characters. -/
theorem isAlphanum_visible {c : Char} (h : c.isAlphanum = true) :
    32 < c.toNat ∧ c.toNat < 127 := by
  unfold Char.isAlphanum Char.isAlpha Char.isUpper Char.isLower Char.isDigit at h
  simp only [Bool.or_eq_true, Bool.and_eq_true, decide_eq_true_eq, UInt32.le_iff_toNat_le] at h
  show 32 < c.val.toNat ∧ c.val.toNat < 127
  have hA : 'A'.val.toNat = 65 := rfl
  have hZ : 'Z'.val.toNat = 90 := rfl
  have ha : 'a'.val.toNat = 97 := rfl
  have hz : 'z'.val.toNat = 122 := rfl
  have h0 : '0'.val.toNat = 48 := rfl
  have h9 : '9'.val.toNat = 57 := rfl
  omega

theorem isWhitespace_visible {c : Char} (h : 32 < c.toNat ∧ c.toNat < 127) :
    isWhitespace c = false := by
  unfold isWhitespace
  simp only [Bool.or_eq_false_iff, Bool.and_eq_false_iff, decide_eq_false_iff_not]
  omega

/-- A property of all characters of a text, as it is computed. -/
theorem forall_mem_of_all {s : Str} {P : Char → Prop} [DecidablePred P]
    (h : (s.all fun c => decide (P c)) = true) : ∀ c ∈ s, P c := by
  intro c hc
  exact of_decide_eq_true (List.all_eq_true.mp h c hc)

theorem stripPrefix_append (p s : Str) : stripPrefix p (p ++ s) = some s := by
  induction p with
  | nil => rfl
  | cons a p ih => simpa [stripPrefix] using ih

end Str

end SoulAuth
