import SoulAuth.Platform

/-! # Record identifiers

A record is addressed by its table and its key. Several interfaces accept
a key in more than one written form and normalise it; here are the
normalisations, and the fact that they leave the keys the program draws
alone.
-/

namespace SoulAuth

open Str

/-- Repeat `f` until it changes nothing. Every caller's `f` only removes
    characters, so `s.length` rounds reach the end of the loop. -/
def untilStable (f : Str → Str) : Nat → Str → Str
  | 0, s => s
  | n + 1, s => if f s = s then s else untilStable f n (f s)

/-- The quote characters of the written forms of a key. -/
def quote : Char := Char.ofNat 0x22

def backtick : Char := Char.ofNat 0x60

/-- One round of `normalize_record_id_key`. -/
def stripKeyQuotes (s : Str) : Str :=
  trim <| trimMatches backtick <| trimMatches quote <| trimMatches '>' <|
    trimMatches '<' <| trimMatches '⟩' <| trimMatches '⟨' <| trim s

/-- `normalize_record_id_key`. -/
def normalizeRecordIdKey (value : Str) : Str :=
  untilStable stripKeyQuotes value.length (trim value)

/-- One round of `normalize_user_id` and `normalize_actor_id`: remove the
    table prefix, if it is there, and normalise the key. -/
def stripTable (table s : Str) : Str :=
  match stripPrefix table s with
  | some key => normalizeRecordIdKey key
  | none => normalizeRecordIdKey s

/-- The two normalisations differ in the table they remove only. -/
def normalizeId (table value : Str) : Str :=
  untilStable (stripTable table) value.length (normalizeRecordIdKey value)

/-- `normalize_user_id`. -/
def normalizeUserId (value : Str) : Str := normalizeId "user:".toList value

/-- `normalize_actor_id`. -/
def normalizeActorId (value : Str) : Str := normalizeId "actor_identity:".toList value

/-- `foreign_table_prefix`: the value carries the prefix of another table. -/
def hasForeignTablePrefix (value : Str) : Bool :=
  match splitOnce ':' value with
  | none => false
  | some (table, rest) =>
    table ≠ [] && rest ≠ [] && (table.all fun c => c.isLower || c.isDigit || c = '_') &&
      table ≠ "user".toList

/-- The key of `user_record_id`, which refuses other tables' references. -/
def userRecordKey (value : Str) : Option Str :=
  let normalized := normalizeUserId value
  if hasForeignTablePrefix normalized then none else some normalized

/-- `RecordId::new(table, key)` written as an address, `table:key`. -/
def recordAddress (table key : Str) : Str := table ++ ':' :: key

/-- The key of an `id` argument of `find_record_by_field` and
    `update_record`: what follows the first colon, without the brackets of
    the quoted form, or the whole argument. -/
def idArgumentKey (value : Str) : Str :=
  match splitOnce ':' value with
  | some (_, key) => trimMatches '⟩' (trimMatches '⟨' (trim key))
  | none => value

/-! ## Keys that are drawn -/

/-- The characters of a UUID: no white space, no quotes, no colon. -/
def IsKeyChar (c : Char) : Prop := c.isAlphanum ∨ c = '-'

/-- A key made of such characters only. -/
def IsPlainKey (s : Str) : Prop := ∀ c ∈ s, IsKeyChar c

theorem isPlainKey_uuid [Platform] (n : Nat) : IsPlainKey (Platform.uuid n) :=
  Platform.uuid_chars n

/-- A key character is none of the characters that normalisation removes. -/
theorem IsKeyChar.ne {c d : Char} (hc : IsKeyChar c) (hd : d.isAlphanum = false)
    (hd' : d ≠ '-') : c ≠ d := by
  rintro rfl
  rcases hc with h | h
  · simp [h] at hd
  · exact hd' h

theorem IsKeyChar.not_whitespace {c : Char} (hc : IsKeyChar c) :
    isWhitespace c = false := by
  rcases hc with h | rfl
  · exact Str.isWhitespace_visible (Str.isAlphanum_visible h)
  · decide

theorem IsPlainKey.trim {s : Str} (hs : IsPlainKey s) : Str.trim s = s :=
  trimBoth_eq_self fun c hc => (hs c hc).not_whitespace

theorem IsPlainKey.trimMatches {s : Str} (hs : IsPlainKey s) {d : Char}
    (hd : d.isAlphanum = false) (hd' : d ≠ '-') : Str.trimMatches d s = s :=
  trimBoth_eq_self fun c hc => by simpa using (hs c hc).ne hd hd'

theorem IsPlainKey.not_mem {s : Str} (hs : IsPlainKey s) {d : Char}
    (hd : d.isAlphanum = false) (hd' : d ≠ '-') : d ∉ s :=
  fun h => (hs d h).ne hd hd' rfl

theorem untilStable_of_eq {f : Str → Str} {s : Str} (h : f s = s) (n : Nat) :
    untilStable f n s = s := by
  cases n <;> simp [untilStable, h]

/-- A plain key is already normalised. -/
theorem IsPlainKey.normalizeRecordIdKey {s : Str} (hs : IsPlainKey s) :
    SoulAuth.normalizeRecordIdKey s = s := by
  have hround : stripKeyQuotes s = s := by
    have h₁ : Str.trimMatches '⟨' s = s := hs.trimMatches (by decide) (by decide)
    have h₂ : Str.trimMatches '⟩' s = s := hs.trimMatches (by decide) (by decide)
    have h₃ : Str.trimMatches '<' s = s := hs.trimMatches (by decide) (by decide)
    have h₄ : Str.trimMatches '>' s = s := hs.trimMatches (by decide) (by decide)
    have h₅ : Str.trimMatches quote s = s := hs.trimMatches (by decide) (by decide)
    have h₆ : Str.trimMatches backtick s = s := hs.trimMatches (by decide) (by decide)
    simp only [stripKeyQuotes, hs.trim, h₁, h₂, h₃, h₄, h₅, h₆]
  rw [SoulAuth.normalizeRecordIdKey, hs.trim, untilStable_of_eq hround]

theorem IsPlainKey.normalizeId {table s : Str} (hs : IsPlainKey s) (ht : ':' ∈ table) :
    SoulAuth.normalizeId table s = s := by
  have hround : stripTable table s = s := by
    have hcolon : ':' ∉ s := hs.not_mem (by decide) (by decide)
    simp only [stripTable, stripPrefix_eq_none ht hcolon, hs.normalizeRecordIdKey]
  rw [SoulAuth.normalizeId, hs.normalizeRecordIdKey, untilStable_of_eq hround]

@[simp] theorem normalizeUserId_uuid [Platform] (n : Nat) :
    normalizeUserId (Platform.uuid n) = Platform.uuid n :=
  (isPlainKey_uuid n).normalizeId (by decide)

@[simp] theorem normalizeActorId_uuid [Platform] (n : Nat) :
    normalizeActorId (Platform.uuid n) = Platform.uuid n :=
  (isPlainKey_uuid n).normalizeId (by decide)

/-- The address of a plain key leads back to the key. -/
theorem IsPlainKey.idArgumentKey_address {table s : Str} (hs : IsPlainKey s)
    (ht : ':' ∉ table) : idArgumentKey (recordAddress table s) = s := by
  have h₁ : Str.trimMatches '⟨' s = s := hs.trimMatches (by decide) (by decide)
  have h₂ : Str.trimMatches '⟩' s = s := hs.trimMatches (by decide) (by decide)
  simp only [idArgumentKey, recordAddress, splitOnce_append ht, hs.trim, h₁, h₂]

/-- A plain key is its own `id` argument. -/
theorem IsPlainKey.idArgumentKey {s : Str} (hs : IsPlainKey s) :
    SoulAuth.idArgumentKey s = s := by
  have hcolon : ':' ∉ s := hs.not_mem (by decide) (by decide)
  simp only [SoulAuth.idArgumentKey, splitOnce_eq_none hcolon]

end SoulAuth
