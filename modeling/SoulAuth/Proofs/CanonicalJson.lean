import SoulAuth.Framework.Delimited
import SoulAuth.Services.AuditIntegrity

/-! # What the canonical text determines

The digest of an event covers the canonical text of its details. Two values
have the same text exactly when they are the same value apart from what the
database may lose: the order of the members, and those whose value is null.
-/

namespace SoulAuth

open Framework

namespace Json

/-! ## Values -/

/-- The characters of a printed number. -/
def isNumberChar (c : Char) : Bool :=
  c.isDigit || c = '+' || c = '-' || c = '.' || c = 'e' || c = 'E'

/-- The text of a number, as `serde_json` prints it. -/
structure IsNumberText (text : Str) : Prop where
  nonempty : text ≠ []
  chars : ∀ c ∈ text, isNumberChar c = true

mutual

/-- Every number that is no integer is kept as its printed text. -/
def NumbersPrinted : Json → Prop
  | float text => IsNumberText text
  | array items => ItemsPrinted items
  | object members => MembersPrinted members
  | _ => True

def ItemsPrinted : List Json → Prop
  | [] => True
  | item :: items => NumbersPrinted item ∧ ItemsPrinted items

def MembersPrinted : List (Str × Json) → Prop
  | [] => True
  | (_, value) :: members => NumbersPrinted value ∧ MembersPrinted members

end

/-- What `serde_json::Value` guarantees. -/
structure IsValue (j : Json) : Prop where
  keys : j.KeysDistinct
  numbers : j.NumbersPrinted

mutual

/-- The value without the members, at any depth, whose value is null. -/
def pruned : Json → Json
  | array items => array (prunedItems items)
  | object members => object (prunedMembers members)
  | j => j

def prunedItems : List Json → List Json
  | [] => []
  | item :: items => pruned item :: prunedItems items

def prunedMembers : List (Str × Json) → List (Str × Json)
  | [] => []
  | (key, value) :: members =>
    if value.isNull then prunedMembers members else (key, pruned value) :: prunedMembers members

end

/-- The printed form of a number. -/
def numberText : Json → Option Str
  | int n => some (decimal n)
  | float text => some text
  | _ => none

/-- Values that are equal when objects are maps and numbers are what is
    printed. -/
inductive Same : Json → Json → Prop
  | null : Same null null
  | bool (b : Bool) : Same (bool b) (bool b)
  | number {j j' : Json} {text : Str} (h : j.numberText = some text)
    (h' : j'.numberText = some text) : Same j j'
  | string (s : Str) : Same (string s) (string s)
  | array {items items' : List Json} (hlength : items.length = items'.length)
    (h : ∀ (i : Nat) (item item' : Json), items[i]? = some item → items'[i]? = some item' →
      Same item item') :
    Same (array items) (array items')
  | object {members members' : List (Str × Json)}
    (hkeys : ∀ key, key ∈ members.map Prod.fst ↔ key ∈ members'.map Prod.fst)
    (h : ∀ key value value', (key, value) ∈ members → (key, value') ∈ members' →
      Same value value') :
    Same (object members) (object members')

/-! ## Induction -/

/-- Values without parts. -/
def isScalar : Json → Bool
  | array _ => false
  | object _ => false
  | _ => true

/-- A property of every value holds if that of its parts carries over. -/
@[elab_as_elim] theorem byParts {P : Json → Prop} (scalar : ∀ j : Json, j.isScalar = true → P j)
    (array : ∀ items, (∀ item ∈ items, P item) → P (array items))
    (object : ∀ members : List (Str × Json), (∀ m ∈ members, P m.2) → P (object members))
    (j : Json) : P j :=
  @Json.rec P (fun items => ∀ item ∈ items, P item) (fun members => ∀ m ∈ members, P m.2)
    (fun m => P m.2) (scalar _ rfl) (fun _ => scalar _ rfl) (fun _ => scalar _ rfl)
    (fun _ => scalar _ rfl) (fun _ => scalar _ rfl) array object nofun
    (fun _ _ h hs => List.forall_mem_cons.mpr ⟨h, hs⟩) nofun
    (fun _ _ h hs => List.forall_mem_cons.mpr ⟨h, hs⟩) (fun _ _ h => h) j

section

variable {j j' : Json} {items items' : List Json} {members members' : List (Str × Json)}

theorem itemsDistinct_iff : ItemsDistinct items ↔ ∀ item ∈ items, item.KeysDistinct := by
  induction items with
  | nil => simp [ItemsDistinct]
  | cons item items ih => simp [ItemsDistinct, ih]

theorem membersDistinct_iff : MembersDistinct members ↔ ∀ m ∈ members, m.2.KeysDistinct := by
  induction members with
  | nil => simp [MembersDistinct]
  | cons m members ih => simp [MembersDistinct, ih]

theorem itemsPrinted_iff : ItemsPrinted items ↔ ∀ item ∈ items, item.NumbersPrinted := by
  induction items with
  | nil => simp [ItemsPrinted]
  | cons item items ih => simp [ItemsPrinted, ih]

theorem membersPrinted_iff : MembersPrinted members ↔ ∀ m ∈ members, m.2.NumbersPrinted := by
  induction members with
  | nil => simp [MembersPrinted]
  | cons m members ih => simp [MembersPrinted, ih]

theorem isValue_array : (array items).IsValue ↔ ∀ item ∈ items, item.IsValue := by
  constructor
  · intro ⟨hkeys, hnumbers⟩ item hitem
    rw [KeysDistinct, itemsDistinct_iff] at hkeys
    rw [NumbersPrinted, itemsPrinted_iff] at hnumbers
    exact ⟨hkeys item hitem, hnumbers item hitem⟩
  · intro h
    constructor
    · rw [KeysDistinct, itemsDistinct_iff]
      exact fun item hitem => (h item hitem).keys
    · rw [NumbersPrinted, itemsPrinted_iff]
      exact fun item hitem => (h item hitem).numbers

theorem isValue_object : (object members).IsValue ↔
    (members.map Prod.fst).Nodup ∧ ∀ m ∈ members, m.2.IsValue := by
  constructor
  · intro ⟨hkeys, hnumbers⟩
    rw [KeysDistinct, membersDistinct_iff] at hkeys
    rw [NumbersPrinted, membersPrinted_iff] at hnumbers
    exact ⟨hkeys.1, fun m hm => ⟨hkeys.2 m hm, hnumbers m hm⟩⟩
  · intro ⟨hnodup, h⟩
    constructor
    · rw [KeysDistinct, membersDistinct_iff]
      exact ⟨hnodup, fun m hm => (h m hm).keys⟩
    · rw [NumbersPrinted, membersPrinted_iff]
      exact fun m hm => (h m hm).numbers

theorem canonicalItems_eq_map : canonicalItems items = items.map canonical := by
  induction items with
  | nil => simp [canonicalItems]
  | cons item items ih => simp [canonicalItems, ih]

theorem prunedItems_eq_map : prunedItems items = items.map pruned := by
  induction items with
  | nil => simp [prunedItems]
  | cons item items ih => simp [prunedItems, ih]

theorem prunedMembers_eq_filterMap : prunedMembers members = members.filterMap fun m =>
    if m.2.isNull then none else some (m.1, m.2.pruned) := by
  induction members with
  | nil => simp [prunedMembers]
  | cons m members ih =>
    obtain ⟨key, value⟩ := m
    cases hv : value.isNull <;> simp [prunedMembers, hv, ih]

/-- The members that are kept, and what is made of them. -/
theorem mem_kept {γ : Type} {f : Json → γ} {key : Str} {x : γ} :
    (key, x) ∈ (members.filterMap fun m => if m.2.isNull then none else some (m.1, f m.2)) ↔
      ∃ v, (key, v) ∈ members ∧ v.isNull = false ∧ f v = x := by
  rw [List.mem_filterMap]
  constructor
  · intro ⟨⟨k, v⟩, hmem, heq⟩
    cases hnull : v.isNull with
    | true => simp [hnull] at heq
    | false =>
      simp only [hnull, Bool.false_eq_true, if_false, Option.some.injEq, Prod.mk.injEq] at heq
      obtain ⟨rfl, rfl⟩ := heq
      exact ⟨v, hmem, hnull, rfl⟩
  · intro ⟨v, hmem, hnull, hx⟩
    exact ⟨(key, v), hmem, by simp [hnull, hx]⟩

theorem mem_prunedMembers {key : Str} {value : Json} : (key, value) ∈ prunedMembers members ↔
    ∃ v, (key, v) ∈ members ∧ v.isNull = false ∧ v.pruned = value := by
  rw [prunedMembers_eq_filterMap]
  exact mem_kept

theorem mem_canonicalMembers {key text : Str} : (key, text) ∈ canonicalMembers members ↔
    ∃ v, (key, v) ∈ members ∧ v.isNull = false ∧ v.canonical = text := by
  rw [canonicalMembers_eq_filterMap]
  exact mem_kept

end

/-! ## Strings -/

/-- The value of a hexadecimal digit. -/
def hexDigit (c : Char) : Nat :=
  ((List.range 16).find? fun n => Nat.digitChar n = c).getD 0

/-- Read one character of a string. -/
def readChar : Str → Option (Char × Str)
  | '\\' :: 'b' :: rest => some (Char.ofNat 8, rest)
  | '\\' :: 't' :: rest => some (Char.ofNat 9, rest)
  | '\\' :: 'n' :: rest => some (Char.ofNat 10, rest)
  | '\\' :: 'f' :: rest => some (Char.ofNat 12, rest)
  | '\\' :: 'r' :: rest => some (Char.ofNat 13, rest)
  | '\\' :: 'u' :: _ :: _ :: h :: l :: rest =>
    some (Char.ofNat (16 * hexDigit h + hexDigit l), rest)
  | '\\' :: c :: rest => some (c, rest)
  | c :: rest => some (c, rest)
  | [] => none

theorem hexDigit_digitChar {n : Nat} (h : n < 16) : hexDigit (Nat.digitChar n) = n := by
  revert n
  decide

/-- A written character is read back. -/
theorem readChar_escapeChar (c : Char) (rest : Str) :
    readChar (escapeChar c ++ rest) = some (c, rest) := by
  have hback : ∀ n, c.toNat = n → Char.ofNat n = c := by
    intro n hn
    rw [← hn, Char.ofNat_toNat]
  unfold escapeChar
  split_ifs with hquote hbackslash hb ht hn hf hr hcontrol
  · rw [hquote]
    rfl
  · rw [hbackslash]
    rfl
  · exact congrArg (fun c => some (c, rest)) (hback 8 hb)
  · exact congrArg (fun c => some (c, rest)) (hback 9 ht)
  · exact congrArg (fun c => some (c, rest)) (hback 10 hn)
  · exact congrArg (fun c => some (c, rest)) (hback 12 hf)
  · exact congrArg (fun c => some (c, rest)) (hback 13 hr)
  · have hvalue : Char.ofNat (16 * hexDigit (Nat.digitChar (c.toNat / 16)) +
        hexDigit (Nat.digitChar (c.toNat % 16))) = c := by
      rw [hexDigit_digitChar (by omega), hexDigit_digitChar (by omega)]
      exact hback _ (by omega)
    exact congrArg (fun c => some (c, rest)) hvalue
  · show readChar (c :: rest) = _
    unfold readChar
    split <;> simp_all

/-- Codes of characters are told apart. -/
theorem escapeChar_append_inj {c d : Char} {s t : Str} (h : escapeChar c ++ s = escapeChar d ++ t) :
    c = d ∧ s = t := by
  have hread := readChar_escapeChar c s
  rw [h, readChar_escapeChar] at hread
  obtain ⟨hc, hs⟩ := Prod.mk.inj (Option.some.inj hread)
  exact ⟨hc.symm, hs.symm⟩

/-- A quote inside a string is escaped. -/
theorem escapeChar_ne_quote (c : Char) (s t : Str) : escapeChar c ++ s ≠ quote :: t := by
  have hbackslash : '\\' ≠ quote := by decide
  intro h
  unfold escapeChar at h
  split_ifs at h with hquote
  all_goals have hhead := (List.cons.inj h).1
  all_goals first
    | exact hquote hhead
    | exact hbackslash hhead

/-- A string ends at its closing quote. -/
theorem stringText_append_inj {s t u v : Str} (h : stringText s ++ u = stringText t ++ v) :
    s = t ∧ u = v := by
  have hinner : s.flatMap escapeChar ++ quote :: u = t.flatMap escapeChar ++ quote :: v := by
    simpa [stringText] using h
  exact Delimited.flatMap_inj (fun _ _ _ _ => escapeChar_append_inj) escapeChar_ne_quote hinner

theorem stringText_inj {s t : Str} (h : stringText s = stringText t) : s = t :=
  (stringText_append_inj (congrArg (· ++ []) h)).1

theorem stringText_delimited (s : Str) :
    Delimited {x | ∃ t, x = stringText t} Set.univ (stringText s) := by
  intro y hy u _ v _ heq
  obtain ⟨t, rfl⟩ := hy
  obtain ⟨rfl, hrest⟩ := stringText_append_inj heq
  exact ⟨rfl, hrest⟩

/-! ## Texts -/

/-- The characters of a keyword or a number. -/
def isWordChar (c : Char) : Bool := c.isAlphanum || c = '+' || c = '-' || c = '.'

structure IsWord (x : Str) : Prop where
  nonempty : x ≠ []
  chars : ∀ c ∈ x, isWordChar c = true

/-- The texts of objects. -/
def objectText (members : List (Str × Str)) : Str :=
  '{' :: (List.intercalate [','] ((members.insertionSort KeyLe).map memberText) ++ ['}'])

def arrayText (items : List Str) : Str := '[' :: (List.intercalate [','] items ++ [']'])

/-- The canonical texts. -/
def texts : Set Str := {x | ∃ j : Json, j.IsValue ∧ j.canonical = x}

/-- The texts of members. -/
def memberTexts : Set Str := {x | ∃ key, ∃ text ∈ texts, x = memberText (key, text)}

section

variable {j : Json} {x y s t text key : Str} {items : List Json} {members : List (Str × Json)}
  {c : Char}

theorem IsNumberText.isWord (h : IsNumberText x) : IsWord x := by
  constructor
  · exact h.nonempty
  · intro c hc
    have hnumber := h.chars c hc
    simp only [isNumberChar, Bool.or_eq_true, decide_eq_true_eq] at hnumber
    rcases hnumber with ((((hdigit | rfl) | rfl) | rfl) | rfl) | rfl
    · simp [isWordChar, Char.isAlphanum, hdigit]
    all_goals decide

/-- A keyword is a word. -/
theorem isWord_keyword (hx : x ∈ ["null".toList, "true".toList, "false".toList]) : IsWord x := by
  simp only [List.mem_cons, List.not_mem_nil, or_false] at hx
  rcases hx with rfl | rfl | rfl
  all_goals exact ⟨by decide, Str.forall_mem_of_all (by decide)⟩

theorem decimal_chars {n : Int} : IsNumberText (decimal n) := by
  have hdigits : ∀ n : Nat, ∀ c ∈ Nat.toDigits 10 n, isNumberChar c = true := by
    intro n c hc
    have hdigit : c.isDigit = true := Nat.isDigit_of_mem_toDigits (by decide) (by decide) hc
    simp [isNumberChar, hdigit]
  cases n with
  | ofNat n => exact ⟨Nat.toDigits_ne_nil, hdigits n⟩
  | negSucc n =>
    constructor
    · exact List.cons_ne_nil _ _
    · intro c hc
      rcases List.mem_cons.mp hc with rfl | hc
      · decide
      · exact hdigits (n + 1) c hc

/-- The text of a number is what is printed. -/
theorem canonical_number (h : j.numberText = some text) : j.canonical = text := by
  cases j with
  | int n => simpa [numberText, canonical] using h
  | float text => simpa [numberText, canonical] using h
  | _ => cases h

theorem IsValue.printed (hj : j.IsValue) (h : j.numberText = some text) : IsNumberText text := by
  cases j with
  | int n =>
    obtain rfl : decimal n = text := Option.some.inj h
    exact decimal_chars
  | float text' =>
    obtain rfl : text' = text := Option.some.inj h
    simpa [NumbersPrinted] using hj.numbers
  | _ => cases h

theorem canonical_array : (array items).canonical = arrayText (items.map canonical) := by
  rw [canonical, canonicalItems_eq_map]
  rfl

theorem canonical_object : (object members).canonical = objectText (canonicalMembers members) := by
  rw [canonical]
  rfl

/-- Without parts there is a word or a string. -/
theorem scalar_text (hj : j.IsValue) (h : j.isScalar = true) :
    IsWord j.canonical ∨ ∃ s, j.canonical = stringText s := by
  cases j with
  | null => exact .inl (isWord_keyword (by simp [canonical]))
  | bool b =>
    left
    cases b with
    | true => exact isWord_keyword (by simp [canonical])
    | false => exact isWord_keyword (by simp [canonical])
  | int n =>
    left
    rw [canonical]
    exact decimal_chars.isWord
  | float text =>
    left
    have hprinted : IsNumberText text := hj.printed rfl
    rw [canonical]
    exact hprinted.isWord
  | string s => exact .inr ⟨s, by rw [canonical]⟩
  | array items => cases h
  | object members => cases h

/-- The kinds of texts. -/
theorem text_cases (h : x ∈ texts) : IsWord x ∨ (∃ s, x = stringText s) ∨
    (∃ items : List Json, (∀ item ∈ items, item.IsValue) ∧ x = arrayText (items.map canonical)) ∨
    ∃ members : List (Str × Json), (∀ m ∈ members, m.2.IsValue) ∧
      x = objectText (canonicalMembers members) := by
  obtain ⟨j, hj, rfl⟩ := h
  by_cases hscalar : j.isScalar = true
  · rcases scalar_text hj hscalar with hword | hstring
    · exact .inl hword
    · exact .inr (.inl hstring)
  · cases j with
    | array items => exact .inr (.inr (.inl ⟨items, isValue_array.mp hj, canonical_array⟩))
    | object members =>
      exact .inr (.inr (.inr ⟨members, (isValue_object.mp hj).2, canonical_object⟩))
    | _ => exact absurd rfl hscalar

theorem text_of_item (h : ∀ item ∈ items, item.IsValue) : ∀ x ∈ items.map canonical, x ∈ texts := by
  intro x hx
  obtain ⟨item, hitem, rfl⟩ := List.mem_map.mp hx
  exact ⟨item, h item hitem, rfl⟩

theorem text_of_member (h : ∀ m ∈ members, m.2.IsValue) :
    ∀ m ∈ canonicalMembers members, m.2 ∈ texts := by
  intro m hm
  obtain ⟨v, hv, -, htext⟩ := mem_canonicalMembers.mp hm
  exact ⟨v, h _ hv, htext⟩

/-- What begins with a word begins with one of its characters. -/
theorem IsWord.head (hx : IsWord x) (h : x ++ s = c :: t) : isWordChar c = true := by
  cases x with
  | nil => exact absurd rfl hx.nonempty
  | cons d x =>
    rw [← (List.cons.inj h).1]
    exact hx.chars d List.mem_cons_self

/-- A text does not begin with a separator. -/
theorem text_head (h : x ∈ texts) : ∃ c t, x = c :: t ∧ c ≠ ']' := by
  rcases text_cases h with hword | ⟨s, rfl⟩ | ⟨items, -, rfl⟩ | ⟨members, -, rfl⟩
  · cases x with
    | nil => exact absurd rfl hword.nonempty
    | cons c t =>
      refine ⟨c, t, rfl, ?_⟩
      intro hc
      have hchar := hword.chars c List.mem_cons_self
      rw [hc] at hchar
      exact absurd hchar (by decide)
  · exact ⟨_, _, rfl, by decide⟩
  · exact ⟨_, _, rfl, by decide⟩
  · exact ⟨_, _, rfl, by decide⟩

theorem memberText_delimited (h : Delimited texts (Outside isWordChar) text) :
    Delimited memberTexts (Outside isWordChar) (memberText (key, text)) := by
  have hpair := (stringText_delimited key).append (h.cons ':')
  apply hpair.mono _ subset_rfl
  intro x hx
  obtain ⟨key', text', htext', rfl⟩ := hx
  exact ⟨stringText key', ⟨key', rfl⟩, ':' :: text', ⟨text', htext', rfl⟩, rfl⟩

/-- Texts of members are told apart by key and text. -/
theorem memberText_inj {m m' : Str × Str} (h : memberText m = memberText m') : m = m' := by
  obtain ⟨hkey, hrest⟩ := stringText_append_inj h
  exact Prod.ext hkey (List.cons.inj hrest).2

/-- What may follow a value: nothing, or a separator. -/
theorem separator_outside (hc : c ∈ [',', ']', '}']) (s : Str) : c :: s ∈ Outside isWordChar := by
  intro d hd
  obtain rfl : c = d := Option.some.inj hd
  revert hc
  simp only [List.mem_cons, List.not_mem_nil, or_false]
  intro hc
  rcases hc with rfl | rfl | rfl
  all_goals decide

/-- A word among the texts. -/
theorem IsWord.delimited (hx : IsWord x) : Delimited texts (Outside isWordChar) x := by
  intro y hy s hs t ht heq
  rcases text_cases hy with hword | ⟨u, rfl⟩ | ⟨items, -, rfl⟩ | ⟨members, -, rfl⟩
  · exact Delimited.letters hx.chars y hword.chars s hs t ht heq
  -- the others begin with a quote or a bracket
  · exact absurd (hx.head heq) (by decide)
  · exact absurd (hx.head heq) (by decide)
  · exact absurd (hx.head heq) (by decide)

theorem stringText_among (u : Str) : Delimited texts (Outside isWordChar) (stringText u) := by
  intro y hy s hs t ht heq
  rcases text_cases hy with hword | hy | ⟨items, -, rfl⟩ | ⟨members, -, rfl⟩
  · exact absurd (hword.head heq.symm) (by decide)
  · exact stringText_delimited u y hy s trivial t trivial heq
  · exact absurd (List.cons.inj heq).1 (by decide)
  · exact absurd (List.cons.inj heq).1 (by decide)

/-- The elements of an array, up to its closing bracket. -/
theorem arrayText_inj {xs ys : List Str}
    (hxs : ∀ x ∈ xs, x ∈ texts ∧ Delimited texts (Outside isWordChar) x)
    (hys : ∀ y ∈ ys, y ∈ texts) (h : arrayText xs ++ s = arrayText ys ++ t) :
    xs = ys ∧ s = t := by
  have hinner : List.intercalate [','] xs ++ ']' :: s = List.intercalate [','] ys ++ ']' :: t := by
    simpa [arrayText] using h
  exact Delimited.intercalate_inj (separator_outside (by decide)) (separator_outside (by decide))
    (by decide) (fun y hy => text_head hy) hxs hys hinner

/-- The sorted members of an object, up to its closing brace. -/
theorem objectText_inj {ms ns : List (Str × Str)}
    (hms : ∀ m ∈ ms, m.2 ∈ texts ∧ Delimited texts (Outside isWordChar) m.2)
    (hns : ∀ n ∈ ns, n.2 ∈ texts) (h : objectText ms ++ s = objectText ns ++ t) :
    ms.insertionSort KeyLe = ns.insertionSort KeyLe ∧ s = t := by
  have hinner : List.intercalate [','] ((ms.insertionSort KeyLe).map memberText) ++ '}' :: s =
      List.intercalate [','] ((ns.insertionSort KeyLe).map memberText) ++ '}' :: t := by
    simpa [objectText] using h
  have hstart : ∀ y ∈ memberTexts, ∃ c u, y = c :: u ∧ c ≠ '}' := by
    intro y hy
    obtain ⟨key, text, -, rfl⟩ := hy
    exact ⟨_, _, rfl, by decide⟩
  have hxs : ∀ x ∈ (ms.insertionSort KeyLe).map memberText,
      x ∈ memberTexts ∧ Delimited memberTexts (Outside isWordChar) x := by
    intro x hx
    obtain ⟨m, hm, rfl⟩ := List.mem_map.mp hx
    obtain ⟨htext, hdelimited⟩ := hms m ((List.mem_insertionSort KeyLe).mp hm)
    exact ⟨⟨m.1, m.2, htext, rfl⟩, memberText_delimited hdelimited⟩
  have hys : ∀ y ∈ (ns.insertionSort KeyLe).map memberText, y ∈ memberTexts := by
    intro y hy
    obtain ⟨n, hn, rfl⟩ := List.mem_map.mp hy
    exact ⟨n.1, n.2, hns n ((List.mem_insertionSort KeyLe).mp hn), rfl⟩
  obtain ⟨hmap, hst⟩ := Delimited.intercalate_inj (separator_outside (by decide))
    (separator_outside (by decide)) (by decide) hstart hxs hys hinner
  have hinj : Function.Injective memberText := fun _ _ => memberText_inj
  exact ⟨List.map_injective_iff.mpr hinj hmap, hst⟩

/-- **No text goes on as another one.** -/
theorem canonical_delimited (j : Json) (hj : j.IsValue) :
    Delimited texts (Outside isWordChar) j.canonical := by
  induction j using byParts with
  | scalar j hscalar =>
    rcases scalar_text hj hscalar with hword | ⟨u, hu⟩
    · exact hword.delimited
    · rw [hu]
      exact stringText_among u
  | array items ih =>
    have hvalues := isValue_array.mp hj
    intro y hy s hs t ht heq
    rw [canonical_array] at heq ⊢
    rcases text_cases hy with hword | ⟨u, rfl⟩ | ⟨items', hvalues', rfl⟩ | ⟨members, -, rfl⟩
    · exact absurd (hword.head heq.symm) (by decide)
    · exact absurd (List.cons.inj heq).1 (by decide)
    · have hitems : ∀ x ∈ items.map canonical,
          x ∈ texts ∧ Delimited texts (Outside isWordChar) x := by
        intro x hx
        refine ⟨text_of_item hvalues x hx, ?_⟩
        obtain ⟨item, hitem, rfl⟩ := List.mem_map.mp hx
        exact ih item hitem (hvalues item hitem)
      obtain ⟨htexts, hst⟩ := arrayText_inj hitems (text_of_item hvalues') heq
      exact ⟨congrArg arrayText htexts, hst⟩
    · exact absurd (List.cons.inj heq).1 (by decide)
  | object members ih =>
    have hvalues := (isValue_object.mp hj).2
    intro y hy s hs t ht heq
    rw [canonical_object] at heq ⊢
    rcases text_cases hy with hword | ⟨u, rfl⟩ | ⟨items, -, rfl⟩ | ⟨members', hvalues', rfl⟩
    · exact absurd (hword.head heq.symm) (by decide)
    · exact absurd (List.cons.inj heq).1 (by decide)
    · exact absurd (List.cons.inj heq).1 (by decide)
    · have hmembers : ∀ m ∈ canonicalMembers members,
          m.2 ∈ texts ∧ Delimited texts (Outside isWordChar) m.2 := by
        intro m hm
        refine ⟨text_of_member hvalues m hm, ?_⟩
        obtain ⟨v, hv, -, htext⟩ := mem_canonicalMembers.mp hm
        exact htext ▸ ih _ hv (hvalues _ hv)
      obtain ⟨hsorted, hst⟩ := objectText_inj hmembers (text_of_member hvalues') heq
      exact ⟨by rw [objectText, objectText, hsorted], hst⟩

end

/-! ## Kinds of values -/

/-- What the first character of a text tells. -/
inductive Kind
  | null
  | bool (b : Bool)
  | number
  | string
  | array
  | object
  deriving DecidableEq

def kind : Json → Kind
  | null => .null
  | bool b => .bool b
  | int _ => .number
  | float _ => .number
  | string _ => .string
  | array _ => .array
  | object _ => .object

def kindOfText (x : Str) : Kind :=
  if x.head? = some 'n' then .null
  else if x.head? = some 't' then .bool true
  else if x.head? = some 'f' then .bool false
  else if x.head? = some quote then .string
  else if x.head? = some '[' then .array
  else if x.head? = some '{' then .object
  else .number

section

variable {j j' : Json} {text : Str} {items : List Json} {members members' : List (Str × Json)}

theorem kindOfText_number (h : IsNumberText text) : kindOfText text = .number := by
  have hhead : ∀ c, isNumberChar c = false → text.head? ≠ some c := by
    intro c hc hsome
    have hchar := h.chars c (List.mem_of_mem_head? hsome)
    rw [hc] at hchar
    cases hchar
  unfold kindOfText
  rw [if_neg (hhead _ (by decide)), if_neg (hhead _ (by decide)), if_neg (hhead _ (by decide)),
    if_neg (hhead _ (by decide)), if_neg (hhead _ (by decide)), if_neg (hhead _ (by decide))]

theorem numberText_of_kind (h : j.kind = .number) : j.numberText = some j.canonical := by
  cases j with
  | int n => rw [canonical, numberText]
  | float text => rw [canonical, numberText]
  | _ => cases h

theorem isScalar_of_kind (h : j.kind = j'.kind) : j.isScalar = j'.isScalar := by
  have hscalar : ∀ j : Json, j.isScalar = decide (j.kind ≠ .array ∧ j.kind ≠ .object) := by
    intro j
    cases j <;> rfl
  rw [hscalar, hscalar, h]

/-- The text tells the kind. -/
theorem kindOfText_canonical (hj : j.IsValue) : kindOfText j.canonical = j.kind := by
  by_cases hnumber : j.kind = .number
  · have htext := numberText_of_kind hnumber
    rw [kindOfText_number (hj.printed htext), hnumber]
  · cases j with
    | null => rw [canonical]; decide
    | bool b =>
      cases b with
      | true => rw [canonical]; decide
      | false => rw [canonical]; decide
    | int n => exact absurd rfl hnumber
    | float text => exact absurd rfl hnumber
    | string s =>
      rw [canonical]
      rfl
    | array items =>
      rw [canonical_array]
      rfl
    | object members =>
      rw [canonical_object]
      rfl

/-! ## Pruning -/

theorem pruned_scalar (h : j.isScalar = true) : j.pruned = j := by
  cases j with
  | array items => cases h
  | object members => cases h
  | _ => simp [pruned]

theorem pruned_array : (array items).pruned = array (items.map pruned) := by
  rw [pruned, prunedItems_eq_map]

theorem pruned_object : (object members).pruned = object (prunedMembers members) := by
  rw [pruned]

theorem isNull_pruned (j : Json) : j.pruned.isNull = j.isNull := by
  cases j with
  | array items =>
    rw [pruned_array]
    rfl
  | object members =>
    rw [pruned_object]
    rfl
  | _ => simp [pruned]

theorem prunedMembers_keys : ((prunedMembers members).map Prod.fst).Sublist
    (members.map Prod.fst) := by
  induction members with
  | nil => simp [prunedMembers]
  | cons m members ih =>
    obtain ⟨key, value⟩ := m
    unfold prunedMembers
    split
    · exact ih.cons _
    · exact ih.cons_cons _

/-- A pruned value is one. -/
theorem IsValue.pruned (j : Json) (hj : j.IsValue) : j.pruned.IsValue := by
  induction j using byParts with
  | scalar j hscalar => rwa [pruned_scalar hscalar]
  | array items ih =>
    rw [pruned_array, isValue_array]
    intro x hx
    obtain ⟨item, hitem, rfl⟩ := List.mem_map.mp hx
    exact ih item hitem (isValue_array.mp hj item hitem)
  | object members ih =>
    obtain ⟨hnodup, hvalues⟩ := isValue_object.mp hj
    rw [pruned_object, isValue_object]
    constructor
    · exact prunedMembers_keys.nodup hnodup
    · intro m hm
      obtain ⟨v, hv, -, hpruned⟩ := mem_prunedMembers.mp hm
      exact hpruned ▸ ih _ hv (hvalues _ hv)

/-- Pruning does not change the text. -/
theorem canonical_pruned (j : Json) : j.pruned.canonical = j.canonical := by
  induction j using byParts with
  | scalar j hscalar => rw [pruned_scalar hscalar]
  | array items ih =>
    rw [pruned_array, canonical_array, canonical_array, List.map_map]
    exact congrArg arrayText (List.map_congr_left ih)
  | object members ih =>
    rw [pruned_object, canonical_object, canonical_object, prunedMembers_eq_filterMap,
      canonicalMembers_eq_filterMap, canonicalMembers_eq_filterMap, List.filterMap_filterMap]
    congr 1
    apply List.filterMap_congr
    intro m hm
    cases hnull : m.2.isNull with
    | true => simp
    | false => simp [isNull_pruned, hnull, ih m hm]

/-! ## Equal texts -/

theorem canonicalMembers_nodup (h : (members.map Prod.fst).Nodup) :
    ((canonicalMembers members).map Prod.fst).Nodup :=
  (canonicalMembers_keys members).nodup h

/-- The keys that are kept are those that the text shows. -/
theorem mem_keys_prunedMembers {key : Str} : key ∈ (prunedMembers members).map Prod.fst ↔
    ∃ text, (key, text) ∈ canonicalMembers members := by
  simp only [List.mem_map, Prod.exists, exists_and_right, exists_eq_right]
  constructor
  · intro ⟨value, hmem⟩
    obtain ⟨v, hv, hnull, -⟩ := mem_prunedMembers.mp hmem
    exact ⟨v.canonical, mem_canonicalMembers.mpr ⟨v, hv, hnull, rfl⟩⟩
  · intro ⟨text, hmem⟩
    obtain ⟨v, hv, hnull, -⟩ := mem_canonicalMembers.mp hmem
    exact ⟨v.pruned, mem_prunedMembers.mpr ⟨v, hv, hnull, rfl⟩⟩

/-- **The text determines the value**, as far as it is not pruned. -/
theorem same_of_canonical_eq (j : Json) (hj : j.IsValue) (hj' : j'.IsValue)
    (h : j.canonical = j'.canonical) : Same j.pruned j'.pruned := by
  have hkind : j.kind = j'.kind := by
    rw [← kindOfText_canonical hj, h, kindOfText_canonical hj']
  induction j using byParts generalizing j' with
  | scalar j hscalar =>
    rw [pruned_scalar hscalar, pruned_scalar ((isScalar_of_kind hkind).symm.trans hscalar)]
    by_cases hnumber : j.kind = .number
    · have htext := numberText_of_kind hnumber
      exact .number htext (h ▸ numberText_of_kind (hkind.symm.trans hnumber))
    · cases j with
      | null =>
        cases j' with
        | null => exact .null
        | _ => cases hkind
      | bool b =>
        cases j' with
        | bool b' =>
          obtain rfl : b = b' := Kind.bool.inj hkind
          exact .bool b
        | _ => cases hkind
      | string s =>
        cases j' with
        | string s' =>
          rw [canonical, canonical] at h
          obtain rfl := stringText_inj h
          exact .string s
        | _ => cases hkind
      | int n => exact absurd rfl hnumber
      | float text => exact absurd rfl hnumber
      | array items => cases hscalar
      | object members => cases hscalar
  | array items ih =>
    cases j' with
    | array items' =>
      have hvalues := isValue_array.mp hj
      have hvalues' := isValue_array.mp hj'
      rw [canonical_array, canonical_array] at h
      have hitems : ∀ x ∈ items.map canonical,
          x ∈ texts ∧ Delimited texts (Outside isWordChar) x := by
        intro x hx
        refine ⟨text_of_item hvalues x hx, ?_⟩
        obtain ⟨item, hitem, rfl⟩ := List.mem_map.mp hx
        exact canonical_delimited item (hvalues item hitem)
      have htexts := (arrayText_inj hitems (text_of_item hvalues') (congrArg (· ++ []) h)).1
      rw [pruned_array, pruned_array]
      apply Same.array
      · simpa using congrArg List.length htexts
      · intro i x x' hx hx'
        rw [List.getElem?_map, Option.map_eq_some_iff] at hx hx'
        obtain ⟨item, hitem, rfl⟩ := hx
        obtain ⟨item', hitem', rfl⟩ := hx'
        have htext : item.canonical = item'.canonical := by
          have hat := congrArg (·[i]?) htexts
          simpa [hitem, hitem'] using hat
        have hmem := List.mem_of_getElem? hitem
        have hvalue := hvalues item hmem
        have hvalue' := hvalues' item' (List.mem_of_getElem? hitem')
        apply ih item hmem hvalue hvalue' htext
        rw [← kindOfText_canonical hvalue, htext, kindOfText_canonical hvalue']
    | _ => cases hkind
  | object members ih =>
    cases j' with
    | object members' =>
      obtain ⟨-, hvalues⟩ := isValue_object.mp hj
      obtain ⟨hnodup', hvalues'⟩ := isValue_object.mp hj'
      rw [canonical_object, canonical_object] at h
      have hmembers : ∀ m ∈ canonicalMembers members,
          m.2 ∈ texts ∧ Delimited texts (Outside isWordChar) m.2 := by
        intro m hm
        refine ⟨text_of_member hvalues m hm, ?_⟩
        obtain ⟨v, hv, -, htext⟩ := mem_canonicalMembers.mp hm
        exact htext ▸ canonical_delimited v (hvalues _ hv)
      have hsorted :=
        (objectText_inj hmembers (text_of_member hvalues') (congrArg (· ++ []) h)).1
      -- the objects show the same members
      have hshown : ∀ m, m ∈ canonicalMembers members ↔ m ∈ canonicalMembers members' := by
        intro m
        rw [← List.mem_insertionSort KeyLe, hsorted, List.mem_insertionSort]
      rw [pruned_object, pruned_object]
      apply Same.object
      · intro key
        simp only [mem_keys_prunedMembers, hshown]
      · intro key x x' hx hx'
        obtain ⟨v, hv, hnull, rfl⟩ := mem_prunedMembers.mp hx
        obtain ⟨v', hv', hnull', rfl⟩ := mem_prunedMembers.mp hx'
        have hmem := (hshown _).mp (mem_canonicalMembers.mpr ⟨v, hv, hnull, rfl⟩)
        have hmem' := mem_canonicalMembers.mpr ⟨v', hv', hnull', rfl⟩
        have htext : v.canonical = v'.canonical :=
          (Prod.mk.inj (List.inj_on_of_nodup_map (canonicalMembers_nodup hnodup') hmem hmem' rfl)).2
        have hvalue := hvalues _ hv
        have hvalue' := hvalues' _ hv'
        apply ih (key, v) hv hvalue hvalue' htext
        rw [← kindOfText_canonical hvalue, htext, kindOfText_canonical hvalue']
    | _ => cases hkind

/-- **The value determines the text.** -/
theorem Same.canonical_eq (h : Same j j') (hj : j.IsValue) (hj' : j'.IsValue) :
    j.canonical = j'.canonical ∧ j.isNull = j'.isNull := by
  induction h with
  | null => exact ⟨rfl, rfl⟩
  | bool b => exact ⟨rfl, rfl⟩
  | @number j j' text htext htext' =>
    constructor
    · rw [canonical_number htext, canonical_number htext']
    · have hnull : ∀ j : Json, j.numberText = some text → j.isNull = false := by
        intro j hj
        cases j with
        | null => cases hj
        | _ => rfl
      rw [hnull j htext, hnull j' htext']
  | string s => exact ⟨rfl, rfl⟩
  | @array items items' hlength _ ih =>
    refine ⟨?_, rfl⟩
    rw [canonical_array, canonical_array]
    congr 1
    apply List.ext_getElem?
    intro i
    rw [List.getElem?_map, List.getElem?_map]
    cases hitem : items[i]? with
    | none =>
      have hnone : items'[i]? = none := by
        rw [List.getElem?_eq_none_iff] at hitem ⊢
        omega
      rw [hnone]
    | some item =>
      obtain ⟨hlt, -⟩ := List.getElem?_eq_some_iff.mp hitem
      have hsome : (items'[i]?).isSome = true := by simpa [← hlength] using hlt
      obtain ⟨item', hitem'⟩ := Option.isSome_iff_exists.mp hsome
      have hvalue := isValue_array.mp hj item (List.mem_of_getElem? hitem)
      have hvalue' := isValue_array.mp hj' _ (List.mem_of_getElem? hitem')
      rw [hitem', Option.map_some, Option.map_some, (ih i _ _ hitem hitem' hvalue hvalue').1]
  | @object members members' hkeys _ ih =>
    refine ⟨?_, rfl⟩
    obtain ⟨hnodup, hvalues⟩ := isValue_object.mp hj
    obtain ⟨hnodup', hvalues'⟩ := isValue_object.mp hj'
    have hshown : ∀ m, m ∈ canonicalMembers members ↔ m ∈ canonicalMembers members' := by
      intro ⟨key, text⟩
      rw [mem_canonicalMembers, mem_canonicalMembers]
      constructor
      · intro ⟨v, hv, hnull, htext⟩
        obtain ⟨⟨key', v'⟩, hv', rfl⟩ := List.mem_map.mp
          ((hkeys key).mp (List.mem_map_of_mem (f := Prod.fst) hv))
        obtain ⟨htexts, hnulls⟩ := ih key' v v' hv hv' (hvalues _ hv) (hvalues' _ hv')
        exact ⟨v', hv', hnulls ▸ hnull, htexts ▸ htext⟩
      · intro ⟨v', hv', hnull, htext⟩
        obtain ⟨⟨key', v⟩, hv, rfl⟩ := List.mem_map.mp
          ((hkeys key).mpr (List.mem_map_of_mem (f := Prod.fst) hv'))
        obtain ⟨htexts, hnulls⟩ := ih key' v v' hv hv' (hvalues _ hv) (hvalues' _ hv')
        exact ⟨v, hv, hnulls.symm ▸ hnull, htexts.symm ▸ htext⟩
    have hperm : (canonicalMembers members).Perm (canonicalMembers members') :=
      (List.perm_ext_iff_of_nodup (canonicalMembers_nodup hnodup).of_map
        (canonicalMembers_nodup hnodup').of_map).mpr hshown
    rw [canonical_object, canonical_object, objectText, objectText,
      sort_eq_of_perm (canonicalMembers_nodup hnodup) hperm]

end

/-- **Equal up to what the store loses.** The canonical texts of two values are
    equal exactly when the values are, once their null members are removed. -/
theorem canonical_eq_iff {j j' : Json} (hj : j.IsValue) (hj' : j'.IsValue) :
    j.canonical = j'.canonical ↔ Same j.pruned j'.pruned := by
  constructor
  · exact same_of_canonical_eq j hj hj'
  · intro h
    have htext := (h.canonical_eq hj.pruned hj'.pruned).1
    rwa [canonical_pruned, canonical_pruned] at htext

/-- A null member of a nested object is lost, and the members change places. -/
theorem canonical_eq_iff_sample :
    let stored := object [("b".toList, object [("x".toList, null)]), ("a".toList, array [null])]
    let returned := object [("a".toList, array [null]), ("b".toList, object [])]
    stored.canonical = returned.canonical ↔ Same stored.pruned returned.pruned :=
  canonical_eq_iff ⟨by simp [KeysDistinct, MembersDistinct, ItemsDistinct],
      by simp [NumbersPrinted, MembersPrinted, ItemsPrinted]⟩
    ⟨by simp [KeysDistinct, MembersDistinct, ItemsDistinct],
      by simp [NumbersPrinted, MembersPrinted, ItemsPrinted]⟩

end Json

end SoulAuth
