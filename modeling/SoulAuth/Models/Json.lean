import Mathlib.Data.List.Lex
import Mathlib.Data.List.Sort
import Mathlib.Data.Char
import SoulAuth.Utils.RecordId

/-! # JSON values and their canonical text

The details of an audit event are a JSON object. The writer has it as it was
built, the verifier as the database returns it: with the members in another
order, and perhaps without those whose value is null. The canonical text is
the same for both.
-/

namespace SoulAuth

/-- `serde_json::Value`. A number that is no integer is kept as its text. -/
inductive Json
  | null
  | bool (b : Bool)
  | int (n : Int)
  | float (text : Str)
  | string (s : Str)
  | array (items : List Json)
  | object (members : List (Str × Json))

namespace Json

/-- `is_null`. -/
def isNull : Json → Bool
  | null => true
  | _ => false

/-- The decimal text of an integer. -/
def decimal : Int → Str
  | .ofNat n => Nat.toDigits 10 n
  | .negSucc n => '-' :: Nat.toDigits 10 (n + 1)

/-- A character inside a JSON string, as `serde_json` writes it. -/
def escapeChar (c : Char) : Str :=
  if c = quote then ['\\', quote]
  else if c = '\\' then ['\\', '\\']
  else if c.toNat = 8 then "\\b".toList
  else if c.toNat = 9 then "\\t".toList
  else if c.toNat = 10 then "\\n".toList
  else if c.toNat = 12 then "\\f".toList
  else if c.toNat = 13 then "\\r".toList
  else if c.toNat < 32 then
    "\\u00".toList ++ [Nat.digitChar (c.toNat / 16), Nat.digitChar (c.toNat % 16)]
  else [c]

/-- A JSON string. -/
def stringText (s : Str) : Str := quote :: s.flatMap escapeChar ++ [quote]

/-- A member of an object, with the text of its value. -/
def memberText (m : Str × Str) : Str := stringText m.1 ++ ':' :: m.2

/-- The order of the members in the canonical text. -/
def KeyLe (a b : Str × Str) : Prop := a.1 ≤ b.1

instance : DecidableRel KeyLe := fun a b => inferInstanceAs (Decidable (a.1 ≤ b.1))

mutual

/-- `canonical_json`. -/
def canonical : Json → Str
  | null => "null".toList
  | bool true => "true".toList
  | bool false => "false".toList
  | int n => decimal n
  | float text => text
  | string s => stringText s
  | array items => '[' :: List.intercalate [','] (canonicalItems items) ++ [']']
  | object members =>
    '{' :: List.intercalate [',']
      (((canonicalMembers members).insertionSort KeyLe).map memberText) ++ ['}']

/-- The texts of the elements of an array, in their order. -/
def canonicalItems : List Json → List Str
  | [] => []
  | item :: items => canonical item :: canonicalItems items

/-- The members whose value is not null, with the texts of their values. -/
def canonicalMembers : List (Str × Json) → List (Str × Str)
  | [] => []
  | (key, value) :: members =>
    if value.isNull then canonicalMembers members
    else (key, canonical value) :: canonicalMembers members

end

mutual

/-- No object has two members of one key, as in every `serde_json::Map`. -/
def KeysDistinct : Json → Prop
  | array items => ItemsDistinct items
  | object members => (members.map Prod.fst).Nodup ∧ MembersDistinct members
  | _ => True

def ItemsDistinct : List Json → Prop
  | [] => True
  | item :: items => KeysDistinct item ∧ ItemsDistinct items

def MembersDistinct : List (Str × Json) → Prop
  | [] => True
  | (_, value) :: members => KeysDistinct value ∧ MembersDistinct members

end

theorem keysDistinct_empty : (object []).KeysDistinct := by
  simp [KeysDistinct, MembersDistinct]

/-! ## What the database returns -/

mutual

/-- `ReadBack j j'`: the database may return `j'` for the stored value `j`. -/
inductive ReadBack : Json → Json → Prop
  | refl (j : Json) : ReadBack j j
  | array {items items' : List Json} (h : ItemsReadBack items items') :
    ReadBack (array items) (array items')
  | object {members kept members' : List (Str × Json)} (h : MembersReadBack members kept)
    (hp : kept.Perm members') : ReadBack (object members) (object members')

/-- Element by element. -/
inductive ItemsReadBack : List Json → List Json → Prop
  | nil : ItemsReadBack [] []
  | cons {item item' : Json} {items items' : List Json} (h : ReadBack item item')
    (hs : ItemsReadBack items items') : ItemsReadBack (item :: items) (item' :: items')

/-- Member by member; one whose value is null may be missing. -/
inductive MembersReadBack : List (Str × Json) → List (Str × Json) → Prop
  | nil : MembersReadBack [] []
  | cons (key : Str) {value value' : Json} {members kept : List (Str × Json)}
    (h : ReadBack value value') (hs : MembersReadBack members kept) :
    MembersReadBack ((key, value) :: members) ((key, value') :: kept)
  | dropped (key : Str) {members kept : List (Str × Json)} (hs : MembersReadBack members kept) :
    MembersReadBack ((key, null) :: members) kept

end

/-! ## The canonical text -/

theorem canonicalMembers_eq_filterMap (members : List (Str × Json)) :
    canonicalMembers members = members.filterMap fun m =>
      if m.2.isNull then none else some (m.1, m.2.canonical) := by
  induction members with
  | nil => simp [canonicalMembers]
  | cons m members ih =>
    obtain ⟨key, value⟩ := m
    cases hv : value.isNull <;> simp [canonicalMembers, hv, ih]

theorem canonicalMembers_perm {members members' : List (Str × Json)}
    (h : members.Perm members') : (canonicalMembers members).Perm (canonicalMembers members') := by
  rw [canonicalMembers_eq_filterMap, canonicalMembers_eq_filterMap]
  exact h.filterMap _

theorem canonicalMembers_keys (members : List (Str × Json)) :
    ((canonicalMembers members).map Prod.fst).Sublist (members.map Prod.fst) := by
  induction members with
  | nil => simp [canonicalMembers]
  | cons m members ih =>
    obtain ⟨key, value⟩ := m
    unfold canonicalMembers
    split
    · exact ih.cons _
    · exact ih.cons_cons _

instance : IsTrans (Str × Str) KeyLe := ⟨fun _ _ _ h₁ h₂ => le_trans (α := Str) h₁ h₂⟩

instance : Std.Total KeyLe := ⟨fun a b => le_total (α := Str) a.1 b.1⟩

/-- Sorting by key forgets the order, when no key occurs twice. -/
theorem sort_eq_of_perm {ms ms' : List (Str × Str)} (hd : (ms.map Prod.fst).Nodup)
    (h : ms.Perm ms') : ms.insertionSort KeyLe = ms'.insertionSort KeyLe := by
  have hperm : (ms.insertionSort KeyLe).Perm (ms'.insertionSort KeyLe) :=
    (List.perm_insertionSort KeyLe ms).trans (h.trans (List.perm_insertionSort KeyLe ms').symm)
  have hs : (ms.insertionSort KeyLe).Pairwise KeyLe := List.pairwise_insertionSort _ _
  have hs' : (ms'.insertionSort KeyLe).Pairwise KeyLe := List.pairwise_insertionSort _ _
  refine hperm.eq_of_pairwise ?_ hs hs'
  intro a b ha hb hab hba
  have ha' : a ∈ ms := (List.mem_insertionSort KeyLe).mp ha
  have hb' : b ∈ ms := h.symm.subset ((List.mem_insertionSort KeyLe).mp hb)
  exact List.inj_on_of_nodup_map hd ha' hb' (le_antisymm (α := Str) hab hba)

theorem ReadBack.isNull_eq {j j' : Json} (h : ReadBack j j') : j'.isNull = j.isNull := by
  cases h <;> rfl

mutual

/-- The database may return another value than the one that was stored; the
    canonical text of both is the same. -/
theorem ReadBack.canonical_eq {j j' : Json} (hd : j.KeysDistinct) :
    ReadBack j j' → j'.canonical = j.canonical
  | .refl _ => rfl
  | .array h => by
    rw [canonical, canonical, h.canonical_eq (by simpa [KeysDistinct] using hd)]
  | .object h hp => by
    obtain ⟨hkeys, hvalues⟩ : (_ : List Str).Nodup ∧ MembersDistinct _ := by
      simpa only [KeysDistinct] using hd
    have hnodup := (canonicalMembers_keys _).nodup hkeys
    have hsort := sort_eq_of_perm hnodup
      ((h.canonical_eq hvalues) ▸ canonicalMembers_perm hp)
    rw [canonical, canonical, hsort]

theorem ItemsReadBack.canonical_eq {items items' : List Json} (hd : ItemsDistinct items) :
    ItemsReadBack items items' → canonicalItems items' = canonicalItems items
  | .nil => rfl
  | .cons h hs => by
    obtain ⟨h₁, h₂⟩ : KeysDistinct _ ∧ ItemsDistinct _ := by
      simpa only [ItemsDistinct] using hd
    rw [canonicalItems, canonicalItems, h.canonical_eq h₁, hs.canonical_eq h₂]

theorem MembersReadBack.canonical_eq {members kept : List (Str × Json)}
    (hd : MembersDistinct members) :
    MembersReadBack members kept → canonicalMembers kept = canonicalMembers members
  | .nil => rfl
  | .cons key h hs => by
    obtain ⟨h₁, h₂⟩ : KeysDistinct _ ∧ MembersDistinct _ := by
      simpa only [MembersDistinct] using hd
    rw [canonicalMembers, canonicalMembers, h.isNull_eq, h.canonical_eq h₁, hs.canonical_eq h₂]
  | .dropped key hs => by
    obtain ⟨-, h₂⟩ : KeysDistinct _ ∧ MembersDistinct _ := by
      simpa only [MembersDistinct] using hd
    rw [hs.canonical_eq h₂]
    simp [canonicalMembers, isNull]

end

end Json

end SoulAuth
