import SoulAuth.Utils.RecordId

/-! # Normalised keys

The normalisations of record identifiers reach a fixed point, and a key
that has been normalised is the normal form of every address that the
database may write for it.
-/

namespace SoulAuth

open Str

/-! ## Trimming -/

theorem trimBoth_sublist (p : Char → Bool) (s : Str) : (trimBoth p s).Sublist s :=
  (List.rdropWhile_prefix p _).sublist.trans (List.dropWhile_sublist p)

/-- The first and the last character of `s` do not satisfy `p`. -/
def EndsFree (p : Char → Bool) (s : Str) : Prop :=
  (∀ c, s.head? = some c → p c = false) ∧ ∀ c, s.getLast? = some c → p c = false

theorem dropWhile_of_head {p : Char → Bool} {s : Str} (h : ∀ c, s.head? = some c → p c = false) :
    s.dropWhile p = s := by
  cases s with
  | nil => rfl
  | cons c s => simp [List.dropWhile, h c rfl]

theorem rdropWhile_of_last {p : Char → Bool} {s : Str}
    (h : ∀ c, s.getLast? = some c → p c = false) : s.rdropWhile p = s := by
  rw [List.rdropWhile_eq_self_iff]
  intro hne
  simpa using h _ (List.getLast?_eq_some_getLast hne)

theorem EndsFree.trimBoth {p : Char → Bool} {s : Str} (h : EndsFree p s) :
    Str.trimBoth p s = s := by
  rw [Str.trimBoth, dropWhile_of_head h.1, rdropWhile_of_last h.2]

theorem endsFree_of_trimBoth {p : Char → Bool} {s : Str} (h : trimBoth p s = s) :
    EndsFree p s := by
  have hdrop : s.dropWhile p = s := by
    refine (List.dropWhile_sublist p).eq_of_length_le ?_
    have hle := (List.rdropWhile_prefix p (s.dropWhile p)).length_le
    have hlen := congrArg List.length h
    rw [trimBoth] at hlen
    omega
  have hrdrop : s.rdropWhile p = s := by
    rw [trimBoth, hdrop] at h
    exact h
  constructor
  · intro c hc
    cases s with
    | nil => cases hc
    | cons d s =>
      obtain rfl : d = c := by simpa using hc
      cases hp : p d with
      | false => rfl
      | true =>
        have hlen := (List.dropWhile_sublist p (l := s)).length_le
        rw [List.dropWhile_cons_of_pos hp] at hdrop
        rw [hdrop, List.length_cons] at hlen
        omega
  · intro c hc
    obtain ⟨hne, rfl⟩ := List.mem_getLast?_eq_getLast hc
    simpa using List.rdropWhile_eq_self_iff.mp hrdrop hne

/-! ## Rounds of trimming -/

/-- The characters that one round of `normalize_record_id_key` trims, in
    their order. -/
def keyTrims : List (Char → Bool) :=
  [isWhitespace, (· == '⟨'), (· == '⟩'), (· == '<'), (· == '>'), (· == quote), (· == backtick),
    isWhitespace]

theorem stripKeyQuotes_eq (s : Str) :
    stripKeyQuotes s = keyTrims.foldl (fun s p => trimBoth p s) s := by
  simp only [stripKeyQuotes, keyTrims, List.foldl_cons, List.foldl_nil, trim, trimMatches]

theorem trims_sublist (ps : List (Char → Bool)) (s : Str) :
    (ps.foldl (fun s p => trimBoth p s) s).Sublist s := by
  induction ps generalizing s with
  | nil => exact List.Sublist.refl s
  | cons p ps ih => exact (ih _).trans (trimBoth_sublist p s)

theorem trims_fixed {ps : List (Char → Bool)} {s : Str} :
    ps.foldl (fun s p => trimBoth p s) s = s ↔ ∀ p ∈ ps, EndsFree p s := by
  induction ps with
  | nil => simp
  | cons p ps ih =>
    rw [List.foldl_cons, List.forall_mem_cons]
    constructor
    · intro h
      have hp : trimBoth p s = s := by
        refine (trimBoth_sublist p s).eq_of_length_le ?_
        have hle := (trims_sublist ps (trimBoth p s)).length_le
        rwa [h] at hle
      rw [hp] at h
      exact ⟨endsFree_of_trimBoth hp, ih.mp h⟩
    · rintro ⟨hp, hps⟩
      rw [hp.trimBoth]
      exact ih.mpr hps

/-- A delimiter after a key is trimmed. -/
theorem trims_snoc {ps : List (Char → Bool)} {s : Str} {d : Char} (hs : s ≠ [])
    (hfree : ∀ p ∈ ps, EndsFree p s) :
    ps.foldl (fun s p => trimBoth p s) (s ++ [d]) = if ps.any (· d) then s else s ++ [d] := by
  induction ps with
  | nil => simp
  | cons p ps ih =>
    obtain ⟨hp, hps⟩ := List.forall_mem_cons.mp hfree
    obtain ⟨c, s', rfl⟩ := List.exists_cons_of_ne_nil hs
    have hhead : (c :: s' ++ [d]).dropWhile p = c :: s' ++ [d] :=
      dropWhile_of_head fun x hx => hp.1 x (by simpa using hx)
    rw [List.foldl_cons, List.any_cons, trimBoth, hhead, List.rdropWhile_concat]
    cases hd : p d with
    | true =>
      rw [if_pos rfl, rdropWhile_of_last hp.2, Bool.true_or, if_pos rfl]
      exact trims_fixed.mpr hps
    | false =>
      rw [if_neg Bool.false_ne_true, Bool.false_or]
      exact ih hps

/-- A delimiter before a key is trimmed. -/
theorem trims_cons {ps : List (Char → Bool)} {s : Str} {d : Char} (hs : s ≠ [])
    (hfree : ∀ p ∈ ps, EndsFree p s) :
    ps.foldl (fun s p => trimBoth p s) (d :: s) = if ps.any (· d) then s else d :: s := by
  induction ps with
  | nil => simp
  | cons p ps ih =>
    obtain ⟨hp, hps⟩ := List.forall_mem_cons.mp hfree
    rw [List.foldl_cons, List.any_cons]
    cases hd : p d with
    | true =>
      have hdrop : (d :: s).dropWhile p = s := by
        rw [List.dropWhile_cons_of_pos hd, dropWhile_of_head hp.1]
      rw [trimBoth, hdrop, rdropWhile_of_last hp.2, Bool.true_or, if_pos rfl]
      exact trims_fixed.mpr hps
    | false =>
      have hlast : ∀ x, (d :: s).getLast? = some x → p x = false := fun x hx => by
        obtain ⟨c, s', rfl⟩ := List.exists_cons_of_ne_nil hs
        exact hp.2 x (by rwa [List.getLast?_cons_cons] at hx)
      have hfree' : EndsFree p (d :: s) := ⟨fun x hx => by
        obtain rfl : d = x := by simpa using hx
        exact hd, hlast⟩
      rw [hfree'.trimBoth, Bool.false_or]
      exact ih hps

/-! ## Fixed points -/

theorem untilStable_sublist {f : Str → Str} (hf : ∀ s, (f s).Sublist s) (n : Nat) (s : Str) :
    (untilStable f n s).Sublist s := by
  induction n generalizing s with
  | zero => exact List.Sublist.refl s
  | succ n ih =>
    unfold untilStable
    split
    · exact List.Sublist.refl s
    · exact (ih _).trans (hf s)

/-- The loop ends at a fixed point: every round before it removes a
    character. -/
theorem untilStable_fixed {f : Str → Str} (hf : ∀ s, (f s).Sublist s) {n : Nat} {s : Str}
    (hn : s.length ≤ n) : f (untilStable f n s) = untilStable f n s := by
  induction n generalizing s with
  | zero =>
    obtain rfl : s = [] := List.eq_nil_of_length_eq_zero (Nat.le_zero.mp hn)
    exact List.sublist_nil.mp (hf [])
  | succ n ih =>
    unfold untilStable
    split
    · assumption
    · next hne =>
      have hlt : (f s).length < s.length := by
        refine Nat.lt_of_le_of_ne (hf s).length_le fun hlen => hne ?_
        exact (hf s).eq_of_length hlen
      exact ih (by omega)

/-- One round before the fixed point. -/
theorem untilStable_of_round {f : Str → Str} {n : Nat} {s t : Str} (hn : 0 < n) (h : f s = t)
    (ht : f t = t) : untilStable f n s = t := by
  obtain ⟨m, rfl⟩ : ∃ m, n = m + 1 := ⟨n - 1, by omega⟩
  unfold untilStable
  split
  · next heq => rw [← heq, h]
  · rw [h, untilStable_of_eq ht]

theorem stripKeyQuotes_sublist (s : Str) : (stripKeyQuotes s).Sublist s := by
  rw [stripKeyQuotes_eq]
  exact trims_sublist keyTrims s

theorem stripKeyQuotes_fixed {s : Str} :
    stripKeyQuotes s = s ↔ ∀ p ∈ keyTrims, EndsFree p s := by
  rw [stripKeyQuotes_eq]
  exact trims_fixed

theorem normalizeRecordIdKey_sublist (s : Str) : (normalizeRecordIdKey s).Sublist s :=
  (untilStable_sublist stripKeyQuotes_sublist _ _).trans (trimBoth_sublist _ s)

theorem stripPrefix_some {p s t : Str} (h : stripPrefix p s = some t) : s = p ++ t := by
  induction p generalizing s with
  | nil =>
    obtain rfl : s = t := by simpa [stripPrefix] using h
    rfl
  | cons a p ih =>
    cases s with
    | nil => cases h
    | cons c s =>
      unfold stripPrefix at h
      split at h
      · next hac =>
        rw [hac, ih h]
        rfl
      · cases h

theorem stripTable_sublist (table s : Str) : (stripTable table s).Sublist s := by
  unfold stripTable
  split
  · next key hkey =>
    rw [stripPrefix_some hkey]
    exact (normalizeRecordIdKey_sublist key).trans (List.sublist_append_right _ _)
  · exact normalizeRecordIdKey_sublist s

/-- A key in normal form: nothing is left to remove. -/
structure IsNormalKey (table key : Str) : Prop where
  ends : ∀ p ∈ keyTrims, EndsFree p key
  noTable : stripPrefix table key = none

theorem normalizeRecordIdKey_of_ends {s : Str} (h : ∀ p ∈ keyTrims, EndsFree p s) :
    normalizeRecordIdKey s = s := by
  have hround : stripKeyQuotes s = s := stripKeyQuotes_fixed.mpr h
  have htrim : trim s = s := (h isWhitespace (by simp [keyTrims])).trimBoth
  rw [normalizeRecordIdKey, htrim, untilStable_of_eq hround]

theorem ends_normalizeRecordIdKey (s : Str) :
    ∀ p ∈ keyTrims, EndsFree p (normalizeRecordIdKey s) := by
  refine stripKeyQuotes_fixed.mp ?_
  exact untilStable_fixed stripKeyQuotes_sublist (trimBoth_sublist _ s).length_le

/-- **Normalisation.** The result of a normalisation is in normal form. -/
theorem isNormalKey_normalizeId {table : Str} (ht : table ≠ []) (value : Str) :
    IsNormalKey table (normalizeId table value) := by
  have hfixed : stripTable table (normalizeId table value) = normalizeId table value :=
    untilStable_fixed (stripTable_sublist table) (normalizeRecordIdKey_sublist value).length_le
  generalize normalizeId table value = key at hfixed
  cases hkey : stripPrefix table key with
  | none =>
    refine ⟨?_, hkey⟩
    have hnorm : normalizeRecordIdKey key = key := by
      simpa [stripTable, hkey] using hfixed
    rw [← hnorm]
    exact ends_normalizeRecordIdKey key
  | some rest =>
    -- removing the table would leave a shorter key
    have hnorm : normalizeRecordIdKey rest = key := by
      simpa [stripTable, hkey] using hfixed
    have hle := (normalizeRecordIdKey_sublist rest).length_le
    have hlen := congrArg List.length (stripPrefix_some hkey)
    have hpos := List.length_pos_of_ne_nil ht
    rw [hnorm] at hle
    rw [List.length_append] at hlen
    omega

section

variable {table key : Str} {opening closing : Char}

theorem IsNormalKey.stripTable (h : IsNormalKey table key) : SoulAuth.stripTable table key = key := by
  simp only [SoulAuth.stripTable, h.noTable, normalizeRecordIdKey_of_ends h.ends]

theorem IsNormalKey.normalizeId (h : IsNormalKey table key) :
    SoulAuth.normalizeId table key = key := by
  rw [SoulAuth.normalizeId, normalizeRecordIdKey_of_ends h.ends, untilStable_of_eq h.stripTable]

/-- What ends in a key and starts with a table is free of delimiters. -/
theorem endsFree_append {p : Char → Bool} {s : Str} (ht : table ≠ [])
    (htable : ∀ c, table.head? = some c → p c = false) (hs : s ≠ [])
    (hlast : ∀ c, s.getLast? = some c → p c = false) : EndsFree p (table ++ s) := by
  obtain ⟨a, table, rfl⟩ := List.exists_cons_of_ne_nil ht
  refine ⟨fun c hc => htable c (by simpa using hc), fun c hc => hlast c ?_⟩
  rwa [List.getLast?_append_of_ne_nil _ hs] at hc

theorem getLast?_cons_of_ne_nil {c : Char} {s : Str} (hs : s ≠ []) :
    (c :: s).getLast? = s.getLast? := by
  obtain ⟨a, s, rfl⟩ := List.exists_cons_of_ne_nil hs
  rw [List.getLast?_cons_cons]

/-- A character that a round trims, but that is no white space. -/
def IsDelimiter (c : Char) : Prop := isWhitespace c = false ∧ keyTrims.any (· c) = true

theorem isDelimiter_brackets : IsDelimiter '⟨' ∧ IsDelimiter '⟩' ∧ IsDelimiter backtick := by
  simp only [IsDelimiter]
  decide

variable (htable : ∀ p ∈ keyTrims, ∀ c, table.head? = some c → p c = false)

include htable in
/-- The normal form of an address without delimiters. -/
theorem IsNormalKey.normalizeId_append (h : IsNormalKey table key) (ht : table ≠ [])
    (hkey : key ≠ []) : SoulAuth.normalizeId table (table ++ key) = key := by
  have hends : ∀ p ∈ keyTrims, EndsFree p (table ++ key) := fun p hp =>
    endsFree_append ht (htable p hp) hkey (h.ends p hp).2
  have hround : SoulAuth.stripTable table (table ++ key) = key := by
    simp only [SoulAuth.stripTable, stripPrefix_append, normalizeRecordIdKey_of_ends h.ends]
  rw [SoulAuth.normalizeId, normalizeRecordIdKey_of_ends hends]
  exact untilStable_of_round (List.length_pos_of_ne_nil (by simp [ht])) hround h.stripTable

include htable in
/-- The normal form of an address whose key stands between delimiters. -/
theorem IsNormalKey.normalizeId_delimited (h : IsNormalKey table key) (ht : table ≠ [])
    (hkey : key ≠ []) (hopening : IsDelimiter opening) (hclosing : IsDelimiter closing) :
    SoulAuth.normalizeId table (table ++ (opening :: key ++ [closing])) = key := by
  have hws : isWhitespace ∈ keyTrims := by simp [keyTrims]
  have hlast : ∀ p ∈ keyTrims, ∀ c, (opening :: key).getLast? = some c → p c = false := by
    intro p hp c hc
    exact (h.ends p hp).2 c (by rwa [getLast?_cons_of_ne_nil hkey] at hc)
  -- the closing delimiter goes in the first round
  have hends : ∀ p ∈ keyTrims, EndsFree p (table ++ opening :: key) := fun p hp =>
    endsFree_append ht (htable p hp) (by simp) (hlast p hp)
  have hsnoc : table ++ (opening :: key ++ [closing]) = table ++ opening :: key ++ [closing] := by
    simp
  have hlen : 0 < (table ++ opening :: key ++ [closing]).length :=
    List.length_pos_of_ne_nil (by simp)
  have hclosed : normalizeRecordIdKey (table ++ opening :: key ++ [closing]) =
      table ++ opening :: key := by
    have hws' : EndsFree isWhitespace (table ++ opening :: key ++ [closing]) := by
      rw [← hsnoc]
      refine endsFree_append ht (htable _ hws) (by simp) fun c hc => ?_
      rw [List.getLast?_concat] at hc
      obtain rfl := Option.some.inj hc
      exact hclosing.1
    have hround : stripKeyQuotes (table ++ opening :: key ++ [closing]) = table ++ opening :: key := by
      rw [stripKeyQuotes_eq, trims_snoc (by simp) hends, if_pos hclosing.2]
    rw [normalizeRecordIdKey, trim, hws'.trimBoth]
    exact untilStable_of_round hlen hround (stripKeyQuotes_fixed.mpr hends)
  -- the table and the opening delimiter go in the next
  have hopened : normalizeRecordIdKey (opening :: key) = key := by
    have hws' : EndsFree isWhitespace (opening :: key) := ⟨fun c hc => by
      obtain rfl : opening = c := by simpa using hc
      exact hopening.1, hlast _ hws⟩
    have hround : stripKeyQuotes (opening :: key) = key := by
      rw [stripKeyQuotes_eq, trims_cons hkey h.ends, if_pos hopening.2]
    rw [normalizeRecordIdKey, trim, hws'.trimBoth]
    exact untilStable_of_round (by simp) hround (stripKeyQuotes_fixed.mpr h.ends)
  have hround : SoulAuth.stripTable table (table ++ opening :: key) = key := by
    simp only [SoulAuth.stripTable, stripPrefix_append, hopened]
  rw [hsnoc, SoulAuth.normalizeId, hclosed]
  exact untilStable_of_round hlen hround h.stripTable

end

/-! ## Addresses of plain keys -/

theorem keyTrims_keyChar {p : Char → Bool} (hp : p ∈ keyTrims) {c : Char} (hc : IsKeyChar c) :
    p c = false := by
  have hne : ∀ d : Char, d.isAlphanum = false → d ≠ '-' → (c == d) = false := by
    intro d hd hd'
    simpa using hc.ne hd hd'
  simp only [keyTrims, List.mem_cons, List.not_mem_nil, or_false] at hp
  rcases hp with rfl | rfl | rfl | rfl | rfl | rfl | rfl | rfl
  · exact hc.not_whitespace
  · exact hne _ (by decide) (by decide)
  · exact hne _ (by decide) (by decide)
  · exact hne _ (by decide) (by decide)
  · exact hne _ (by decide) (by decide)
  · exact hne _ (by decide) (by decide)
  · exact hne _ (by decide) (by decide)
  · exact hc.not_whitespace

theorem IsPlainKey.isNormalKey {table s : Str} (hs : IsPlainKey s) (ht : ':' ∈ table) :
    IsNormalKey table s where
  ends p hp := by
    constructor
    · intro c hc
      exact keyTrims_keyChar hp (hs c (List.mem_of_mem_head? hc))
    · intro c hc
      exact keyTrims_keyChar hp (hs c (List.mem_of_getLast? hc))
  noTable := stripPrefix_eq_none ht (hs.not_mem (by decide) (by decide))

/-- The address of an identity root, as the database writes it, has the key
    as its normal form. -/
theorem IsPlainKey.normalizeActorId_address {s : Str} (hs : IsPlainKey s) (hne : s ≠ []) :
    normalizeActorId (recordAddress "actor_identity".toList s) = s := by
  have haddress : recordAddress "actor_identity".toList s = "actor_identity:".toList ++ s := rfl
  rw [haddress]
  apply (hs.isNormalKey (by decide)).normalizeId_append _ (by decide) hne
  intro p hp c hc
  obtain rfl : 'a' = c := by simpa using hc
  exact keyTrims_keyChar hp (.inl (by decide))

/-- It is not taken for the address of a user. -/
theorem IsPlainKey.normalizeUserId_address {s : Str} (hs : IsPlainKey s) (hne : s ≠ []) :
    normalizeUserId (recordAddress "actor_identity".toList s) =
      recordAddress "actor_identity".toList s := by
  apply IsNormalKey.normalizeId
  constructor
  · intro p hp
    show EndsFree p ("actor_identity:".toList ++ s)
    apply endsFree_append (by decide) _ hne
    · intro c hc
      exact keyTrims_keyChar hp (hs c (List.mem_of_getLast? hc))
    · intro c hc
      obtain rfl : 'a' = c := by simpa using hc
      exact keyTrims_keyChar hp (.inl (by decide))
  · rfl

/-! ## What no normalisation changes -/

/-- The characters of a written form that say something: those of keys, and
    the colon. -/
def saysSomething (c : Char) : Bool := c.isAlphanum || c == '-' || c == ':'

/-- The key characters after the last colon, from the end. -/
def keyTail (s : Str) : Str := (s.filter saysSomething).reverse.takeWhile (· != ':')

theorem IsPlainKey.keyTail {s : Str} (hs : IsPlainKey s) : SoulAuth.keyTail s = s.reverse := by
  have hfilter : s.filter saysSomething = s := by
    apply List.filter_eq_self.mpr
    intro c hc
    rcases hs c hc with h | h <;> simp [saysSomething, h]
  have hall : ∀ c ∈ s.reverse, (c != ':') = true := by
    intro c hc
    have hne := (hs c (List.mem_reverse.mp hc)).ne (d := ':') (by decide) (by decide)
    simpa using hne
  unfold SoulAuth.keyTail
  rw [hfilter, List.takeWhile_eq_self_iff.mpr hall]

/-- What stands before a colon does not count. -/
theorem keyTail_append (s t : Str) : keyTail (s ++ ':' :: t) = keyTail t := by
  have htake : ∀ u v : Str, (u ++ ':' :: v).takeWhile (· != ':') = u.takeWhile (· != ':') := by
    intro u v
    induction u with
    | nil => rfl
    | cons c u ih => simp only [List.cons_append, List.takeWhile_cons, ih]
  have hcolon : saysSomething ':' = true := rfl
  unfold keyTail
  rw [List.filter_append, List.filter_cons_of_pos hcolon, List.reverse_append,
    List.reverse_cons, List.append_assoc]
  exact htake _ _

/-- Trimming removes no character that counts. -/
theorem keyTail_trimBoth {p : Char → Bool} (hp : ∀ c, p c = true → saysSomething c = false)
    (s : Str) : keyTail (trimBoth p s) = keyTail s := by
  have hdrop : ∀ u : Str, (u.dropWhile p).filter saysSomething = u.filter saysSomething := by
    intro u
    induction u with
    | nil => rfl
    | cons c u ih =>
      by_cases hc : p c = true
      · rw [List.dropWhile_cons_of_pos hc, ih, List.filter_cons_of_neg (by simp [hp c hc])]
      · rw [List.dropWhile_cons_of_neg hc]
  have hkept : (trimBoth p s).filter saysSomething = s.filter saysSomething := by
    unfold trimBoth List.rdropWhile
    rw [List.filter_reverse, hdrop, List.filter_reverse, List.reverse_reverse, hdrop]
  unfold keyTail
  rw [hkept]

theorem keyTrims_saysNothing {p : Char → Bool} (hp : p ∈ keyTrims) {c : Char}
    (hc : p c = true) : saysSomething c = false := by
  have hkey : ¬ IsKeyChar c := by
    intro hk
    rw [keyTrims_keyChar hp hk] at hc
    cases hc
  have hcolon : c ≠ ':' := by
    intro heq
    subst heq
    simp only [keyTrims, List.mem_cons, List.not_mem_nil, or_false] at hp
    rcases hp with rfl | rfl | rfl | rfl | rfl | rfl | rfl | rfl
    all_goals exact absurd hc (by decide)
  unfold IsKeyChar at hkey
  simp_all [saysSomething]

/-- So each trim of a round may be left out. -/
theorem keyTail_trim_mem {p : Char → Bool} (hp : p ∈ keyTrims) (s : Str) :
    keyTail (trimBoth p s) = keyTail s :=
  keyTail_trimBoth (fun _ => keyTrims_saysNothing hp) s

theorem keyTail_stripKeyQuotes (s : Str) : keyTail (stripKeyQuotes s) = keyTail s := by
  have hfold : ∀ (ps : List (Char → Bool)) (u : Str), (∀ p ∈ ps, p ∈ keyTrims) →
      keyTail (ps.foldl (fun s p => trimBoth p s) u) = keyTail u := by
    intro ps
    induction ps with
    | nil => exact fun _ _ => rfl
    | cons p ps ih =>
      intro u hps
      obtain ⟨hp, hps⟩ := List.forall_mem_cons.mp hps
      rw [List.foldl_cons, ih _ hps, keyTail_trim_mem hp]
  rw [stripKeyQuotes_eq]
  exact hfold keyTrims s fun _ h => h

theorem keyTail_untilStable {f : Str → Str} (hf : ∀ s, keyTail (f s) = keyTail s) (n : Nat)
    (s : Str) : keyTail (untilStable f n s) = keyTail s := by
  induction n generalizing s with
  | zero => rfl
  | succ n ih =>
    unfold untilStable
    split
    · rfl
    · rw [ih, hf]

theorem keyTail_normalizeRecordIdKey (s : Str) : keyTail (normalizeRecordIdKey s) = keyTail s := by
  unfold normalizeRecordIdKey trim
  rw [keyTail_untilStable keyTail_stripKeyQuotes, keyTail_trim_mem (by simp [keyTrims])]

theorem keyTail_normalizeUserId (s : Str) : keyTail (normalizeUserId s) = keyTail s := by
  have htable : ∀ u, keyTail (stripTable "user:".toList u) = keyTail u := by
    intro u
    unfold stripTable
    split
    · next key hkey =>
      have happend : u = "user:".toList ++ key := stripPrefix_some hkey
      have hu : u = "user".toList ++ ':' :: key := happend
      rw [keyTail_normalizeRecordIdKey, hu, keyTail_append]
    · exact keyTail_normalizeRecordIdKey u
  unfold normalizeUserId normalizeId
  rw [keyTail_untilStable htable, keyTail_normalizeRecordIdKey]

theorem splitOnce_some {d : Char} {s t u : Str} (h : splitOnce d s = some (t, u)) :
    s = t ++ d :: u := by
  induction s generalizing t with
  | nil => cases h
  | cons c s ih =>
    unfold splitOnce at h
    split at h
    · next hc =>
      cases h
      rw [hc, List.nil_append]
    · obtain ⟨⟨t', u'⟩, hsplit, heq⟩ := Option.map_eq_some_iff.mp h
      cases heq
      rw [ih hsplit, List.cons_append]

theorem keyTail_idArgumentKey (s : Str) : keyTail (idArgumentKey s) = keyTail s := by
  unfold idArgumentKey
  split
  · next t key hsplit =>
    have hopening : (· == '⟨') ∈ keyTrims := by simp [keyTrims]
    have hclosing : (· == '⟩') ∈ keyTrims := by simp [keyTrims]
    have hspace : isWhitespace ∈ keyTrims := by simp [keyTrims]
    unfold trimMatches trim
    rw [keyTail_trim_mem hclosing, keyTail_trim_mem hopening, keyTail_trim_mem hspace,
      splitOnce_some hsplit, keyTail_append]
  · rfl

/-- The two ways to read a key from its written form agree where both find
    a plain key. -/
theorem idArgumentKey_eq_normalizeUserId {s : Str} (hid : IsPlainKey (idArgumentKey s))
    (hnormal : IsPlainKey (normalizeUserId s)) : idArgumentKey s = normalizeUserId s := by
  apply List.reverse_injective
  rw [← hid.keyTail, ← hnormal.keyTail, keyTail_idArgumentKey, keyTail_normalizeUserId]

end SoulAuth
