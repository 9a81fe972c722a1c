import SoulAuth.Proofs.RecordKeys

/-! # Normalisation is a retraction

The loops of the normalisations end, a second normalisation changes
nothing, and whatever written form of a normalised key is read, the key
comes back: the table may stand in front of it, brackets, quotes and white
space around it, in any nesting.

A round of `normalize_record_id_key` trims one kind of character after the
other. Its loop trims all of them at once, and this is how the proofs look
at it.
-/

namespace SoulAuth

open Str

/-! ## Loops -/

/-- `loop { let next = f(s); if next == s { return next; } s = next; }`
    returns `t`. -/
inductive LoopReturns (f : Str → Str) : Str → Str → Prop
  | stop {s : Str} : f s = s → LoopReturns f s s
  | round {s t : Str} : f s ≠ s → LoopReturns f (f s) t → LoopReturns f s t

/-- A loop returns one value. -/
theorem LoopReturns.unique {f : Str → Str} {s t u : Str} (h : LoopReturns f s t)
    (h' : LoopReturns f s u) : t = u := by
  induction h with
  | stop hs =>
    cases h' with
    | stop _ => rfl
    | round hne _ => exact absurd hs hne
  | round hne _ ih =>
    cases h' with
    | stop hs => exact absurd hs hne
    | round _ h' => exact ih h'

/-- A loop that only removes characters ends, with what `untilStable`
    computes. -/
theorem loopReturns_untilStable {f : Str → Str} (hf : ∀ s, (f s).Sublist s) {n : Nat} {s : Str}
    (hn : s.length ≤ n) : LoopReturns f s (untilStable f n s) := by
  induction n generalizing s with
  | zero =>
    obtain rfl : s = [] := List.eq_nil_of_length_eq_zero (Nat.le_zero.mp hn)
    exact .stop (List.sublist_nil.mp (hf []))
  | succ n ih =>
    unfold untilStable
    by_cases hs : f s = s
    · rw [if_pos hs]
      exact .stop hs
    · rw [if_neg hs]
      -- a round that changes the text shortens it
      have hlt : (f s).length < s.length := by
        apply Nat.lt_of_le_of_ne (hf s).length_le
        intro hlen
        exact hs ((hf s).eq_of_length hlen)
      exact .round hs (ih (by omega))

/-! ## Trimming several kinds of characters -/

section

variable {p q : Char → Bool} {s : Str} {c : Char}

theorem trimBoth_cons (hc : q c = true) : trimBoth q (c :: s) = trimBoth q s := by
  rw [trimBoth, List.dropWhile_cons_of_pos hc, trimBoth]

theorem trimBoth_snoc (hc : q c = true) : trimBoth q (s ++ [c]) = trimBoth q s := by
  rw [trimBoth, List.dropWhile_append]
  split
  · next hnil =>
    rw [List.isEmpty_iff] at hnil
    rw [trimBoth, hnil, List.dropWhile_cons_of_pos hc]
    rfl
  · rw [List.rdropWhile_concat_pos _ _ _ hc, trimBoth]

/-- What is trimmed anyway may stand before a text. -/
theorem trimBoth_prepend {front : Str} (hfront : ∀ c ∈ front, q c = true) :
    trimBoth q (front ++ s) = trimBoth q s := by
  induction front with
  | nil => rfl
  | cons c front ih =>
    rw [List.cons_append, trimBoth_cons (hfront c (by simp))]
    exact ih fun d hd => hfront d (by simp [hd])

/-- And behind it. -/
theorem trimBoth_append {back : Str} (hback : ∀ c ∈ back, q c = true) :
    trimBoth q (s ++ back) = trimBoth q s := by
  induction back using List.reverseRecOn with
  | nil => rw [List.append_nil]
  | append_singleton back c ih =>
    rw [← List.append_assoc, trimBoth_snoc (hback c (by simp))]
    exact ih fun d hd => hback d (by simp [hd])

/-- Trimming one kind of character changes nothing for a later trimming of
    that kind among others. -/
theorem trimBoth_absorb (hpq : ∀ c, p c = true → q c = true) (s : Str) :
    trimBoth q (trimBoth p s) = trimBoth q s := by
  have hsplit : s = s.takeWhile p ++ trimBoth p s ++ (s.dropWhile p).rtakeWhile p := by
    rw [trimBoth, List.append_assoc, List.rdropWhile_append_rtakeWhile,
      List.takeWhile_append_dropWhile]
  conv => right; rw [hsplit]
  have hfront : ∀ c ∈ s.takeWhile p, q c = true :=
    fun c hc => hpq c (List.mem_takeWhile_imp hc)
  have hback : ∀ c ∈ (s.dropWhile p).rtakeWhile p, q c = true :=
    fun c hc => hpq c (List.mem_rtakeWhile_imp hc)
  rw [trimBoth_append hback, trimBoth_prepend hfront]

end

/-! ## Trimmed keys -/

/-- The characters that `normalize_record_id_key` removes at both ends. -/
def isTrimmed (c : Char) : Bool := keyTrims.any (· c)

theorem isTrimmed_of_mem {p : Char → Bool} (hp : p ∈ keyTrims) {c : Char} (hc : p c = true) :
    isTrimmed c = true :=
  List.any_eq_true.mpr ⟨p, hp, hc⟩

theorem endsFree_isTrimmed {s : Str} (h : ∀ p ∈ keyTrims, EndsFree p s) :
    EndsFree isTrimmed s := by
  constructor
  · intro c hc
    rw [isTrimmed, List.any_eq_false]
    intro p hp
    simp [(h p hp).1 c hc]
  · intro c hc
    rw [isTrimmed, List.any_eq_false]
    intro p hp
    simp [(h p hp).2 c hc]

theorem trimBoth_stripKeyQuotes (s : Str) :
    trimBoth isTrimmed (stripKeyQuotes s) = trimBoth isTrimmed s := by
  rw [stripKeyQuotes_eq]
  have hround : ∀ ps : List (Char → Bool), (∀ p ∈ ps, p ∈ keyTrims) → ∀ s : Str,
      trimBoth isTrimmed (ps.foldl (fun s p => trimBoth p s) s) = trimBoth isTrimmed s := by
    intro ps
    induction ps with
    | nil =>
      intro _ s
      rfl
    | cons p ps ih =>
      intro hps s
      obtain ⟨hp, hps⟩ := List.forall_mem_cons.mp hps
      rw [List.foldl_cons, ih hps]
      exact trimBoth_absorb (fun c => isTrimmed_of_mem hp) s
  exact hround keyTrims (fun _ hp => hp) s

/-- The loop of `normalize_record_id_key` trims all kinds at once. -/
theorem normalizeRecordIdKey_eq (s : Str) :
    normalizeRecordIdKey s = trimBoth isTrimmed s := by
  have hloop : ∀ (n : Nat) (s : Str),
      trimBoth isTrimmed (untilStable stripKeyQuotes n s) = trimBoth isTrimmed s := by
    intro n
    induction n with
    | zero =>
      intro s
      rfl
    | succ n ih =>
      intro s
      unfold untilStable
      split
      · rfl
      · rw [ih, trimBoth_stripKeyQuotes]
  have hws : ∀ c, isWhitespace c = true → isTrimmed c = true :=
    fun c => isTrimmed_of_mem (by simp [keyTrims])
  have hfixed := (endsFree_isTrimmed (ends_normalizeRecordIdKey s)).trimBoth
  rw [normalizeRecordIdKey, hloop, trim, trimBoth_absorb hws] at hfixed
  exact hfixed.symm

theorem normalizeRecordIdKey_cons {c : Char} (hc : isTrimmed c = true) (s : Str) :
    normalizeRecordIdKey (c :: s) = normalizeRecordIdKey s := by
  rw [normalizeRecordIdKey_eq, normalizeRecordIdKey_eq, trimBoth_cons hc]

theorem normalizeRecordIdKey_snoc {c : Char} (hc : isTrimmed c = true) (s : Str) :
    normalizeRecordIdKey (s ++ [c]) = normalizeRecordIdKey s := by
  rw [normalizeRecordIdKey_eq, normalizeRecordIdKey_eq, trimBoth_snoc hc]

theorem normalizeRecordIdKey_idem (s : Str) :
    normalizeRecordIdKey (normalizeRecordIdKey s) = normalizeRecordIdKey s :=
  normalizeRecordIdKey_of_ends (ends_normalizeRecordIdKey s)

/-- `normalize_record_id_key` reaches the end of its loop. -/
theorem normalizeRecordIdKey_returns (s : Str) :
    LoopReturns stripKeyQuotes (trim s) (normalizeRecordIdKey s) :=
  loopReturns_untilStable stripKeyQuotes_sublist (trimBoth_sublist _ s).length_le

/-! ## Tables -/

/-- `normalize_user_id` and `normalize_actor_id` reach the end of theirs. -/
theorem normalizeId_returns (table s : Str) :
    LoopReturns (stripTable table) (normalizeRecordIdKey s) (normalizeId table s) :=
  loopReturns_untilStable (stripTable_sublist table) (normalizeRecordIdKey_sublist s).length_le

theorem normalizeId_idem {table : Str} (ht : table ≠ []) (s : Str) :
    normalizeId table (normalizeId table s) = normalizeId table s :=
  (isNormalKey_normalizeId ht s).normalizeId

/-- The result depends on the normalised text only. -/
theorem normalizeId_congr (table : Str) {s t : Str}
    (h : normalizeRecordIdKey s = normalizeRecordIdKey t) :
    normalizeId table s = normalizeId table t := by
  have hs := normalizeId_returns table s
  rw [h] at hs
  exact hs.unique (normalizeId_returns table t)

/-- A table in front of a text is removed. -/
theorem normalizeId_table {table : Str} (ht : table ≠ []) (hends : EndsFree isTrimmed table)
    (s : Str) : normalizeId table (table ++ s) = normalizeId table s := by
  -- what is trimmed behind the table, and what stays there
  obtain ⟨rest, back, hs, hrest, hback⟩ : ∃ rest back, s = rest ++ back ∧
      (∀ c, rest.getLast? = some c → isTrimmed c = false) ∧ ∀ c ∈ back, isTrimmed c = true := by
    refine ⟨s.rdropWhile isTrimmed, s.rtakeWhile isTrimmed, ?_, ?_, ?_⟩
    · exact List.rdropWhile_append_rtakeWhile.symm
    · intro c hc
      obtain ⟨hne, rfl⟩ := List.mem_getLast?_eq_getLast hc
      simpa using List.rdropWhile_last_not isTrimmed s hne
    · intro c hc
      exact List.mem_rtakeWhile_imp hc
  have hfree : EndsFree isTrimmed (table ++ rest) := by
    by_cases hnil : rest = []
    · rw [hnil, List.append_nil]
      exact hends
    · exact endsFree_append ht hends.1 hnil hrest
  have hstart : normalizeRecordIdKey (table ++ s) = table ++ rest := by
    rw [normalizeRecordIdKey_eq, hs, ← List.append_assoc, trimBoth_append hback]
    exact hfree.trimBoth
  have hnorm : normalizeRecordIdKey rest = normalizeRecordIdKey s := by
    rw [normalizeRecordIdKey_eq, normalizeRecordIdKey_eq, hs, trimBoth_append hback]
  have hround : stripTable table (table ++ rest) = normalizeRecordIdKey s := by
    rw [stripTable, stripPrefix_append]
    exact hnorm
  have hne : stripTable table (table ++ rest) ≠ table ++ rest := by
    intro heq
    have hle := (normalizeRecordIdKey_sublist rest).length_le
    have hpos := List.length_pos_of_ne_nil ht
    have hlen := congrArg List.length (hround.symm.trans heq)
    rw [← hnorm, List.length_append] at hlen
    omega
  -- one round leads from the one loop to the other
  have hreturns : LoopReturns (stripTable table) (table ++ rest) (normalizeId table s) := by
    apply LoopReturns.round hne
    rw [hround]
    exact normalizeId_returns table s
  have h := normalizeId_returns table (table ++ s)
  rw [hstart] at h
  exact h.unique hreturns

/-! ## Written forms of a key -/

/-- The delimiters of the written forms: the brackets and the backtick of
    the database, and the quotes that clients put around a key. -/
def keyDelimiters : List Char := ['⟨', '⟩', '<', '>', quote, backtick]

/-- The written forms of a key: a table may stand in front of it, and
    delimiters and white space on either side, in any nesting. A pair of
    brackets is one delimiter before and one behind. -/
inductive IsRendering (tables : List Str) (key : Str) : Str → Prop
  | key : IsRendering tables key key
  | address {table s : Str} : table ∈ tables → IsRendering tables key s →
      IsRendering tables key (table ++ s)
  | before {c : Char} {s : Str} : c ∈ keyDelimiters ∨ isWhitespace c = true →
      IsRendering tables key s → IsRendering tables key (c :: s)
  | behind {c : Char} {s : Str} : c ∈ keyDelimiters ∨ isWhitespace c = true →
      IsRendering tables key s → IsRendering tables key (s ++ [c])

theorem isTrimmed_iff {c : Char} :
    isTrimmed c = true ↔ c ∈ keyDelimiters ∨ isWhitespace c = true := by
  simp only [isTrimmed, keyTrims, keyDelimiters, List.any_cons, List.any_nil, Bool.or_eq_true,
    beq_iff_eq, List.mem_cons, List.not_mem_nil, or_false, Bool.false_eq_true]
  tauto

/-- A function that ignores delimiters and tables reads the key from every
    written form. -/
theorem IsRendering.reads {tables : List Str} {key s : Str} {f : Str → Str}
    (hcons : ∀ c, isTrimmed c = true → ∀ s, f (c :: s) = f s)
    (hsnoc : ∀ c, isTrimmed c = true → ∀ s, f (s ++ [c]) = f s)
    (htable : ∀ table ∈ tables, ∀ s, f (table ++ s) = f s) (h : IsRendering tables key s) :
    f s = f key := by
  induction h with
  | key => rfl
  | address ht _ ih => rw [htable _ ht, ih]
  | before hc _ ih => rw [hcons _ (isTrimmed_iff.mpr hc), ih]
  | behind hc _ ih => rw [hsnoc _ (isTrimmed_iff.mpr hc), ih]

/-- `f` runs the loop with body `body` from `start`, it maps every text to
    a text that it leaves alone, and it reads such a text from each of its
    written forms. -/
structure IsRetraction (start body f : Str → Str) (tables : List Str) : Prop where
  returns : ∀ s, LoopReturns body (start s) (f s)
  idem : ∀ s, f (f s) = f s
  recovers : ∀ key, f key = key → ∀ s, IsRendering tables key s → f s = key

/-- `normalize_record_id_key` knows no table. -/
theorem isRetraction_normalizeRecordIdKey :
    IsRetraction trim stripKeyQuotes normalizeRecordIdKey [] where
  returns := normalizeRecordIdKey_returns
  idem := normalizeRecordIdKey_idem
  recovers key hkey s hs := by
    have htable : ∀ t ∈ ([] : List Str), ∀ s,
        normalizeRecordIdKey (t ++ s) = normalizeRecordIdKey s := by
      intro t ht
      cases ht
    have h := hs.reads (fun _ => normalizeRecordIdKey_cons) (fun _ => normalizeRecordIdKey_snoc)
      htable
    rw [h, hkey]

theorem isRetraction_normalizeId {table : Str} (ht : table ≠ [])
    (hends : EndsFree isTrimmed table) :
    IsRetraction normalizeRecordIdKey (stripTable table) (normalizeId table) [table] where
  returns := normalizeId_returns table
  idem := normalizeId_idem ht
  recovers key hkey s hs := by
    have htable : ∀ t ∈ [table], ∀ s, normalizeId table (t ++ s) = normalizeId table s := by
      intro t h
      obtain rfl := List.mem_singleton.mp h
      exact normalizeId_table ht hends
    have h := hs.reads (fun c hc s => normalizeId_congr table (normalizeRecordIdKey_cons hc s))
      (fun c hc s => normalizeId_congr table (normalizeRecordIdKey_snoc hc s)) htable
    rw [h, hkey]

/-- **Normalisation is a retraction.** The loops of the three functions end,
    the functions are idempotent, and from every written form of a key that
    they leave alone they return the key. -/
theorem normalisations_retract :
    IsRetraction trim stripKeyQuotes normalizeRecordIdKey [] ∧
    IsRetraction normalizeRecordIdKey (stripTable "user:".toList) normalizeUserId
      ["user:".toList] ∧
    IsRetraction normalizeRecordIdKey (stripTable "actor_identity:".toList) normalizeActorId
      ["actor_identity:".toList] := by
  have hends : ∀ a z : Char, isTrimmed a = false → isTrimmed z = false → ∀ s : Str,
      EndsFree isTrimmed (a :: s ++ [z]) := by
    intro a z ha hz s
    constructor
    · intro c hc
      obtain rfl : a = c := by simpa using hc
      exact ha
    · intro c hc
      rw [List.getLast?_concat] at hc
      obtain rfl := Option.some.inj hc
      exact hz
  refine ⟨isRetraction_normalizeRecordIdKey, ?_, ?_⟩
  · exact isRetraction_normalizeId (by decide) (hends 'u' ':' (by decide) (by decide) "ser".toList)
  · exact isRetraction_normalizeId (by decide)
      (hends 'a' ':' (by decide) (by decide) "ctor_identity".toList)

/-- A nested form. -/
example : normalizeUserId ("user: ⟨".toList ++ backtick :: "abc".toList ++ [backtick, '⟩']) =
    "abc".toList := by decide

end SoulAuth
