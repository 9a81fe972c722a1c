import SoulAuth.Utils.Text

/-! # The words of a text

`split_whitespace` cuts a text at every white space. One equation carries the
rest: the words of a text with a space in it are those before the space and
those after it.
-/

namespace SoulAuth.Str

/-- What `split_whitespace` makes: it is not empty and has no space in it. -/
def IsWord (w : Str) : Prop := w ≠ [] ∧ ∀ c ∈ w, isWhitespace c = false

/-- What remains of a word that is being read. -/
def pending (word : Str) : List Str := if word = [] then [] else [word]

theorem splitWhitespaceFrom_nil (word : Str) : splitWhitespaceFrom word [] = pending word := rfl

theorem splitWhitespaceFrom_space {c : Char} (hc : isWhitespace c = true) (word s : Str) :
    splitWhitespaceFrom word (c :: s) = pending word ++ splitWhitespace s := by
  unfold splitWhitespaceFrom pending
  rw [if_pos hc]
  by_cases hword : word = []
  · rw [if_pos hword, if_pos hword]
    rfl
  · rw [if_neg hword, if_neg hword]
    rfl

theorem splitWhitespaceFrom_letter {c : Char} (hc : isWhitespace c = false) (word s : Str) :
    splitWhitespaceFrom word (c :: s) = splitWhitespaceFrom (word ++ [c]) s := by
  show (if isWhitespace c then _ else _) = _
  rw [if_neg (by simp [hc])]

/-- Letters belong to the word that is being read. -/
theorem splitWhitespaceFrom_letters {letters : Str}
    (h : ∀ c ∈ letters, isWhitespace c = false) (word s : Str) :
    splitWhitespaceFrom word (letters ++ s) = splitWhitespaceFrom (word ++ letters) s := by
  induction letters generalizing word with
  | nil => simp
  | cons c letters ih =>
    obtain ⟨hc, hletters⟩ := List.forall_mem_cons.mp h
    rw [List.cons_append, splitWhitespaceFrom_letter hc, ih hletters]
    simp

theorem splitWhitespaceFrom_append_space {c : Char} (hc : isWhitespace c = true)
    (word s t : Str) :
    splitWhitespaceFrom word (s ++ c :: t) = splitWhitespaceFrom word s ++ splitWhitespace t := by
  induction s generalizing word with
  | nil => exact splitWhitespaceFrom_space hc word t
  | cons d s ih =>
    rcases hd : isWhitespace d with _ | _
    · rw [List.cons_append, splitWhitespaceFrom_letter hd, splitWhitespaceFrom_letter hd]
      exact ih _
    · rw [List.cons_append, splitWhitespaceFrom_space hd, splitWhitespaceFrom_space hd,
        List.append_assoc]
      congr 1
      exact ih []

/-- **A space ends a word.** -/
theorem splitWhitespace_append_space {c : Char} (hc : isWhitespace c = true) (s t : Str) :
    splitWhitespace (s ++ c :: t) = splitWhitespace s ++ splitWhitespace t :=
  splitWhitespaceFrom_append_space hc [] s t

theorem splitWhitespace_word {w : Str} (hw : IsWord w) : splitWhitespace w = [w] := by
  have h := splitWhitespaceFrom_letters hw.2 [] []
  rw [List.append_nil, List.nil_append, splitWhitespaceFrom_nil, pending, if_neg hw.1] at h
  exact h

/-- Words that are joined with spaces are read back. -/
theorem splitWhitespace_intercalate {ws : List Str} (h : ∀ w ∈ ws, IsWord w) :
    splitWhitespace ([' '].intercalate ws) = ws := by
  induction ws with
  | nil => rfl
  | cons w ws ih =>
    obtain ⟨hw, hws⟩ := List.forall_mem_cons.mp h
    cases ws with
    | nil =>
      rw [List.intercalate_singleton]
      exact splitWhitespace_word hw
    | cons w' ws =>
      rw [List.intercalate_cons_cons, List.append_assoc]
      have hspace : splitWhitespace (w ++ ' ' :: [' '].intercalate (w' :: ws)) = _ :=
        splitWhitespace_append_space (by decide) w _
      rw [splitWhitespace_word hw, ih hws] at hspace
      exact hspace

theorem isWord_of_mem_from {word s w : Str} (hword : ∀ c ∈ word, isWhitespace c = false)
    (hw : w ∈ splitWhitespaceFrom word s) : IsWord w := by
  have hpending : w ∈ pending word → IsWord w := by
    unfold pending
    intro h
    split at h
    · cases h
    · next hne =>
      cases List.mem_singleton.mp h
      exact ⟨hne, hword⟩
  induction s generalizing word with
  | nil => exact hpending hw
  | cons c s ih =>
    rcases hc : isWhitespace c with _ | _
    · rw [splitWhitespaceFrom_letter hc] at hw
      have hlonger : ∀ d ∈ word ++ [c], isWhitespace d = false := by
        intro d hd
        rcases List.mem_append.mp hd with hd | hd
        · exact hword d hd
        · cases List.mem_singleton.mp hd
          exact hc
      refine ih hlonger hw ?_
      unfold pending
      intro h
      rw [if_neg (by simp)] at h
      cases List.mem_singleton.mp h
      exact ⟨by simp, hlonger⟩
    · rw [splitWhitespaceFrom_space hc] at hw
      rcases List.mem_append.mp hw with hw | hw
      · exact hpending hw
      · refine ih (by simp) hw ?_
        simp [pending]

/-- What `split_whitespace` makes are words. -/
theorem isWord_of_mem {s w : Str} (hw : w ∈ splitWhitespace s) : IsWord w :=
  isWord_of_mem_from (by simp) hw

/-! ## Trimming -/

theorem splitWhitespace_dropSpaces (s : Str) :
    splitWhitespace (s.dropWhile isWhitespace) = splitWhitespace s := by
  induction s with
  | nil => rfl
  | cons c s ih =>
    rcases hc : isWhitespace c with _ | _
    · rw [List.dropWhile_cons_of_neg (by simp [hc])]
    · rw [List.dropWhile_cons_of_pos hc, ih]
      exact (splitWhitespace_append_space hc [] s).symm

theorem splitWhitespace_rdropSpaces (s : Str) :
    splitWhitespace (s.rdropWhile isWhitespace) = splitWhitespace s := by
  induction s using List.reverseRecOn with
  | nil => rfl
  | append_singleton s c ih =>
    rcases hc : isWhitespace c with _ | _
    · rw [List.rdropWhile_concat_neg _ _ _ (by simp [hc])]
    · rw [List.rdropWhile_concat_pos _ _ _ hc, ih]
      have hspace := splitWhitespace_append_space hc s []
      rw [hspace]
      exact (List.append_nil _).symm

/-- Trimming changes no word. -/
theorem splitWhitespace_trim (s : Str) : splitWhitespace (trim s) = splitWhitespace s := by
  rw [trim, trimBoth, splitWhitespace_rdropSpaces, splitWhitespace_dropSpaces]

/-- A word that is being read is read to its end. -/
theorem splitWhitespaceFrom_ne_nil {word : Str} (hword : word ≠ []) (s : Str) :
    splitWhitespaceFrom word s ≠ [] := by
  induction s generalizing word with
  | nil =>
    rw [splitWhitespaceFrom_nil, pending, if_neg hword]
    simp
  | cons c s ih =>
    rcases hc : isWhitespace c with _ | _
    · rw [splitWhitespaceFrom_letter hc]
      exact ih (by simp)
    · rw [splitWhitespaceFrom_space hc, pending, if_neg hword]
      simp

/-- A text without words is blank. -/
theorem splitWhitespace_eq_nil_iff {s : Str} : splitWhitespace s = [] ↔ trim s = [] := by
  constructor
  · intro h
    by_contra hne
    have hhead : (s.dropWhile isWhitespace) ≠ [] := by
      intro hnil
      apply hne
      rw [trim, trimBoth, hnil]
      rfl
    obtain ⟨c, rest, hs⟩ := List.exists_cons_of_ne_nil hhead
    have hc : isWhitespace c = false := by
      have := List.head_dropWhile_not isWhitespace hhead
      simpa [hs] using this
    rw [← splitWhitespace_dropSpaces, hs] at h
    have hword : splitWhitespace (c :: rest) = splitWhitespaceFrom [c] rest :=
      splitWhitespaceFrom_letter hc [] rest
    rw [hword] at h
    exact splitWhitespaceFrom_ne_nil (by simp) rest h
  · intro h
    rw [← splitWhitespace_trim, h]
    rfl

end SoulAuth.Str
