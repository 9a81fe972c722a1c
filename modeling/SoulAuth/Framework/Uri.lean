import SoulAuth.Framework.QueryString

/-! # The generic syntax of URIs

The scheme of a URI, and its authority taken apart into user information, host
and port. The authority ends at the first slash, question mark or number sign,
the user information at the at sign. A text whose authority does not follow
the grammar has no host.
-/

namespace SoulAuth.Framework.Uri

/-! ## The characters -/

/-- `unreserved` and `sub-delims`. -/
def isNameChar (c : Char) : Bool := QueryString.isUnreserved c || c ∈ "!$&'()*+,;=".toList

/-- What user information has besides escapes. -/
def isInfoChar (c : Char) : Bool := isNameChar c || c = ':'

/-- Characters of a class, and escapes. -/
def wellFormed (p : Char → Bool) : List Char → Bool
  | [] => true
  | '%' :: h :: l :: rest =>
    (QueryString.hexValue h).isSome && (QueryString.hexValue l).isSome && wellFormed p rest
  | c :: rest => p c && wellFormed p rest

/-- What ends an authority. -/
def endsAuthority (c : Char) : Bool := c = '/' || c = '?' || c = '#'

/-! ## The authority -/

structure Authority where
  userInfo : Option (List Char)
  host : List Char
  port : Option (List Char)
  deriving DecidableEq

/-- What stands behind a host: nothing, or a colon and digits. -/
def readPort : List Char → Option (Option (List Char))
  | [] => some none
  | ':' :: digits => if digits.all Char.isDigit then some (some digits) else none
  | _ => none

/-- A host and its port. An address in brackets has colons of its own and is
    not taken apart. -/
def readHost : List Char → Option (List Char × Option (List Char))
  | '[' :: inner =>
    let literal := inner.takeWhile (· ≠ ']')
    match inner.dropWhile (· ≠ ']') with
    | ']' :: behind =>
      if literal.all isInfoChar then (readPort behind).map ('[' :: literal ++ [']'], ·) else none
    | _ => none
  | text =>
    let name := text.takeWhile (· ≠ ':')
    if wellFormed isNameChar name then (readPort (text.dropWhile (· ≠ ':'))).map (name, ·)
    else none

def readAuthority (text : List Char) : Option Authority :=
  match text.dropWhile (· ≠ '@') with
  | '@' :: rest =>
    let info := text.takeWhile (· ≠ '@')
    if wellFormed isInfoChar info then
      (readHost rest).map fun read => ⟨some info, read.1, read.2⟩
    else none
  | _ => (readHost text).map fun read => ⟨none, read.1, read.2⟩

/-! ## The parts of a URI -/

/-- A letter, then letters, digits and three signs. -/
def isScheme : List Char → Bool
  | [] => false
  | c :: cs => c.isAlpha && cs.all fun c => c.isAlphanum || c = '+' || c = '-' || c = '.'

/-- The scheme in lower case. -/
def scheme (uri : List Char) : Option (List Char) :=
  let name := uri.takeWhile (· ≠ ':')
  if isScheme name ∧ ':' ∈ uri then some (name.map Char.toLower) else none

/-- The authority of a URI that has a scheme. -/
def authority (uri : List Char) : Option Authority :=
  match scheme uri, uri.dropWhile (· ≠ ':') with
  | some _, ':' :: '/' :: '/' :: rest => readAuthority (rest.takeWhile (!endsAuthority ·))
  | _, _ => none

/-! ## Cutting a text -/

section

variable {d : Char} {s t : List Char} {p : Char → Bool}

theorem takeWhile_behind (hs : d ∉ s) : (s ++ d :: t).takeWhile (· ≠ d) = s := by
  have hall : ∀ c ∈ s, decide (c ≠ d) = true := by
    intro c hc
    have hne : c ≠ d := fun h => hs (h ▸ hc)
    simp [hne]
  rw [List.takeWhile_append_of_pos hall]
  simp

theorem dropWhile_behind (hs : d ∉ s) : (s ++ d :: t).dropWhile (· ≠ d) = d :: t := by
  have hall : ∀ c ∈ s, decide (c ≠ d) = true := by
    intro c hc
    have hne : c ≠ d := fun h => hs (h ▸ hc)
    simp [hne]
  rw [List.dropWhile_append_of_pos hall]
  simp

theorem takeWhile_without (hs : d ∉ s) : s.takeWhile (· ≠ d) = s := by
  rw [List.takeWhile_eq_self_iff]
  intro c hc
  have hne : c ≠ d := fun h => hs (h ▸ hc)
  simp [hne]

theorem dropWhile_without (hs : d ∉ s) : s.dropWhile (· ≠ d) = [] := by
  rw [List.dropWhile_eq_nil_iff]
  intro c hc
  have hne : c ≠ d := fun h => hs (h ▸ hc)
  simp [hne]

/-- A tail starts with the first character that does not satisfy `p`. -/
theorem dropWhile_cons_of (h : s.dropWhile p = d :: t) : p d = false := by
  have hne : s.dropWhile p ≠ [] := by simp [h]
  have hhead := List.head_dropWhile_not p hne
  simpa only [h, List.head_cons] using hhead

end

/-! ## Lower case -/

theorem toLower_of_not_upper {c : Char} (h : c.isUpper = false) : c.toLower = c := by
  unfold Char.isUpper at h
  unfold Char.toLower
  rw [dif_neg (of_decide_eq_false h)]

theorem isAlpha_toLower (c : Char) : c.toLower.isAlpha = c.isAlpha := by
  cases hupper : c.isUpper with
  | false => rw [toLower_of_not_upper hupper]
  | true =>
    have hlower : c.toLower.isLower = true := by
      have hletter := of_decide_eq_true hupper
      unfold Char.toLower Char.isLower
      rw [dif_pos hletter, Bool.and_eq_true, decide_eq_true_eq, decide_eq_true_eq]
      obtain ⟨hfrom, hto⟩ := hletter
      have hfrom : 65 ≤ c.val.toNat := hfrom
      have hto : c.val.toNat ≤ 90 := hto
      have hsum : (c.val + ('a'.val - 'A'.val)).toNat = c.val.toNat + 32 := by
        rw [UInt32.toNat_add]
        show (c.val.toNat + 32) % _ = _
        omega
      constructor
      · show 97 ≤ (c.val + ('a'.val - 'A'.val)).toNat
        omega
      · show (c.val + ('a'.val - 'A'.val)).toNat ≤ 122
        omega
    unfold Char.isAlpha
    rw [hlower, hupper, Bool.or_true, Bool.true_or]

theorem map_toLower_eq {s sep : List Char} (hsep : ∀ c ∈ sep, c.isAlpha = false)
    (h : s.map Char.toLower = sep) : s = sep := by
  induction sep generalizing s with
  | nil => exact List.map_eq_nil_iff.mp h
  | cons d sep ih =>
    obtain ⟨hd, hsep⟩ := List.forall_mem_cons.mp hsep
    obtain ⟨c, s, rfl, hc, hs⟩ := List.map_eq_cons_iff.mp h
    have hupper : ¬ c.isUpper = true := by
      intro hupper
      have halpha : c.isAlpha = true := Bool.or_eq_true_iff.mpr (.inl hupper)
      rw [← isAlpha_toLower, hc, hd] at halpha
      cases halpha
    rw [toLower_of_not_upper (Bool.eq_false_iff.mpr hupper)] at hc
    rw [hc, ih hsep hs]

/-! ## Reading -/

/-- Nothing, or a colon and digits. -/
def IsPort (s : List Char) : Prop :=
  s = [] ∨ ∃ digits, s = ':' :: digits ∧ digits.all Char.isDigit = true

section

variable {s t rest name literal info host tail : List Char} {p : Char → Bool} {c : Char}
  {port : Option (List Char)}

theorem readPort_isPort (h : readPort s = some port) : IsPort s := by
  unfold readPort at h
  split at h
  · exact .inl rfl
  · next digits =>
    split at h
    · next hdigits => exact .inr ⟨digits, rfl, hdigits⟩
    · cases h
  · cases h

theorem IsPort.readPort (h : IsPort s) : ∃ port, readPort s = some port := by
  rcases h with rfl | ⟨digits, rfl, hdigits⟩
  · exact ⟨none, rfl⟩
  · exact ⟨some digits, by simp only [Uri.readPort, if_pos hdigits]⟩

theorem wellFormed_cons (hc : c ≠ '%') : wellFormed p (c :: s) = (p c && wellFormed p s) := by
  rw [wellFormed]
  intro h l rest heq
  exact absurd heq hc

/-- Plain characters in front change nothing. -/
theorem wellFormed_append (hs : ∀ c ∈ s, c ≠ '%' ∧ p c = true) :
    wellFormed p (s ++ t) = wellFormed p t := by
  induction s with
  | nil => rfl
  | cons c s ih =>
    obtain ⟨⟨hne, hc⟩, hs⟩ := List.forall_mem_cons.mp hs
    rw [List.cons_append, wellFormed_cons hne, hc, ih hs]
    rfl

/-- A name is read up to the colon. -/
theorem readHost_name (hbracket : name.head? ≠ some '[') (hcolon : ':' ∉ name)
    (hname : wellFormed isNameChar name = true) (hne : name ≠ [])
    (htail : tail = [] ∨ ∃ t, tail = ':' :: t) :
    readHost (name ++ tail) = (readPort tail).map (name, ·) := by
  have htake : (name ++ tail).takeWhile (· ≠ ':') = name := by
    rcases htail with rfl | ⟨t, rfl⟩
    · rw [List.append_nil, takeWhile_without hcolon]
    · exact takeWhile_behind hcolon
  have hdrop : (name ++ tail).dropWhile (· ≠ ':') = tail := by
    rcases htail with rfl | ⟨t, rfl⟩
    · rw [List.append_nil, dropWhile_without hcolon]
    · exact dropWhile_behind hcolon
  rw [readHost]
  · simp only [htake, hdrop, if_pos hname]
  · intro inner heq
    cases name with
    | nil => exact hne rfl
    | cons c name =>
      rw [List.cons_append, List.cons.injEq] at heq
      exact hbracket (by rw [List.head?_cons, heq.1])

/-- An address is read up to its bracket. -/
theorem readHost_literal (hbracket : ']' ∉ literal) (hall : literal.all isInfoChar = true) :
    readHost ('[' :: literal ++ ']' :: tail) =
      (readPort tail).map ('[' :: literal ++ [']'], ·) := by
  show readHost ('[' :: (literal ++ ']' :: tail)) = _
  simp only [readHost, takeWhile_behind hbracket, dropWhile_behind hbracket, if_pos hall]

/-- Behind the host that is read stands a port. -/
theorem readHost_eq (h : readHost s = some (host, port)) : ∃ tail, s = host ++ tail ∧ IsPort tail := by
  unfold readHost at h
  split at h
  · next inner =>
    split at h
    · next behind hbehind =>
      dsimp only at h
      split at h
      · obtain ⟨port', hport, heq⟩ := Option.map_eq_some_iff.mp h
        cases heq
        refine ⟨behind, ?_, readPort_isPort hport⟩
        have hinner := List.takeWhile_append_dropWhile (p := (· ≠ ']')) (l := inner)
        rw [hbehind] at hinner
        simp only [List.cons_append, List.append_assoc, List.nil_append]
        rw [hinner]
      · cases h
    · cases h
  · dsimp only at h
    split at h
    · obtain ⟨port', hport, heq⟩ := Option.map_eq_some_iff.mp h
      cases heq
      exact ⟨_, List.takeWhile_append_dropWhile.symm, readPort_isPort hport⟩
    · cases h

/-- Without an at sign there is no user information. -/
theorem readAuthority_host (h : '@' ∉ s) :
    readAuthority s = (readHost s).map fun read => ⟨none, read.1, read.2⟩ := by
  simp only [readAuthority, dropWhile_without h]

theorem readAuthority_info (h : '@' ∉ info) :
    readAuthority (info ++ '@' :: rest) =
      if wellFormed isInfoChar info then
        (readHost rest).map fun read => ⟨some info, read.1, read.2⟩
      else none := by
  simp only [readAuthority, dropWhile_behind h, takeWhile_behind h]

/-- A scheme is the text before the first colon. -/
theorem scheme_eq (hcolon : ':' ∉ name) (hname : isScheme name = true) :
    scheme (name ++ ':' :: rest) = some (name.map Char.toLower) := by
  simp only [scheme, takeWhile_behind hcolon]
  rw [if_pos ⟨hname, by simp⟩]

theorem scheme_some (h : scheme s = some t) :
    ∃ name rest, s = name ++ ':' :: rest ∧ ':' ∉ name ∧ isScheme name = true ∧
      name.map Char.toLower = t := by
  unfold scheme at h
  dsimp only at h
  split at h
  · next hs =>
    cases h
    obtain ⟨name, rest, rfl, hname⟩ := List.eq_append_cons_of_mem hs.2
    simp only [takeWhile_behind hname] at hs ⊢
    exact ⟨name, rest, rfl, hname, hs.1, rfl⟩
  · cases h

/-- A name of letters is a scheme, in any case. -/
theorem isScheme_of_lower {t : List Char} (hname : name.map Char.toLower = t)
    (hne : t ≠ []) (h : t.all Char.isAlpha = true) :
    ':' ∉ name ∧ isScheme name = true := by
  have hall : ∀ c ∈ name, c.isAlpha = true := by
    intro c hc
    rw [← isAlpha_toLower]
    exact List.all_eq_true.mp h _ (hname ▸ List.mem_map_of_mem hc)
  constructor
  · intro hmem
    have hcolon := hall _ hmem
    cases hcolon
  · cases name with
    | nil => exact absurd hname.symm hne
    | cons c cs =>
      obtain ⟨hc, hcs⟩ := List.forall_mem_cons.mp hall
      rw [isScheme, hc, Bool.true_and, List.all_eq_true]
      intro d hd
      simp [Char.isAlphanum, hcs d hd]

theorem authority_eq (hcolon : ':' ∉ name) (hname : isScheme name = true) :
    authority (name ++ "://".toList ++ rest) =
      readAuthority (rest.takeWhile (!endsAuthority ·)) := by
  have htext : name ++ "://".toList ++ rest = name ++ ':' :: '/' :: '/' :: rest := by
    rw [List.append_assoc]
    rfl
  rw [htext]
  simp only [authority, scheme_eq hcolon hname, dropWhile_behind hcolon]

theorem authority_some {a : Authority} (h : authority s = some a) :
    ∃ name rest, s = name ++ "://".toList ++ rest ∧ ':' ∉ name ∧
      scheme s = some (name.map Char.toLower) ∧
      readAuthority (rest.takeWhile (!endsAuthority ·)) = some a := by
  unfold authority at h
  split at h
  · next t rest ht hbehind =>
    obtain ⟨name, rest', rfl, hname, hscheme, -⟩ := scheme_some ht
    rw [dropWhile_behind hname] at hbehind
    cases hbehind
    exact ⟨name, rest, by simp, hname, scheme_eq hname hscheme, h⟩
  · cases h

end

example : (authority "http://u:p@app.example:80/cb".toList).map Authority.host =
    some "app.example".toList := by decide

end SoulAuth.Framework.Uri
