import SoulAuth.Framework.Base64
import SoulAuth.Routes.ClientAuth

/-! # What a client sends in the header is read back

A client encodes its id and its secret as form fields before it joins them.
The endpoint undoes the escapes, but not the plus that stands for a space,
and it takes a plus in an escape for a sign.
-/

namespace SoulAuth

open Framework

/-! ## The encoding of the client -/

/-- The characters that a form field contains as they are. -/
def isFormSafe (c : Char) : Bool := c.isAlphanum || c = '*' || c = '-' || c = '.' || c = '_'

def formEncodeChar (c : Char) : Str :=
  if isFormSafe c then [c]
  else if c = ' ' then ['+']
  else QueryString.encodeBytes (String.utf8EncodeChar c)

/-- `application/x-www-form-urlencoded`, for one field. -/
def formEncode (s : Str) : Str := s.flatMap formEncodeChar

/-- The header of a client. -/
def clientHeader (engine : Base64Engine) (id secret : Str) : List UInt8 :=
  Utf8.encode ("Basic ".toList ++
    engine.encode (Utf8.encode (formEncode id ++ ':' :: formEncode secret)))

/-- The endpoint reads from the header what the client is and has. -/
def RoundTrips (engine : Base64Engine) (id secret : Str) : Prop :=
  basicClientCredentials engine (some (clientHeader engine id secret)) = some (id, secret)

/-- Some escapes and pluses have been rewritten, and no other byte. -/
inductive Rewrites : List UInt8 → List UInt8 → Prop
  | nil : Rewrites [] []
  | keep (b : UInt8) {s t : List UInt8} (rest : Rewrites s t) : Rewrites (b :: s) (b :: t)
  | escape {h l : UInt8} {high low : Nat} {s t : List UInt8}
      (first : hexDigitValue h = some high) (second : hexDigitValue l = some low)
      (rest : Rewrites s t) :
      Rewrites (Utf8.byte '%' :: h :: l :: s) (UInt8.ofNat (16 * high + low) :: t)
  | plus {s t : List UInt8} (rest : Rewrites s t) :
      Rewrites (Utf8.byte '+' :: s) (Utf8.byte ' ' :: t)

/-- `percent_decode` rewrites nothing else in the text. -/
def RewritesEscapes (raw : Str) : Prop :=
  Rewrites (Utf8.encode raw) (Utf8.encode (percentDecode raw))

/-- The bytes contain a percent sign, a plus and a hexadecimal digit. -/
def SignedEscape (bytes : List UInt8) : Prop :=
  ∃ before h after, bytes = before ++ Utf8.byte '%' :: Utf8.byte '+' :: h :: after ∧
    (hexDigitValue h).isSome = true

/-- The text has such an escape, and is a text when it has been decoded. -/
def MisreadsSign (raw : Str) : Prop :=
  SignedEscape (Utf8.encode raw) ∧
    (Utf8.decode (percentDecodeBytes (Utf8.encode raw))).isSome = true

/-! ## Digits -/

section

variable {a b h l : UInt8} {n high low : Nat} {rest s t : List UInt8}

theorem ne_of_isHex (hh : (hexDigitValue h).isSome = true)
    (hb : (hexDigitValue b).isSome = false) : h ≠ b := by
  intro heq
  rw [heq, hb] at hh
  cases hh

/-- A hexadecimal digit is neither a plus nor a percent sign. -/
theorem hex_ne_plus (hh : hexDigitValue h = some n) : h ≠ Utf8.byte '+' :=
  ne_of_isHex (Option.isSome_of_eq_some hh) (by decide)

theorem hex_ne_percent (hh : hexDigitValue h = some n) : h ≠ Utf8.byte '%' :=
  ne_of_isHex (Option.isSome_of_eq_some hh) (by decide)

theorem fromStrRadix16_digits (hh : hexDigitValue h = some high) (hl : hexDigitValue l = some low) :
    fromStrRadix16 h l = some (UInt8.ofNat (16 * high + low)) := by
  rw [fromStrRadix16, if_neg (hex_ne_plus hh), hh, hl]
  rfl

/-- What is read as an escape has two digits, or a sign and a digit. -/
theorem fromStrRadix16_some {value : UInt8} (hv : fromStrRadix16 h l = some value) :
    (∃ high low, hexDigitValue h = some high ∧ hexDigitValue l = some low ∧
      value = UInt8.ofNat (16 * high + low)) ∨
    h = Utf8.byte '+' ∧ (hexDigitValue l).isSome = true := by
  unfold fromStrRadix16 at hv
  split at hv
  · next hplus =>
    obtain ⟨n, hn, -⟩ := Option.map_eq_some_iff.mp hv
    exact .inr ⟨hplus, Option.isSome_of_eq_some hn⟩
  · rcases hh : hexDigitValue h with _ | high
    · rw [hh] at hv
      cases hv
    · rcases hl : hexDigitValue l with _ | low
      · rw [hh, hl] at hv
        cases hv
      · rw [hh, hl] at hv
        cases hv
        exact .inl ⟨high, low, rfl, rfl, rfl⟩

/-! ## One byte at a time -/

theorem percentDecodeBytes_keep (hb : b ≠ Utf8.byte '%') :
    percentDecodeBytes (b :: rest) = b :: percentDecodeBytes rest := by
  match rest with
  | [] => rfl
  | [_] => rfl
  | h :: l :: rest => rw [percentDecodeBytes, if_neg hb]

theorem percentDecodeBytes_escape (hh : hexDigitValue h = some high)
    (hl : hexDigitValue l = some low) :
    percentDecodeBytes (Utf8.byte '%' :: h :: l :: rest) =
      UInt8.ofNat (16 * high + low) :: percentDecodeBytes rest := by
  rw [percentDecodeBytes, if_pos rfl, fromStrRadix16_digits hh hl]

end

/-! ## A field is read back, but for its spaces -/

/-- The text with a plus in the place of every space. -/
def plusForSpace (s : Str) : Str := Str.replaceChar ' ' '+' s

section

variable {c : Char} {rest : List UInt8} {engine : Base64Engine} {id secret s raw : Str}

theorem isFormSafe_ascii (h : isFormSafe c = true) : c.toNat < 128 := by
  simp only [isFormSafe, Bool.or_eq_true, decide_eq_true_eq] at h
  rcases h with ((((h | rfl) | rfl) | rfl) | rfl)
  · have hvisible := Str.isAlphanum_visible h
    omega
  all_goals decide

theorem hexDigit_ascii {n : Nat} (h : n < 16) : (QueryString.hexDigit n).toNat < 128 := by
  have hall : ∀ n : Fin 16, (QueryString.hexDigit n).toNat < 128 := by decide
  exact hall ⟨n, h⟩

/-- The byte of a digit has its value. -/
theorem hexDigitValue_hexDigit {n : Nat} (h : n < 16) :
    hexDigitValue (Utf8.byte (QueryString.hexDigit n)) = some n := by
  unfold hexDigitValue
  rw [Utf8.ofNat_byte (hexDigit_ascii h), QueryString.hexValue_hexDigit h]

theorem byte_inj {d : Char} (hc : c.toNat < 128) (hd : d.toNat < 128)
    (h : Utf8.byte c = Utf8.byte d) : c = d := by
  rw [← Utf8.ofNat_byte hc, h, Utf8.ofNat_byte hd]

theorem percentDecodeBytes_encodeByte (b : UInt8) :
    percentDecodeBytes (Utf8.encode (QueryString.encodeByte b) ++ rest) =
      b :: percentDecodeBytes rest := by
  have hb := b.toNat_lt
  have hhigh : b.toNat / 16 < 16 := by omega
  have hlow : b.toNat % 16 < 16 := by omega
  have hvalue : 16 * (b.toNat / 16) + b.toNat % 16 = b.toNat := by omega
  have hbytes : Utf8.encode (QueryString.encodeByte b) =
      [Utf8.byte '%', Utf8.byte (QueryString.hexDigit (b.toNat / 16)),
        Utf8.byte (QueryString.hexDigit (b.toNat % 16))] := by
    unfold QueryString.encodeByte
    rw [Utf8.encode_ascii]
    · rfl
    · simp only [List.mem_cons, List.not_mem_nil, or_false, forall_eq_or_imp, forall_eq]
      exact ⟨by decide, hexDigit_ascii hhigh, hexDigit_ascii hlow⟩
  rw [hbytes]
  show percentDecodeBytes (_ :: _ :: _ :: rest) = _
  rw [percentDecodeBytes_escape (hexDigitValue_hexDigit hhigh) (hexDigitValue_hexDigit hlow),
    hvalue, UInt8.ofNat_toNat]

theorem percentDecodeBytes_encodeBytes (bs : List UInt8) :
    percentDecodeBytes (Utf8.encode (QueryString.encodeBytes bs) ++ rest) =
      bs ++ percentDecodeBytes rest := by
  induction bs with
  | nil => rfl
  | cons b bs ih =>
    show percentDecodeBytes (Utf8.encode (QueryString.encodeByte b ++ QueryString.encodeBytes bs) ++
      rest) = _
    rw [Utf8.encode_append, List.append_assoc, percentDecodeBytes_encodeByte, ih]
    rfl

theorem percentDecodeBytes_formEncodeChar :
    percentDecodeBytes (Utf8.encode (formEncodeChar c) ++ rest) =
      Utf8.encode (plusForSpace [c]) ++ percentDecodeBytes rest := by
  unfold formEncodeChar
  by_cases hsafe : isFormSafe c = true
  · have hspace : c ≠ ' ' := by
      rintro rfl
      cases hsafe
    have hpercent : c ≠ '%' := by
      rintro rfl
      cases hsafe
    have hascii := isFormSafe_ascii hsafe
    have hbytes : Utf8.encode [c] = [Utf8.byte c] := by
      rw [Utf8.encode_cons, Utf8.encodeChar_ascii hascii]
      rfl
    have hkept : plusForSpace [c] = [c] := by
      show [if c = ' ' then '+' else c] = [c]
      rw [if_neg hspace]
    rw [if_pos hsafe, hkept, hbytes]
    apply percentDecodeBytes_keep
    intro heq
    exact hpercent (byte_inj hascii (by decide) heq)
  · rw [if_neg hsafe]
    by_cases hspace : c = ' '
    · subst hspace
      rw [if_pos rfl]
      exact percentDecodeBytes_keep (by decide)
    · have hkept : plusForSpace [c] = [c] := by
        show [if c = ' ' then '+' else c] = [c]
        rw [if_neg hspace]
      rw [if_neg hspace, percentDecodeBytes_encodeBytes, hkept, Utf8.encode_cons, Utf8.encode_nil,
        List.append_nil]

theorem percentDecodeBytes_formEncode :
    percentDecodeBytes (Utf8.encode (formEncode s)) = Utf8.encode (plusForSpace s) := by
  induction s with
  | nil => rfl
  | cons c s ih =>
    have hcons : formEncode (c :: s) = formEncodeChar c ++ formEncode s := List.flatMap_cons
    rw [hcons, Utf8.encode_append, percentDecodeBytes_formEncodeChar, ih, ← Utf8.encode_append]
    rfl

theorem percentDecode_formEncode : percentDecode (formEncode s) = plusForSpace s := by
  unfold percentDecode
  rw [percentDecodeBytes_formEncode, Utf8.decode_encode]
  rfl

theorem plusForSpace_eq_self_iff : plusForSpace s = s ↔ ' ' ∉ s := by
  constructor
  · intro h hspace
    have hmem : ' ' ∈ plusForSpace s := by
      rw [h]
      exact hspace
    obtain ⟨c, -, hc⟩ := List.mem_map.mp hmem
    split at hc
    · cases hc
    · next hne => exact hne hc
  · intro h
    unfold plusForSpace Str.replaceChar
    conv_rhs => rw [← List.map_id s]
    apply List.map_congr_left
    intro c hc
    have hne : c ≠ ' ' := fun heq => h (heq ▸ hc)
    rw [if_neg hne]
    rfl

/-! ## The header -/

/-- What an encoded field is made of. -/
theorem mem_formEncode {s : Str} {c : Char} (hc : c ∈ formEncode s) :
    isFormSafe c = true ∨ c = '+' ∨ c = '%' := by
  obtain ⟨d, -, hd⟩ := List.mem_flatMap.mp hc
  unfold formEncodeChar at hd
  split at hd
  · next hsafe =>
    cases List.mem_singleton.mp hd
    exact .inl hsafe
  · split at hd
    · cases List.mem_singleton.mp hd
      exact .inr (.inl rfl)
    · obtain ⟨b, -, hb⟩ := List.mem_flatMap.mp hd
      have hbound := b.toNat_lt
      have hall : ∀ n : Fin 16, isFormSafe (QueryString.hexDigit n) = true := by decide
      simp only [QueryString.encodeByte, List.mem_cons, List.not_mem_nil, or_false] at hb
      rcases hb with rfl | rfl | rfl
      · exact .inr (.inr rfl)
      · exact .inl (hall ⟨_, by omega⟩)
      · exact .inl (hall ⟨_, by omega⟩)

theorem colon_not_mem_formEncode : ':' ∉ formEncode s := by
  intro h
  rcases mem_formEncode h with h | h | h
  · cases h
  · cases h
  · cases h

/-- The characters of an encoding by the engine are visible, and ASCII. -/
theorem visible_of_mem_encode {bytes : List UInt8} (h : c ∈ engine.encode bytes) :
    32 < c.toNat ∧ c.toNat < 127 := by
  rcases engine.encode_chars bytes c h with h | rfl | rfl | rfl
  · exact Str.isAlphanum_visible h
  all_goals decide

/-- A text of such characters passes through a header. -/
theorem headerToStr_encode (h : ∀ c ∈ s, 32 ≤ c.toNat ∧ c.toNat < 127) :
    headerToStr (Utf8.encode s) = some s := by
  have hascii : ∀ c ∈ s, c.toNat < 128 := fun c hc => Nat.lt_succ_of_lt (h c hc).2
  rw [Utf8.encode_ascii hascii, headerToStr, if_pos]
  · rw [List.map_map]
    congr 1
    conv_rhs => rw [← List.map_id s]
    apply List.map_congr_left
    intro c hc
    exact Utf8.ofNat_byte (hascii c hc)
  · rw [List.all_eq_true]
    intro b hb
    obtain ⟨c, hc, rfl⟩ := List.mem_map.mp hb
    obtain ⟨hlow, hhigh⟩ := h c hc
    have hbyte := Utf8.toNat_byte (hascii c hc)
    have hvisible : 32 ≤ Utf8.byte c ∧ Utf8.byte c < 127 := by
      constructor
      · show 32 ≤ (Utf8.byte c).toNat
        omega
      · show (Utf8.byte c).toNat < 127
        omega
    simp [hvisible]

/-- The endpoint reads the two fields with a plus for every space. -/
theorem basicClientCredentials_clientHeader :
    basicClientCredentials engine (some (clientHeader engine id secret)) =
      some (plusForSpace id, plusForSpace secret) := by
  have hvisible : ∀ c ∈ "Basic ".toList ++
      engine.encode (Utf8.encode (formEncode id ++ ':' :: formEncode secret)),
      32 ≤ c.toNat ∧ c.toNat < 127 := by
    intro c hc
    rcases List.mem_append.mp hc with hc | hc
    · have hall : ∀ c ∈ "Basic ".toList, 32 ≤ c.toNat ∧ c.toNat < 127 :=
        Str.forall_mem_of_all (by decide)
      exact hall c hc
    · have hbounds := visible_of_mem_encode hc
      omega
  have hsplit : Str.splitOnce ' ' ("Basic ".toList ++
      engine.encode (Utf8.encode (formEncode id ++ ':' :: formEncode secret))) =
      some ("Basic".toList,
        engine.encode (Utf8.encode (formEncode id ++ ':' :: formEncode secret))) :=
    Str.splitOnce_append (s := "Basic".toList) (by decide)
  have htrim : Str.trim (engine.encode (Utf8.encode (formEncode id ++ ':' :: formEncode secret))) =
      engine.encode (Utf8.encode (formEncode id ++ ':' :: formEncode secret)) := by
    apply Str.trimBoth_eq_self
    intro c hc
    exact Str.isWhitespace_visible (visible_of_mem_encode hc)
  have hscheme : ¬ Str.toAsciiLowercase "Basic".toList ≠ "basic".toList := by decide
  unfold basicClientCredentials clientHeader
  simp only [Option.bind_eq_bind, Option.bind_some, headerToStr_encode hvisible, hsplit, htrim,
    engine.decode_encode, Utf8.decode_encode, Str.splitOnce_append colon_not_mem_formEncode,
    percentDecode_formEncode, if_neg hscheme]

theorem roundTrips_iff : RoundTrips engine id secret ↔ ' ' ∉ id ∧ ' ' ∉ secret := by
  unfold RoundTrips
  rw [basicClientCredentials_clientHeader, Option.some.injEq, Prod.mk.injEq,
    plusForSpace_eq_self_iff, plusForSpace_eq_self_iff]

end

/-! ## What is rewritten -/

section

variable {b : UInt8} {s t : List UInt8} {raw : Str}

theorem rewrites_refl (s : List UInt8) : Rewrites s s := by
  induction s with
  | nil => exact .nil
  | cons b s ih => exact .keep b ih

theorem SignedEscape.cons (h : SignedEscape s) : SignedEscape (b :: s) := by
  obtain ⟨before, digit, after, rfl, hdigit⟩ := h
  exact ⟨b :: before, digit, after, rfl, hdigit⟩

/-- Without a signed escape only escapes are rewritten. -/
theorem rewrites_percentDecodeBytes (h : ¬ SignedEscape s) :
    Rewrites s (percentDecodeBytes s) := by
  fun_induction percentDecodeBytes s with
  | case1 first second rest value hvalue ih =>
    rcases fromStrRadix16_some hvalue with ⟨high, low, hhigh, hlow, rfl⟩ | ⟨rfl, hdigit⟩
    · exact .escape hhigh hlow (ih fun hs => h hs.cons.cons.cons)
    · exact absurd ⟨[], second, rest, rfl, hdigit⟩ h
  | case2 first second rest hvalue ih => exact .keep _ (ih fun hs => h hs.cons)
  | case3 b first second rest hb ih => exact .keep _ (ih fun hs => h hs.cons)
  | case4 short => exact rewrites_refl short

/-! Every escape shortens the bytes by two. The escapes that may be rewritten
are counted, and those that are misread. -/

/-- Whether the bytes start with an escape. -/
def startsEscape : List UInt8 → Bool
  | b :: h :: l :: _ =>
    b = Utf8.byte '%' && (hexDigitValue h).isSome && (hexDigitValue l).isSome
  | _ => false

/-- Whether they start with a signed one. -/
def startsSigned : List UInt8 → Bool
  | b :: h :: l :: _ => b = Utf8.byte '%' && h = Utf8.byte '+' && (hexDigitValue l).isSome
  | _ => false

/-- The places where `p` holds of the bytes that follow. -/
def places (p : List UInt8 → Bool) : List UInt8 → Nat
  | [] => 0
  | b :: rest => (if p (b :: rest) then 1 else 0) + places p rest

theorem places_cons_of_not {p : List UInt8 → Bool} (h : p (b :: s) = false) :
    places p (b :: s) = places p s := by
  rw [places, h]
  exact Nat.zero_add _

theorem startsEscape_ne (h : b ≠ Utf8.byte '%') : startsEscape (b :: s) = false := by
  unfold startsEscape
  split
  · next heq =>
    cases heq
    simp [h]
  · rfl

theorem startsSigned_ne (h : b ≠ Utf8.byte '%') : startsSigned (b :: s) = false := by
  unfold startsSigned
  split
  · next heq =>
    cases heq
    simp [h]
  · rfl

theorem places_of_signedEscape (h : SignedEscape s) : places startsSigned s ≠ 0 := by
  obtain ⟨before, digit, after, rfl, hdigit⟩ := h
  induction before with
  | nil =>
    have hstarts : startsSigned (Utf8.byte '%' :: Utf8.byte '+' :: digit :: after) = true := by
      simp [startsSigned, hdigit]
    rw [List.nil_append, places, hstarts]
    simp
  | cons b before ih =>
    rw [List.cons_append, places]
    omega

/-- The digits of an escape start none themselves. -/
theorem places_escape {p : List UInt8 → Bool} {h l : UInt8}
    (hp : ∀ b s, b ≠ Utf8.byte '%' → p (b :: s) = false) (hh : h ≠ Utf8.byte '%')
    (hl : l ≠ Utf8.byte '%') : places p (h :: l :: s) = places p s := by
  rw [places_cons_of_not (hp h _ hh), places_cons_of_not (hp l _ hl)]

/-- What the loop has removed. -/
theorem length_percentDecodeBytes (s : List UInt8) :
    (percentDecodeBytes s).length + 2 * (places startsEscape s + places startsSigned s) =
      s.length := by
  fun_induction percentDecodeBytes s with
  | case1 first second rest value hvalue ih =>
    -- three bytes become one: two digits, or a sign and a digit
    rcases fromStrRadix16_some hvalue with ⟨high, low, hhigh, hlow, -⟩ | ⟨rfl, hdigit⟩
    · have hescape : startsEscape (Utf8.byte '%' :: first :: second :: rest) = true := by
        simp [startsEscape, hhigh, hlow]
      have hsigned : startsSigned (Utf8.byte '%' :: first :: second :: rest) = false := by
        simp [startsSigned, hex_ne_plus hhigh]
      have hfirst := hex_ne_percent hhigh
      have hsecond := hex_ne_percent hlow
      have hescapes : places startsEscape (Utf8.byte '%' :: first :: second :: rest) =
          1 + places startsEscape rest := by
        rw [places, hescape, if_pos rfl,
          places_escape (fun b s => startsEscape_ne) hfirst hsecond]
      have hsigneds : places startsSigned (Utf8.byte '%' :: first :: second :: rest) =
          places startsSigned rest := by
        rw [places_cons_of_not hsigned, places_escape (fun b s => startsSigned_ne) hfirst hsecond]
      rw [hescapes, hsigneds]
      simp only [List.length_cons]
      omega
    · obtain ⟨n, hn⟩ := Option.isSome_iff_exists.mp hdigit
      have hescape : startsEscape (Utf8.byte '%' :: Utf8.byte '+' :: second :: rest) = false := by
        have hplus : (hexDigitValue (Utf8.byte '+')).isSome = false := by decide
        simp [startsEscape, hplus]
      have hsigned : startsSigned (Utf8.byte '%' :: Utf8.byte '+' :: second :: rest) = true := by
        simp [startsSigned, hn]
      have hfirst : Utf8.byte '+' ≠ Utf8.byte '%' := by decide
      have hsecond := hex_ne_percent hn
      have hescapes : places startsEscape (Utf8.byte '%' :: Utf8.byte '+' :: second :: rest) =
          places startsEscape rest := by
        rw [places_cons_of_not hescape, places_escape (fun b s => startsEscape_ne) hfirst hsecond]
      have hsigneds : places startsSigned (Utf8.byte '%' :: Utf8.byte '+' :: second :: rest) =
          1 + places startsSigned rest := by
        rw [places, hsigned, if_pos rfl,
          places_escape (fun b s => startsSigned_ne) hfirst hsecond]
      rw [hescapes, hsigneds]
      simp only [List.length_cons]
      omega
  | case2 first second rest hvalue ih =>
    -- what is no number stays, and only its first byte is passed
    have hescape : startsEscape (Utf8.byte '%' :: first :: second :: rest) = false := by
      rcases hhigh : hexDigitValue first with _ | high
      · simp [startsEscape, hhigh]
      · rcases hlow : hexDigitValue second with _ | low
        · simp [startsEscape, hlow]
        · rw [fromStrRadix16_digits hhigh hlow] at hvalue
          cases hvalue
    have hsigned : startsSigned (Utf8.byte '%' :: first :: second :: rest) = false := by
      by_cases hplus : first = Utf8.byte '+'
      · rcases hlow : hexDigitValue second with _ | low
        · simp [startsSigned, hlow]
        · rw [fromStrRadix16, if_pos hplus, hlow] at hvalue
          cases hvalue
      · simp [startsSigned, hplus]
    rw [places_cons_of_not hescape, places_cons_of_not hsigned]
    simp only [List.length_cons] at ih ⊢
    omega
  | case3 b first second rest hb ih =>
    rw [places_cons_of_not (startsEscape_ne hb), places_cons_of_not (startsSigned_ne hb)]
    simp only [List.length_cons] at ih ⊢
    omega
  | case4 short hshort =>
    -- fewer than three bytes hold no escape
    have hnone : ∀ p : List UInt8 → Bool, p = startsEscape ∨ p = startsSigned →
        places p short = 0 := by
      intro p hp
      rcases short with _ | ⟨a, _ | ⟨b, _ | ⟨c, rest⟩⟩⟩
      · rfl
      · rcases hp with rfl | rfl <;> rfl
      · rcases hp with rfl | rfl <;> rfl
      · exact absurd rfl (hshort a b c rest)
    rw [hnone _ (.inl rfl), hnone _ (.inr rfl)]
    omega

/-- Rewriting removes no more than the escapes allow. -/
theorem Rewrites.length_le (h : Rewrites s t) : s.length ≤ t.length + 2 * places startsEscape s := by
  induction h with
  | nil => exact Nat.zero_le _
  | keep b _ ih =>
    simp only [List.length_cons, places]
    omega
  | @escape first second high low s t hhigh hlow _ ih =>
    have hescape : startsEscape (Utf8.byte '%' :: first :: second :: s) = true := by
      simp [startsEscape, hhigh, hlow]
    have hescapes : places startsEscape (Utf8.byte '%' :: first :: second :: s) =
        1 + places startsEscape s := by
      rw [places, hescape, if_pos rfl, places_escape (fun b s => startsEscape_ne)
        (hex_ne_percent hhigh) (hex_ne_percent hlow)]
    rw [hescapes]
    simp only [List.length_cons]
    omega
  | plus _ ih =>
    simp only [List.length_cons, places]
    omega

theorem rewrites_percentDecodeBytes_iff :
    Rewrites s (percentDecodeBytes s) ↔ ¬ SignedEscape s := by
  constructor
  · intro h hsigned
    have hle := h.length_le
    have hlength := length_percentDecodeBytes s
    have hne := places_of_signedEscape hsigned
    omega
  · exact rewrites_percentDecodeBytes

theorem rewritesEscapes_iff : RewritesEscapes raw ↔ ¬ MisreadsSign raw := by
  unfold RewritesEscapes MisreadsSign percentDecode
  rcases hdecoded : Utf8.decode (percentDecodeBytes (Utf8.encode raw)) with _ | text
  · -- the bytes are no text, and nothing is rewritten
    constructor
    · intro _ hmisread
      cases hmisread.2
    · intro _
      exact rewrites_refl _
  · show Rewrites _ (Utf8.encode text) ↔ _
    rw [Utf8.encode_decode hdecoded, rewrites_percentDecodeBytes_iff]
    simp

end

/-- **Client credentials in the header.** What a client sends is read back,
    and only escapes are rewritten, exactly when the id and the secret have no
    spaces and no escape has a sign. -/
theorem client_credentials_iff (engine : Base64Engine) (id secret raw : Str) :
    RoundTrips engine id secret ∧ RewritesEscapes raw ↔
      (' ' ∉ id ∧ ' ' ∉ secret) ∧ ¬ MisreadsSign raw := by
  rw [roundTrips_iff, rewritesEscapes_iff]

namespace Sample

/-- The engine reads and writes base64. -/
def base64 : Base64Engine where
  encode := Base64.encode
  decode := Base64.decode
  encode_chars bytes c hc := by
    have hall : ∀ c ∈ Base64.alphabet, c.isAlphanum = true ∨ c = '+' ∨ c = '/' :=
      Str.forall_mem_of_all (by decide +kernel)
    rcases Base64.mem_encode hc with hc | rfl
    · rcases hall c hc with h | h | h
      · exact .inl h
      · exact .inr (.inl h)
      · exact .inr (.inr (.inl h))
    · exact .inr (.inr (.inr rfl))
  decode_encode := Base64.decode_encode

/-- A secret with a space is read with a plus in its place, and an escape
    with a sign as one character. -/
theorem client_credentials_fail :
    ¬ (RoundTrips base64 "app".toList "a b".toList ∨ RewritesEscapes "%+5".toList) := by
  intro h
  rcases h with h | h
  · exact (roundTrips_iff.mp h).2 (by decide)
  · apply rewritesEscapes_iff.mp h
    have hdecoded : percentDecodeBytes (Utf8.encode "%+5".toList) = Utf8.encode ['\x05'] := by
      decide
    refine ⟨⟨[], Utf8.byte '5', [], by decide, by decide⟩, ?_⟩
    rw [hdecoded, Utf8.decode_encode]
    rfl

end Sample

end SoulAuth
