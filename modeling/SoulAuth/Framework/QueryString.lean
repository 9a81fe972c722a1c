import Mathlib.Data.List.TakeWhile
import SoulAuth.Framework.Utf8

/-! # Query strings

Percent-encoding of values, and the parameters that a URI carries behind its
first question mark. Parameters that are appended to a URI without a fragment
are read back behind the URI's own, with the values that were encoded.
-/

namespace SoulAuth.Framework.QueryString

/-! ## Percent-encoding -/

/-- The characters that an encoded value contains as they are. -/
def isUnreserved (c : Char) : Bool :=
  c.isAlphanum || c = '-' || c = '_' || c = '.' || c = '~'

/-- A hexadecimal digit. -/
def hexDigit (n : Nat) : Char := Char.ofNat (if n < 10 then 48 + n else 55 + n)

/-- The value of a hexadecimal digit of either case. -/
def hexValue (c : Char) : Option Nat :=
  if '0' ≤ c ∧ c ≤ '9' then some (c.toNat - 48)
  else if 'A' ≤ c ∧ c ≤ 'F' then some (c.toNat - 55)
  else if 'a' ≤ c ∧ c ≤ 'f' then some (c.toNat - 87)
  else none

def encodeByte (b : UInt8) : List Char := ['%', hexDigit (b.toNat / 16), hexDigit (b.toNat % 16)]

def encodeBytes (bs : List UInt8) : List Char := bs.flatMap encodeByte

def encodeChar (c : Char) : List Char :=
  if isUnreserved c then [c] else encodeBytes (String.utf8EncodeChar c)

/-- Every byte of the UTF-8 form of another character is encoded. -/
def encode (s : List Char) : List Char := s.flatMap encodeChar

/-- The bytes of an encoded text. What is no escape stands for itself. -/
def decodeBytes : List Char → List UInt8
  | [] => []
  | '%' :: h :: l :: rest =>
    match hexValue h, hexValue l with
    | some a, some b => UInt8.ofNat (16 * a + b) :: decodeBytes rest
    | _, _ => String.utf8EncodeChar '%' ++ decodeBytes (h :: l :: rest)
  | c :: rest => String.utf8EncodeChar c ++ decodeBytes rest

/-- The text, if the bytes are one. -/
def decode (s : List Char) : Option (List Char) :=
  (String.fromUTF8? (decodeBytes s).toByteArray).map String.toList

theorem hexValue_hexDigit {n : Nat} (h : n < 16) : hexValue (hexDigit n) = some n := by
  have hall : ∀ n : Fin 16, hexValue (hexDigit n) = some n.val := by decide
  exact hall ⟨n, h⟩

theorem decodeBytes_encodeByte (b : UInt8) (rest : List Char) :
    decodeBytes (encodeByte b ++ rest) = b :: decodeBytes rest := by
  have hb : b.toNat < 256 := b.toNat_lt
  have hhigh : hexValue (hexDigit (b.toNat / 16)) = some (b.toNat / 16) :=
    hexValue_hexDigit (by omega)
  have hlow : hexValue (hexDigit (b.toNat % 16)) = some (b.toNat % 16) :=
    hexValue_hexDigit (by omega)
  have hvalue : 16 * (b.toNat / 16) + b.toNat % 16 = b.toNat := by omega
  show decodeBytes ('%' :: hexDigit _ :: hexDigit _ :: rest) = _
  rw [decodeBytes, hhigh, hlow]
  show UInt8.ofNat _ :: _ = _
  rw [hvalue, UInt8.ofNat_toNat]

theorem decodeBytes_encodeBytes (bs : List UInt8) (rest : List Char) :
    decodeBytes (encodeBytes bs ++ rest) = bs ++ decodeBytes rest := by
  induction bs with
  | nil => rfl
  | cons b bs ih =>
    show decodeBytes (encodeByte b ++ encodeBytes bs ++ rest) = _
    rw [List.append_assoc, decodeBytes_encodeByte, ih]
    rfl

theorem decodeBytes_plain {c : Char} (hc : c ≠ '%') (rest : List Char) :
    decodeBytes (c :: rest) = String.utf8EncodeChar c ++ decodeBytes rest := by
  rw [decodeBytes]
  intro h l rest' heq
  exact absurd heq hc

theorem isUnreserved_ne {c d : Char} (hc : isUnreserved c = true) (hd : isUnreserved d = false) :
    c ≠ d := by
  rintro rfl
  rw [hc] at hd
  cases hd

theorem decodeBytes_encode (s rest : List Char) :
    decodeBytes (encode s ++ rest) = s.flatMap String.utf8EncodeChar ++ decodeBytes rest := by
  induction s with
  | nil => rfl
  | cons c s ih =>
    have hcons : encode (c :: s) ++ rest = encodeChar c ++ (encode s ++ rest) := by
      simp [encode]
    rw [hcons, List.flatMap_cons, List.append_assoc, ← ih]
    unfold encodeChar
    split
    · next hc => exact decodeBytes_plain (isUnreserved_ne hc (by decide)) _
    · exact decodeBytes_encodeBytes _ _

/-- **An encoded text is read back.** -/
theorem decode_encode (s : List Char) : decode (encode s) = some s := by
  have hbytes : decodeBytes (encode s) = Utf8.encode s := by
    have h := decodeBytes_encode s []
    rw [List.append_nil] at h
    rw [h]
    exact List.append_nil _
  show Utf8.decode (decodeBytes (encode s)) = some s
  rw [hbytes, Utf8.decode_encode]

/-- Encoding changes no unreserved character. -/
theorem encode_plain {s : List Char} (h : ∀ c ∈ s, isUnreserved c = true) : encode s = s := by
  induction s with
  | nil => rfl
  | cons c s ih =>
    obtain ⟨hc, hs⟩ := List.forall_mem_cons.mp h
    show encodeChar c ++ encode s = _
    rw [ih hs, encodeChar, if_pos hc]
    rfl

theorem decode_plain {s : List Char} (h : ∀ c ∈ s, isUnreserved c = true) : decode s = some s := by
  have hread := decode_encode s
  rw [encode_plain h] at hread
  exact hread

theorem isUnreserved_hexDigit {n : Nat} (h : n < 16) : isUnreserved (hexDigit n) = true := by
  have hall : ∀ n : Fin 16, isUnreserved (hexDigit n) = true := by decide
  exact hall ⟨n, h⟩

/-- What an encoded text is made of. -/
theorem mem_encode {s : List Char} {c : Char} (hc : c ∈ encode s) :
    isUnreserved c = true ∨ c = '%' := by
  obtain ⟨d, -, hd⟩ := List.mem_flatMap.mp hc
  unfold encodeChar at hd
  split at hd
  · next hplain =>
    cases List.mem_singleton.mp hd
    exact .inl hplain
  · obtain ⟨b, -, hb⟩ := List.mem_flatMap.mp hd
    have hbound : b.toNat < 256 := b.toNat_lt
    simp only [encodeByte, List.mem_cons, List.not_mem_nil, or_false] at hb
    rcases hb with rfl | rfl | rfl
    · exact .inr rfl
    · exact .inl (isUnreserved_hexDigit (by omega))
    · exact .inl (isUnreserved_hexDigit (by omega))

theorem not_mem_encode {s : List Char} {d : Char} (hd : isUnreserved d = false) (hd' : d ≠ '%') :
    d ∉ encode s := by
  intro h
  rcases mem_encode h with h | h
  · exact isUnreserved_ne h hd rfl
  · exact hd' h

/-! ## Parameters -/

/-- The query of a URI: behind the first question mark, before a fragment. -/
def queryOf (uri : List Char) : List Char :=
  ((uri.takeWhile (· ≠ '#')).dropWhile (· ≠ '?')).drop 1

/-- The name and the value of one parameter, still encoded. -/
def nameAndValue (piece : List Char) : List Char × List Char :=
  (piece.takeWhile (· ≠ '='), (piece.dropWhile (· ≠ '=')).drop 1)

/-- A parameter that has been decoded. -/
abbrev Param := Option (List Char) × Option (List Char)

def readParam (piece : List Char) : Param :=
  (decode (nameAndValue piece).1, decode (nameAndValue piece).2)

/-- The parameters of a query. Nothing between two ampersands is none. -/
def paramsOf (query : List Char) : List Param :=
  ((query.splitOn '&').filter (· ≠ [])).map readParam

/-- The parameters of a URI. -/
def params (uri : List Char) : List Param := paramsOf (queryOf uri)

/-- What stands between a URI and a parameter that is appended to it. -/
def separator (uri : List Char) : Char := if '?' ∈ uri then '&' else '?'

/-- A parameter as it is written. The name is not encoded. -/
def writeParam (p : List Char × List Char) : List Char := p.1 ++ '=' :: encode p.2

def writeParams (ps : List (List Char × List Char)) : List Char :=
  ['&'].intercalate (ps.map writeParam)

/-- A name that needs no encoding. -/
def IsName (name : List Char) : Prop := ∀ c ∈ name, isUnreserved c = true

theorem paramsOf_append (q q' : List Char) :
    paramsOf (q ++ '&' :: q') = paramsOf q ++ paramsOf q' := by
  unfold paramsOf
  rw [List.splitOn_append_cons_self, List.filter_append, List.map_append]

theorem readParam_writeParam {p : List Char × List Char} (hname : IsName p.1) :
    readParam (writeParam p) = (some p.1, some p.2) := by
  have hname' : ∀ c ∈ p.1, decide (c ≠ '=') = true := by
    intro c hc
    simpa using isUnreserved_ne (hname c hc) (by decide)
  have hcut : nameAndValue (writeParam p) = (p.1, encode p.2) := by
    unfold nameAndValue writeParam
    rw [List.takeWhile_append_of_pos hname', List.dropWhile_append_of_pos hname']
    simp
  rw [readParam, hcut, decode_plain hname, decode_encode]

theorem not_mem_writeParam {p : List Char × List Char} (hname : IsName p.1) {d : Char}
    (hd : isUnreserved d = false) (hpercent : d ≠ '%') (hequals : d ≠ '=') :
    d ∉ writeParam p := by
  intro h
  rcases List.mem_append.mp h with h | h
  · exact isUnreserved_ne (hname d h) hd rfl
  · rcases List.mem_cons.mp h with h | h
    · exact hequals h
    · exact not_mem_encode hd hpercent h

theorem paramsOf_writeParam {p : List Char × List Char} (hname : IsName p.1) :
    paramsOf (writeParam p) = [(some p.1, some p.2)] := by
  have hand : '&' ∉ writeParam p :=
    not_mem_writeParam hname (by decide) (by decide) (by decide)
  have hne : writeParam p ≠ [] := by simp [writeParam]
  unfold paramsOf
  rw [List.splitOn_eq_singleton hand]
  simp [hne, readParam_writeParam hname]

theorem writeParams_cons {p p' : List Char × List Char} {ps : List (List Char × List Char)} :
    writeParams (p :: p' :: ps) = writeParam p ++ '&' :: writeParams (p' :: ps) := by
  show ['&'].intercalate (writeParam p :: writeParam p' :: _) = _
  rw [List.intercalate_cons_cons, List.append_assoc]
  rfl

theorem writeParams_singleton {p : List Char × List Char} : writeParams [p] = writeParam p := by
  show ['&'].intercalate [writeParam p] = _
  rw [List.intercalate_singleton]

/-- Parameters are read as they were written. -/
theorem paramsOf_writeParams {ps : List (List Char × List Char)} (h : ∀ p ∈ ps, IsName p.1) :
    paramsOf (writeParams ps) = ps.map fun p => (some p.1, some p.2) := by
  induction ps with
  | nil => rfl
  | cons p ps ih =>
    obtain ⟨hp, hps⟩ := List.forall_mem_cons.mp h
    cases ps with
    | nil =>
      rw [writeParams_singleton]
      exact paramsOf_writeParam hp
    | cons p' ps =>
      rw [writeParams_cons, paramsOf_append, paramsOf_writeParam hp, ih hps]
      rfl

theorem not_mem_writeParams {ps : List (List Char × List Char)} (h : ∀ p ∈ ps, IsName p.1) :
    '#' ∉ writeParams ps := by
  induction ps with
  | nil => exact List.not_mem_nil
  | cons p ps ih =>
    obtain ⟨hp, hps⟩ := List.forall_mem_cons.mp h
    have hhead : '#' ∉ writeParam p :=
      not_mem_writeParam hp (by decide) (by decide) (by decide)
    cases ps with
    | nil =>
      rw [writeParams_singleton]
      exact hhead
    | cons p' ps =>
      rw [writeParams_cons]
      intro hmem
      rcases List.mem_append.mp hmem with hmem | hmem
      · exact hhead hmem
      · rcases List.mem_cons.mp hmem with hmem | hmem
        · cases hmem
        · exact ih hps hmem

theorem queryOf_of_no_fragment {uri : List Char} (h : '#' ∉ uri) :
    queryOf uri = (uri.dropWhile (· ≠ '?')).drop 1 := by
  have htake : uri.takeWhile (· ≠ '#') = uri := by
    rw [List.takeWhile_eq_self_iff]
    intro c hc
    have hne : c ≠ '#' := fun heq => h (heq ▸ hc)
    simpa using hne
  rw [queryOf, htake]

/-- **Parameters that are appended to a URI are read back behind its own.** -/
theorem params_append {uri : List Char} {ps : List (List Char × List Char)}
    (huri : '#' ∉ uri) (hps : ∀ p ∈ ps, IsName p.1) :
    params (uri ++ separator uri :: writeParams ps) =
      params uri ++ ps.map fun p => (some p.1, some p.2) := by
  have hwhole : '#' ∉ uri ++ separator uri :: writeParams ps := by
    intro h
    rcases List.mem_append.mp h with h | h
    · exact huri h
    · rcases List.mem_cons.mp h with h | h
      · unfold separator at h
        split at h <;> simp at h
      · exact not_mem_writeParams hps h
  rw [params, params, queryOf_of_no_fragment hwhole, queryOf_of_no_fragment huri,
    ← paramsOf_writeParams hps]
  by_cases hmark : '?' ∈ uri
  · obtain ⟨before, after, rfl, hbefore⟩ := List.eq_append_cons_of_mem hmark
    have hskip : ∀ c ∈ before, decide (c ≠ '?') = true := by
      intro c hc
      have hne : c ≠ '?' := fun heq => hbefore (heq ▸ hc)
      simpa using hne
    rw [separator, if_pos hmark, List.append_assoc, List.dropWhile_append_of_pos hskip,
      List.dropWhile_append_of_pos hskip, ← paramsOf_append]
    simp
  · have hnone : ∀ c ∈ uri, decide (c ≠ '?') = true := by
      intro c hc
      have hne : c ≠ '?' := fun heq => hmark (heq ▸ hc)
      simpa using hne
    rw [separator, if_neg hmark, List.dropWhile_append_of_pos hnone]
    have hall : uri.dropWhile (· ≠ '?') = [] := List.dropWhile_eq_nil_iff.mpr hnone
    rw [hall]
    simp [paramsOf]

/-- A URI with parameters behind its own. -/
def extend (uri : List Char) (ps : List (List Char × List Char)) : List Char :=
  if ps = [] then uri else uri ++ separator uri :: writeParams ps

theorem writeParams_snoc {ps : List (List Char × List Char)} {p : List Char × List Char}
    (hps : ps ≠ []) : writeParams (ps ++ [p]) = writeParams ps ++ '&' :: writeParam p := by
  induction ps with
  | nil => exact absurd rfl hps
  | cons q ps ih =>
    cases ps with
    | nil =>
      show writeParams [q, p] = _
      rw [writeParams_cons, writeParams_singleton, writeParams_singleton]
    | cons q' ps =>
      show writeParams (q :: q' :: (ps ++ [p])) = _
      have hrest : writeParams (q' :: (ps ++ [p])) = writeParams (q' :: ps) ++ '&' :: writeParam p :=
        ih (List.cons_ne_nil _ _)
      rw [writeParams_cons, writeParams_cons, hrest, List.append_assoc]
      rfl

/-- The first parameter behind those of the URI. -/
theorem extend_singleton {uri : List Char} {p : List Char × List Char} :
    extend uri [p] = uri ++ separator uri :: writeParam p := by
  rw [extend, if_neg (List.cons_ne_nil _ _), writeParams_singleton]

/-- One more parameter. -/
theorem extend_snoc {uri : List Char} {ps : List (List Char × List Char)}
    {p : List Char × List Char} (hps : ps ≠ []) :
    extend uri (ps ++ [p]) = extend uri ps ++ '&' :: writeParam p := by
  rw [extend, if_neg (by simp), extend, if_neg hps, writeParams_snoc hps]
  simp

theorem params_extend {uri : List Char} {ps : List (List Char × List Char)} (huri : '#' ∉ uri)
    (hps : ∀ p ∈ ps, IsName p.1) :
    params (extend uri ps) = params uri ++ ps.map fun p => (some p.1, some p.2) := by
  unfold extend
  split
  · next hnil =>
    rw [hnil]
    simp
  · exact params_append huri hps

end SoulAuth.Framework.QueryString
