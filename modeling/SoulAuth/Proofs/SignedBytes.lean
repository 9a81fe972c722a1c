import SoulAuth.Framework.Delimited
import SoulAuth.Framework.Utf8
import SoulAuth.Proofs.AuditScan
import SoulAuth.Proofs.Tables

/-! # What is hashed and what is signed

The digest of an event and the signature of a checkpoint cover the event and
the checkpoint only if their bytes determine them. The fields of an event are
hashed with their lengths. Those of a checkpoint are joined by bars, and the
first of them is a configured text that may contain bars itself: it is read
from its end.
-/

namespace SoulAuth

open Framework

/-! ## Events -/

/-- The bytes that `event_hash` feeds to the hash, field by field. -/
def DigestInput.hashed (d : DigestInput) : List UInt8 :=
  d.fields.flatMap fun field =>
    Utf8.encode (Json.decimal (Utf8.encode field).length) ++
      Utf8.byte ':' :: (Utf8.encode field ++ [Utf8.byte '|'])

/-- The bytes of a text are as many as its length says. -/
theorem length_encode (s : Str) : (Utf8.encode s).length = Str.byteLen s := by
  induction s with
  | nil => rfl
  | cons c s ih =>
    rw [Utf8.encode_cons, List.length_append, String.length_utf8EncodeChar, ih, byteLen_cons]

/-- What is hashed are the bytes of the text that the model hashes. -/
theorem hashed_eq (d : DigestInput) : d.hashed = Utf8.encode d.preimage := by
  have hfield : ∀ field : Str, Utf8.encode (hashedField field) =
      Utf8.encode (Json.decimal (Utf8.encode field).length) ++
        Utf8.byte ':' :: (Utf8.encode field ++ [Utf8.byte '|']) := by
    intro field
    have hcolon : String.utf8EncodeChar ':' = [Utf8.byte ':'] := Utf8.encodeChar_ascii (by decide)
    have hbar : String.utf8EncodeChar '|' = [Utf8.byte '|'] := Utf8.encodeChar_ascii (by decide)
    rw [hashedField, length_encode, Utf8.encode_append, Utf8.encode_cons, Utf8.encode_append,
      Utf8.encode_cons, Utf8.encode_nil, hcolon, hbar]
    rfl
  unfold DigestInput.hashed DigestInput.preimage
  induction d.fields with
  | nil => rfl
  | cons field fields ih =>
    rw [List.flatMap_cons, List.flatMap_cons, Utf8.encode_append, hfield, ih]

/-- **The hashed bytes determine the event.** They are equal only for equal
    fields, and these only for equal contents. -/
theorem hashed_eq_iff (d d' : DigestInput) :
    (d.hashed = d'.hashed ↔ d.fields = d'.fields) ∧ (d.fields = d'.fields ↔ d = d') := by
  have hcontents : d.hashed = d'.hashed → d = d' := by
    intro h
    rw [hashed_eq, hashed_eq, Utf8.encode_inj] at h
    exact preimage_injective h
  have hbytes : d.fields = d'.fields → d.hashed = d'.hashed := by
    intro h
    rw [DigestInput.hashed, DigestInput.hashed, h]
  constructor
  · constructor
    · intro h
      rw [hcontents h]
    · exact hbytes
  · constructor
    · intro h
      exact hcontents (hbytes h)
    · intro h
      rw [h]

/-! ## Checkpoints -/

/-- A digest in lower-case hexadecimal. -/
structure IsHexDigest (s : Str) : Prop where
  length : s.length = 64
  chars : ∀ c ∈ s, c.isDigit = true ∨ 'a' ≤ c ∧ c ≤ 'f'

/-- The bytes that are signed. -/
def checkpointBytes (chainId : Str) (seqTo : Int) (headHash : Str) (createdAt : Int) :
    List UInt8 :=
  Utf8.encode (checkpointMessage chainId seqTo headHash createdAt)

/-- The time of a checkpoint with the verifier's default. -/
def Checkpoint.created (cp : Checkpoint) : Int := cp.createdAt.asI64.getD 0

/-- The bytes over which the verifier checks the signature. -/
def Checkpoint.message (cp : Checkpoint) : List UInt8 :=
  checkpointBytes cp.chainId cp.number cp.headHash cp.created

/-- The scan of the rows has an anchor for the checkpoint. -/
def Checkpoint.IsAnchored [Platform] (rows : List ScannedRow) (cp : Checkpoint) : Prop :=
  (ChainScan.init.loop rows).anchors (cp.chainId, cp.number) = some cp.headHash

section

variable {c c' h h' : Str} {n n' t t' : Int}

theorem bar_not_mem_decimal (n : Int) : '|' ∉ Json.decimal n := by
  intro hmem
  cases n with
  | ofNat n => exact digit_ne hmem (by decide) rfl
  | negSucc n =>
    rcases List.mem_cons.mp hmem with heq | hmem
    · exact absurd heq (by decide)
    · exact digit_ne hmem (by decide) rfl

theorem IsHexDigest.bar_not_mem (hh : IsHexDigest h) : '|' ∉ h := by
  intro hmem
  rcases hh.chars '|' hmem with hdigit | ⟨-, hle⟩
  · exact absurd hdigit (by decide)
  · exact absurd hle (by decide)

/-- From the right, the message is cut three times at a bar. -/
theorem checkpointMessage_inj (hh : '|' ∉ h) (hh' : '|' ∉ h')
    (heq : checkpointMessage c n h t = checkpointMessage c' n' h' t') :
    c = c' ∧ n = n' ∧ h = h' ∧ t = t' := by
  unfold checkpointMessage at heq
  obtain ⟨heq, htime⟩ :=
    Delimited.last_sep_inj (bar_not_mem_decimal t) (bar_not_mem_decimal t') heq
  obtain ⟨heq, hhash⟩ := Delimited.last_sep_inj hh hh' heq
  obtain ⟨heq, hseq⟩ :=
    Delimited.last_sep_inj (bar_not_mem_decimal n) (bar_not_mem_decimal n') heq
  exact ⟨List.append_cancel_left heq, decimal_inj hseq, hhash, decimal_inj htime⟩

theorem checkpointBytes_eq_iff (hh : IsHexDigest h) (hh' : IsHexDigest h') :
    checkpointBytes c n h t = checkpointBytes c' n' h' t' ↔
      c = c' ∧ n = n' ∧ h = h' ∧ t = t' := by
  constructor
  · intro heq
    exact checkpointMessage_inj hh.bar_not_mem hh'.bar_not_mem (Utf8.encode_inj.mp heq)
  · intro ⟨hc, hn, hhash, ht⟩
    rw [hc, hn, hhash, ht]

end

variable [Platform]

/-- What a row leaves as an anchor is the digest of something. -/
theorem anchor_next {s : ChainScan} (hs : ∀ p a, s.anchors p = some a → ∃ d, a = eventHash d)
    (row : ScannedRow) : ∀ p a, (s.next row).anchors p = some a → ∃ d, a = eventHash d := by
  intro p a ha
  cases hreason : (s.enter row).reason row with
  | some reason =>
    rw [ChainScan.next_eq, hreason] at ha
    exact hs p a (by simpa using ha)
  | none =>
    rw [ChainScan.next_of_ordered hreason] at ha
    dsimp only at ha
    by_cases hp : p = (row.chain, row.number)
    · rw [hp, Function.update_self] at ha
      -- the digest was recomputed and found to be the stored one
      obtain ⟨-, -, hhash⟩ := ChainScan.reason_eq_none.mp hreason
      exact ⟨_, (hhash.trans (Option.some.inj ha)).symm⟩
    · rw [Function.update_of_ne hp] at ha
      exact hs p a ha

theorem anchor_loop {s : ChainScan} (hs : ∀ p a, s.anchors p = some a → ∃ d, a = eventHash d)
    (rows : List ScannedRow) : ∀ p a, (s.loop rows).anchors p = some a → ∃ d, a = eventHash d := by
  induction rows generalizing s with
  | nil => exact hs
  | cons row rows ih =>
    unfold ChainScan.loop
    dsimp only
    split
    · exact anchor_next hs row
    · exact ih (anchor_next hs row)

/-- An anchored checkpoint has a digest. -/
theorem Checkpoint.IsAnchored.digest {rows : List ScannedRow} {cp : Checkpoint}
    (h : cp.IsAnchored rows) : ∃ d, cp.headHash = eventHash d := by
  have hinit : ∀ p a, ChainScan.init.anchors p = some a → ∃ d, a = eventHash d := by
    intro p a ha
    cases ha
  exact anchor_loop hinit rows _ _ h

/-- **The signed bytes determine the checkpoint.** Those of two checkpoints with
    digests as head hashes are equal only when all their fields are. Whatever
    rows are scanned, a checkpoint with an anchor is such a one. -/
theorem checkpoint_message_determines :
    (∀ {c c' h h' : Str} {n n' t t' : Int}, IsHexDigest h → IsHexDigest h' →
      (checkpointBytes c n h t = checkpointBytes c' n' h' t' ↔
        c = c' ∧ n = n' ∧ h = h' ∧ t = t')) ∧
    ((∀ text, IsHexDigest (Platform.sha256Hex text)) →
      ∀ {rows rows' : List ScannedRow} {cp cp' : Checkpoint}, cp.IsAnchored rows →
        cp'.IsAnchored rows' → cp.message = cp'.message →
          cp.chainId = cp'.chainId ∧ cp.number = cp'.number ∧ cp.headHash = cp'.headHash ∧
            cp.created = cp'.created) := by
  constructor
  · intro c c' h h' n n' t t' hh hh'
    exact checkpointBytes_eq_iff hh hh'
  · intro hhex rows rows' cp cp' hcp hcp' hmessage
    have hdigest : ∀ {cp : Checkpoint} {rows}, cp.IsAnchored rows → IsHexDigest cp.headHash := by
      intro cp rows h
      obtain ⟨d, hd⟩ := h.digest
      exact hd ▸ hhex _
    exact (checkpointBytes_eq_iff (hdigest hcp) (hdigest hcp')).mp hmessage

end SoulAuth

namespace SoulAuth.Sample

open Framework

/-- The first event of the chain `a`, with its SHA-256 digest. -/
def firstRow : ScannedRow where
  chainId := some "a".toList
  seq := .int 1
  previousHash := some genesisHash
  eventHash := some "495f9b03f5e5d96289facdd192f383e685bee5999f881595b7f9f808189cd3df".toList
  action := "login_success".toList
  category := "Authentication".toList
  status := "Success".toList
  actorIdentityId := []
  ipAddress := []
  userAgent := []
  details := .object []
  timestamp := .int 0

/-- The hash of that event; its value elsewhere does not matter. -/
@[reducible] def digestPlatform : Platform :=
  { platform with
    sha256Hex := fun _ =>
      "495f9b03f5e5d96289facdd192f383e685bee5999f881595b7f9f808189cd3df".toList }

/-- A checkpoint of the chain. -/
def firstCheckpoint (createdAt : Int) : Checkpoint :=
  ⟨"a".toList, .int 1, firstRow.stored, .int createdAt, [], []⟩

/-- Checkpoints of different times are signed as different bytes, and so are
    those of a chain whose name contains a bar. -/
theorem checkpoint_message_sample :
    (checkpointBytes "a|1".toList 2 firstRow.stored 5 ≠
      checkpointBytes "a".toList 1 firstRow.stored 5) ∧
    (firstCheckpoint 5).message ≠ (firstCheckpoint (-5)).message := by
  have hhex : IsHexDigest firstRow.stored := ⟨by decide, Str.forall_mem_of_all (by decide)⟩
  have hanchored : ∀ t, @Checkpoint.IsAnchored digestPlatform [firstRow] (firstCheckpoint t) := by
    intro t
    show (@ChainScan.loop digestPlatform ChainScan.init [firstRow]).anchors ("a".toList, 1) =
      some firstRow.stored
    decide +kernel
  constructor
  · intro heq
    have hfields := (@checkpoint_message_determines digestPlatform).1 hhex hhex |>.mp heq
    exact absurd hfields.1 (by decide)
  · intro heq
    have hfields := (@checkpoint_message_determines digestPlatform).2 (fun _ => hhex)
      (hanchored 5) (hanchored (-5)) heq
    exact absurd hfields.2.2.2 (by decide)

end SoulAuth.Sample
