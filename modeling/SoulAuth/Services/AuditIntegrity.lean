import SoulAuth.Database.Audit

/-! # Audit integrity

Every row of an audit chain stores a digest of its content, which includes
the digest of the row before it. A checkpoint is a signature, by a key that
is not in the database, of the digest of the last row.
-/

namespace SoulAuth

open Framework

/-- `GENESIS_HASH`. -/
def genesisHash : Str := List.replicate 64 '0'

/-- `DigestInput`: the fields of a row that its digest covers. -/
structure DigestInput where
  chainId : Str
  seq : Int
  previousHash : Str
  action : Str
  category : Str
  status : Str
  actorIdentityId : Str
  ipAddress : Str
  userAgent : Str
  detailsJson : Str
  timestamp : Int
  deriving DecidableEq

/-- The fields in the order in which they are hashed. -/
def DigestInput.fields (d : DigestInput) : List Str :=
  [d.chainId, Json.decimal d.seq, d.previousHash, d.action, d.category, d.status,
    d.actorIdentityId, d.ipAddress, d.userAgent, d.detailsJson, Json.decimal d.timestamp]

/-- One field, as it is hashed: its length, a colon, itself, a bar. -/
def hashedField (s : Str) : Str := Json.decimal (Str.byteLen s) ++ ':' :: (s ++ ['|'])

/-- What `event_hash` hashes. -/
def DigestInput.preimage (d : DigestInput) : Str := d.fields.flatMap hashedField

/-- `event_hash`. -/
def eventHash [Platform] (d : DigestInput) : Str := Platform.sha256Hex d.preimage

/-! ## Checkpoints -/

/-- Ed25519 keys from a configured seed. `verifies` decodes the public key
    and the signature and checks the signature of the message. -/
class CheckpointKeys where
  /-- `CheckpointSigner`. -/
  Signer : Type
  /-- `from_seed_b64`. -/
  fromSeedB64 : Str → Option Signer
  /-- `public_key_b64`. -/
  publicKeyB64 : Signer → Str
  sign : Signer → Str → Str
  verifies : Str → Str → Str → Bool
  verifies_sign : ∀ signer message,
    verifies (publicKeyB64 signer) (sign signer message) message = true

/-- `checkpoint_message`. -/
def checkpointMessage (chainId : Str) (seqTo : Int) (headHash : Str) (createdAt : Int) : Str :=
  "soulauth-audit-checkpoint/v1|".toList ++ chainId ++ '|' :: Json.decimal seqTo ++
    '|' :: headHash ++ '|' :: Json.decimal createdAt

section

variable [CheckpointKeys]

/-- `CheckpointSigner::sign`. -/
def signCheckpoint (signer : CheckpointKeys.Signer) (chainId : Str) (seqTo : Int)
    (headHash : Str) (createdAt : Int) : Str :=
  CheckpointKeys.sign signer (checkpointMessage chainId seqTo headHash createdAt)

/-- `verify_checkpoint`. -/
def verifyCheckpoint (publicKey signature chainId : Str) (seqTo : Int) (headHash : Str)
    (createdAt : Int) : Bool :=
  CheckpointKeys.verifies publicKey signature
    (checkpointMessage chainId seqTo headHash createdAt)

/-- A failure in the words of `issue_checkpoint`. -/
def checkpointError (what : String) (e : DbFailure) : Str :=
  what.toList ++ ": ".toList ++ e.errorText

/-- `issue_checkpoint`: sign the head of a chain, unless a checkpoint covers
    it already. -/
def issueCheckpoint (signer : CheckpointKeys.Signer) (chainId : Str) :
    AuditTask Str (Option Int) := do
  let head ← Prog.mapError (checkpointError "failed to read the audit chain head")
    (auditQuery (.chainHead chainId))
  match head with
  | none => return none
  | some (seq, eventHash) =>
    let seqTo := seq.asI64.getD 0
    let headHash := eventHash.getD []
    if headHash = [] then return none
    let last ← Prog.mapError (checkpointError "failed to read the last checkpoint")
      (auditQuery (.lastCheckpoint chainId))
    if seqTo ≤ (last.bind DbNumber.asI64).getD 0 then return none
    let createdAt ← auditNow
    Prog.mapError (checkpointError "failed to write the checkpoint")
      (auditQuery (.createCheckpoint
        { chainId := chainId, seqTo := .int seqTo, headHash := headHash,
          createdAt := .int createdAt, publicKey := CheckpointKeys.publicKeyB64 signer,
          signature := signCheckpoint signer chainId seqTo headHash createdAt }))
    return some seqTo

end

/-! ## The encoding of the digest -/

theorem digit_ne {c d : Char} {n : Nat} (hc : c ∈ Nat.toDigits 10 n) (hd : d.isDigit = false) :
    c ≠ d := by
  rintro rfl
  have : c.isDigit = true := Nat.isDigit_of_mem_toDigits (by decide) (by decide) hc
  rw [this] at hd
  cases hd

theorem toDigits_inj {m n : Nat} (h : Nat.toDigits 10 m = Nat.toDigits 10 n) : m = n := by
  rw [← Nat.ofDigitChars_ten_toDigits (n := m), h, Nat.ofDigitChars_ten_toDigits]

theorem decimal_inj {m n : Int} (h : Json.decimal m = Json.decimal n) : m = n := by
  -- a minus sign is no digit
  have hsign : ∀ a b : Nat, Nat.toDigits 10 a ≠ '-' :: Nat.toDigits 10 b := fun a b h => by
    have hmem : '-' ∈ Nat.toDigits 10 a := by rw [h]; simp
    exact digit_ne hmem (by decide) rfl
  cases m with
  | ofNat a =>
    cases n with
    | ofNat b => rw [toDigits_inj h]
    | negSucc b => exact absurd h (hsign a (b + 1))
  | negSucc a =>
    cases n with
    | ofNat b => exact absurd h.symm (hsign b (a + 1))
    | negSucc b =>
      have : a + 1 = b + 1 := toDigits_inj (List.tail_eq_of_cons_eq h)
      rw [Nat.succ.inj this]

theorem byteLen_cons (c : Char) (s : Str) : Str.byteLen (c :: s) = c.utf8Size + Str.byteLen s := by
  simp [Str.byteLen]

/-- Two texts that begin with parts of one length begin with the same. -/
theorem append_inj_of_byteLen {s s' t t' : Str} (h : s ++ t = s' ++ t')
    (hlen : Str.byteLen s = Str.byteLen s') : s = s' ∧ t = t' := by
  induction s generalizing s' with
  | nil =>
    cases s' with
    | nil => exact ⟨rfl, h⟩
    | cons c s' =>
      have := c.utf8Size_pos
      rw [byteLen_cons] at hlen
      simp only [Str.byteLen, List.map_nil, List.sum_nil] at hlen
      omega
  | cons c s ih =>
    cases s' with
    | nil =>
      have := c.utf8Size_pos
      rw [byteLen_cons] at hlen
      simp only [Str.byteLen, List.map_nil, List.sum_nil] at hlen
      omega
    | cons c' s' =>
      obtain ⟨rfl, hrest⟩ := List.cons.inj h
      rw [byteLen_cons, byteLen_cons] at hlen
      obtain ⟨rfl, rfl⟩ := ih hrest (by omega)
      exact ⟨rfl, rfl⟩

/-- A hashed field says where it ends. -/
theorem hashedField_append_inj {s s' t t' : Str}
    (h : hashedField s ++ t = hashedField s' ++ t') : s = s' ∧ t = t' := by
  have hcolon : ∀ n : Nat, ':' ∉ Json.decimal n := fun n hm => digit_ne hm (by decide) rfl
  have hsplit : ∀ u v : Str, Str.splitOnce ':' (hashedField u ++ v) =
      some (Json.decimal (Str.byteLen u), u ++ '|' :: v) := fun u v => by
    have : hashedField u ++ v = Json.decimal (Str.byteLen u) ++ ':' :: (u ++ '|' :: v) := by
      simp [hashedField]
    rw [this, Str.splitOnce_append (hcolon _)]
  have heq := hsplit s t
  rw [h, hsplit s' t'] at heq
  obtain ⟨hlen, hrest⟩ := Prod.mk.inj (Option.some.inj heq)
  obtain ⟨rfl, hbar⟩ := append_inj_of_byteLen hrest (by exact_mod_cast decimal_inj hlen)
  exact ⟨rfl, (List.cons.inj hbar).2.symm⟩

theorem flatMap_hashedField_inj {l l' : List Str} (hlen : l.length = l'.length)
    (h : l.flatMap hashedField = l'.flatMap hashedField) : l = l' := by
  induction l generalizing l' with
  | nil => exact (List.eq_nil_of_length_eq_zero hlen.symm).symm
  | cons s l ih =>
    cases l' with
    | nil => cases hlen
    | cons s' l' =>
      rw [List.flatMap_cons, List.flatMap_cons] at h
      obtain ⟨rfl, hrest⟩ := hashedField_append_inj h
      rw [ih (Nat.succ.inj hlen) hrest]

/-- Different contents are hashed as different texts. -/
theorem preimage_injective : Function.Injective DigestInput.preimage := by
  intro d d' h
  have hf : d.fields = d'.fields := flatMap_hashedField_inj rfl h
  obtain ⟨c, n, p, a, g, st, ac, ip, ua, js, t⟩ := d
  obtain ⟨c', n', p', a', g', st', ac', ip', ua', js', t'⟩ := d'
  simp only [DigestInput.fields, List.cons.injEq, and_true] at hf
  obtain ⟨rfl, hn, rfl, rfl, rfl, rfl, rfl, rfl, rfl, rfl, ht⟩ := hf
  rw [decimal_inj hn, decimal_inj ht]

end SoulAuth
