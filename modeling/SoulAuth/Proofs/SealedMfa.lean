import SoulAuth.Proofs.Tables
import SoulAuth.Services.SealedMfa

/-! # Encryption at rest changes nothing else

The service with encrypted secrets and the service with secrets in the clear
stay in step: in every interleaving of their operations each request has the
same outcome in both, and what is encrypted in one database decrypts to what
the other one holds. No operation writes a secret in the clear.
-/

namespace SoulAuth

open Framework Framework.Prog

/-! ## What is stored for a secret -/

/-- The stored text decrypts to the secret, if there is a key at all. -/
def SecretAtRest (cipher : Option SecretCipher) (secret stored : Option Str) : Prop :=
  secret.isSome = stored.isSome ∧ ∀ s t c, secret = some s → stored = some t → cipher = some c →
    c.decrypt t = .ok s

/-- Two rows with the same contents but for the secret. -/
structure RowAtRest (cipher : Option SecretCipher) (m m' : UserMfa) : Prop where
  row : m' = { m with totpSecret := m'.totpSecret }
  secret : SecretAtRest cipher m.totpSecret m'.totpSecret

/-- Two worlds with the same contents but for the secrets. -/
structure AtRest (cipher : Option SecretCipher) (w w' : World) : Prop where
  now : w'.now = w.now
  drawn : w'.drawn = w.drawn
  db : w'.db = { w.db with mfa := w'.db.mfa }
  rows : List.Forall₂ (RowAtRest cipher) w.db.mfa w'.db.mfa

section

variable {cipher : Option SecretCipher} {m m' : UserMfa} {w w' : World}

theorem secretAtRest_of {secret stored : Str}
    (h : ∀ c, cipher = some c → c.decrypt stored = .ok secret) :
    SecretAtRest cipher (some secret) (some stored) := by
  refine ⟨rfl, ?_⟩
  intro s t c hs ht hc
  obtain rfl := Option.some.inj hs
  obtain rfl := Option.some.inj ht
  exact h c hc

theorem secretAtRest_encrypt (c : SecretCipher) (nonce : CipherNonce) (secret : Str) :
    SecretAtRest (some c) (some secret) (some (c.encrypt nonce secret)) := by
  apply secretAtRest_of
  intro d hd
  obtain rfl := Option.some.inj hd
  exact c.decrypt_encrypt nonce secret

/-- An old row holds the secret itself. -/
theorem secretAtRest_plain {secret : Str} (h : isEncrypted secret = false) :
    SecretAtRest cipher (some secret) (some secret) :=
  secretAtRest_of fun c _ => c.decrypt_plain h

theorem withEncryptedSecret_of_encrypted {nonce : CipherNonce} {stored : Str}
    (hstored : m.totpSecret = some stored) (h : isEncrypted stored = true) :
    withEncryptedSecret cipher nonce m = .ok m := by
  unfold withEncryptedSecret
  rw [hstored]
  dsimp only
  rw [if_pos h]
  rfl

/-- What is written back decrypts to the secret that was read. -/
theorem resealedSecret_atRest {c : SecretCipher} (nonce : CipherNonce) {m : UserMfa}
    {secret stored : Str} (hstored : m.totpSecret = some stored)
    (hsecret : c.decrypt stored = .ok secret) :
    ∃ t, resealedSecret (some c) nonce m secret = .ok (some t) ∧
      SecretAtRest (some c) (some secret) (some t) := by
  unfold resealedSecret
  by_cases hencrypted : isEncrypted secret = true
  · -- the secret looks encrypted: the stored text is written back as it is
    rw [if_pos hencrypted, hstored]
    refine ⟨stored, rfl, secretAtRest_of ?_⟩
    intro d hd
    obtain rfl := Option.some.inj hd
    exact hsecret
  · rw [if_neg hencrypted]
    exact ⟨_, rfl, secretAtRest_encrypt c nonce secret⟩

/-- The instance has a key for both services or for none. -/
theorem cipher_configured {cfg : Config} (hkey : cfg.mfaKeyConfigured = cipher.isSome) :
    SoulAuth.cipher cfg = (configuredCipher cipher).map fun _ => () := by
  unfold SoulAuth.cipher
  rw [hkey]
  cases cipher with
  | none => rfl
  | some c => rfl

theorem decryptedSecret_stored {stored : Str} (hstored : m.totpSecret = some stored) :
    decryptedSecret cipher m = configuredCipher cipher >>= fun c => c.decrypt stored := by
  unfold decryptedSecret
  rw [hstored]

/-- Whatever is saved is encrypted. -/
theorem withEncryptedSecret_sealed {nonce : CipherNonce}
    (h : withEncryptedSecret cipher nonce m = .ok m') :
    ∀ s, m'.totpSecret = some s → isEncrypted s = true := by
  unfold withEncryptedSecret at h
  cases hsecret : m.totpSecret with
  | none =>
    rw [hsecret] at h
    obtain rfl := Except.ok.inj h
    intro s hs
    rw [hsecret] at hs
    cases hs
  | some secret =>
    rw [hsecret] at h
    dsimp only at h
    by_cases hencrypted : isEncrypted secret = true
    · rw [if_pos hencrypted] at h
      obtain rfl := Except.ok.inj h
      intro s hs
      rw [hsecret] at hs
      obtain rfl := Option.some.inj hs
      exact hencrypted
    · rw [if_neg hencrypted] at h
      cases cipher with
      | none => cases h
      | some c =>
        obtain rfl := Except.ok.inj h
        intro s hs
        obtain rfl := Option.some.inj hs
        exact isEncrypted_encrypt c nonce secret

/-- A text that decrypts to one that looks encrypted is encrypted itself. -/
theorem isEncrypted_of_decrypt {c : SecretCipher} {stored secret : Str}
    (h : c.decrypt stored = .ok secret) (hsecret : isEncrypted secret = true) :
    isEncrypted stored = true := by
  by_contra hplain
  -- a text in the clear decrypts to itself
  rw [c.decrypt_plain (Bool.eq_false_iff.mpr hplain)] at h
  obtain rfl := Except.ok.inj h
  exact hplain hsecret

/-- Whatever is written back is encrypted. -/
theorem resealedSecret_sealed {nonce : CipherNonce} {secret : Str} {t : Option Str}
    (hread : decryptedSecret cipher m = .ok secret)
    (hwritten : resealedSecret cipher nonce m secret = .ok t) :
    isEncrypted (t.getD []) = true := by
  unfold decryptedSecret at hread
  unfold resealedSecret at hwritten
  cases hstored : m.totpSecret with
  | none =>
    rw [hstored] at hread
    cases hread
  | some stored =>
    rw [hstored] at hread hwritten
    cases cipher with
    | none => cases hread
    | some c =>
      by_cases hencrypted : isEncrypted secret = true
      · rw [if_pos hencrypted] at hwritten
        obtain rfl := Except.ok.inj hwritten
        exact isEncrypted_of_decrypt hread hencrypted
      · rw [if_neg hencrypted] at hwritten
        obtain rfl := Except.ok.inj hwritten
        exact isEncrypted_encrypt c nonce secret

theorem RowAtRest.userId (h : RowAtRest cipher m m') : m'.userId = m.userId := by
  rw [h.row]

theorem RowAtRest.status (h : RowAtRest cipher m m') : m'.status = m.status := by
  rw [h.row]

theorem RowAtRest.method (h : RowAtRest cipher m m') : m'.method = m.method := by
  rw [h.row]

theorem RowAtRest.backupCodes (h : RowAtRest cipher m m') : m'.backupCodes = m.backupCodes := by
  rw [h.row]

theorem RowAtRest.acceptsStep (h : RowAtRest cipher m m') (userId : Str) (step : Int) :
    m'.acceptsStep userId step = m.acceptsStep userId step := by
  rw [h.row]
  rfl

theorem AtRest.advance (h : AtRest cipher w w') (elapsed : Nat) :
    AtRest cipher (w.advance elapsed) (w'.advance elapsed) where
  now := by
    show w'.now + _ = w.now + _
    rw [h.now]
  drawn := h.drawn
  db := h.db
  rows := h.rows

theorem AtRest.draw (h : AtRest cipher w w') :
    AtRest cipher { w with drawn := w.drawn + 1 } { w' with drawn := w'.drawn + 1 } :=
  ⟨h.now, congrArg (· + 1) h.drawn, h.db, h.rows⟩

/-! ## Statements -/

/-- Two statements that keep the rows related, and what they reply. -/
def StmtsAtRest (cipher : Option SecretCipher) (s s' : MfaStmt) (T : s.Reply → s'.Reply → Prop) :
    Prop :=
  ∀ rows rows', List.Forall₂ (RowAtRest cipher) rows rows' →
    (∃ a a', (s.exec rows).1 = .ok a ∧ (s'.exec rows').1 = .ok a' ∧ T a a') ∧
      List.Forall₂ (RowAtRest cipher) (s.exec rows).2 (s'.exec rows').2

theorem any_atRest {p p' : UserMfa → Bool} {rows rows' : List UserMfa}
    (hrows : List.Forall₂ (RowAtRest cipher) rows rows')
    (hp : ∀ m m', RowAtRest cipher m m' → p' m' = p m) : rows'.any p' = rows.any p := by
  induction hrows with
  | nil => rfl
  | cons hm _ ih => rw [List.any_cons, List.any_cons, hp _ _ hm, ih]

theorem map_atRest {f f' : UserMfa → UserMfa} {rows rows' : List UserMfa}
    (hrows : List.Forall₂ (RowAtRest cipher) rows rows')
    (hf : ∀ m m', RowAtRest cipher m m' → RowAtRest cipher (f m) (f' m')) :
    List.Forall₂ (RowAtRest cipher) (rows.map f) (rows'.map f') := by
  induction hrows with
  | nil => exact .nil
  | cons hm _ ih => exact .cons (hf _ _ hm) ih

/-- Two replies with related rows, or none. -/
def FoundAtRest (cipher : Option SecretCipher) (m m' : Option UserMfa) : Prop :=
  (m = none ∧ m' = none) ∨ ∃ r r', m = some r ∧ m' = some r' ∧ RowAtRest cipher r r'

theorem get_atRest (userId : Str) :
    StmtsAtRest cipher (.get userId) (.get userId) (FoundAtRest cipher) := by
  intro rows rows' hrows
  -- the rows have the same users, so the same place is found in both
  refine ⟨⟨_, _, rfl, rfl, ?_⟩, hrows⟩
  induction hrows with
  | nil => exact .inl ⟨rfl, rfl⟩
  | @cons m m' rows rows' hm _ ih =>
    by_cases huser : m.userId = userId
    · rw [List.find?_cons_of_pos (by simpa using huser),
        List.find?_cons_of_pos (by simpa [hm.userId] using huser)]
      exact .inr ⟨m, m', rfl, rfl, hm⟩
    · rw [List.find?_cons_of_neg (by simpa using huser),
        List.find?_cons_of_neg (by simpa [hm.userId] using huser)]
      exact ih

theorem save_atRest (hm : RowAtRest cipher m m') :
    StmtsAtRest cipher (.save m) (.save m') fun _ _ => True := by
  intro rows rows' hrows
  refine ⟨⟨(), (), rfl, rfl, trivial⟩, ?_⟩
  have hany : (rows'.any fun r => decide (r.userId = m'.userId)) =
      rows.any fun r => decide (r.userId = m.userId) := by
    apply any_atRest hrows
    intro r r' hr
    rw [hr.userId, hm.userId]
  show List.Forall₂ _
    (if (rows.any fun r => decide (r.userId = m.userId)) = true then _ else _)
    (if (rows'.any fun r => decide (r.userId = m'.userId)) = true then _ else _)
  -- either both tables have a row to replace, or both get a new one
  rw [hany]
  split
  · apply map_atRest hrows
    intro r r' hr
    rw [hr.userId, hm.userId]
    split
    · exact hm
    · exact hr
  · exact List.rel_append hrows (.cons hm .nil)

theorem consumeTotpStep_atRest {userId secret stored : Str} (step : Int) (enable : Bool)
    (hsecret : SecretAtRest cipher (some secret) (some stored)) :
    StmtsAtRest cipher (.consumeTotpStep userId secret step enable)
      (.consumeTotpStep userId stored step enable) Eq := by
  intro rows rows' hrows
  refine ⟨⟨_, _, rfl, rfl, ?_⟩, ?_⟩
  · exact (any_atRest hrows fun r r' hr => hr.acceptsStep userId step).symm
  · apply map_atRest hrows
    intro r r' hr
    rw [hr.acceptsStep]
    -- the secret that was there is lost in both: what comes is related by `hsecret`
    split
    · refine ⟨?_, hsecret⟩
      rw [hr.row]
    · exact hr

theorem consumeBackupCode_atRest (userId used : Str) :
    StmtsAtRest cipher (.consumeBackupCode userId used) (.consumeBackupCode userId used) Eq := by
  intro rows rows' hrows
  have hsame : ∀ r r', RowAtRest cipher r r' →
      (decide (r'.userId = userId) && r'.backupCodes.contains used) =
        (decide (r.userId = userId) && r.backupCodes.contains used) := by
    intro r r' hr
    rw [hr.userId, hr.backupCodes]
  refine ⟨⟨_, _, rfl, rfl, (any_atRest hrows hsame).symm⟩, ?_⟩
  apply map_atRest hrows
  intro r r' hr
  rw [hsame r r' hr]
  split
  · refine ⟨?_, hr.secret⟩
    rw [hr.row]
  · exact hr

theorem delete_atRest (userId : Str) :
    StmtsAtRest cipher (.delete userId) (.delete userId) fun _ _ => True := by
  intro rows rows' hrows
  refine ⟨⟨(), (), rfl, rfl, trivial⟩, ?_⟩
  show List.Forall₂ _ (rows.filter _) (rows'.filter _)
  induction hrows with
  | nil => exact .nil
  | @cons m m' rows rows' hm _ ih =>
    by_cases huser : m.userId = userId
    · rw [List.filter_cons_of_neg (by simpa using huser),
        List.filter_cons_of_neg (by simpa [hm.userId] using huser)]
      exact ih
    · rw [List.filter_cons_of_pos (by simpa using huser),
        List.filter_cons_of_pos (by simpa [hm.userId] using huser)]
      exact .cons hm ih

/-! ## Rows in the clear -/

/-- A secret in the clear is an old one: its row has had it from the start,
    and no code has been accepted for it since. -/
def SealedSince (rows : List UserMfa) (m : UserMfa) : Prop :=
  ∀ secret, m.totpSecret = some secret → isEncrypted secret = false →
    ∃ r ∈ rows, r.userId = m.userId ∧ r.totpSecret = some secret ∧ r.status = m.status ∧
      r.lastTotpStep = m.lastTotpStep

theorem sealedSince_of_sealed {rows : List UserMfa}
    (h : ∀ s, m.totpSecret = some s → isEncrypted s = true) : SealedSince rows m := by
  intro secret hsecret hplain
  rw [h secret hsecret] at hplain
  cases hplain

/-- The secret that a statement writes is encrypted. -/
def MfaStmt.Seals : MfaStmt → Prop
  | .save m => ∀ s, m.totpSecret = some s → isEncrypted s = true
  | .consumeTotpStep _ secret _ _ => isEncrypted secret = true
  | .get _ | .consumeBackupCode _ _ | .delete _ => True

theorem MfaStmt.Seals.exec {s : MfaStmt} (hs : s.Seals) {first rows : List UserMfa}
    (h : ∀ m ∈ rows, SealedSince first m) : ∀ m ∈ (s.exec rows).2, SealedSince first m := by
  cases s with
  | get userId => exact h
  | consumeTotpStep userId secret step enable =>
    intro m hm
    obtain ⟨r, hr, rfl⟩ := List.mem_map.mp hm
    split
    · -- the secret is written with the step, and in a sealed form
      apply sealedSince_of_sealed
      intro s hsecret
      obtain rfl := Option.some.inj hsecret
      exact hs
    · exact h r hr
  | consumeBackupCode userId used =>
    intro m hm
    obtain ⟨r, hr, rfl⟩ := List.mem_map.mp hm
    split
    · exact h r hr
    · exact h r hr
  | save m =>
    intro r hr
    simp only [MfaStmt.exec] at hr
    split at hr
    · obtain ⟨r', hr', rfl⟩ := List.mem_map.mp hr
      split
      · exact sealedSince_of_sealed hs
      · exact h r' hr'
    · rcases List.mem_append.mp hr with hr | hr
      · exact h r hr
      · rw [List.mem_singleton.mp hr]
        exact sealedSince_of_sealed hs
  | delete userId =>
    intro m hm
    exact h m (List.mem_of_mem_filter hm)

/-! ## Programs -/

/-- Writing the rows of both hides that they differed. -/
theorem withMfa_eq {db db' : Db} {rows rows' : List UserMfa}
    (h : db' = { db with mfa := db'.mfa }) :
    ({ db' with mfa := rows' } : Db) = { ({ db with mfa := rows } : Db) with mfa := rows' } := by
  rw [h]

variable [Platform]

/-- A statement on the rows, in a world. -/
theorem exec_atRest {s s' : MfaStmt} {T : s.Reply → s'.Reply → Prop}
    (h : StmtsAtRest cipher s s' T) (ctx : Ctx) (hw : AtRest cipher w w') :
    AtRest cipher (machine.exec ctx (.db (.mfa s)) w).2 (machine.exec ctx (.db (.mfa s')) w').2 ∧
      ((∃ e, (machine.exec ctx (.db (.mfa s)) w).1 = .error e ∧
          (machine.exec ctx (.db (.mfa s')) w').1 = .error e) ∨
        ∃ a a', (machine.exec ctx (.db (.mfa s)) w).1 = .ok a ∧
          (machine.exec ctx (.db (.mfa s')) w').1 = .ok a' ∧ T a a') := by
  have hadvanced := hw.advance ctx.elapsed
  obtain ⟨⟨a, a', ha, ha', hT⟩, hrows⟩ := h _ _ hadvanced.rows
  have hwritten : AtRest cipher
      { w.advance ctx.elapsed with
        db := ((DbStmt.mfa s).exec (w.advance ctx.elapsed).now (w.advance ctx.elapsed).db).2 }
      { w'.advance ctx.elapsed with
        db := ((DbStmt.mfa s').exec (w'.advance ctx.elapsed).now (w'.advance ctx.elapsed).db).2 } :=
    ⟨hadvanced.now, hadvanced.drawn, withMfa_eq hadvanced.db, hrows⟩
  -- a lost reply has written in both worlds, a refusal and a conflict in neither
  obtain ⟨elapsed, fault⟩ := ctx
  cases fault with
  | none => exact ⟨hwritten, .inr ⟨a, a', ha, ha', hT⟩⟩
  | some fault =>
    cases fault with
    | refused => exact ⟨hadvanced, .inl ⟨_, rfl, rfl⟩⟩
    | conflict => exact ⟨hadvanced, .inl ⟨_, rfl, rfl⟩⟩
    | lostReply => exact ⟨hwritten, .inl ⟨_, rfl, rfl⟩⟩

theorem mirrors_query {s s' : MfaStmt} {T : s.Reply → s'.Reply → Prop}
    (h : StmtsAtRest cipher s s' T) :
    Mirrors (M := machine) (AtRest cipher) T (query (.mfa s) : Req AuthError _)
      (query (.mfa s')) := by
  apply Mirrors.step
  · intro ctx w w' hw
    exact (exec_atRest h ctx hw).1
  · intro ctx w w' hw
    rcases (exec_atRest h ctx hw).2 with ⟨e, he, he'⟩ | ⟨a, a', ha, ha', hT⟩
    · rw [he, he']
      exact .error (OfDb.ofDb (ε := AuthError) e)
    · rw [ha, ha']
      exact .ok hT

/-- The clock and the random values are the same. -/
theorem mirrors_getNow :
    Mirrors (M := machine) (AtRest cipher) Eq (getNow : Req AuthError _) getNow := by
  apply Mirrors.step
  · intro ctx w w' hw
    exact hw.advance ctx.elapsed
  · intro ctx w w' hw
    exact .ok (hw.advance ctx.elapsed).now.symm

theorem mirrors_newSecureToken :
    Mirrors (M := machine) (AtRest cipher) Eq (newSecureToken : Req AuthError _)
      newSecureToken := by
  apply Mirrors.step
  · intro ctx w w' hw
    exact (hw.advance ctx.elapsed).draw
  · intro ctx w w' hw
    exact .ok (congrArg Platform.secureToken hw.drawn.symm)

theorem mirrors_hashPassword (password : Str) :
    Mirrors (M := machine) (AtRest cipher) Eq (hashPassword password : Req AuthError _)
      (hashPassword password) := by
  apply Mirrors.step
  · intro ctx w w' hw
    exact (hw.advance ctx.elapsed).draw
  · intro ctx w w' hw
    exact .ok (congrArg (fun n => Platform.argon2Hash n password) hw.drawn.symm)

theorem mirrors_drawBackupCodes (n : Nat) :
    Mirrors (M := machine) (AtRest cipher) Eq (drawBackupCodes n) (drawBackupCodes n) := by
  induction n with
  | zero => exact .ok rfl
  | succ n ih =>
    apply mirrors_newSecureToken.bind_eq
    intro code
    apply (mirrors_hashPassword code).bind_eq
    intro h
    apply ih.bind_eq
    intro rest
    exact .ok rfl

theorem mirrors_getUserMfa (userId : Str) :
    Mirrors (M := machine) (AtRest cipher) (RowAtRest cipher) (getUserMfa userId)
      (getUserMfa userId) := by
  apply (mirrors_query (get_atRest userId)).bind
  intro row row' hrow
  rcases hrow with ⟨rfl, rfl⟩ | ⟨m, m', rfl, rfl, hm⟩
  · exact .error AuthError.userNotFound
  · exact .ok hm

/-! ## Operations -/

variable {cfg : Config}

theorem mirrors_key (hkey : cfg.mfaKeyConfigured = cipher.isSome) :
    Mirrors (M := machine) (AtRest cipher) (fun _ c => cipher = some c)
      (Prog.ofExcept (SoulAuth.cipher cfg)) (Prog.ofExcept (configuredCipher cipher)) := by
  rw [cipher_configured hkey]
  cases cipher with
  | none => exact .error _
  | some c => exact .ok rfl

theorem mirrors_setup (hkey : cfg.mfaKeyConfigured = cipher.isSome) (nonce : CipherNonce)
    (userId : Str) :
    Mirrors (M := machine) (AtRest cipher) Eq (setupTotp cfg userId)
      (setupSealedTotp cipher nonce userId) := by
  apply (mirrors_getUserMfa userId).attempt.bind
  intro existing existing' hexisting
  have hsame : (existing'.toOption.any fun m => m.status = .enabled) =
      existing.toOption.any fun m => m.status = .enabled := by
    cases hexisting with
    | ok hm => simp [Except.toOption, hm.status]
    | error e => rfl
  rw [hsame]
  apply (mirrors_ensure _ _).bind_eq
  intro _
  apply mirrors_newSecureToken.bind_eq
  intro secret
  apply (mirrors_drawBackupCodes 8).bind_eq
  intro codes
  apply (mirrors_key hkey).bind
  intro _ c hc
  -- the row is encrypted before it is saved, so saving leaves it as it is
  unfold saveUserMfa
  rw [withEncryptedSecret_of_encrypted rfl (isEncrypted_encrypt c nonce secret)]
  apply (mirrors_query (save_atRest _)).bind
  · intro _ _ _
    exact .ok rfl
  · refine ⟨rfl, ?_⟩
    rw [hc]
    exact secretAtRest_encrypt c nonce secret

theorem mirrors_verifyTotpCode (secret code : Str) :
    Mirrors (M := machine) (AtRest cipher) Eq (verifyTotpCode secret code)
      (verifyTotpCode secret code) := by
  unfold verifyTotpCode
  cases totpOf secret with
  | error x => exact .error _
  | ok totp =>
    apply mirrors_getNow.bind_eq
    intro now
    exact .ok rfl

theorem mirrors_accept (hkey : cfg.mfaKeyConfigured = cipher.isSome) (nonce : CipherNonce)
    (hm : RowAtRest cipher m m') (code : Str) (enable : Bool) :
    Mirrors (M := machine) (AtRest cipher) Eq (acceptTotpCode cfg m code enable)
      (acceptSealedCode cipher nonce m' code enable) := by
  have hpresent := hm.secret.1
  have hdecrypts := hm.secret.2
  unfold acceptTotpCode acceptSealedCode
  cases hsecret : m.totpSecret with
  | none =>
    rw [hsecret, Option.isSome_none] at hpresent
    have hstored : m'.totpSecret = none := by simpa using hpresent.symm
    have hread : decryptedSecret cipher m' = .error (.serverError "TOTP secret not found") := by
      unfold decryptedSecret
      rw [hstored]
    rw [hread]
    exact .error _
  | some secret =>
    rw [hsecret] at hpresent
    obtain ⟨stored, hstored⟩ := Option.isSome_iff_exists.mp hpresent.symm
    rw [cipher_configured hkey, decryptedSecret_stored hstored]
    cases hcipher : cipher with
    | none => exact .error _
    | some c =>
      have hopened := hdecrypts secret stored c hsecret hstored hcipher
      have hread : (configuredCipher (some c) >>= fun c => c.decrypt stored) = .ok secret := hopened
      have hset : (configuredCipher (some c)).map (fun _ => ()) = .ok () := rfl
      -- what is consumed with the step is the secret in one, and its encryption in the other
      obtain ⟨t, ht, hat⟩ := resealedSecret_atRest nonce hstored hopened
      rw [hset, hread]
      simp only [Prog.orThrow, Prog.ofExcept, Prog.done_ok_bind]
      apply (mirrors_verifyTotpCode secret code).bind_eq
      intro found
      cases found with
      | none => exact .ok rfl
      | some step =>
        simp only [ht, Prog.done_ok_bind, Option.getD_some]
        rw [hm.userId]
        have hconsumed : StmtsAtRest (some c) (.consumeTotpStep m.userId secret step enable)
            (.consumeTotpStep m.userId t step enable) Eq := consumeTotpStep_atRest step enable hat
        exact mirrors_query hconsumed

theorem mirrors_enable (hkey : cfg.mfaKeyConfigured = cipher.isSome) (nonce : CipherNonce)
    (userId code : Str) :
    Mirrors (M := machine) (AtRest cipher) Eq (enableTotp cfg userId code)
      (enableSealedTotp cipher nonce userId code) := by
  apply (mirrors_getUserMfa userId).bind
  intro m m' hm
  rw [hm.status]
  apply (mirrors_ensure _ _).bind_eq
  intro _
  exact mirrors_accept hkey nonce hm code true

theorem mirrors_verify (hkey : cfg.mfaKeyConfigured = cipher.isSome) (nonce : CipherNonce)
    (userId code : Str) :
    Mirrors (M := machine) (AtRest cipher) Eq (verifyTotp cfg userId code)
      (verifySealedTotp cipher nonce userId code) := by
  apply (mirrors_getUserMfa userId).bind
  intro m m' hm
  rw [hm.status]
  by_cases henabled : m.status = .enabled
  · rw [if_pos henabled, if_pos henabled]
    exact mirrors_accept hkey nonce hm code false
  · rw [if_neg henabled, if_neg henabled]
    exact .ok rfl

theorem mirrors_useBackupCode (userId code : Str) :
    Mirrors (M := machine) (AtRest cipher) Eq (useBackupCode userId code)
      (useBackupCode userId code) := by
  apply (mirrors_getUserMfa userId).bind
  intro m m' hm
  rw [hm.status, hm.backupCodes, hm.userId]
  by_cases henabled : m.status = .enabled
  · rw [if_pos henabled]
    cases m.backupCodes.find? fun stored => verifyBackupCode stored code with
    | none => exact .ok rfl
    | some used => exact mirrors_query (consumeBackupCode_atRest m.userId used)
  · rw [if_neg henabled]
    exact .ok rfl

theorem mirrors_disable (userId : Str) :
    Mirrors (M := machine) (AtRest cipher) Eq (disableMfa userId) (disableMfa userId) := by
  apply (mirrors_getUserMfa userId).bind
  intro m m' hm
  rw [hm.status]
  by_cases hdisabled : m.status = .disabled
  · rw [if_pos hdisabled]
    exact .ok rfl
  · rw [if_neg hdisabled]
    apply (mirrors_query (delete_atRest userId)).bind
    intro _ _ _
    exact .ok rfl

theorem mirrors_status (userId : Str) :
    Mirrors (M := machine) (AtRest cipher) Eq (getMfaStatus userId) (getMfaStatus userId) := by
  apply (mirrors_getUserMfa userId).attempt.bind
  intro found found' hfound
  cases hfound with
  | ok hm =>
    dsimp only
    rw [hm.status, hm.method, hm.backupCodes]
    exact .ok rfl
  | error e =>
    cases e with
    | userNotFound => exact .ok rfl
    | _ => exact .error _

theorem mirrors_enabledMethod (userId : Str) :
    Mirrors (M := machine) (AtRest cipher) Eq (enabledMethod userId) (enabledMethod userId) := by
  apply (mirrors_getUserMfa userId).attempt.bind
  intro found found' hfound
  cases hfound with
  | ok hm =>
    dsimp only
    rw [hm.status, hm.method]
    exact .ok rfl
  | error e =>
    cases e with
    | userNotFound => exact .ok rfl
    | _ => exact .error _

theorem mirrors_rest (call : MfaCall) :
    Mirrors (M := machine) (AtRest cipher) Eq call.rest call.rest := by
  cases call with
  | setup userId => exact .error _
  | enable userId code => exact .error _
  | verify userId code => exact .error _
  | useBackupCode userId code => exact (mirrors_useBackupCode userId code).bind_eq fun _ => .ok rfl
  | disable userId => exact (mirrors_disable userId).bind_eq fun _ => .ok rfl
  | status userId => exact (mirrors_status userId).bind_eq fun _ => .ok rfl
  | enabledMethod userId => exact (mirrors_enabledMethod userId).bind_eq fun _ => .ok rfl

/-- An operation on encrypted secrets mirrors it on secrets in the clear. -/
theorem mirrors_program (hkey : cfg.mfaKeyConfigured = cipher.isSome) (c : SealedMfaCall) :
    Mirrors (M := machine) (AtRest cipher) Eq (c.call.program cfg) (c.program cipher) := by
  obtain ⟨call, nonce⟩ := c
  cases call with
  | setup userId => exact (mirrors_setup hkey nonce userId).bind_eq fun _ => .ok rfl
  | enable userId code => exact (mirrors_enable hkey nonce userId code).bind_eq fun _ => .ok rfl
  | verify userId code => exact (mirrors_verify hkey nonce userId code).bind_eq fun _ => .ok rfl
  | useBackupCode userId code => exact mirrors_rest (.useBackupCode userId code)
  | disable userId => exact mirrors_rest (.disable userId)
  | status userId => exact mirrors_rest (.status userId)
  | enabledMethod userId => exact mirrors_rest (.enabledMethod userId)

/-- **Encryption at rest changes no answer.** The service on encrypted
    secrets and the service on secrets in the clear, each from its own form of
    the same database, make the same answers in every interleaving, with
    every failure of the database, and end in forms of the same database. -/
theorem sealed_in_step (hkey : cfg.mfaKeyConfigured = cipher.isSome) (hw : AtRest cipher w w')
    (as : List (service (SealedMfaCall.program cipher)).Action) :
    AtRest cipher
        (((service (MfaCall.program cfg)).initial w).run
          (as.map (mirrorAction SealedMfaCall.call))).state
        (((service (SealedMfaCall.program cipher)).initial w').run as).state ∧
      ∀ i, (((service (MfaCall.program cfg)).initial w).run
          (as.map (mirrorAction SealedMfaCall.call))).outcome i =
        (((service (SealedMfaCall.program cipher)).initial w').run as).outcome i := by
  have hstart : Abreast (AtRest cipher) ((service (MfaCall.program cfg)).initial w)
      ((service (SealedMfaCall.program cipher)).initial w') := abreast_initial hw
  have hrun := hstart.run (mirrors_program hkey) as
  exact ⟨hrun.state, hrun.outcome⟩

/-! ## Nothing is written in the clear -/

/-- A step of the service writes second factors only, and seals them. -/
def Stmt.Seals : Stmt → Prop
  | .db (.mfa s) => s.Seals
  | .db _ => False
  | .now | .uuid | .secureToken | .hashPassword _ | .verifyPassword _ _ => True

theorem query_seals {s : MfaStmt} (h : s.Seals) :
    Only Stmt.Seals (query (.mfa s) : Req AuthError _) := by
  refine ⟨h, ?_⟩
  intro r
  cases r with
  | ok a => trivial
  | error e => trivial

theorem getUserMfa_seals (userId : Str) : Only Stmt.Seals (getUserMfa userId) :=
  .bind (query_seals trivial) fun _ => only_orThrow

theorem getNow_seals : Only Stmt.Seals (getNow : Req AuthError _) := ⟨trivial, fun _ => trivial⟩

theorem newSecureToken_seals : Only Stmt.Seals (newSecureToken : Req AuthError _) :=
  ⟨trivial, fun _ => trivial⟩

theorem hashPassword_seals (password : Str) :
    Only Stmt.Seals (hashPassword password : Req AuthError _) := ⟨trivial, fun _ => trivial⟩

theorem drawBackupCodes_seals (n : Nat) : Only Stmt.Seals (drawBackupCodes n) := by
  induction n with
  | zero => trivial
  | succ n ih =>
    apply newSecureToken_seals.bind
    intro code
    apply (hashPassword_seals code).bind
    intro h
    exact ih.bind fun _ => trivial

theorem saveUserMfa_seals (nonce : CipherNonce) (m : UserMfa) :
    Only Stmt.Seals (saveUserMfa cipher nonce m) := by
  unfold saveUserMfa
  cases hsealed : withEncryptedSecret cipher nonce m with
  | error e => trivial
  | ok m' => exact query_seals (withEncryptedSecret_sealed hsealed)

theorem verifyTotpCode_seals (secret code : Str) :
    Only Stmt.Seals (verifyTotpCode secret code) := by
  unfold verifyTotpCode
  cases totpOf secret with
  | error x => trivial
  | ok totp => exact getNow_seals.bind fun _ => trivial

theorem acceptSealedCode_seals (nonce : CipherNonce) (m : UserMfa) (code : Str) (enable : Bool) :
    Only Stmt.Seals (acceptSealedCode cipher nonce m code enable) := by
  unfold acceptSealedCode
  cases hread : decryptedSecret cipher m with
  | error e => trivial
  | ok secret =>
    simp only [Prog.ofExcept, Prog.done_ok_bind]
    apply (verifyTotpCode_seals secret code).bind
    intro found
    cases found with
    | none => trivial
    | some step =>
      -- an error writes nothing
      cases hwritten : resealedSecret cipher nonce m secret with
      | error e => trivial
      | ok t => exact query_seals (resealedSecret_sealed hread hwritten)

theorem setupSealedTotp_seals (nonce : CipherNonce) (userId : Str) :
    Only Stmt.Seals (setupSealedTotp cipher nonce userId) := by
  apply (getUserMfa_seals userId).attempt.bind
  intro existing
  apply only_ensure.bind
  intro _
  apply newSecureToken_seals.bind
  intro secret
  apply (drawBackupCodes_seals 8).bind
  intro codes
  cases configuredCipher cipher with
  | error e => trivial
  | ok c => exact (saveUserMfa_seals nonce _).bind fun _ => trivial

theorem enableSealedTotp_seals (nonce : CipherNonce) (userId code : Str) :
    Only Stmt.Seals (enableSealedTotp cipher nonce userId code) := by
  apply (getUserMfa_seals userId).bind
  intro m
  apply only_ensure.bind
  intro _
  exact acceptSealedCode_seals nonce m code true

theorem verifySealedTotp_seals (nonce : CipherNonce) (userId code : Str) :
    Only Stmt.Seals (verifySealedTotp cipher nonce userId code) := by
  apply (getUserMfa_seals userId).bind
  intro m
  split
  · exact acceptSealedCode_seals nonce m code false
  · trivial

theorem useBackupCode_seals (userId code : Str) :
    Only Stmt.Seals (useBackupCode userId code) := by
  apply (getUserMfa_seals userId).bind
  intro m
  split
  · split
    · next used _ =>
      have hused : (MfaStmt.consumeBackupCode m.userId used).Seals := trivial
      exact query_seals hused
    · trivial
  · trivial

theorem disableMfa_seals (userId : Str) : Only Stmt.Seals (disableMfa userId) := by
  apply (getUserMfa_seals userId).bind
  intro m
  split
  · trivial
  · have hdelete : (MfaStmt.delete userId).Seals := trivial
    exact (query_seals hdelete).bind fun _ => trivial

theorem getMfaStatus_seals (userId : Str) : Only Stmt.Seals (getMfaStatus userId) := by
  apply (getUserMfa_seals userId).attempt.bind
  intro found
  split
  · trivial
  · trivial
  · trivial

theorem enabledMethod_seals (userId : Str) : Only Stmt.Seals (enabledMethod userId) := by
  apply (getUserMfa_seals userId).attempt.bind
  intro found
  split
  · trivial
  · trivial
  · trivial

/-- Every statement of an operation seals what it writes. -/
theorem program_seals (c : SealedMfaCall) : Only Stmt.Seals (c.program cipher) := by
  obtain ⟨call, nonce⟩ := c
  cases call with
  | setup userId => exact (setupSealedTotp_seals nonce userId).bind fun _ => trivial
  | enable userId code => exact (enableSealedTotp_seals nonce userId code).bind fun _ => trivial
  | verify userId code => exact (verifySealedTotp_seals nonce userId code).bind fun _ => trivial
  | useBackupCode userId code => exact (useBackupCode_seals userId code).bind fun _ => trivial
  | disable userId => exact (disableMfa_seals userId).bind fun _ => trivial
  | status userId => exact (getMfaStatus_seals userId).bind fun _ => trivial
  | enabledMethod userId => exact (enabledMethod_seals userId).bind fun _ => trivial

theorem Stmt.Seals.exec {s : Stmt} (hs : s.Seals) {first : List UserMfa} (ctx : Ctx)
    (h : ∀ m ∈ w.db.mfa, SealedSince first m) :
    ∀ m ∈ (machine.exec ctx s w).2.db.mfa, SealedSince first m := by
  cases s with
  | now => exact h
  | uuid => exact h
  | secureToken => exact h
  | hashPassword password => exact h
  | verifyPassword stored password => exact h
  | db s =>
    cases s with
    | mfa s =>
      have hwritten := MfaStmt.Seals.exec hs h
      obtain ⟨elapsed, fault⟩ := ctx
      cases fault with
      | none => exact hwritten
      | some fault =>
        cases fault with
        | refused => exact h
        | conflict => exact h
        | lostReply => exact hwritten
    | _ => exact hs.elim

/-- The rule of the service. -/
def sealingRule (cipher : Option SecretCipher) :
    System.Rule (service (SealedMfaCall.program cipher)) where
  assumes _ := True
  entry _ _ e := Stmt.Seals e.stmt
  outcome _ _ _ := True

theorem sealingRule_met : (sealingRule cipher).Met :=
  fun c => (program_seals c).meets (fun _ _ _ he => he) fun _ _ _ => trivial

/-- **No secret is written in the clear.** After any run of the service, a
    secret that is not encrypted is an old one, and its row has not accepted a
    code since. -/
theorem secrets_sealed (cipher : Option SecretCipher) (w : World)
    (as : List (service (SealedMfaCall.program cipher)).Action) :
    ∀ m ∈ (((service (SealedMfaCall.program cipher)).initial w).run as).state.db.mfa,
      SealedSince w.db.mfa m := by
  have hreached : System.Reachable w
      (((service (SealedMfaCall.program cipher)).initial w).run as) := ⟨as, rfl⟩
  have hkept := hreached.lift sealingRule_met
    (P := fun _ w' => ∀ m ∈ w'.db.mfa, SealedSince w.db.mfa m) ?_ ?_ fun _ _ _ => trivial
  · exact hkept.2
  · intro m hm secret hsecret _
    exact ⟨m, hm, rfl, hsecret, rfl, rfl⟩
  · intro c i r e _ _ hP hbefore _ hseals
    apply Stmt.Seals.exec hseals
    rw [hbefore]
    exact hP

end

end SoulAuth

namespace SoulAuth.Sample

open Framework

/-- A cipher that adds an empty tag. -/
def taggingCipher : SecretCipher where
  cipher :=
    { encrypt := fun _ plaintext => plaintext ++ List.replicate 16 0
      decrypt := fun _ ciphertext => some (ciphertext.take (ciphertext.length - 16))
      decrypt_encrypt := by
        intro nonce plaintext
        simp
      length_encrypt := by
        intro nonce plaintext
        simp }

def zeroNonce : CipherNonce := ⟨List.replicate 12 0, rfl⟩

/-- Alice's factor, from before the encryption. -/
def oldFactor : UserMfa :=
  { userId := alice, status := .pending, method := .totp, totpSecret := some "secret".toList,
    backupCodes := [], lastTotpStep := none }

def oldWorld : World := { World.fresh 0 with db := { Db.empty with mfa := [oldFactor] } }

/-- Alice enables her factor. -/
def oldEnabled : List (service (SealedMfaCall.program (some taggingCipher))).Action :=
  .start ⟨.enable alice "#secret".toList, zeroNonce⟩ :: List.replicate 3 (.step 0 Ctx.calm)

theorem oldWorld_atRest : AtRest (some taggingCipher) oldWorld oldWorld :=
  ⟨rfl, rfl, rfl, .cons ⟨rfl, secretAtRest_plain (by decide)⟩ .nil⟩

theorem sealed_in_step_old :
    AtRest (some taggingCipher)
        (((service (MfaCall.program { config with mfaKeyConfigured := true })).initial
          oldWorld).run (oldEnabled.map (mirrorAction SealedMfaCall.call))).state
        (((service (SealedMfaCall.program (some taggingCipher))).initial oldWorld).run
          oldEnabled).state ∧
      ∀ i, (((service (MfaCall.program { config with mfaKeyConfigured := true })).initial
          oldWorld).run (oldEnabled.map (mirrorAction SealedMfaCall.call))).outcome i =
        (((service (SealedMfaCall.program (some taggingCipher))).initial oldWorld).run
          oldEnabled).outcome i :=
  sealed_in_step rfl oldWorld_atRest oldEnabled

/-- The factor that Alice's code has enabled. -/
def enabledFactor : UserMfa :=
  { oldFactor with
    status := .enabled
    totpSecret := some (taggingCipher.encrypt zeroNonce "secret".toList)
    lastTotpStep := some 0 }

theorem secrets_sealed_old : SealedSince oldWorld.db.mfa enabledFactor :=
  secrets_sealed (some taggingCipher) oldWorld oldEnabled enabledFactor (by decide +kernel)

end SoulAuth.Sample
