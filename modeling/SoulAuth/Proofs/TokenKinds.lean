import SoulAuth.Proofs.AiSessions
import SoulAuth.Routes.SignedTokens

/-! # The kinds of signed tokens do not mix

Every kind has a claim that no other kind carries, its mark. Four of the five
decoders require the mark of their own kind. The decoder of session tokens
requires nothing that cookies and challenges lack; these are stopped by the
look-up of the session, whose fingerprint is the one of a session token.
-/

namespace SoulAuth

open Framework Framework.System

/-- The claim that only tokens of this kind carry. -/
def TokenKind.mark : TokenKind → String
  | session => "session_id"
  | browserSession => "sid"
  | oauthState => "nonce"
  | oidcReturn => "target"
  | mfaChallenge => "email"

section

variable {kind kind' : TokenKind} {token : SignedToken} {now : Timestamp}

/-! ## Marks -/

theorem createOAuthStateToken_ok {returnTarget : Option Str} {nonce : Str}
    (h : createOAuthStateToken returnTarget nonce now = .ok token) :
    returnTarget.all isValidOidcReturnTarget = true ∧
      token = OAuthStateClaims.format.serialize
        ⟨nonce, returnTarget, now + oauthStateTtlSeconds, now⟩ := by
  unfold createOAuthStateToken at h
  by_cases hvalid : returnTarget.all isValidOidcReturnTarget = false
  · rw [if_pos hvalid] at h
    cases h
  · rw [if_neg hvalid] at h
    cases h
    exact ⟨by simpa using hvalid, rfl⟩

theorem createOidcReturnToken_ok {target : Str} (h : createOidcReturnToken target now = .ok token) :
    isValidOidcReturnTarget target = true ∧
      token = OidcReturnClaims.format.serialize ⟨target, now + oauthStateTtlSeconds, now⟩ := by
  unfold createOidcReturnToken at h
  by_cases hvalid : isValidOidcReturnTarget target = false
  · rw [if_pos hvalid] at h
    cases h
  · rw [if_neg hvalid] at h
    cases h
    exact ⟨by simpa using hvalid, rfl⟩

/-- A token lacks the marks of the other kinds. -/
theorem Minted.lacks_mark (hm : Minted kind token) (hne : kind' ≠ kind) :
    token.member kind'.mark = .ok none := by
  cases hm with
  | session claims sid h =>
    cases kind' with
    | session => exact absurd rfl hne
    | browserSession | oauthState | oidcReturn | mfaChallenge => rfl
  | browserSession claims =>
    cases kind' with
    | browserSession => exact absurd rfl hne
    | session | oauthState | oidcReturn | mfaChallenge => rfl
  | oauthState returnTarget nonce now token h =>
    obtain ⟨-, rfl⟩ := createOAuthStateToken_ok h
    cases kind' with
    | oauthState => exact absurd rfl hne
    | session | browserSession | oidcReturn | mfaChallenge => rfl
  | oidcReturn target now token h =>
    obtain ⟨-, rfl⟩ := createOidcReturnToken_ok h
    cases kind' with
    | oidcReturn => exact absurd rfl hne
    | session | browserSession | oauthState | mfaChallenge => rfl
  | mfaChallenge claims =>
    cases kind' with
    | mfaChallenge => exact absurd rfl hne
    | session | browserSession | oauthState | oidcReturn => rfl

/-- A token carries the mark of its kind. -/
theorem Minted.has_mark (hm : Minted kind token) : token.member kind.mark ≠ .ok none := by
  intro h
  cases hm with
  | session | browserSession | mfaChallenge => cases h
  | oauthState returnTarget nonce now token hcreate =>
    obtain ⟨-, rfl⟩ := createOAuthStateToken_ok hcreate
    cases h
  | oidcReturn target now token hcreate =>
    obtain ⟨-, rfl⟩ := createOidcReturnToken_ok hcreate
    cases h

/-- No token is of two kinds. -/
theorem Minted.kind_unique (hm : Minted kind token) (hm' : Minted kind' token) : kind = kind' := by
  by_contra hne
  exact hm.has_mark (hm'.lacks_mark hne)

/-! ## What the decoders require -/

theorem Except.exists_of_bind {ε α β : Type} {x : Except ε α} {f : α → Except ε β} {b : β}
    (h : (x >>= f) = .ok b) : ∃ a, x = .ok a ∧ f a = .ok b := by
  cases x with
  | error e => cases h
  | ok a => exact ⟨a, rfl, h⟩

theorem Except.isOk_eq_false {ε α : Type} {x : Except ε α} (h : ∀ a, x ≠ .ok a) :
    x.isOk = false := by
  cases x with
  | error e => rfl
  | ok a => exact absurd rfl (h a)

theorem Except.ok_of_mapError {ε ε' α : Type} {x : Except ε α} {f : ε → ε'} {a : α}
    (h : x.mapError f = .ok a) : x = .ok a := by
  cases x with
  | error e => cases h
  | ok b =>
    cases h
    rfl

theorem SignedToken.stringField_ne {name : String} (h : token.member name = .ok none) (s : Str) :
    token.stringField name ≠ .ok s := by
  simp [stringField, h]

theorem decodeBrowserSessionToken_lacks (h : token.member "sid" = .ok none)
    (claims : BrowserSessionClaims) : decodeBrowserSessionToken now token ≠ .ok claims := by
  intro hok
  obtain ⟨payload, hdecode, -⟩ := Except.exists_of_bind hok
  obtain ⟨_, hread, -⟩ := Except.exists_of_bind hdecode
  obtain ⟨_, -, hread⟩ := Except.exists_of_bind hread
  obtain ⟨sid, hsid, -⟩ := Except.exists_of_bind hread
  exact SignedToken.stringField_ne h sid hsid

theorem decodeOAuthStateToken_lacks (h : token.member "nonce" = .ok none)
    (claims : OAuthStateClaims) : decodeOAuthStateToken now token ≠ .ok claims := by
  intro hok
  obtain ⟨payload, hdecode, -⟩ := Except.exists_of_bind hok
  obtain ⟨_, hread, -⟩ := Except.exists_of_bind hdecode
  obtain ⟨nonce, hnonce, -⟩ := Except.exists_of_bind hread
  exact SignedToken.stringField_ne h nonce hnonce

theorem decodeOidcReturnToken_lacks (h : token.member "target" = .ok none) (target : Str) :
    decodeOidcReturnToken now token ≠ .ok target := by
  intro hok
  obtain ⟨payload, hdecode, -⟩ := Except.exists_of_bind hok
  obtain ⟨_, hread, -⟩ := Except.exists_of_bind hdecode
  obtain ⟨text, htext, -⟩ := Except.exists_of_bind hread
  exact SignedToken.stringField_ne h text htext

theorem decodeMfaChallengeToken_lacks (h : token.member "email" = .ok none)
    (claims : MfaChallengeClaims) : decodeMfaChallengeToken now token ≠ .ok claims := by
  intro hok
  obtain ⟨payload, hdecode, -⟩ := Except.exists_of_bind hok
  obtain ⟨_, hread, -⟩ := Except.exists_of_bind hdecode
  obtain ⟨_, -, hread⟩ := Except.exists_of_bind hread
  obtain ⟨email, hemail, -⟩ := Except.exists_of_bind hread
  exact SignedToken.stringField_ne h email hemail

/-! ## What the decoders accept -/

/-- The token may be presented at this time: it has not expired, and the
    session that it names, if any, is not a blank. -/
structure SignedToken.Presentable (token : SignedToken) (now : Timestamp) : Prop where
  fresh : ∃ exp, token.intField "exp" = .ok exp ∧ now ≤ exp
  named : ∀ sid, token.stringField "sid" = .ok sid → Str.trim sid ≠ []

/-- Decoding what was signed is the comparison of the expiry. -/
theorem ClaimsFormat.decode_signed {α : Type} (format : ClaimsFormat α) (leeway : Int)
    {claims : α} {exp : Int} (h : (format.serialize claims).intField "exp" = .ok exp) :
    format.decode leeway now (format.serialize claims) =
      if exp < now - leeway then .error .invalidToken else .ok claims := by
  unfold decode
  rw [format.deserialize_serialize, h]
  simp only [bind, Except.bind]
  split
  · rfl
  · rfl

theorem ClaimsFormat.decode_serialize {α : Type} (format : ClaimsFormat α) {leeway : Int}
    (hl : 0 ≤ leeway) {claims : α} (h : (format.serialize claims).Presentable now) :
    format.decode leeway now (format.serialize claims) = .ok claims := by
  obtain ⟨exp, hexp, hle⟩ := h.fresh
  have hlive : ¬ exp < now - leeway := Int.not_lt.mpr ((Int.sub_le_self now hl).trans hle)
  rw [format.decode_signed leeway hexp, if_neg hlive]

/-! ## Claims in the place of tokens

Elsewhere a token is represented by its claims, and the decoder by the
comparison of the expiry. This is what the decoders do with a signed token.
-/

theorem decodeTokenClaims_signed (claims : Claims) :
    decodeTokenClaims now (sessionToken claims) = .ok claims ↔
      ¬ claims.exp < now - defaultLeeway := by
  have hexp : (Claims.format.serialize claims).intField "exp" = .ok claims.exp := rfl
  unfold decodeTokenClaims sessionToken
  rw [Claims.format.decode_signed defaultLeeway hexp]
  by_cases hlate : claims.exp < now - defaultLeeway
  · rw [if_pos hlate]
    simp [hlate]
  · rw [if_neg hlate]
    simp [hlate]

theorem decodeMfaChallengeToken_signed (claims : MfaChallengeClaims) :
    decodeMfaChallengeToken now (mfaChallengeToken claims) = .ok claims ↔
      ¬ claims.exp < now - defaultLeeway := by
  have hexp : (MfaChallengePayload.format.serialize ⟨claims, mfaChallengePurpose⟩).intField "exp" =
      .ok claims.exp := rfl
  unfold decodeMfaChallengeToken mfaChallengeToken
  rw [MfaChallengePayload.format.decode_signed defaultLeeway hexp]
  by_cases hlate : claims.exp < now - defaultLeeway
  · rw [if_pos hlate]
    simp [hlate, bind, Except.bind]
  · rw [if_neg hlate]
    simp [hlate, bind, Except.bind, pure, Except.pure]

theorem decodeBrowserSessionToken_signed (claims : BrowserSessionClaims) :
    decodeBrowserSessionToken now (browserSessionToken claims) = .ok claims ↔
      ¬ claims.exp < now ∧ Str.trim claims.sid ≠ [] := by
  have hexp : (BrowserSessionClaims.format.serialize claims).intField "exp" = .ok claims.exp := rfl
  unfold decodeBrowserSessionToken browserSessionToken
  rw [BrowserSessionClaims.format.decode_signed 0 hexp, Int.sub_zero]
  by_cases hlate : claims.exp < now
  · simp [hlate, bind, Except.bind]
  · by_cases hsid : Str.trim claims.sid = []
    · simp [hlate, hsid, bind, Except.bind]
    · simp [hlate, hsid, bind, Except.bind, pure, Except.pure]

/-- The decoder of a kind accepts what was signed as this kind. -/
theorem Minted.decodes {consumer : Consumer} (hm : Minted consumer.kind token)
    (h : token.Presentable now) : consumer.decodes now token = true := by
  cases consumer with
  | bearer =>
    cases hm with
    | session claims sid _ =>
      have hread : decodeTokenClaims now (sessionToken claims) = .ok claims :=
        Claims.format.decode_serialize (by decide) h
      simp [Consumer.decodes, hread, Except.isOk, Except.toBool]
  | cookie =>
    cases hm with
    | browserSession claims =>
      have hread : BrowserSessionClaims.format.decode 0 now (browserSessionToken claims) =
          .ok claims := BrowserSessionClaims.format.decode_serialize le_rfl h
      have hsid : Str.trim claims.sid ≠ [] := h.named claims.sid rfl
      simp [Consumer.decodes, decodeBrowserSessionToken, hread, hsid, bind, Except.bind,
        pure, Except.pure, Except.isOk, Except.toBool]
  | loginState | callbackState =>
    cases hm with
    | oauthState returnTarget nonce now' token hcreate =>
      obtain ⟨hvalid, rfl⟩ := createOAuthStateToken_ok hcreate
      have hread := OAuthStateClaims.format.decode_serialize le_rfl h
      simp [Consumer.decodes, decodeOAuthStateToken, hread, hvalid, bind, Except.bind,
        pure, Except.pure, Except.isOk, Except.toBool]
  | returnCookie =>
    cases hm with
    | oidcReturn target now' token hcreate =>
      obtain ⟨hvalid, rfl⟩ := createOidcReturnToken_ok hcreate
      have hread := OidcReturnClaims.format.decode_serialize le_rfl h
      simp [Consumer.decodes, decodeOidcReturnToken, hread, hvalid, bind, Except.bind,
        pure, Except.pure, Except.isOk, Except.toBool]
  | mfaLogin =>
    cases hm with
    | mfaChallenge claims =>
      have hread : MfaChallengePayload.format.decode defaultLeeway now (mfaChallengeToken claims) =
          .ok ⟨claims, mfaChallengePurpose⟩ :=
        MfaChallengePayload.format.decode_serialize (by decide) h
      simp [Consumer.decodes, decodeMfaChallengeToken, hread, bind, Except.bind,
        pure, Except.pure, Except.isOk, Except.toBool]

end

/-! ## Sessions are found by session tokens only -/

section

variable [Platform] {now : Timestamp} {c : (server).Conf} {row : Session} {token : SignedToken}
  {kind : TokenKind}

/-- The rows of a reachable state store fingerprints of session tokens. -/
theorem session_minted (hc : Reachable (World.fresh now) c) (hrow : row ∈ c.state.db.sessions) :
    ∃ opening, Minted .session opening ∧ row.storedHash = hashBearer opening := by
  rcases session_origin hc.steps hrow with hfirst | ⟨i, e, hm, hcreate⟩
  · simp [World.fresh, Db.empty] at hfirst
  · obtain ⟨tr₁, tr₂, htr⟩ := List.append_of_mem hm
    obtain ⟨r, -, hopens⟩ := conducted_at hc htr
    unfold Conducted at hopens
    rw [hcreate] at hopens
    obtain ⟨claims, hhash, -, hsession⟩ := hopens.bearer
    refine ⟨sessionToken claims, .session claims row.key hsession, ?_⟩
    rw [Session.storedHash, hhash]
    rfl

/-- A look-up of a session by a token of another kind finds nothing. -/
theorem verifySessionActive_other (hc : Reachable (World.fresh now) c) (hm : Minted kind token)
    (hne : kind ≠ .session) (t : Timestamp) :
    verifySessionActive c.state.db t token = .error .invalidToken := by
  unfold verifySessionActive
  apply if_neg
  intro hany
  obtain ⟨row, hrow, hlive⟩ := List.any_eq_true.mp hany
  have hhash : row.storedHash = hashBearer token := by
    simpa using (Bool.and_eq_true_iff.mp hlive).1
  obtain ⟨opening, hopening, hstored⟩ := session_minted hc hrow
  have heq : opening = token := hashBearer_inj.mp (hstored.symm.trans hhash)
  rw [heq] at hopening
  exact hne (hm.kind_unique hopening)

/-! ## The consumers -/

/-- **The kinds of signed tokens do not mix.** Whatever its claims are, a
    signed token is refused by every consumer of another kind, in every
    reachable state of the database; its own consumers decode it. -/
theorem signedTokens_separate {consumer : Consumer} (hm : Minted kind token) :
    (consumer.kind ≠ kind → ∀ (sight : Sight) (now : Timestamp) (c : (server).Conf),
      Reachable (World.fresh now) c → sight.sessionDb = c.state.db →
        consumer.accepts sight token = false) ∧
    (consumer.kind = kind → ∀ t, token.Presentable t → consumer.decodes t token = true) := by
  constructor
  · intro hne sight now c hc hdb
    cases consumer with
    | bearer =>
      apply Except.isOk_eq_false
      intro claims hok
      obtain ⟨_, -, hrest⟩ := Except.exists_of_bind hok
      obtain ⟨_, hactive, -⟩ := Except.exists_of_bind hrest
      rw [hdb, verifySessionActive_other hc hm (Ne.symm hne)] at hactive
      cases hactive
    | cookie =>
      apply Except.isOk_eq_false
      intro r hok
      obtain ⟨claims, hdecode, -⟩ := Except.exists_of_bind hok
      exact decodeBrowserSessionToken_lacks (hm.lacks_mark hne) claims hdecode
    | loginState =>
      apply Except.isOk_eq_false
      intro r hok
      unfold resolveLoginState at hok
      split at hok
      · next claims hdecode =>
        exact decodeOAuthStateToken_lacks (hm.lacks_mark hne) claims hdecode
      · cases hok
    | callbackState =>
      apply Except.isOk_eq_false
      intro r hok
      obtain ⟨claims, hdecode, -⟩ := Except.exists_of_bind hok
      exact decodeOAuthStateToken_lacks (hm.lacks_mark hne) claims
        (Except.ok_of_mapError hdecode)
    | returnCookie =>
      apply Except.isOk_eq_false
      intro r hok
      exact decodeOidcReturnToken_lacks (hm.lacks_mark hne) r hok
    | mfaLogin =>
      apply Except.isOk_eq_false
      intro claims hok
      exact decodeMfaChallengeToken_lacks (hm.lacks_mark hne) claims (Except.ok_of_mapError hok)
  · intro heq t ht
    rw [← heq] at hm
    exact hm.decodes ht

end

namespace Sample

/-- The cookie of Alice's session. -/
def aliceCookie : BrowserSessionClaims := ⟨alice, aliceSession, 86400, 0⟩

/-- An hour later, while the session row is there. -/
def afterRegistration : Sight where
  startedAt := 3600
  decodedAt := 3600
  lookedUpAt := 3600
  sessionDb := (after prelude).state.db
  userDb := (after prelude).state.db
  maxAge := none
  stateCookie := none

/-- The cookie does not pass for the bearer of the same session. -/
theorem signedTokens_separate_cookie :
    Consumer.bearer.accepts afterRegistration (browserSessionToken aliceCookie) = false ∧
    Consumer.cookie.decodes 3600 (browserSessionToken aliceCookie) = true := by
  have hm : Minted .browserSession (browserSessionToken aliceCookie) := .browserSession aliceCookie
  constructor
  · exact (signedTokens_separate hm).1 (by decide) afterRegistration 0 (after prelude)
      (after_reachable prelude) rfl
  · apply (signedTokens_separate hm).2 rfl
    constructor
    · exact ⟨86400, rfl, by decide⟩
    · intro sid hsid
      obtain rfl : aliceSession = sid := Except.ok.inj hsid
      decide

end Sample

end SoulAuth
