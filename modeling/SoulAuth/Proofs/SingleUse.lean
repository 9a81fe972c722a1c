import SoulAuth.Proofs.Tables

/-! # Every artefact is used once

Authorization codes, refresh tokens, AI challenges and reset tokens are
consumed by a conditional update that counts the rows it changed. The
number of unused rows is the potential of the counting argument: an update
that answers `1` takes one off, and only the request that drew the value
ever puts one in.
-/

namespace SoulAuth

open Framework Framework.System

variable [Platform]

/-! ## One winner of every conditional update -/

section

variable {now : Timestamp} {c : (server).Conf} {x y : Nat × Entry machine}

/-- The counting argument for a value that the request which mints it has
    drawn itself and mints once. -/
theorem one_winner_of_draw {f : Entry machine → Option Str} {g : Nat → Str} (hf : IsDraw f g)
    (hc : Reachable (World.fresh now) c) {v : Str} {k : Effect} (pot : World → Nat)
    (wins mints : Nat × Entry machine → Prop) (h0 : pot (World.fresh now) = 0)
    (hwin : ∀ i e, wins (i, e) → pot e.after + 1 ≤ pot e.before)
    (hmint : ∀ i e, mints (i, e) → pot e.after ≤ pot e.before + 1)
    (hother : ∀ i e, ¬ mints (i, e) → pot e.after ≤ pot e.before)
    (heffect : ∀ i e, mints (i, e) → e.stmt.effect = some k)
    (hdrawn : ∀ tr₁ i e tr₂, c.trace = tr₁ ++ (i, e) :: tr₂ → mints (i, e) →
      v ∈ (entriesOf (S := server) i tr₁).filterMap f ∧
        k ∉ effectsOf (entriesOf (S := server) i tr₁))
    (hx : x ∈ c.trace) (hy : y ∈ c.trace) (hwx : wins x) (hwy : wins y) : x = y := by
  refine hc.steps.one_winner pot wins mints h0 (fun i e _ => hwin i e) (fun i e _ => hmint i e)
    (fun i e _ => hother i e) ?_ hx hy hwx hwy
  rintro tr₁ ⟨i, e⟩ tr₂ ⟨j, e'⟩ tr₃ htr hm hm'
  have hcut : c.trace = (tr₁ ++ (i, e) :: tr₂) ++ (j, e') :: tr₃ := by
    rw [htr, List.append_assoc, List.cons_append]
  obtain ⟨hv, -⟩ := hdrawn _ _ _ _ htr hm
  obtain ⟨hv', honce⟩ := hdrawn _ _ _ _ hcut hm'
  exact issued_once hf hc htr (heffect i e hm) hv hv' honce

theorem code_one_winner (hc : Reachable (World.fresh now) c) {h : Hashed Str}
    (hx : x ∈ c.trace) (hy : y ∈ c.trace)
    (hwx : Answered (.code (.consume h)) 1 x.2) (hwy : Answered (.code (.consume h)) 1 y.2) :
    x = y := by
  refine one_winner_of_draw isDraw_token hc (v := h.of) (k := .saveCode)
    (fun w => w.db.codes.countP (OidcAuthorizationCode.isUnused h))
    (fun z => Answered (.code (.consume h)) 1 z.2)
    (fun z => ∃ row key, z.2.stmt = .db (.code (.save row key)) ∧ row.codeHash = h)
    rfl ?_ ?_ ?_ ?_ ?_ hx hy hwx hwy
  · intro i e hw
    have hone : e.before.db.codes.countP (OidcAuthorizationCode.isUnused h) = 1 := by
      simpa [DbStmt.exec, CodeStmt.exec] using hw.reply
    have hspend := countP_spend (p := OidcAuthorizationCode.isUnused h)
      (q := OidcAuthorizationCode.isUnused h) (f := fun row => { row with used := true })
      (fun _ hrow => hrow) (by simp [OidcAuthorizationCode.isUnused]) e.before.db.codes
    rw [hw.after]
    simp only [DbStmt.exec, CodeStmt.exec]
    omega
  · rintro i e ⟨row, key, hs, -⟩
    rcases codes_after e with h' | ⟨s, hs', h'⟩
    · rw [h']; exact Nat.le_succ _
    · cases hs.symm.trans hs'
      rw [h']
      simp only [CodeStmt.exec]
      split
      · exact Nat.le_succ _
      · split
        · exact Nat.le_succ _
        · simp only [List.countP_append, List.countP_cons, List.countP_nil]
          split <;> omega
  · intro i e hmint
    rcases codes_after e with h' | ⟨s, hs, h'⟩
    · rw [h']
    · rw [h']
      cases s with
      | save row key =>
        have hne : row.codeHash ≠ h := fun heq => hmint ⟨row, key, hs, heq⟩
        simp only [CodeStmt.exec]
        split
        · exact Nat.le_refl _
        · split
          · exact Nat.le_refl _
          · simp [OidcAuthorizationCode.isUnused, hne]
      | get => exact Nat.le_refl _
      | consume =>
        refine countP_map_le (fun row hrow => ?_) _
        split at hrow
        · simp [OidcAuthorizationCode.isUnused] at hrow
        · exact hrow
      | deleteExpired => exact List.filter_sublist.countP_le
  · rintro i e ⟨row, key, hs, -⟩
    rw [hs]; rfl
  · rintro tr₁ i e tr₂ htr ⟨row, key, hs, rfl⟩
    obtain ⟨r, -, hr⟩ := conducted_at hc htr
    unfold Conducted at hr
    rw [hs] at hr
    obtain ⟨_, _, -, hg⟩ := hr
    obtain ⟨code, hcode, heq⟩ := hg.drawn
    exact ⟨heq ▸ hcode, hg.once⟩

theorem refresh_one_winner (hc : Reachable (World.fresh now) c) {h : Hashed Str}
    (hx : x ∈ c.trace) (hy : y ∈ c.trace)
    (hwx : Answered (.refreshToken (.consume h)) 1 x.2)
    (hwy : Answered (.refreshToken (.consume h)) 1 y.2) : x = y := by
  refine one_winner_of_draw isDraw_token hc (v := h.of) (k := .saveRefresh)
    (fun w => w.db.refreshTokens.countP (OidcRefreshToken.isUnused h))
    (fun z => Answered (.refreshToken (.consume h)) 1 z.2)
    (fun z => ∃ row, z.2.stmt = .db (.refreshToken (.save row)) ∧ row.tokenHash = h)
    rfl ?_ ?_ ?_ ?_ ?_ hx hy hwx hwy
  · intro i e hw
    have hone : e.before.db.refreshTokens.countP (OidcRefreshToken.isUnused h) = 1 := by
      simpa [DbStmt.exec, RefreshTokenStmt.exec] using hw.reply
    have hspend := countP_spend (p := OidcRefreshToken.isUnused h)
      (q := OidcRefreshToken.isUnused h) (f := fun row => { row with used := true })
      (fun _ hrow => hrow) (by simp [OidcRefreshToken.isUnused]) e.before.db.refreshTokens
    rw [hw.after]
    simp only [DbStmt.exec, RefreshTokenStmt.exec]
    omega
  · rintro i e ⟨row, hs, -⟩
    rcases refreshTokens_after e with h' | ⟨s, hs', h'⟩
    · rw [h']; exact Nat.le_succ _
    · cases hs.symm.trans hs'
      rw [h']
      simp only [RefreshTokenStmt.exec]
      split
      · exact Nat.le_succ _
      · simp only [List.countP_append, List.countP_cons, List.countP_nil]
        split <;> omega
  · intro i e hmint
    rcases refreshTokens_after e with h' | ⟨s, hs, h'⟩
    · rw [h']
    · rw [h']
      cases s with
      | save row =>
        have hne : row.tokenHash ≠ h := fun heq => hmint ⟨row, hs, heq⟩
        simp only [RefreshTokenStmt.exec]
        split
        · exact Nat.le_refl _
        · simp [OidcRefreshToken.isUnused, hne]
      | get => exact Nat.le_refl _
      | consume =>
        refine countP_map_le (fun row hrow => ?_) _
        split at hrow
        · simp [OidcRefreshToken.isUnused] at hrow
        · exact hrow
      | revokeForClient | revokeAll | deleteExpired => exact List.filter_sublist.countP_le
  · rintro i e ⟨row, hs, -⟩
    rw [hs]; rfl
  · rintro tr₁ i e tr₂ htr ⟨row, hs, rfl⟩
    obtain ⟨r, -, hr⟩ := conducted_at hc htr
    unfold Conducted at hr
    rw [hs] at hr
    obtain ⟨token, htoken, heq⟩ := hr.drawn
    exact ⟨heq ▸ htoken, hr.once⟩

/-- The unconsumed challenges with a nonce, whoever they are for. -/
def AiActorChallenge.isOpen (nonce : Str) (c : AiActorChallenge) : Bool :=
  c.nonce = nonce && !c.consumed

theorem challenge_one_winner (hc : Reachable (World.fresh now) c) {n : Str}
    (hx : x ∈ c.trace) (hy : y ∈ c.trace)
    (hwx : ∃ a t, Answered (.ai (.consumeChallenge n a t)) 1 x.2)
    (hwy : ∃ a t, Answered (.ai (.consumeChallenge n a t)) 1 y.2) : x = y := by
  refine one_winner_of_draw isDraw_token hc (v := n) (k := .createChallenge)
    (fun w => w.db.ai.challenges.countP (AiActorChallenge.isOpen n))
    (fun z => ∃ a t, Answered (.ai (.consumeChallenge n a t)) 1 z.2)
    (fun z => ∃ row, z.2.stmt = .db (.ai (.createChallenge row)) ∧ row.nonce = n)
    rfl ?_ ?_ ?_ ?_ ?_ hx hy hwx hwy
  · rintro i e ⟨a, t, hw⟩
    have hone : e.before.db.ai.challenges.countP (AiActorChallenge.isClaimable n a t) = 1 := by
      simpa [DbStmt.exec, AiActorStmt.exec] using hw.reply
    have hspend := countP_spend (p := AiActorChallenge.isOpen n)
      (q := AiActorChallenge.isClaimable n a t) (f := fun row => { row with consumed := true })
      (by simp +contextual [AiActorChallenge.isOpen, AiActorChallenge.isClaimable])
      (by simp [AiActorChallenge.isOpen]) e.before.db.ai.challenges
    rw [hw.after]
    simp only [DbStmt.exec, AiActorStmt.exec]
    omega
  · rintro i e ⟨row, hs, -⟩
    rcases ai_after e with h' | ⟨s, hs', h'⟩
    · rw [h']; exact Nat.le_succ _
    · cases hs.symm.trans hs'
      rw [h']
      simp only [AiActorStmt.exec]
      split
      · exact Nat.le_succ _
      · simp only [List.countP_append, List.countP_cons, List.countP_nil]
        split <;> omega
  · intro i e hmint
    rcases ai_after e with h' | ⟨s, hs, h'⟩
    · rw [h']
    · rw [h']
      cases s with
      | createChallenge row =>
        have hne : row.nonce ≠ n := fun heq => hmint ⟨row, hs, heq⟩
        simp only [AiActorStmt.exec]
        split
        · exact Nat.le_refl _
        · simp [AiActorChallenge.isOpen, hne]
      | consumeChallenge =>
        refine countP_map_le (fun row hrow => ?_) _
        split at hrow
        · simp [AiActorChallenge.isOpen] at hrow
        · exact hrow
      | createCredential =>
        simp only [AiActorStmt.exec]
        split <;> exact Nat.le_refl _
      | listCredentials | touchCredential | revokeCredential => exact Nat.le_refl _
  · rintro i e ⟨row, hs, -⟩
    rw [hs]; rfl
  · rintro tr₁ i e tr₂ htr ⟨row, hs, rfl⟩
    obtain ⟨r, -, hr⟩ := conducted_at hc htr
    unfold Conducted at hr
    rw [hs] at hr
    exact ⟨hr.drawn, hr.once⟩

/-- The unused reset tokens with a fingerprint, expired or not. -/
def PasswordResetToken.isOpen (h : Hashed Str) (r : PasswordResetToken) : Bool :=
  r.tokenHash = h && !r.used

theorem reset_one_winner (hc : Reachable (World.fresh now) c) {h : Hashed Str}
    (hx : x ∈ c.trace) (hy : y ∈ c.trace)
    (hwx : Answered (.resetToken (.claim h)) 1 x.2)
    (hwy : Answered (.resetToken (.claim h)) 1 y.2) : x = y := by
  refine one_winner_of_draw isDraw_uuid hc (v := h.of) (k := .createResetToken)
    (fun w => w.db.resetTokens.countP (PasswordResetToken.isOpen h))
    (fun z => Answered (.resetToken (.claim h)) 1 z.2)
    (fun z => ∃ row, z.2.stmt = .db (.resetToken (.create row)) ∧ row.tokenHash = h)
    rfl ?_ ?_ ?_ ?_ ?_ hx hy hwx hwy
  · intro i e hw
    have hone : e.before.db.resetTokens.countP
        (PasswordResetToken.isClaimable h (clock e)) = 1 := by
      simpa [DbStmt.exec, ResetTokenStmt.exec] using hw.reply
    have hspend := countP_spend (p := PasswordResetToken.isOpen h)
      (q := PasswordResetToken.isClaimable h (clock e))
      (f := fun row => { row with used := true })
      (by simp +contextual [PasswordResetToken.isOpen, PasswordResetToken.isClaimable])
      (by simp [PasswordResetToken.isOpen]) e.before.db.resetTokens
    rw [hw.after]
    simp only [DbStmt.exec, ResetTokenStmt.exec]
    omega
  · rintro i e ⟨row, hs, -⟩
    rcases resetTokens_after e with h' | ⟨s, hs', h'⟩
    · rw [h']; exact Nat.le_succ _
    · cases hs.symm.trans hs'
      rw [h']
      simp only [ResetTokenStmt.exec]
      split
      · exact Nat.le_succ _
      · simp only [List.countP_append, List.countP_cons, List.countP_nil]
        split <;> omega
  · intro i e hmint
    rcases resetTokens_after e with h' | ⟨s, hs, h'⟩
    · rw [h']
    · rw [h']
      cases s with
      | create row =>
        have hne : row.tokenHash ≠ h := fun heq => hmint ⟨row, hs, heq⟩
        simp only [ResetTokenStmt.exec]
        split
        · exact Nat.le_refl _
        · simp [PasswordResetToken.isOpen, hne]
      | find => exact Nat.le_refl _
      | invalidate | claim =>
        refine countP_map_le (fun row hrow => ?_) _
        split at hrow
        · simp [PasswordResetToken.isOpen] at hrow
        · exact hrow
      | deleteSpent => exact List.filter_sublist.countP_le
  · rintro i e ⟨row, hs, -⟩
    rw [hs]; rfl
  · rintro tr₁ i e tr₂ htr ⟨row, hs, rfl⟩
    obtain ⟨r, -, hr⟩ := conducted_at hc htr
    unfold Conducted at hr
    rw [hs] at hr
    obtain ⟨token, htoken, heq⟩ := hr.drawn
    exact ⟨heq ▸ htoken, hr.once⟩

end

/-! ## What an artefact yields -/

/-- Request number `i` presents the authorization code to the code grant. -/
def PresentsCode (c : (server).Conf) (i : Nat) (code : Str) : Prop :=
  ∃ cfg request, c.reqOf i = some ⟨cfg, .token request⟩ ∧
    request.grantType = "authorization_code".toList ∧ request.code = some code

/-- Request number `i` presents the refresh token to the refresh grant. -/
def PresentsRefresh (c : (server).Conf) (i : Nat) (token : Str) : Prop :=
  ∃ cfg request, c.reqOf i = some ⟨cfg, .token request⟩ ∧
    request.grantType = "refresh_token".toList ∧ request.refreshToken = some token

/-- Request number `i` presents the reset token. -/
def PresentsReset (c : (server).Conf) (i : Nat) (token : Str) : Prop :=
  ∃ cfg pw, c.reqOf i = some ⟨cfg, .resetPassword token pw⟩

/-- Request number `i` has been answered with tokens, or has saved some. -/
def YieldsTokens (c : (server).Conf) (i : Nat) : Prop :=
  (∃ response, c.Returned i (.ok (.tokens response))) ∨
    ∃ e, (i, e) ∈ c.trace ∧
      (e.stmt.effect = some .saveAccess ∨ e.stmt.effect = some .saveRefresh)

/-- A statement that stores the hash of a password. -/
def Stmt.storesPassword : Stmt → Bool
  | .db (.identity (.credential (.rotate _ _ _))) => true
  | .db (.identity (.credential (.create _))) => true
  | _ => false

/-- Request number `i` has stored the hash of a password. -/
def ChangesPassword (c : (server).Conf) (i : Nat) : Prop :=
  ∃ e, (i, e) ∈ c.trace ∧ e.stmt.storesPassword = true

/-- The entry creates a session for an AI actor that answered the challenge
    with this nonce. -/
def opensAiSession (c : (server).Conf) (nonce : Str) (x : Nat × Entry machine) : Bool :=
  match (c.reqOf x.1).map Call.endpoint, x.2.stmt with
  | some (.authenticateAiActor proof), .db (.session (.create _)) => proof.nonce = nonce
  | _, _ => false

section

variable {now : Timestamp} {c : (server).Conf} {i j : Nat}

/-- A request that yields tokens has redeemed an artefact of its own. -/
theorem redeemed_of_yields {w : World} (hc : Reachable w c) {cfg : Config}
    {request : TokenRequest} (hreq : c.reqOf i = some ⟨cfg, .token request⟩)
    (hy : YieldsTokens c i) : ∃ clientId userId scope,
      Redeemed request (entriesOf (S := server) i c.trace) clientId userId scope := by
  have hsave : ∃ e, (i, e) ∈ c.trace ∧
      (e.stmt.effect = some .saveAccess ∨ e.stmt.effect = some .saveRefresh) := by
    rcases hy with ⟨response, hret⟩ | hsave
    · obtain ⟨r, hr, hout⟩ := (conduct_holds hc).returned hret
      obtain ⟨request', -, hissued⟩ := hout
      obtain ⟨t, hsaved⟩ := hissued.saved
      obtain ⟨e, he, ha⟩ := heard_mem hsaved fun _ he => he
      exact ⟨e, he, .inl ha.effect⟩
    · exact hsave
  obtain ⟨e, hm, heff⟩ := hsave
  obtain ⟨tr₁, tr₂, htr⟩ := List.append_of_mem hm
  obtain ⟨r, hr, hcond⟩ := conducted_at hc htr
  cases hr.symm.trans hreq
  have hlift : ∀ {a b d : Str}, Redeemed request (entriesOf (S := server) i tr₁) a b d →
      Redeemed request (entriesOf (S := server) i c.trace) a b d := by
    intro a b d hred
    rw [htr, entriesOf_append]
    exact hred.mono _
  have hsaves : (∃ t, e.stmt = .db (.accessToken (.save t))) ∨
      ∃ t, e.stmt = .db (.refreshToken (.save t)) := by
    obtain ⟨ctx, s, w'⟩ := e
    unfold Stmt.effect DbStmt.effect at heff
    simp only at heff
    split at heff
    · split at heff <;> simp_all
    · simp at heff
  unfold Conducted at hcond
  rcases hsaves with ⟨t, hs⟩ | ⟨t, hs⟩
  · rw [hs] at hcond
    obtain ⟨request', userId, hep, -, hred⟩ := hcond.redeemed
    cases hep
    exact ⟨_, _, _, hlift hred⟩
  · rw [hs] at hcond
    obtain ⟨request', userId, hep, -, hred⟩ := hcond.redeemed
    cases hep
    exact ⟨_, _, _, hlift hred⟩

theorem code_won {w : World} (hc : Reachable w c) {code : Str} (hp : PresentsCode c i code)
    (hy : YieldsTokens c i) :
    ∃ e, (i, e) ∈ c.trace ∧ Answered (.code (.consume (hashBearer code))) 1 e := by
  obtain ⟨cfg, request, hreq, hgrant, hcode⟩ := hp
  obtain ⟨_, _, _, hred⟩ := redeemed_of_yields hc hreq hy
  cases hred with
  | code code' client row ha hwon =>
    obtain rfl : code' = code := Option.some.inj (ha.presented.symm.trans hcode)
    exact heard_mem hwon fun _ he => he
  | refresh token scope client stored ha hwon _ =>
    exact absurd (ha.grant.symm.trans hgrant) (by decide)

theorem refresh_won {w : World} (hc : Reachable w c) {token : Str}
    (hp : PresentsRefresh c i token) (hy : YieldsTokens c i) :
    ∃ e, (i, e) ∈ c.trace ∧ Answered (.refreshToken (.consume (hashBearer token))) 1 e := by
  obtain ⟨cfg, request, hreq, hgrant, htoken⟩ := hp
  obtain ⟨_, _, _, hred⟩ := redeemed_of_yields hc hreq hy
  cases hred with
  | code code client row ha hwon => exact absurd (ha.grant.symm.trans hgrant) (by decide)
  | refresh token' scope client stored ha hwon _ =>
    obtain rfl : token' = token := Option.some.inj (ha.presented.symm.trans htoken)
    exact heard_mem hwon fun _ he => he

theorem reset_won {w : World} (hc : Reachable w c) {token : Str} (hp : PresentsReset c i token)
    (hch : ChangesPassword c i) :
    ∃ e, (i, e) ∈ c.trace ∧ Answered (.resetToken (.claim (hashBearer token))) 1 e := by
  obtain ⟨cfg, pw, hreq⟩ := hp
  obtain ⟨e, hm, heff⟩ := hch
  obtain ⟨tr₁, tr₂, htr⟩ := List.append_of_mem hm
  obtain ⟨r, hr, hcond⟩ := conducted_at hc htr
  cases hr.symm.trans hreq
  have hent : Entitled ⟨cfg, .resetPassword token pw⟩ (entriesOf (S := server) i tr₁) := by
    unfold Conducted at hcond
    unfold Stmt.storesPassword at heff
    split at heff
    · next hs => rwa [hs] at hcond
    · next hs => rwa [hs] at hcond
    · cases heff
  obtain ⟨e', he', ha⟩ := heard_mem (hent token pw rfl) fun _ he => he
  exact ⟨e', htr ▸ List.mem_append_left _ he', ha⟩

theorem opens_session {nonce : Str} {e : Entry machine}
    (ho : opensAiSession c nonce (i, e) = true) :
    ∃ cfg proof s, c.reqOf i = some ⟨cfg, .authenticateAiActor proof⟩ ∧
      proof.nonce = nonce ∧ e.stmt = .db (.session (.create s)) := by
  unfold opensAiSession at ho
  split at ho
  · next proof s hr hs =>
    obtain ⟨⟨cfg, ep⟩, hr, rfl⟩ := Option.map_eq_some_iff.mp hr
    exact ⟨cfg, proof, s, hr, by simpa using ho, hs⟩
  · cases ho

/-- The sessions for one challenge are at one place of the trace. -/
theorem aiSession_once (hc : Reachable (World.fresh now) c) (nonce : Str) :
    (c.trace.filter (opensAiSession c nonce)).length ≤ 1 := by
  refine filter_length_le_one ?_
  rintro tr₁ ⟨i, e⟩ tr₂ ⟨j, e'⟩ tr₃ htr ho ho'
  have hcut : c.trace = (tr₁ ++ (i, e) :: tr₂) ++ (j, e') :: tr₃ := by
    rw [htr, List.append_assoc, List.cons_append]
  have hwon : ∀ {k : Nat} {d : Entry machine} {tr tr' : List (Nat × Entry machine)},
      c.trace = tr ++ (k, d) :: tr' → opensAiSession c nonce (k, d) = true →
      (∃ x, (k, x) ∈ c.trace ∧ ∃ a t, Answered (.ai (.consumeChallenge nonce a t)) 1 x) ∧
        .createSession ∉ effectsOf (entriesOf (S := server) k tr) ∧
        d.stmt.effect = some .createSession := by
    intro k d tr tr' hcut ho
    obtain ⟨cfg, proof, s, hreq, hnonce, hs⟩ := opens_session ho
    obtain ⟨r, hr, hcond⟩ := conducted_at hc hcut
    cases hr.symm.trans hreq
    unfold Conducted at hcond
    rw [hs] at hcond
    refine ⟨?_, hcond.once, by rw [hs]; rfl⟩
    rcases hcond.owner with ⟨proof', hep, t, hheard⟩ | ⟨u, -, -, hgate⟩
    · cases hep
      obtain ⟨x, hx, ha⟩ := heard_mem hheard fun _ he => he
      exact ⟨x, hcut ▸ List.mem_append_left _ hx, proof.actorKey, t, hnonce ▸ ha⟩
    · exact hgate.elim
  obtain ⟨⟨x, hx, hax⟩, -, heff⟩ := hwon htr ho
  obtain ⟨⟨y, hy, hay⟩, honce, -⟩ := hwon hcut ho'
  have hxy : (i, x) = (j, y) := challenge_one_winner hc hx hy hax hay
  obtain rfl : i = j := congrArg Prod.fst hxy
  refine honce (mem_effectsOf.mpr ⟨e, ?_, heff⟩)
  rw [entriesOf_append]
  exact List.mem_append_right _ (mem_entriesOf.mpr (by simp))

/-- **Single use.** In every run, under every interleaving: one request at
    most yields tokens for an authorization code, one at most rotates a
    refresh token, one session at most is created for a challenge nonce,
    and one request at most changes a password with a reset token. -/
theorem single_use (hc : Reachable (World.fresh now) c) :
    (∀ code i j, PresentsCode c i code → PresentsCode c j code →
      YieldsTokens c i → YieldsTokens c j → i = j) ∧
    (∀ token i j, PresentsRefresh c i token → PresentsRefresh c j token →
      YieldsTokens c i → YieldsTokens c j → i = j) ∧
    (∀ nonce, (c.trace.filter (opensAiSession c nonce)).length ≤ 1) ∧
    ∀ token i j, PresentsReset c i token → PresentsReset c j token →
      ChangesPassword c i → ChangesPassword c j → i = j := by
  refine ⟨?_, ?_, aiSession_once hc, ?_⟩
  · intro code i j hi hj hyi hyj
    obtain ⟨e, hm, ha⟩ := code_won hc hi hyi
    obtain ⟨e', hm', ha'⟩ := code_won hc hj hyj
    exact congrArg Prod.fst (code_one_winner hc hm hm' ha ha')
  · intro token i j hi hj hyi hyj
    obtain ⟨e, hm, ha⟩ := refresh_won hc hi hyi
    obtain ⟨e', hm', ha'⟩ := refresh_won hc hj hyj
    exact congrArg Prod.fst (refresh_one_winner hc hm hm' ha ha')
  · intro token i j hi hj hyi hyj
    obtain ⟨e, hm, ha⟩ := reset_won hc hi hyi
    obtain ⟨e', hm', ha'⟩ := reset_won hc hj hyj
    exact congrArg Prod.fst (reset_one_winner hc hm hm' ha ha')

end

end SoulAuth

namespace SoulAuth.Sample

/-- Request 4 presents the code that request 3 has redeemed. -/
theorem single_use_exchanged :
    ¬ YieldsTokens (after (exchanged ++ start config (redeem code) :: steps 4 4)) 4 := fun h =>
  absurd ((single_use (after_reachable _)).1 code 3 4
    ⟨config, redemption code, by decide +kernel, rfl, rfl⟩
    ⟨config, redemption code, by decide +kernel, rfl, rfl⟩
    (.inl (tokens_of_answered (by decide +kernel))) h) (by decide)

end SoulAuth.Sample
