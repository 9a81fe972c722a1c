import SoulAuth.Proofs.ConductOidc

/-! # The rule of the whole system -/

namespace SoulAuth

open Framework Framework.System

variable [Platform]

section

variable {c : Call} {α : Type}

theorem respond_follows {f : α → Reply} {p : Req AuthError α}
    {P : List (Entry machine) → α → Prop} (hp : Follows c (Ends P) [] p)
    (hf : ∀ h a, P h a → Concluded c h (.ok (f a))) :
    Follows c (Concluded c) [] (respond f p) :=
  Prog.meets_bind.mpr (Prog.Meets.mapError hp (fun _ _ ha => hf _ _ ha) fun _ _ _ => trivial)

/-- A request whose statements need no justification. -/
theorem respond_free {f : α → Reply} {p : Req AuthError α} {L : List Effect}
    (hp : Within L p) (hL : ∀ x ∈ L, x ∈ freeEffects)
    (hf : ∀ h a, Concluded c h (.ok (f a))) :
    Follows c (Concluded c) [] (respond f p) := by
  refine respond_follows (P := fun _ _ => True) ?_ fun h a _ => hf h a
  exact (free_follows hp hL).weaken (fun _ hw => hw) (fun _ _ _ he => he)
    fun _ _ _ => ends_of_forall fun _ => trivial

theorem respondOidc_free {f : α → Reply} {p : Req OidcError α} {L : List Effect}
    (hp : Within L p) (hL : ∀ x ∈ L, x ∈ freeEffects)
    (hc : ∀ request, c.endpoint ≠ .token request)
    (hf : ∀ h a, Concluded c h (.ok (f a))) :
    Follows c (Concluded c) [] (respondOidc f p) := by
  refine Prog.meets_bind.mpr (Prog.Meets.mapError (free_follows hp hL) (fun _ a _ => hf _ a) ?_)
  exact fun _ _ _ request hreq => absurd hreq (hc request)

/-- A request that fails a check has done nothing. -/
theorem checked_follows {check : Except AuthError Unit} {p : Req Failure Reply}
    (hp : Follows c (Concluded c) [] p) : Follows c (Concluded c) [] (checked check p) := by
  unfold checked
  cases check with
  | ok u => exact hp
  | error x => trivial

/-- The reply of a completed login. -/
theorem respondLogin_follows {p : Req AuthError IssuedSession}
    (hp : Follows c (Ends fun h issued => ∃ u, SessionOpened u h issued) [] p) :
    Follows c (Concluded c) [] (respondLogin p) := by
  refine respond_follows (P := LoggedIn) ?_ fun _ _ ha => ha
  refine Prog.Meets.bind hp ?_ fun _ _ _ => trivial
  rintro t issued ⟨u, hs⟩
  exact withCookie_follows hs

/-- The reply `ok` says something of the two revocations only. -/
theorem concluded_ok {h : List (Entry machine)} (h₁ : ∀ userId, c.endpoint ≠ .logoutAll userId)
    (h₂ : ∀ token pw, c.endpoint ≠ .resetPassword token pw) : Concluded c h (.ok .ok) :=
  ⟨fun userId hep => absurd hep (h₁ userId), fun token pw hep => absurd hep (h₂ token pw)⟩

end

/-- **Every request conducts itself as the rule says.** -/
theorem conduct_met : conduct.Met := by
  rintro ⟨cfg, endpoint⟩
  show Follows ⟨cfg, endpoint⟩ (Concluded ⟨cfg, endpoint⟩) [] (endpoint.program cfg)
  cases endpoint with
  | register req ip => exact respond_follows register_follows fun _ _ _ => trivial
  | login email password ip =>
    refine respond_follows loginRoute_follows fun h reply hr => ?_
    cases reply with
    | loggedIn response => exact hr
    | ok => exact absurd rfl (hr ⟨[], 0, none, none, []⟩).1
    | tokens response => exact absurd rfl (hr response).2
    | _ => trivial
  | mfaLoginVerify challenge factor ip => exact respondLogin_follows mfaLoginVerify_follows
  | oauthCallback info ip => exact respondLogin_follows handleOauthCallback_follows
  | verifyEmail bearer ip => exact respond_follows verifyEmail_follows fun _ _ _ => trivial
  | resendVerification email =>
    exact respond_follows resendVerification_follows fun _ _ _ => concluded_ok (by simp) (by simp)
  | requestPasswordReset email =>
    exact respond_follows requestPasswordReset_follows fun _ _ _ =>
      concluded_ok (by simp) (by simp)
  | resetPassword bearer newPassword =>
    refine respond_follows resetPasswordRoute_follows fun h _ hr => ⟨?_, ?_⟩
    · rintro userId ⟨⟩
    · rintro token pw -
      exact hr
  | initializePassword userId password =>
    exact respond_follows initializePassword_follows fun _ _ _ => trivial
  | logout bearer =>
    exact respond_free (deleteSessionByToken_within (L := [.deleteSession]) (by simp)) (by decide)
      fun _ _ => concluded_ok (by simp) (by simp)
  | logoutAll userId =>
    refine respond_follows logoutAll_follows fun h _ hr => ⟨?_, ?_⟩
    · rintro _ ⟨⟩
      exact hr
    · rintro token pw ⟨⟩
  | mfaSetup userId =>
    exact respond_free (setupTotp_within (L := [.writeMfa]) (by simp)) (by decide)
      fun _ _ => trivial
  | mfaEnable userId code =>
    exact respond_free (.bind (enableTotp_within (L := [.writeMfa]) (by simp))
      fun _ => within_ensure) (by decide) fun _ _ => concluded_ok (by simp) (by simp)
  | mfaDisable userId code =>
    exact respond_free (.bind (verifyTotp_within (L := [.writeMfa]) (by simp))
      fun _ => .bind within_ensure fun _ => .bind (disableMfa_within (by simp))
      fun _ => within_pure) (by decide) fun _ _ => concluded_ok (by simp) (by simp)
  | updateAccountStatus userId status =>
    refine respond_follows (P := fun _ _ => True) ?_ fun _ _ _ => concluded_ok (by simp) (by simp)
    have hwithin : Within (.writeCredential :: freeEffects)
        (updateUserAccountStatus userId status) :=
      updateUserAccountStatus_within (by decide) (by decide) (by decide) (by decide) (by decide)
        (by decide)
    refine hwithin.meets (fun t e _ he => ?_) fun _ _ _ => ends_of_forall fun _ => trivial
    exact conducted_of_entitled (fun _ _ hep => by cases hep) he
  | updateMembership userId level expiry =>
    exact respond_follows updateMembership_follows fun _ _ _ => trivial
  | recordLockoutFailure email ip =>
    exact respond_free (.bind (.swallow (recordFailedAttempt_within (L := [.writeLockout])
      (by simp))) fun _ => .swallow (recordFailedAttempt_within (by simp))) (by decide)
      fun _ _ => concluded_ok (by simp) (by simp)
  | resetLockoutCounters email ip =>
    exact respond_free (.bind (.swallow (resetAttempts_within (L := [.writeLockout])
      (by simp))) fun _ => .swallow (resetAttempts_within (by simp))) (by decide)
      fun _ _ => concluded_ok (by simp) (by simp)
  | lockoutStatus scope identifier =>
    exact respond_free (.bind within_ofExcept fun _ => checkLockout_within (L := [.writeLockout])
      (by simp)) (by decide) fun _ _ => trivial
  | unlock scope identifier =>
    exact respond_free (.bind within_ofExcept fun _ => unlock_within (L := [.writeLockout])
      (by simp)) (by decide) fun _ _ => trivial
  | cleanupLockouts =>
    exact respond_free (L := [.writeLockout]) (.bind within_getNow fun _ =>
      within_write rfl (by simp)) (by decide) fun _ _ => concluded_ok (by simp) (by simp)
  | cleanupAuthArtifacts =>
    exact respond_free (L := [.deleteSession, .spendResetToken]) (.bind within_getNow fun _ =>
      .bind (within_write rfl (by simp)) fun _ => within_write rfl (by simp)) (by decide)
      fun _ _ => concluded_ok (by simp) (by simp)
  | cleanupOidcArtifacts =>
    exact respondOidc_free (L := [.deleteCode, .deleteAccess, .deleteRefresh])
      (.bind within_getNow fun _ => .bind (within_write rfl (by simp)) fun _ =>
      .bind (within_write rfl (by simp)) fun _ => within_write rfl (by simp)) (by decide)
      (by simp) fun _ _ => concluded_ok (by simp) (by simp)
  | authorize request credentials =>
    exact respond_follows authorize_follows fun _ _ _ => trivial
  | token request =>
    refine Prog.meets_bind.mpr (Prog.Meets.mapError exchangeCodeForTokens_follows ?_ ?_)
    · exact fun _ response hr => ⟨request, rfl, hr⟩
    · rintro h e he _ ⟨⟩ hx
      exact he hx
  | rpLogout request =>
    exact respond_free (rpLogout_within (L := [.deleteAccess, .deleteRefresh, .deleteSession])
      (by simp) (by simp) (by simp)) (by decide) fun _ _ => trivial
  | createClient request createdBy =>
    apply checked_follows
    exact respondOidc_free (L := [.writeClient]) (.bind within_newSecureToken fun _ =>
      .bind within_newSecureToken fun _ => .bind within_hashPassword fun _ =>
      .bind within_getNow fun _ => .bind (within_write rfl (by simp)) fun _ => within_pure)
      (by decide) (by simp) fun _ _ => trivial
  | updateClient clientId request =>
    apply checked_follows
    exact respondOidc_free (L := [.writeClient]) (.bind getClient_within fun _ =>
      .bind within_getNow fun _ => .bind (within_write rfl (by simp)) fun _ => within_pure)
      (by decide) (by simp) fun _ _ => trivial
  | disableClient clientId =>
    exact respondOidc_free (L := [.writeClient]) (.bind within_getNow fun _ =>
      .bind (within_write rfl (by simp)) fun _ => within_ensure)
      (by decide) (by simp) fun _ _ => concluded_ok (by simp) (by simp)
  | regenerateClientSecret clientId =>
    exact respondOidc_free (L := [.writeClient]) (.bind within_newSecureToken fun _ =>
      .bind within_hashPassword fun _ => .bind within_getNow fun _ =>
      .bind (within_write rfl (by simp)) fun _ => .bind within_ensure fun _ => within_pure)
      (by decide) (by simp) fun _ _ => trivial
  | registerAiActor publicKey label =>
    exact respond_follows registerAiActor_follows fun _ _ _ => trivial
  | addAiCredential actorKey publicKey label =>
    exact respond_free (addAiCredential_within (L := [.writeAiCredential]) (by simp)) (by decide)
      fun _ _ => trivial
  | revokeAiCredential actorKey credentialKey =>
    exact respond_free (revokeAiCredential_within (L := [.writeAiCredential, .deleteSession])
      (by simp) (by simp)) (by decide) fun _ _ => concluded_ok (by simp) (by simp)
  | setAiActorStatus actorKey status =>
    exact respond_free (setAiActorStatus_within (L := [.setActorStatus, .deleteSession])
      (by simp) (by simp)) (by decide) fun _ _ => concluded_ok (by simp) (by simp)
  | issueChallenge actorKey => exact respond_follows issueChallenge_follows fun _ _ _ => trivial
  | authenticateAiActor proof =>
    exact respond_follows authenticateAiActor_follows fun _ _ _ => trivial
  | currentUser bearer =>
    exact respond_free (L := []) (.bind authedUser_within fun _ => currentUserResponse_within)
      (by decide) fun _ _ => trivial
  | currentUserCached user =>
    exact respond_free (L := [])
      (.bind authedUserCached_within fun _ => currentUserResponse_within) (by decide)
      fun _ _ => trivial
  | introspect bearer =>
    exact respond_free (L := []) authedSession_within (by decide) fun _ _ => trivial
  | currentActor bearer =>
    exact respond_free (L := []) authedActor_within (by decide) fun _ _ => trivial

/-- The rule holds in every configuration of a run. -/
theorem conduct_holds {w : World} {c : (server).Conf} (hc : Reachable w c) : conduct.Inv c :=
  hc.rule conduct_met fun _ => trivial

theorem footprint_holds {w : World} {c : (server).Conf} (hc : Reachable w c) :
    footprint.Inv c :=
  hc.rule footprint_met fun _ => trivial

end SoulAuth
