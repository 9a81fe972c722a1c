import SoulAuth.Proofs.FactorTable

/-! # The conduct of requests on second factors

Four endpoints write the records of second factors. What each of them has
done before it writes, and what a request that has been let through by a
second factor has done when it returns.
-/

namespace SoulAuth

open Framework Framework.System Framework.KeyedTable

/-- The second factor that a request presents, and the user it is for. -/
def Endpoint.factor : Endpoint → Option (Str × SecondFactor)
  | mfaEnable userId code | mfaDisable userId code => some (userId, .totp code)
  | mfaLoginVerify challenge factor _ => some (challenge.sub, factor)
  | _ => none

variable [Platform]

/-! ## The rule -/

/-- The step of the window that has the code, if the secret can be read. -/
def codeStep (secret code : Str) (now : Timestamp) : Option Int :=
  (totpOf secret).toOption.bind fun totp => matchTotpStep totp code now

/-- The code was valid under the secret at a time that the request saw. -/
def ValidAt (h : List (Entry machine)) (secret code : Str) (step : Int) : Prop :=
  ∃ now, (∃ e ∈ h, SawTime now e) ∧ codeStep secret code now = some step

/-- A new enrolment: its secret is the request's own, and the request has
    looked for an enabled record. -/
structure Enrolling (c : Call) (h : List (Entry machine)) (row : UserMfa) : Prop where
  endpoint : c.endpoint = .mfaSetup row.userId
  status : row.status = .pending
  unstepped : row.lastTotpStep = none
  secret : ∃ secret ∈ tokensOf h, row.totpSecret = some secret
  read : ∃ r ∈ h, r.stmt = .db (.mfa (.get row.userId)) ∧
    (r.ctx.fault = none → ¬ FactorEnabled row.userId r.before.db.mfa)

/-- A TOTP step is consumed: the code is the one presented, and the secret
    is that of the record that the request has read. -/
structure FactorStepping (c : Call) (h : List (Entry machine)) (userId secret : Str) (step : Int)
    (enable : Bool) : Prop where
  presented : ∃ code, c.endpoint.factor = some (userId, .totp code) ∧
    ValidAt h secret code step
  read : ∃ m, Heard h (.mfa (.get userId)) (some m) ∧ m.totpSecret = some secret
  enables : enable = true → ∃ code, c.endpoint = .mfaEnable userId code ∧
    ValidAt h secret code step

/-- A backup code is consumed: the stored code matches the one presented. -/
structure FactorSpending (c : Call) (userId used : Str) : Prop where
  presented : ∃ code, c.endpoint.factor = some (userId, .backupCode code) ∧
    verifyBackupCode used code = true

/-- The second factor of a user was verified: the statement that consumes
    it has answered. -/
def FactorVerified (h : List (Entry machine)) (userId : Str) : SecondFactor → Prop
  | .totp code => ∃ secret step enable, ValidAt h secret code step ∧
      Heard h (.mfa (.consumeTotpStep userId secret step enable)) true
  | .backupCode code => ∃ used, verifyBackupCode used code = true ∧
      Heard h (.mfa (.consumeBackupCode userId used)) true
  | .none => False

/-- A record is deleted: by a request to disable it with a verified code. -/
def Disabling (c : Call) (h : List (Entry machine)) (userId : Str) : Prop :=
  ∃ code, c.endpoint = .mfaDisable userId code ∧ FactorVerified h userId (.totp code)

/-- What holds of a statement on the records of second factors. -/
def MfaConducted (c : Call) (h : List (Entry machine)) (e : Entry machine) : Prop :=
  match e.stmt with
  | .db (.mfa (.save row)) => Enrolling c h row
  | .db (.mfa (.consumeTotpStep userId secret step enable)) =>
    FactorStepping c h userId secret step enable
  | .db (.mfa (.consumeBackupCode userId used)) => FactorSpending c userId used
  | .db (.mfa (.delete userId)) => Disabling c h userId
  | _ => True

/-- A request that succeeds has had its second factor verified. -/
def MfaConcluded (c : Call) (h : List (Entry machine)) (r : Except Failure Reply) : Prop :=
  ∀ userId factor reply, c.endpoint.factor = some (userId, factor) → r = .ok reply →
    FactorVerified h userId factor

def mfaRule : System.Rule server where
  assumes := fun _ => True
  entry := MfaConducted
  outcome := MfaConcluded

/-! ## Following the programs -/

section

variable {c : Call} {h : List (Entry machine)} {ε α β : Type} {userId : Str}

theorem ValidAt.mono {secret code : Str} {step : Int} (hv : ValidAt h secret code step)
    (t : List (Entry machine)) : ValidAt (h ++ t) secret code step := by
  obtain ⟨now, ⟨e, he, hsaw⟩, hstep⟩ := hv
  exact ⟨now, ⟨e, List.mem_append_left t he, hsaw⟩, hstep⟩

theorem FactorVerified.mono {factor : SecondFactor} (hv : FactorVerified h userId factor)
    (t : List (Entry machine)) : FactorVerified (h ++ t) userId factor := by
  cases factor with
  | totp code =>
    obtain ⟨secret, step, enable, hvalid, hheard⟩ := hv
    exact ⟨secret, step, enable, hvalid.mono t, hheard.mono t⟩
  | backupCode code =>
    obtain ⟨used, hmatch, hheard⟩ := hv
    exact ⟨used, hmatch, hheard.mono t⟩
  | none => exact hv

/-- The record that a read answered with. -/
theorem Answered.factor {m : Option UserMfa} {e : Entry machine}
    (ha : Answered (.mfa (.get userId)) m e) : factorOf userId e.before.db.mfa = m := by
  have hreply := ha.reply
  cases hreply
  rfl

/-- A statement that writes no record of a second factor. -/
theorem mfaConducted_of_effect {e : Entry machine} (he : e.stmt.effect ≠ some .writeMfa) :
    MfaConducted c h e := by
  obtain ⟨ctx, s, w⟩ := e
  unfold MfaConducted
  split
  all_goals first
    | trivial
    | (next hs => cases hs; exact absurd rfl he)

theorem mfaConducted_of_within {e : Entry machine} {L : List Effect} (he : e.stmt.Within L)
    (hL : .writeMfa ∉ L) : MfaConducted c h e :=
  mfaConducted_of_effect fun heff => hL (he _ heff)

/-- A program under the rule of one request. -/
abbrev MfaFollows {ε α : Type} (c : Call) (Q : List (Entry machine) → Except ε α → Prop)
    (h : List (Entry machine)) (p : Req ε α) : Prop :=
  p.Meets (fun _ => True) (MfaConducted c) Q h

/-- A part of a program that leaves the second factors alone. -/
theorem mfaSkip_bind {p : Req ε α} {f : α → Req ε β}
    {Q : List (Entry machine) → Except ε β → Prop} {L : List Effect} (hp : Within L p)
    (hL : .writeMfa ∉ L) (hok : ∀ t a, MfaFollows c Q (h ++ t) (f a))
    (herr : ∀ t x, Q (h ++ t) (.error x)) : MfaFollows c Q h (p >>= f) :=
  meets_skip_bind hp (fun _ _ _ he => mfaConducted_of_within he hL) (fun t a _ => hok t a)
    fun t x _ => herr t x

/-- Such a part at the end. -/
theorem mfaSkip {p : Req ε α} {Q : List (Entry machine) → Except ε α → Prop} {L : List Effect}
    (hp : Within L p) (hL : .writeMfa ∉ L) (hQ : ∀ t x, Q (h ++ t) x) : MfaFollows c Q h p :=
  hp.meets (fun _ _ _ he => mfaConducted_of_within he hL) fun t x _ => hQ t x

/-- A read of the record: what it answered, and what was there when it
    answered that there is none. -/
def FactorRead (userId : Str) (h : List (Entry machine)) (res : Except AuthError UserMfa) :
    Prop :=
  ∃ r ∈ h, r.stmt = .db (.mfa (.get userId)) ∧
    (∀ m, res = .ok m → Answered (.mfa (.get userId)) (some m) r) ∧
    ((∀ m, res ≠ .ok m) → r.ctx.fault = none → factorOf userId r.before.db.mfa = none)

theorem getUserMfa_reads : MfaFollows c (FactorRead userId) h (getUserMfa userId) := by
  have hbind : getUserMfa userId = query (.mfa (.get userId)) >>= fun row =>
      Prog.orThrow AuthError.userNotFound row := rfl
  rw [hbind, query_bind]
  intro ctx w _
  refine ⟨mfaConducted_of_effect nofun, ?_⟩
  have hfail : ∀ x : AuthError, ctx.fault ≠ none → FactorRead userId
      (h ++ [⟨ctx, .db (.mfa (.get userId)), w⟩]) (.error x) := by
    intro x hfault
    refine ⟨_, List.mem_append_right _ (List.mem_singleton_self _), rfl, ?_, ?_⟩
    · intro m hm
      cases hm
    · intro _ hnone
      exact absurd hnone hfault
  obtain ⟨elapsed, fault⟩ := ctx
  cases fault with
  | none =>
    have hanswer : Answered (.mfa (.get userId)) (factorOf userId w.db.mfa)
        ⟨⟨elapsed, none⟩, .db (.mfa (.get userId)), w⟩ := ⟨rfl, rfl, rfl⟩
    show (Prog.orThrow AuthError.userNotFound (factorOf userId w.db.mfa)).Meets _ _ _ _
    cases hrow : factorOf userId w.db.mfa with
    | none =>
      refine ⟨_, List.mem_append_right _ (List.mem_singleton_self _), rfl, ?_, fun _ _ => hrow⟩
      intro m hm
      cases hm
    | some m =>
      refine ⟨_, List.mem_append_right _ (List.mem_singleton_self _), rfl, ?_, fun hne => ?_⟩
      · intro m' hm'
        cases hm'
        rwa [hrow] at hanswer
      · exact absurd rfl (hne m)
  | some fault =>
    cases fault with
    | refused => exact hfail _ nofun
    | conflict => exact hfail _ nofun
    | lostReply => exact hfail _ nofun

/-- The same with what follows it. -/
theorem getUserMfa_bind {f : UserMfa → Req AuthError α}
    {Q : List (Entry machine) → Except AuthError α → Prop}
    (hok : ∀ t m, Heard (h ++ t) (.mfa (.get userId)) (some m) → MfaFollows c Q (h ++ t) (f m))
    (herr : ∀ t x, Q (h ++ t) (.error x)) : MfaFollows c Q h (getUserMfa userId >>= f) := by
  apply getUserMfa_reads.bind
  · intro t m hread
    obtain ⟨r, hr, -, hanswer, -⟩ := hread
    exact hok t m ⟨r, hr, hanswer m rfl⟩
  · intro t x _
    exact herr t x

/-- The record that was read is the record of the user. -/
theorem Heard.factor_userId {m : UserMfa} (hm : Heard h (.mfa (.get userId)) (some m)) :
    m.userId = userId := by
  obtain ⟨e, -, he⟩ := hm
  exact factorOf_userId he.factor

theorem setupTotp_follows {cfg : Config} :
    MfaFollows ⟨cfg, .mfaSetup userId⟩ (fun _ _ => True) h (setupTotp cfg userId) := by
  have hexisting : MfaFollows ⟨cfg, .mfaSetup userId⟩ (Ends (FactorRead userId)) h
      ((getUserMfa userId).attempt : Req AuthError (Except AuthError UserMfa)) :=
    getUserMfa_reads.attempt fun _ _ hres => hres
  apply hexisting.bind
  · intro t₁ existing hread
    obtain ⟨r, hr, hstmt, hanswer, hnone⟩ := hread
    apply meets_ensure_bind _ fun _ => trivial
    intro hensure
    have hfound : r.ctx.fault = none → ¬ FactorEnabled userId r.before.db.mfa := by
      intro hfault henabled
      cases existing with
      | ok m =>
        have hrow := (hanswer m rfl).factor
        rw [FactorEnabled, hrow] at henabled
        have hstatus : m.status = .enabled := Option.some.inj henabled
        simp [Except.toOption, hstatus] at hensure
      | error x =>
        have hrow := hnone nofun hfault
        rw [FactorEnabled, hrow] at henabled
        cases henabled
    apply meets_newSecureToken_bind (fun _ _ _ => mfaConducted_of_effect nofun)
    intro e secret _ _ htoken
    apply mfaSkip_bind drawBackupCodes_within List.not_mem_nil _ fun _ _ => trivial
    intro t₂ codes
    apply meets_ofExcept_bind _ fun _ _ => trivial
    intro _ _
    apply meets_query_bind
    · intro ctx w _
      refine ⟨rfl, rfl, rfl, ⟨secret, ?_, rfl⟩, r, ?_, hstmt, hfound⟩
      · rw [tokensOf_append, tokensOf_snoc htoken]
        simp
      · exact List.mem_append_left t₂ (List.mem_append_left [e] hr)
    · intro e' _ _ _
      trivial
    · intro e' x _
      trivial
  · intro t x hx
    trivial

/-- The end of a request that consumes a TOTP step. -/
theorem acceptTotpCode_follows {cfg : Config} {m : UserMfa} {code : Str} {enable : Bool}
    (hm : Heard h (.mfa (.get userId)) (some m))
    (hfactor : c.endpoint.factor = some (userId, .totp code))
    (henable : enable = true → c.endpoint = .mfaEnable userId code) :
    MfaFollows c (Ends fun h' accepted => accepted = true → FactorVerified h' userId (.totp code)) h
      (acceptTotpCode cfg m code enable) := by
  apply meets_orThrow_bind _ fun _ => trivial
  intro secret hsecret
  apply meets_ofExcept_bind _ fun _ _ => trivial
  intro _ _
  rw [verifyTotpCode, Prog.bind_assoc']
  apply meets_ofExcept_bind _ fun _ _ => trivial
  intro totp htotp
  rw [Prog.bind_assoc']
  apply meets_getNow_bind fun _ _ _ => mfaConducted_of_effect nofun
  intro e now _ hsaw
  have hvalid : ∀ step, matchTotpStep totp code now = some step →
      ValidAt (h ++ [e]) secret code step := by
    intro step hstep
    refine ⟨now, ⟨e, by simp, hsaw⟩, ?_⟩
    rw [codeStep, htotp]
    exact hstep
  dsimp only
  cases hstep : matchTotpStep totp code now with
  | none => exact fun h => absurd h Bool.false_ne_true
  | some step =>
    have hid := hm.factor_userId
    show (query (.mfa (.consumeTotpStep m.userId secret step enable))).Meets _ _ _ _
    rw [hid]
    apply meets_query
    · intro ctx w _
      exact ⟨⟨code, hfactor, hvalid step hstep⟩, ⟨m, hm.mono _, hsecret⟩,
        fun hen => ⟨code, henable hen, hvalid step hstep⟩⟩
    · intro e' accepted _ he' htrue
      obtain rfl : accepted = true := htrue
      exact ⟨secret, step, enable, (hvalid step hstep).mono [e'], he'.heard⟩
    · intro e' x _
      trivial

theorem verifyTotp_follows {cfg : Config} {code : Str}
    (hfactor : c.endpoint.factor = some (userId, .totp code)) :
    MfaFollows c (Ends fun h' accepted => accepted = true → FactorVerified h' userId (.totp code)) h
      (verifyTotp cfg userId code) := by
  apply getUserMfa_bind _ fun _ _ => trivial
  intro t m hm
  by_cases hstatus : m.status = .enabled
  · rw [if_pos hstatus]
    exact acceptTotpCode_follows hm hfactor fun h => absurd h Bool.false_ne_true
  · rw [if_neg hstatus]
    exact fun h => absurd h Bool.false_ne_true

theorem useBackupCode_follows {code : Str}
    (hfactor : c.endpoint.factor = some (userId, .backupCode code)) :
    MfaFollows c
      (Ends fun h' accepted => accepted = true → FactorVerified h' userId (.backupCode code)) h
      (useBackupCode userId code) := by
  apply getUserMfa_bind _ fun _ _ => trivial
  intro t m hm
  by_cases hstatus : m.status = .enabled
  · rw [if_pos hstatus]
    cases hused : m.backupCodes.find? fun stored => verifyBackupCode stored code with
    | none => exact fun h => absurd h Bool.false_ne_true
    | some used =>
      have hmatch : verifyBackupCode used code = true :=
        List.find?_some (p := fun stored => verifyBackupCode stored code) hused
      have hid := hm.factor_userId
      show (query (.mfa (.consumeBackupCode m.userId used))).Meets _ _ _ _
      rw [hid]
      apply meets_query
      · intro ctx w _
        exact ⟨⟨code, hfactor, hmatch⟩⟩
      · intro e accepted _ he htrue
        obtain rfl : accepted = true := htrue
        exact ⟨used, hmatch, he.heard⟩
      · intro e x _
        trivial
  · rw [if_neg hstatus]
    exact fun h => absurd h Bool.false_ne_true

theorem mfaEnable_follows {cfg : Config} {code : Str} :
    MfaFollows ⟨cfg, .mfaEnable userId code⟩ (Ends fun h' _ => FactorVerified h' userId (.totp code)) h
      (mfaEnable cfg userId code) := by
  have henable : MfaFollows ⟨cfg, .mfaEnable userId code⟩
      (Ends fun h' accepted => accepted = true → FactorVerified h' userId (.totp code)) h
      (enableTotp cfg userId code) := by
    apply getUserMfa_bind _ fun _ _ => trivial
    intro t m hm
    apply meets_ensure_bind _ fun _ => trivial
    intro _
    exact acceptTotpCode_follows hm rfl fun _ => rfl
  apply henable.bind
  · intro t accepted haccepted
    apply Prog.meets_ensure.mpr
    exact ⟨haccepted, fun _ => trivial⟩
  · intro t x _
    trivial

theorem mfaDisable_follows {cfg : Config} {code : Str} :
    MfaFollows ⟨cfg, .mfaDisable userId code⟩ (Ends fun h' _ => FactorVerified h' userId (.totp code)) h
      (mfaDisable cfg userId code) := by
  apply (verifyTotp_follows rfl).bind _ fun _ _ _ => trivial
  intro t₁ verified hverified
  apply meets_ensure_bind _ fun _ => trivial
  intro htrue
  have hv := hverified htrue
  have hdisable : MfaFollows ⟨cfg, .mfaDisable userId code⟩
      (Ends fun h' _ => FactorVerified h' userId (.totp code)) (h ++ t₁) (disableMfa userId) := by
    apply getUserMfa_bind _ fun _ _ => trivial
    intro t₂ m _
    by_cases hstatus : m.status = .disabled
    · rw [if_pos hstatus]
      exact hv.mono t₂
    · rw [if_neg hstatus]
      apply meets_query_bind
      · intro ctx w _
        exact ⟨code, rfl, hv.mono t₂⟩
      · intro e _ _ _
        exact (hv.mono t₂).mono [e]
      · intro e x _
        trivial
  apply hdisable.bind
  · intro t₂ _ hv₂
    exact hv₂
  · intro t₂ x _
    trivial

theorem verifySecondFactor_follows {cfg : Config} {factor : SecondFactor}
    (hfactor : c.endpoint.factor = some (userId, factor)) :
    MfaFollows c (Ends fun h' verified => verified.1 = true → FactorVerified h' userId factor) h
      (verifySecondFactor cfg userId factor) := by
  cases factor with
  | totp code =>
    apply (verifyTotp_follows hfactor).bind
    · intro t ok hok
      exact hok
    · intro t x _
      trivial
  | backupCode code =>
    apply (useBackupCode_follows hfactor).bind
    · intro t ok hok
      exact hok
    · intro t x _
      trivial
  | none => trivial

theorem mfaLoginVerify_verifies {cfg : Config} {challenge : MfaChallengeClaims}
    {factor : SecondFactor} {ip : Str} :
    MfaFollows ⟨cfg, .mfaLoginVerify challenge factor ip⟩
      (Ends fun h' _ => FactorVerified h' challenge.sub factor) h
      (mfaLoginVerify cfg challenge factor ip) := by
  have hdecode : Within [] (decodeMfaChallenge challenge) :=
    .bind within_getNow fun _ => within_ensure
  apply mfaSkip_bind hdecode List.not_mem_nil _ fun _ _ => trivial
  intro t₁ _
  have hguard : Within [.writeLockout] (ensureNotLockedOut cfg challenge.email ip) :=
    ensureNotLockedOut_within (by simp)
  apply mfaSkip_bind hguard (by simp) _ fun _ _ => trivial
  intro t₂ _
  have hfactor : (Endpoint.mfaLoginVerify challenge factor ip).factor =
      some (challenge.sub, factor) := rfl
  have hverify : MfaFollows ⟨cfg, .mfaLoginVerify challenge factor ip⟩
      (Ends fun h' verified => verified.1 = true → FactorVerified h' challenge.sub factor)
      (h ++ t₁ ++ t₂)
      ((verifySecondFactor cfg challenge.sub factor).mapError mfaVerificationError) :=
    (verifySecondFactor_follows hfactor).mapError (fun _ _ hv => hv) fun _ _ _ => trivial
  apply hverify.bind _ fun _ _ _ => trivial
  intro t₃ verified hverified
  apply meets_ensure_bind _ fun _ => trivial
  intro htrue
  have hv := hverified htrue
  have hlogin : Within [.updateUser, .createSession]
      (completeMfaLogin cfg challenge.sub ip verified.2) :=
    completeMfaLogin_within (by simp) (by simp)
  apply mfaSkip hlogin (by simp)
  intro t₄ x
  cases x with
  | ok issued => exact hv.mono t₄
  | error x => trivial

end

/-- A request with the response of its program. -/
theorem respond_mfa {c : Call} {α : Type} {f : α → Reply} {p : Req AuthError α}
    {P : List (Entry machine) → Prop} (hp : MfaFollows c (Ends fun h' _ => P h') [] p) :
    MfaFollows c (Ends fun h' _ => P h') [] (respond f p) := by
  apply Prog.meets_bind.mpr
  apply Prog.meets_mapError.mpr
  apply hp.weaken (fun _ hw => hw) fun _ _ _ he => he
  intro t r hr
  cases r with
  | ok a => exact hr
  | error x => trivial

/-- **Every request keeps to the rule of the second factors.** -/
theorem mfaRule_met : mfaRule.Met := by
  intro c
  obtain ⟨cfg, endpoint⟩ := c
  show MfaFollows ⟨cfg, endpoint⟩ (MfaConcluded ⟨cfg, endpoint⟩) [] (endpoint.program cfg)
  have hends : ∀ {userId factor}, endpoint.factor = some (userId, factor) →
      MfaFollows ⟨cfg, endpoint⟩ (Ends fun h' _ => FactorVerified h' userId factor) []
        (endpoint.program cfg) →
      MfaFollows ⟨cfg, endpoint⟩ (MfaConcluded ⟨cfg, endpoint⟩) [] (endpoint.program cfg) := by
    intro userId factor hfactor hp
    apply hp.weaken (fun _ hw => hw) fun _ _ _ he => he
    intro t r hr userId' factor' reply hfactor' hreply
    cases hfactor.symm.trans hfactor'
    subst hreply
    exact hr
  have hquiet : endpoint.factor = none → .writeMfa ∉ endpoint.effects →
      MfaFollows ⟨cfg, endpoint⟩ (MfaConcluded ⟨cfg, endpoint⟩) [] (endpoint.program cfg) := by
    intro hfactor heffects
    apply mfaSkip (Call.within ⟨cfg, endpoint⟩) heffects
    intro t r userId factor reply hfactor'
    cases hfactor.symm.trans hfactor'
  cases endpoint with
  | mfaSetup userId =>
    have hsetup : MfaFollows ⟨cfg, .mfaSetup userId⟩ (Ends fun _ _ => True) []
        (respond (fun r : Str × List Str => .mfaSecret r.1 r.2) (setupTotp cfg userId)) := by
      apply respond_mfa
      apply setupTotp_follows.weaken (fun _ hw => hw) fun _ _ _ he => he
      intro t r _
      cases r <;> trivial
    apply hsetup.weaken (fun _ hw => hw) fun _ _ _ he => he
    intro t r _ userId' factor reply hfactor
    cases hfactor
  | mfaEnable userId code => exact hends rfl (respond_mfa mfaEnable_follows)
  | mfaDisable userId code => exact hends rfl (respond_mfa mfaDisable_follows)
  | mfaLoginVerify challenge factor ip =>
    refine hends rfl (respond_mfa ?_)
    apply mfaLoginVerify_verifies.bind
    · intro t issued hv
      have hcookie : Within [] (withCookie issued) := .bind within_getNow fun _ => within_pure
      apply mfaSkip hcookie List.not_mem_nil
      intro t' x
      cases x with
      | ok response => exact hv.mono t'
      | error x => trivial
    · intro t x _
      trivial
  | _ => exact hquiet rfl (by simp [Endpoint.effects])

end SoulAuth
