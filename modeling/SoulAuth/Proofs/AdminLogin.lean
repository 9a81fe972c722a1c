import SoulAuth.Proofs.LoginErrors
import SoulAuth.Proofs.Registration
import SoulAuth.Proofs.RoleTables
import SoulAuth.Proofs.Tables

/-! # A refused login to the administration

`admin_login` asks whether the user may enter when the session is there
already. Its refusal is an error of its own, which no earlier step makes; so
whoever is refused has logged in, and the row of that login stays.
-/

namespace SoulAuth

open Framework Framework.Prog

section

variable [Platform]

/-! ## The session is there -/

/-- A login has added one row, for the bearer and the session that it hands
    out. -/
def SignedIn (before after : List Session) (issued : IssuedSession) : Prop :=
  ∃ s : Session, after = before ++ [s] ∧ s ∉ before ∧ s.key = issued.sessionKey ∧
    s.tokenHash = hashBearer issued.token ∧ s.expiresAt = issued.token.exp

/-- A program that writes no session keeps the sessions. -/
theorem sessions_kept {α : Type} {p : Req AuthError α} {L : List Effect} {w : World}
    (hp : Within L p) (hL : .createSession ∉ L ∧ .deleteSession ∉ L) :
    Alone p w fun _ w' _ => w'.db.sessions = w.db.sessions := by
  apply Only.alone hp (P := fun w' => w'.db.sessions = w.db.sessions)
  · intro e he hbefore
    rcases sessions_after e with hkept | ⟨s, hs, hafter⟩
    · exact hkept.trans hbefore
    · rw [hs] at he
      rw [hafter, ← hbefore]
      cases s with
      | create s => exact absurd (he .createSession rfl) hL.1
      | isActive | isActiveByKey | authenticatedAt | findByToken => rfl
      | deleteByToken | deleteByUser | deleteByActor | deleteByCredential | deleteExpired =>
        exact absurd (he .deleteSession rfl) hL.2
  · rfl

/-- An insertion that is accepted adds the row. -/
theorem createRow_alone {s : Session} {w : World} :
    Alone (query (.session (.create s)) : Req AuthError Unit) w fun r w' _ =>
      ∀ u, r = .ok u → w'.db.sessions = w.db.sessions ++ [s] ∧ s ∉ w.db.sessions := by
  apply alone_step
  intro ctx cs
  obtain ⟨elapsed, fault⟩ := ctx
  cases fault with
  | some fault =>
    cases fault <;> exact nofun
  | none =>
    by_cases hnew : ∀ r ∈ w.db.sessions, r.key ≠ s.key ∧ r.tokenHash ≠ s.tokenHash
    · have hexec : machine.exec ⟨elapsed, none⟩ (.db (.session (.create s))) w =
          (.ok (), { w.advance elapsed with
            db := { w.db with sessions := w.db.sessions ++ [s] } }) := by
        show (_, _) = _
        rw [show DbStmt.exec (w.advance elapsed).now (.session (.create s)) (w.advance elapsed).db =
          (.ok (), { w.db with sessions := w.db.sessions ++ [s] }) from createSession_new hnew]
      rw [hexec]
      intro u _
      constructor
      · rfl
      · intro hmem
        exact (hnew s hmem).1 rfl
    · have hclash : ∃ x, DbStmt.exec (w.advance elapsed).now (.session (.create s)) w.db =
          (.error x, w.db) := createSession_clash hnew
      obtain ⟨x, hx⟩ := hclash
      have hexec : machine.exec ⟨elapsed, none⟩ (.db (.session (.create s))) w =
          (.error x, w.advance elapsed) := by
        show (_, _) = _
        rw [show DbStmt.exec (w.advance elapsed).now (.session (.create s)) (w.advance elapsed).db =
          (.error x, w.db) from hx]
        rfl
      rw [hexec]
      exact nofun

theorem createSession_alone {cfg : Config} {user : User} {methods : List AuthenticationMethod}
    {refs : List Str} {w : World} :
    Alone (createSession cfg user methods refs) w fun r w' _ =>
      ∀ issued, r = .ok issued → SignedIn w.db.sessions w'.db.sessions issued := by
  apply alone_step
  intro ctx₁
  apply alone_step
  intro ctx₂
  apply alone_orThrow_bind
  · intro actorKey _
    dsimp only
    refine Alone.bind createRow_alone ?_ ?_
    · intro u w₁ t hrow
      obtain ⟨hadded, hnew⟩ := hrow u rfl
      have hreads : Within [] (hasPassword actorKey : Req AuthError Bool) := hasPassword_within
      have hpassword := sessions_kept (w := w₁) hreads (by decide)
      refine Alone.bind hpassword ?_ ?_
      · intro has w₂ t' hkept cs issued hissued
        cases hissued
        exact ⟨_, hkept.trans hadded, hnew, rfl, rfl, rfl⟩
      · intro x w₂ t' _ issued hissued
        cases hissued
    · intro x w₁ t _ issued hissued
      cases hissued
  · intro _ issued hissued
    cases hissued

/-- The program, from these sessions on, signs somebody in or does not
    authenticate. -/
def Authenticates (before : List Session) (p : Req AuthError LoginOutcome) : Prop :=
  ∀ w : World, w.db.sessions = before → Alone p w fun r w' _ =>
    ∀ issued, r = .ok (.authenticated issued) → SignedIn before w'.db.sessions issued

section

variable {before : List Session} {L : List Effect} {α : Type}

/-- A step that writes no session comes first. -/
theorem Authenticates.bind {p : Req AuthError α} {f : α → Req AuthError LoginOutcome}
    (hp : Within L p) (hL : .createSession ∉ L ∧ .deleteSession ∉ L)
    (hf : ∀ a, Authenticates before (f a)) : Authenticates before (p >>= f) := by
  intro w hw
  refine Alone.bind (sessions_kept (w := w) hp hL) ?_ ?_
  · intro a w₁ t hkept
    exact hf a w₁ (hkept.trans hw)
  · intro x w₁ t _ issued hissued
    cases hissued

theorem authenticates_done {r : Except AuthError LoginOutcome}
    (h : ∀ issued, r ≠ .ok (.authenticated issued)) : Authenticates before (.done r) := by
  intro w _
  apply alone_done
  intro issued hissued
  exact absurd hissued (h issued)

theorem authenticates_createSession {cfg : Config} {user : User}
    {methods : List AuthenticationMethod} {refs : List Str} :
    Authenticates before
      (createSession cfg user methods refs >>= fun issued => return .authenticated issued) := by
  intro w hw
  refine Alone.bind createSession_alone ?_ ?_
  · intro issued w₁ t hsigned
    apply alone_done
    intro issued' heq
    cases heq
    rw [← hw]
    exact hsigned issued rfl
  · intro x w₁ t _ issued hissued
    cases hissued

theorem authenticates_loginVerified {cfg : Config} {user : User} {credential : Credential}
    {ip : Str} : Authenticates before (loginVerified cfg user credential ip) := by
  apply Authenticates.bind (L := []) within_ensure (by decide)
  intro _
  apply Authenticates.bind (L := []) authenticableActorOfUser_within (by decide)
  intro actor
  apply Authenticates.bind (L := []) within_ofExcept (by decide)
  intro _
  apply Authenticates.bind (L := []) within_ensure (by decide)
  intro _
  apply Authenticates.bind (L := []) enabledMethod_within (by decide)
  intro method
  split
  · apply Authenticates.bind (L := []) createMfaChallengeToken_within (by decide)
    intro challenge
    apply authenticates_done
    intro issued h
    cases h
  · apply Authenticates.bind (L := [.updateUser]) (touchLastLogin_within (by simp)) (by decide)
    intro user
    exact authenticates_createSession

theorem authenticates_login {cfg : Config} {email password ip : Str} :
    Authenticates before (login cfg email password ip) := by
  apply Authenticates.bind (L := []) within_ofExcept (by decide)
  intro email
  apply Authenticates.bind (L := []) findUserByEmail_within (by decide)
  intro found
  apply Authenticates.bind (L := []) probeActor_within (by decide)
  intro actorKey
  apply Authenticates.bind (L := []) activePassword_within (by decide)
  intro stored
  split
  · apply Authenticates.bind (L := []) within_orThrow (by decide)
    intro hash
    apply Authenticates.bind (L := []) within_verifyPassword (by decide)
    intro _
    exact authenticates_loginVerified
  · apply Authenticates.bind (L := []) (.swallow within_verifyPassword) (by decide)
    intro _
    apply authenticates_done
    intro issued h
    cases h

/-- **A login that authenticates has added a session.** -/
theorem authenticates_performLogin {cfg : Config} {email password ip : Str} :
    Authenticates before (performLogin cfg email password ip) := by
  apply Authenticates.bind (L := [.writeLockout]) (ensureNotLockedOut_within (by simp))
    (by decide)
  intro _ w hw
  refine Alone.mapError (authenticates_login w hw) ?_
  intro r w' t hsigned issued hissued
  cases r with
  | error x => cases hissued
  | ok outcome =>
    cases hissued
    exact hsigned issued rfl

end

/-! ## The refusal -/

/-- A statement of the role service that only reads, or a look at the
    clock. -/
def Looks : roleTables.machine.Stmt → Prop
  | .inr (.view _) => True
  | .inl s => s = .now
  | _ => False

section

variable {cfg : Config} {email password ip userId : Str}

theorem looks_checkUserRole {roleName : Str} : (checkUserRole userId roleName).Only Looks := by
  apply Only.bind (only_roleQuery (s := .view _) trivial)
  intro count
  trivial

theorem looks_hasAnyPermission {permissions : List Str} :
    (hasAnyPermission userId permissions).Only Looks := by
  induction permissions with
  | nil => trivial
  | cons permission rest ih =>
    apply Only.bind
    · apply Only.attempt
      apply Only.bind (only_roleQuery (s := .view _) trivial)
      intro count
      trivial
    · intro checked
      split
      · trivial
      · exact ih

theorem looks_isAdminConsoleUser : (isAdminConsoleUser userId).Only Looks := by
  apply Only.bind looks_checkUserRole
  intro isAdmin
  split
  · trivial
  · exact looks_hasAnyPermission

/-- What follows the login looks at the roles only. -/
theorem looks_afterLogin {issued : IssuedSession} :
    (do
      let isAdmin ← fillIsAdmin issued.user.id
      ensureAdminConsoleAccess issued.user.id
      let response ← (withCookie issued).lift roleTables
      return AdminLoginReply.authenticated response isAdmin : RoleReq AuthError _).Only Looks := by
  apply Only.bind
  · apply Only.bind looks_checkUserRole.attempt
    intro checked
    split
    · trivial
    · trivial
  · intro isAdmin
    apply Only.bind
    · apply Only.bind looks_isAdminConsoleUser.mapError
      intro allowed
      exact only_ensure
    · intro _
      apply Only.bind
      · constructor
        · rfl
        · intro now
          trivial
      · intro response
        trivial

theorem sessions_kept_of_looks {α : Type} {p : RoleReq AuthError α} (hp : p.Only Looks)
    {w : World × RoleTables} : Alone p w fun _ w' _ => w'.1.db.sessions = w.1.db.sessions := by
  apply Only.alone hp (P := fun w' => w'.1.db.sessions = w.1.db.sessions)
  · intro e he hbefore
    obtain ⟨ctx, s | s, w₁⟩ := e
    · cases he
      exact hbefore
    · exact hbefore
  · rfl

/-- Whoever is refused has a new session. -/
theorem refused_has_session {w : World × RoleTables} :
    Alone (adminLogin cfg email password ip) w fun r w' _ =>
      r = .error noConsoleAccess →
        ∃ issued, SignedIn w.1.db.sessions w'.1.db.sessions issued := by
  obtain ⟨base, tables⟩ := w
  have hfails : Fails (LoginFailure cfg) (performLogin cfg email password ip) :=
    fails_performLogin
  have hlogin := (hfails.alone (w := base)).and (authenticates_performLogin base rfl)
  refine Alone.bind (Alone.lift hlogin) ?_ ?_
  · intro outcome w₁ t h
    cases outcome with
    | mfaRequired challenge method =>
      apply alone_done
      intro hrefused
      cases hrefused
    | authenticated issued =>
      have hsigned := h.1.2 issued rfl
      refine Alone.weaken (sessions_kept_of_looks (w := w₁) looks_afterLogin) ?_
      intro r w' t' hkept _
      refine ⟨issued, ?_⟩
      rw [hkept]
      exact hsigned
  · intro x w₁ t h hrefused
    exact absurd (Except.error.inj hrefused) (h.1.1 x rfl).entry

end

/-- The bearer is one of a session that has not expired. -/
def UsableBearer (w : World) (token : Claims) : Prop :=
  ∃ s ∈ w.db.sessions, s.tokenHash = hashBearer token ∧ w.now < s.expiresAt

/-- A cookie for the session is one of a session that has not expired. -/
def UsableCookie (w : World) (sid : Str) : Prop :=
  ∃ s ∈ w.db.sessions, s.key = sid ∧ w.now < s.expiresAt

/-- The sessions are those from before, and no bearer or cookie works that
    had no session before. -/
structure LeavesNothing (w w' : World) : Prop where
  sessions : ∀ s, s ∈ w'.db.sessions ↔ s ∈ w.db.sessions
  bearers : ∀ token, UsableBearer w' token →
    ∃ s ∈ w.db.sessions, s.tokenHash = hashBearer token
  cookies : ∀ sid, UsableCookie w' sid → ∃ s ∈ w.db.sessions, s.key = sid

/-- **A refused login leaves its session behind**, whatever the account, the
    credentials, and the failures of statements. -/
theorem refused_login_leaves_session (cfg : Config) (email password ip : Str) (cs : Nat → Ctx)
    (w : World × RoleTables)
    (hrefused : ((adminLogin cfg email password ip).runAlone cs w).1 = .error noConsoleAccess) :
    ¬ LeavesNothing w.1 ((adminLogin cfg email password ip).runAlone cs w).2.1.1 := by
  intro hnothing
  obtain ⟨issued, s, hafter, hnew, -⟩ := refused_has_session cs hrefused
  apply hnew
  apply (hnothing.sessions s).mp
  rw [hafter]
  exact List.mem_append_right _ (List.mem_singleton.mpr rfl)

end

namespace Sample

/-- Alice, who has no role, logs in to the administration, and nothing
    fails. -/
def refusedLogin : Except AuthError AdminLoginReply × (World × RoleTables) ×
    List (Entry roleTables.machine) :=
  (adminLogin config registration.email password "ip".toList).runAlone (fun _ => Ctx.calm)
    ((after prelude).state, RoleTables.seeded)

/-- The bearer that the login made for her. -/
def refusedBearer : Claims := { aliceBearer with sessionId := some (numbered 'u' 11) }

theorem refusedLogin_refused : refusedLogin.1 = .error noConsoleAccess := by decide +kernel

theorem refused_login_leaves_session_alice :
    refusedLogin.1 = .error noConsoleAccess ∧
      ¬ LeavesNothing (after prelude).state refusedLogin.2.1.1 :=
  ⟨refusedLogin_refused,
    refused_login_leaves_session config registration.email password "ip".toList
      (fun _ => Ctx.calm) ((after prelude).state, RoleTables.seeded) refusedLogin_refused⟩

/-- Her bearer works afterwards, although she was refused. -/
theorem refused_login_leaves_nothing_fails :
    ¬ ∀ (cfg : Config) (email password ip : Str) (cs : Nat → Ctx) (w : World × RoleTables),
      ((adminLogin cfg email password ip).runAlone cs w).1 = .error noConsoleAccess →
        LeavesNothing w.1 ((adminLogin cfg email password ip).runAlone cs w).2.1.1 := by
  intro h
  have hnothing : LeavesNothing (after prelude).state refusedLogin.2.1.1 :=
    h config registration.email password "ip".toList (fun _ => Ctx.calm)
      ((after prelude).state, RoleTables.seeded) refusedLogin_refused
  have husable : UsableBearer refusedLogin.2.1.1 refusedBearer := by
    show ∃ s ∈ refusedLogin.2.1.1.db.sessions, _
    decide +kernel
  have hnew : ¬ ∃ s ∈ (after prelude).state.db.sessions,
      s.tokenHash = hashBearer refusedBearer := by
    decide +kernel
  exact hnew (hnothing.bearers refusedBearer husable)

end Sample

end SoulAuth
