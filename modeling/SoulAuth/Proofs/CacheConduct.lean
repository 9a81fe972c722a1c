import SoulAuth.Proofs.SeenUsers
import SoulAuth.Routes.CachedAuth

/-! # How requests behind the cache conduct themselves

Before a request puts a user into the cache it has found the session alive
and has loaded the user from the token. Before an operation deletes sessions
or clears the cache it knows of which user; and it only succeeds when it has
cleared the cache.
-/

namespace SoulAuth

open Framework Framework.System

variable [Platform]

/-! ## What a request knows -/

/-- The session was alive, and the user was loaded from the token. -/
structure Loaded (token : Claims) (user : User) (h : List (Entry machine)) : Prop where
  live : ∃ t, Heard h (.session (.isActive (hashBearer token) t)) true
  row : ∃ a, ActorPassed h token.sub a ∧
    Heard h (.identity (.user (.findByActor a.key))) (some user)

/-- The cache had the user under the token. -/
def Hit (token : Claims) (user : User) (h : List (Entry authCache.machine)) : Prop :=
  ∃ e ∈ h, e.stmt = .inr (.get token) ∧ e.before.2.get token e.before.1.now = some user

/-- The request has let its caller in as this user. -/
def Known (token : Claims) (user : User) (h : List (Entry authCache.machine)) : Prop :=
  (Hit token user h ∧ ∃ a, UserPassed (baseEntries h) user.key a) ∨
    Loaded token user (baseEntries h)

/-- The statement writes a password credential of this actor. -/
def Stmt.writesCredentialOf (actorKey : Str) : Stmt → Prop
  | .db (.identity (.credential (.rotate key _ _))) => key = actorKey
  | .db (.identity (.credential (.create row))) => row.actorIdentityId = actorKey
  | _ => False

/-- The request has replaced the password of this user. -/
def Replaced (user : User) (h : List (Entry machine)) : Prop :=
  (∃ email, Heard h (.identity (.user (.findByEmail email))) (some user)) ∧
    ∃ a, user.subjectId = some a ∧ ∃ e ∈ h, e.stmt.writesCredentialOf a

namespace CachedCall

/-- The operations that end sessions. -/
def Ends : CachedCall → Prop
  | authed _ .logout | authed _ .logoutAll | authed _ (.updateAccountStatus _ _)
  | resetPassword _ _ _ => True
  | _ => False

/-- The user whose sessions the operation ends, as far as it has got. -/
def Owner (h : List (Entry authCache.machine)) (user : User) : CachedCall → Prop
  | authed token .logoutAll => Known token user h
  | authed _ (.updateAccountStatus userId _) =>
    Heard (baseEntries h) (.identity (.user (.findById (normalizeUserId userId)))) (some user)
  | resetPassword _ _ _ => Replaced user (baseEntries h)
  | _ => False

end CachedCall

/-- A statement of the extractor changes nothing. -/
def IsLookup : authCache.machine.Stmt → Prop
  | .inl s => s.effect = none
  | .inr (.get _) => True
  | .inr _ => False

/-- A statement that clears a part of the cache. -/
def Clears : authCache.machine.Stmt → Prop
  | .inr (.invalidateToken _) | .inr (.invalidateUser _) => True
  | _ => False

/-- A statement that deletes the sessions of a token or of a user. -/
def DeletesSessions : authCache.machine.Stmt → Prop
  | .inl (.db (.session (.deleteByToken _))) | .inl (.db (.session (.deleteByUser _))) => True
  | _ => False

/-- The rule of entries. -/
structure CacheConduct (r : CachedCall) (h : List (Entry authCache.machine))
    (e : Entry authCache.machine) : Prop where
  admitted : ∀ token action, r = .authed token action →
    (∃ user, Known token user h) ∨ IsLookup e.stmt
  inserts : ∀ token userId user, e.stmt = .inr (.insert token userId user) →
    userId = user.key ∧ Loaded token user (baseEntries h)
  deletesToken : ∀ hash, e.stmt = .inl (.db (.session (.deleteByToken hash))) → r.Ends →
    ∃ token, r = .authed token .logout ∧ hash = hashBearer token
  deletesUser : ∀ key, e.stmt = .inl (.db (.session (.deleteByUser key))) → r.Ends →
    ∃ user, r.Owner h user ∧ key = normalizeUserId user.key
  clearsToken : ∀ token, e.stmt = .inr (.invalidateToken token) → r.Ends →
    r = .authed token .logout
  clearsUser : ∀ key, e.stmt = .inr (.invalidateUser key) → r.Ends →
    ∃ user, r.Owner h user ∧ key = user.key
  /-- A password reset writes the credential of one actor only. -/
  writes : ∀ s a b, e.stmt = .inl s → s.writesCredentialOf a →
    (∃ cfg token newPassword, r = .resetPassword cfg token newPassword) →
    (∃ e' ∈ baseEntries h, e'.stmt.writesCredentialOf b) → b = a

/-- The rule of outcomes. -/
structure CacheConclusion (r : CachedCall) (h : List (Entry authCache.machine))
    (out : Except Failure Reply) : Prop where
  admitted : ∀ token action reply, r = .authed token action → out = .ok reply →
    ∃ user, Known token user h
  clears : ∀ reply, out = .ok reply → r.Ends → ∃ e ∈ h, Clears e.stmt
  deletes : ∀ reply, out = .ok reply → r.Ends →
    (∀ token userId status, r ≠ .authed token (.updateAccountStatus userId status)) →
    ∃ e ∈ h, DeletesSessions e.stmt ∧ e.ctx.fault = none

/-- The rule of an instance with a cache. -/
def cacheConduct : Rule cachingServer where
  assumes _ := True
  entry := CacheConduct
  outcome := CacheConclusion

/-! ## Statements to which little applies -/

section

variable {α : Type} {r : CachedCall} {h t : List (Entry authCache.machine)}
  {e : Entry authCache.machine} {token : Claims} {user : User}

theorem Hit.mono (hh : Hit token user h) (t : List (Entry authCache.machine)) :
    Hit token user (h ++ t) := by
  obtain ⟨e, he, hs⟩ := hh
  exact ⟨e, List.mem_append_left t he, hs⟩

theorem Loaded.mono {h : List (Entry machine)} (hl : Loaded token user h)
    (t : List (Entry machine)) : Loaded token user (h ++ t) := by
  obtain ⟨⟨t', hlive⟩, a, hroot, hrow⟩ := hl
  exact ⟨⟨t', hlive.mono t⟩, a, hroot.mono t, hrow.mono t⟩

theorem Known.mono (hk : Known token user h) (t : List (Entry authCache.machine)) :
    Known token user (h ++ t) := by
  unfold Known
  rw [baseEntries_append]
  rcases hk with ⟨hh, a, hpassed⟩ | hl
  · exact .inl ⟨hh.mono t, a, hpassed.mono _⟩
  · exact .inr (hl.mono _)

theorem Replaced.mono {h : List (Entry machine)} (hr : Replaced user h)
    (t : List (Entry machine)) : Replaced user (h ++ t) := by
  obtain ⟨⟨email, hheard⟩, a, ha, e, he, hwrites⟩ := hr
  exact ⟨⟨email, hheard.mono t⟩, a, ha, e, List.mem_append_left t he, hwrites⟩

/-- The admission of an authenticated request. -/
def KnowsCaller (r : CachedCall) (h : List (Entry authCache.machine)) : Prop :=
  ∀ token action, r = .authed token action → ∃ user, Known token user h

theorem KnowsCaller.mono (ha : KnowsCaller r h) (t : List (Entry authCache.machine)) :
    KnowsCaller r (h ++ t) := by
  intro token action hr
  obtain ⟨user, hk⟩ := ha token action hr
  exact ⟨user, hk.mono t⟩

omit [Platform] in
theorem effect_writesCredentialOf {s : Stmt} {a : Str} (hs : s.writesCredentialOf a) :
    s.effect = some .writeCredential := by
  unfold Stmt.writesCredentialOf at hs
  split at hs
  · rfl
  · rfl
  · cases hs

/-- A statement of the server that deletes no session, and writes no
    credential in a password reset. -/
theorem conduct_base {s : Stmt} (hs : e.stmt = .inl s) (hsession : s.effect ≠ some .deleteSession)
    (hcredential : (∃ cfg token newPassword, r = .resetPassword cfg token newPassword) →
      s.effect ≠ some .writeCredential)
    (hadmitted : KnowsCaller r h ∨ s.effect = none) : CacheConduct r h e where
  admitted token action hr := by
    rcases hadmitted with ha | hnone
    · exact .inl (ha token action hr)
    · right
      rw [hs]
      exact hnone
  inserts token userId user he := by
    rw [hs] at he
    cases he
  deletesToken hash he _ := by
    rw [hs] at he
    cases he
    exact absurd rfl hsession
  deletesUser key he _ := by
    rw [hs] at he
    cases he
    exact absurd rfl hsession
  clearsToken token he _ := by
    rw [hs] at he
    cases he
  clearsUser key he _ := by
    rw [hs] at he
    cases he
  writes s' a b he hwrites hr _ := by
    rw [hs] at he
    cases he
    exact absurd (effect_writesCredentialOf hwrites) (hcredential hr)

/-- A call of the cache. -/
theorem conduct_own {s : CacheStmt} {ctx : Ctx} {w : World × AuthCache}
    (hadmitted : KnowsCaller r h ∨ IsLookup (.inr s))
    (hinserts : ∀ token userId user, s = .insert token userId user →
      userId = user.key ∧ Loaded token user (baseEntries h))
    (htoken : ∀ token, s = .invalidateToken token → r.Ends → r = .authed token .logout)
    (huser : ∀ key, s = .invalidateUser key → r.Ends → ∃ user, r.Owner h user ∧ key = user.key) :
    CacheConduct r h ⟨ctx, .inr s, w⟩ where
  admitted token action hr := by
    rcases hadmitted with ha | hlookup
    · exact .inl (ha token action hr)
    · exact .inr hlookup
  inserts token userId user hs := hinserts token userId user (Sum.inr.inj hs)
  deletesToken hash hs := by cases hs
  deletesUser key hs := by cases hs
  clearsToken token hs := htoken token (Sum.inr.inj hs)
  clearsUser key hs := huser key (Sum.inr.inj hs)
  writes s a b hs := by cases hs

/-- A deletion of sessions. -/
theorem conduct_deletion {q : SessionStmt} (hs : e.stmt = .inl (.db (.session q)))
    (hadmitted : KnowsCaller r h)
    (htoken : ∀ hash, q = .deleteByToken hash → r.Ends →
      ∃ token, r = .authed token .logout ∧ hash = hashBearer token)
    (huser : ∀ key, q = .deleteByUser key → r.Ends →
      ∃ user, r.Owner h user ∧ key = normalizeUserId user.key) : CacheConduct r h e where
  admitted token action hr := .inl (hadmitted token action hr)
  inserts token userId user he := by
    rw [hs] at he
    cases he
  deletesToken hash he hr := by
    rw [hs] at he
    cases he
    exact htoken hash rfl hr
  deletesUser key he hr := by
    rw [hs] at he
    cases he
    exact huser key rfl hr
  clearsToken token he _ := by
    rw [hs] at he
    cases he
  clearsUser key he _ := by
    rw [hs] at he
    cases he
  writes s a b he hwrites _ _ := by
    rw [hs] at he
    cases he
    cases hwrites

/-- The request is no password reset. -/
def CachedCall.KeepsPasswords (r : CachedCall) : Prop :=
  ∀ cfg token newPassword, r ≠ .resetPassword cfg token newPassword

/-- A part of the server's programs without such statements. -/
theorem conduct_lift {ε : Type} {L : List Effect} {p : Req ε α} (hp : Within L p)
    (hsession : .deleteSession ∉ L) (hcredential : r.KeepsPasswords ∨ .writeCredential ∉ L)
    (hadmitted : KnowsCaller r h ∨ L = [])
    {R : List (Entry machine) → Except ε α → Prop}
    (hq : p.Meets (fun _ => True) (fun _ _ => True) R (baseEntries h))
    {Q : List (Entry authCache.machine) → Except ε α → Prop}
    (hQ : ∀ t x, R (baseEntries (h ++ t)) x → Q (h ++ t) x) :
    (p.lift authCache).Meets (fun _ => True) (CacheConduct r) Q h := by
  apply Prog.Meets.lift (hq.only hp)
  · intro t e e₀ _ he hwithin
    obtain ⟨ctx, s | s, w⟩ := e
    · cases he
      have hs : s.Within L := hwithin.2
      apply conduct_base rfl
      · intro hx
        exact hsession (hs _ hx)
      · intro hreset hx
        obtain ⟨cfg, token, newPassword, rfl⟩ := hreset
        rcases hcredential with hkeeps | hnot
        · exact hkeeps cfg token newPassword rfl
        · exact hnot (hs _ hx)
      · rcases hadmitted with ha | rfl
        · exact .inl (ha.mono t)
        · right
          rcases hx : s.effect with _ | x
          · rfl
          · exact absurd (hs x hx) List.not_mem_nil
    · cases he
  · intro t x _ hx
    exact hQ t x hx

/-! ## The extractor -/

/-- The user that the extractor loads, without the cache. -/
theorem authedUser_loads {h : List (Entry machine)} :
    Ending (fun h' user => Loaded token user h') h (authedUser token) := by
  unfold authedUser decodeAndVerifyToken
  simp only [bind_assoc]
  apply meets_getNow_bind (fun _ _ _ => trivial)
  intro e₁ now₁ _ _
  apply meets_ensure_bind _ fun _ => trivial
  intro _
  apply meets_getNow_bind (fun _ _ _ => trivial)
  intro e₂ now _ _
  apply meets_query_bind (fun _ _ _ => trivial) _ fun _ _ _ => trivial
  intro e₃ active _ he₃
  apply meets_ensure_bind _ fun _ => trivial
  intro hactive
  obtain rfl : active = true := hactive
  apply meets_ensure_bind _ fun _ => trivial
  intro _
  have hgate : Ending (fun h' a => ActorPassed h' token.sub a.actor ∧
      Unchanged (h ++ [e₁] ++ [e₂] ++ [e₃]) h') (h ++ [e₁] ++ [e₂] ++ [e₃])
      (authenticableActor token.sub .human) :=
    ending_of_follows (authenticableActor_follows (c := ⟨bareConfig, .cleanupAuthArtifacts⟩))
  apply Prog.Meets.bind hgate _ fun _ _ _ => trivial
  intro t actor hpassed
  apply Prog.meets_bind.mpr
  apply meets_query_bind (fun _ _ _ => trivial) _ fun _ _ _ => trivial
  intro e₄ found _ he₄
  cases found with
  | none => trivial
  | some user =>
    apply meets_ofExcept_bind _ fun _ _ => trivial
    intro _ _
    have hlive : Heard (h ++ [e₁] ++ [e₂] ++ [e₃]) (.session (.isActive (hashBearer token) now))
        true := he₃.heard
    exact ⟨⟨now, (hlive.mono t).mono [e₄]⟩, actor.actor, hpassed.1.mono [e₄], he₄.heard⟩

/-- A call of the cache, and the rest of the request. -/
theorem meets_withCache_bind {β ε : Type} {s : CacheStmt} {f : s.Reply → CacheReq ε β}
    {Q : List (Entry authCache.machine) → Except ε β → Prop}
    (hE : ∀ ctx w, CacheConduct r h ⟨ctx, .inr s, w⟩)
    (hf : ∀ ctx w, (f (s.exec w.1.now w.2).1).Meets (fun _ => True) (CacheConduct r) Q
      (h ++ [⟨ctx, .inr s, w⟩])) :
    (withCache s >>= f).Meets (fun _ => True) (CacheConduct r) Q h := by
  intro ctx w _
  exact ⟨hE ctx w, hf ctx w⟩

/-- The extractor lets in whom it knows. -/
def Extracted (token : Claims) {ε : Type} (h : List (Entry authCache.machine)) :
    Except ε User → Prop
  | .ok user => Known token user h
  | .error _ => True

theorem cachedAuthedUser_meets {action : UserAction} :
    (Cached.authedUser token).Meets (fun _ => True) (CacheConduct (.authed token action))
      (Extracted token) h := by
  have hkeeps : (CachedCall.authed token action).KeepsPasswords := by
    intro cfg token newPassword hr
    cases hr
  have hget : ∀ ctx w, CacheConduct (.authed token action) h ⟨ctx, .inr (.get token), w⟩ := by
    intro ctx w
    refine conduct_own (.inr ?_) ?_ ?_ ?_
    · trivial
    · intro token userId user hs
      cases hs
    · intro token hs
      cases hs
    · intro key hs
      cases hs
  apply meets_withCache_bind hget
  intro ctx w
  rcases hhit : w.2.get token w.1.now with _ | user
  · have hreply : ((CacheStmt.get token).exec w.1.now w.2).1 = none := hhit
    rw [hreply]
    apply Prog.Meets.bind (P := fun h' x => Ends (fun h' user => Loaded token user h')
      (baseEntries h') x)
    · exact conduct_lift authedUser_within (L := []) (by simp) (.inl hkeeps) (.inr rfl)
        authedUser_loads fun _ _ hx => hx
    · intro t user hloaded
      apply meets_withCache_bind
      · intro ctx' w'
        refine conduct_own (.inl ?_) ?_ ?_ ?_
        · intro token' action' hr
          cases hr
          exact ⟨user, .inr hloaded⟩
        · intro token' userId user' hs
          cases hs
          exact ⟨rfl, hloaded⟩
        · intro token' hs
          cases hs
        · intro key hs
          cases hs
      · intro ctx' w'
        exact Known.mono (.inr hloaded) _
    · intro t x _
      trivial
  · have hreply : ((CacheStmt.get token).exec w.1.now w.2).1 = some user := hhit
    rw [hreply]
    have hknown : Hit token user (h ++ [⟨ctx, .inr (.get token), w⟩]) :=
      ⟨_, List.mem_append_right _ (List.mem_singleton.mpr rfl), rfl, hhit⟩
    apply conduct_lift authedUserCached_within (L := []) (by simp) (.inl hkeeps) (.inr rfl)
      (R := Ends fun h' user' => user' = user ∧ ∃ a, UserPassed h' user.key a)
    · have hgate : Ending (fun h' a => UserPassed h' user.key a.actor ∧
          Unchanged (baseEntries (h ++ [⟨ctx, .inr (.get token), w⟩])) h')
          (baseEntries (h ++ [⟨ctx, .inr (.get token), w⟩])) (authenticableActorOfUser user.key) :=
        ending_of_follows (authenticableActorOfUser_follows
          (c := ⟨bareConfig, .cleanupAuthArtifacts⟩))
      apply Prog.Meets.bind hgate _ fun _ _ _ => trivial
      intro t actor hpassed
      apply meets_ofExcept_bind _ fun _ _ => trivial
      intro _ _
      exact ⟨rfl, actor.actor, hpassed.1⟩
    · intro t x hx
      cases x with
      | error x => trivial
      | ok user' =>
        obtain ⟨rfl, hpassed⟩ := hx
        exact .inl ⟨hknown.mono t, hpassed⟩

/-! ## The operations -/

/-- The rest of a request after the answer to a statement of the server. -/
def afterAnswer {β : Type} {s : DbStmt} (f : s.Reply → CacheReq AuthError β) :
    Except DbFailure s.Reply → CacheReq AuthError β
  | .ok a => f a
  | .error x => .done (.error (.ofDb x))

theorem lift_query_bind {β : Type} {s : DbStmt} (f : s.Reply → CacheReq AuthError β) :
    (query s : Req AuthError s.Reply).lift authCache >>= f =
      .step (M := authCache.machine) (.inl (.db s)) (afterAnswer f) := by
  show Prog.step _ _ = Prog.step _ _
  congr 1
  funext x
  cases x with
  | ok a => rfl
  | error x => rfl

/-- A statement of the server in a request behind the cache. -/
theorem meets_lift_query_bind {β : Type} {s : DbStmt} {f : s.Reply → CacheReq AuthError β}
    {Q : List (Entry authCache.machine) → Except AuthError β → Prop}
    (hE : ∀ ctx w, CacheConduct r h ⟨ctx, .inl (.db s), w⟩)
    (hok : ∀ ctx w a, ctx.fault = none →
      (f a).Meets (fun _ => True) (CacheConduct r) Q (h ++ [⟨ctx, .inl (.db s), w⟩]))
    (herr : ∀ t x, Q (h ++ t) (.error x)) :
    ((query s : Req AuthError s.Reply).lift authCache >>= f).Meets (fun _ => True)
      (CacheConduct r) Q h := by
  rw [lift_query_bind]
  intro ctx w _
  refine ⟨hE ctx w, ?_⟩
  obtain ⟨elapsed, fault⟩ := ctx
  show (afterAnswer f (Stmt.exec ⟨elapsed, fault⟩ (.db s) w.1).1).Meets _ _ Q _
  cases fault with
  | none =>
    rcases (Stmt.exec ⟨elapsed, none⟩ (.db s) w.1).1 with x | a
    · exact herr _ _
    · exact hok _ w a rfl
  | some fault => cases fault <;> exact herr _ _

/-- The same, when a failure of the statement is only logged. -/
theorem meets_lift_swallow_query_bind {β : Type} {s : DbStmt} {p : CacheReq AuthError β}
    {Q : List (Entry authCache.machine) → Except AuthError β → Prop}
    (hE : ∀ ctx w, CacheConduct r h ⟨ctx, .inl (.db s), w⟩)
    (hp : ∀ ctx w, p.Meets (fun _ => True) (CacheConduct r) Q (h ++ [⟨ctx, .inl (.db s), w⟩])) :
    (((query s : Req AuthError s.Reply).swallow : Req AuthError Unit).lift authCache >>=
      fun _ => p).Meets (fun _ => True) (CacheConduct r) Q h := by
  have hstep : ((query s : Req AuthError s.Reply).swallow : Req AuthError Unit).lift authCache >>=
      (fun _ => p) = .step (M := authCache.machine) (.inl (.db s)) fun _ => p := by
    show Prog.step _ _ = Prog.step _ _
    congr 1
    funext x
    cases x with
    | ok a => rfl
    | error x => rfl
  rw [hstep]
  intro ctx w _
  exact ⟨hE ctx w, hp ctx w⟩

/-- What an operation has done when it succeeds. -/
def Done (r : CachedCall) (h : List (Entry authCache.machine)) : Prop :=
  (∃ e ∈ h, Clears e.stmt) ∧
    ((∀ token userId status, r ≠ .authed token (.updateAccountStatus userId status)) →
      ∃ e ∈ h, DeletesSessions e.stmt ∧ e.ctx.fault = none)

/-- The outcome of an operation, as far as it matters. -/
def Completes {ε α : Type} (r : CachedCall) (h : List (Entry authCache.machine)) :
    Except ε α → Prop
  | .ok _ => Done r h
  | .error _ => True

theorem Done.mono (hd : Done r h) (t : List (Entry authCache.machine)) : Done r (h ++ t) := by
  obtain ⟨⟨e, he, hclears⟩, hdeletes⟩ := hd
  constructor
  · exact ⟨e, List.mem_append_left t he, hclears⟩
  · intro hr
    obtain ⟨d, hd, hdel⟩ := hdeletes hr
    exact ⟨d, List.mem_append_left t hd, hdel⟩

theorem conclusion_of_done {out : Except Failure Reply} (ha : KnowsCaller r h)
    (hdone : r.Ends → Completes r h out) : CacheConclusion r h out where
  admitted token action reply hr _ := ha token action hr
  clears reply hout hr := by
    subst hout
    exact (hdone hr).1
  deletes reply hout hr hstatus := by
    subst hout
    exact (hdone hr).2 hstatus

/-- The revocation of the tokens at the end of an operation. -/
theorem revoke_meets {ε : Type} {userId : Str} {g : OidcError → ε} (ha : KnowsCaller r h)
    (hd : Done r h) :
    (((revokeAllTokensForUser userId).mapError g).lift authCache).Meets (fun _ => True)
      (CacheConduct r) (Completes r) h := by
  apply conduct_lift (L := [.deleteAccess, .deleteRefresh])
    (Within.mapError (revokeAllTokensForUser_within (by simp) (by simp))) (by simp)
    (.inr (by simp)) (.inl ha) Prog.meets_trivial
  intro t x _
  cases x with
  | ok _ => exact hd.mono t
  | error _ => trivial

theorem knowsCaller_of_known {action : UserAction} (hk : Known token user h) :
    KnowsCaller (.authed token action) h := by
  intro token' action' hr
  cases hr
  exact ⟨user, hk⟩

/-- The operation has deleted sessions. -/
def HasDeleted (h : List (Entry authCache.machine)) : Prop :=
  ∃ e ∈ h, DeletesSessions e.stmt ∧ e.ctx.fault = none

theorem HasDeleted.mono (hd : HasDeleted h) (t : List (Entry authCache.machine)) :
    HasDeleted (h ++ t) := by
  obtain ⟨e, he, hs⟩ := hd
  exact ⟨e, List.mem_append_left t he, hs⟩

theorem hasDeleted_snoc (hs : DeletesSessions e.stmt) (hfault : e.ctx.fault = none) :
    HasDeleted (h ++ [e]) :=
  ⟨e, by simp, hs, hfault⟩

theorem done_snoc (hs : Clears e.stmt)
    (hd : (∀ token userId status, r ≠ .authed token (.updateAccountStatus userId status)) →
      HasDeleted h) : Done r (h ++ [e]) :=
  ⟨⟨e, by simp, hs⟩, fun hr => (hd hr).mono [e]⟩

theorem logout_meets (hk : Known token user h) :
    (Cached.logoutRoute token).Meets (fun _ => True) (CacheConduct (.authed token .logout))
      (Completes (.authed token .logout)) h := by
  have ha : KnowsCaller (.authed token .logout) h := knowsCaller_of_known hk
  have hclear : ∀ t ctx w, CacheConduct (.authed token .logout) (h ++ t)
      ⟨ctx, .inr (.invalidateToken token), w⟩ := by
    intro t ctx w
    refine conduct_own (.inl (ha.mono t)) ?_ ?_ ?_
    · intro token userId user hs
      cases hs
    · intro token' hs _
      cases hs
      rfl
    · intro key hs
      cases hs
  have hdeleted : ∀ ctx w, ctx.fault = none → HasDeleted (h ++
      [(⟨ctx, .inl (.db (.session (.deleteByToken (hashBearer token)))), w⟩ :
        Entry authCache.machine)]) := by
    intro ctx w hfault
    exact hasDeleted_snoc (e := ⟨ctx, _, w⟩) trivial hfault
  unfold Cached.logoutRoute Cached.logout
  rw [Prog.bind_assoc']
  apply meets_lift_query_bind
  · intro ctx w
    apply conduct_deletion rfl ha
    · intro hash hq _
      cases hq
      exact ⟨token, rfl, rfl⟩
    · intro key hq
      cases hq
  · intro ctx w _ hfault
    apply meets_withCache_bind (hclear _)
    intro ctx' w' ctx'' w'' _
    constructor
    · rw [List.append_assoc]
      exact hclear _ _ _
    · apply done_snoc
      · trivial
      · intro _
        exact (hdeleted ctx w hfault).mono _
  · intro t x
    trivial

theorem logoutAll_meets (hk : Known token user h) :
    (Cached.logoutAllRoute user).Meets (fun _ => True) (CacheConduct (.authed token .logoutAll))
      (Completes (.authed token .logoutAll)) h := by
  have ha : KnowsCaller (.authed token .logoutAll) h := knowsCaller_of_known hk
  have hclear : ∀ t ctx w, CacheConduct (.authed token .logoutAll) (h ++ t)
      ⟨ctx, .inr (.invalidateUser user.key), w⟩ := by
    intro t ctx w
    refine conduct_own (.inl (ha.mono t)) ?_ ?_ ?_
    · intro token userId user hs
      cases hs
    · intro token' hs
      cases hs
    · intro key hs _
      cases hs
      exact ⟨user, hk.mono t, rfl⟩
  have hdeleted : ∀ ctx w, ctx.fault = none → HasDeleted (h ++
      [(⟨ctx, .inl (.db (.session (.deleteByUser (normalizeUserId user.key)))), w⟩ :
        Entry authCache.machine)]) := by
    intro ctx w hfault
    exact hasDeleted_snoc (e := ⟨ctx, _, w⟩) trivial hfault
  unfold Cached.logoutAllRoute Cached.logoutAllSessions
  rw [Prog.bind_assoc']
  apply meets_lift_query_bind
  · intro ctx w
    apply conduct_deletion rfl ha
    · intro hash hq
      cases hq
    · intro key hq _
      cases hq
      exact ⟨user, hk, rfl⟩
  · intro ctx w _ hfault
    apply meets_withCache_bind (hclear _)
    intro ctx' w'
    rw [List.append_assoc]
    apply meets_withCache_bind (hclear _)
    intro ctx'' w''
    apply revoke_meets ((ha.mono _).mono _)
    apply done_snoc
    · trivial
    · intro _
      rw [← List.append_assoc]
      exact (hdeleted ctx w hfault).mono _
  · intro t x
    trivial

/-- The account whose status is changed has been found under the key that
    the path names. -/
theorem updateAccountStatus_finds {userId : Str} {status : AccountStatus}
    {h : List (Entry machine)} :
    Ending (fun h' _ => ∃ user, Heard h'
      (.identity (.user (.findById (normalizeUserId userId)))) (some user)) h
      (updateAccountStatus userId status) := by
  apply meets_orThrow_bind _ fun _ => trivial
  intro key hkey
  have hnormal : key = normalizeUserId userId := by
    unfold userRecordKey at hkey
    dsimp only at hkey
    split at hkey
    · cases hkey
    · exact (Option.some.inj hkey).symm
  subst hnormal
  apply meets_query_bind (fun _ _ _ => trivial) _ fun _ _ _ => trivial
  intro e found _ he
  apply meets_orThrow_bind _ fun _ => trivial
  intro user hfound
  obtain rfl : found = some user := hfound
  have hheard : Heard (h ++ [e]) (.identity (.user (.findById (normalizeUserId userId))))
      (some user) := he.heard
  apply Prog.Meets.weaken Prog.meets_trivial (fun _ hw => hw) (fun _ _ _ _ => trivial)
  intro t x _
  cases x with
  | ok _ => exact ⟨user, hheard.mono t⟩
  | error _ => trivial

theorem updateAccountStatus_meets {userId : Str} {status : AccountStatus}
    (hk : Known token user h) :
    (Cached.updateUserAccountStatus userId status).Meets (fun _ => True)
      (CacheConduct (.authed token (.updateAccountStatus userId status)))
      (Completes (.authed token (.updateAccountStatus userId status))) h := by
  have ha : KnowsCaller (.authed token (.updateAccountStatus userId status)) h :=
    knowsCaller_of_known hk
  have hkeeps : (CachedCall.authed token (.updateAccountStatus userId status)).KeepsPasswords := by
    intro cfg token newPassword hr
    cases hr
  apply Prog.Meets.bind (P := fun h' x => Ends (fun h' _ => ∃ user, Heard h'
    (.identity (.user (.findById (normalizeUserId userId)))) (some user)) (baseEntries h') x)
  · exact conduct_lift
      (L := [.setAccountStatus, .setActorStatus, .writeCredential])
      (updateAccountStatus_within (by simp) (by simp) (by simp)) (by simp) (.inl hkeeps) (.inl ha)
      updateAccountStatus_finds fun _ _ hx => hx
  · intro t _ hfound
    obtain ⟨owner, howner⟩ := hfound
    have hkey : owner.key = normalizeUserId userId := by
      obtain ⟨e, -, he⟩ := howner
      exact (key_of_findById he).2
    have hmono : ∀ t', CachedCall.Owner (h ++ t ++ t') owner
        (.authed token (.updateAccountStatus userId status)) := by
      intro t'
      show Heard (baseEntries _) _ _
      rw [baseEntries_append]
      exact howner.mono _
    apply meets_withCache_bind
    · intro ctx w
      refine conduct_own (.inl (ha.mono t)) ?_ ?_ ?_
      · intro token userId user hs
        cases hs
      · intro token' hs
        cases hs
      · intro key hs _
        cases hs
        exact ⟨owner, howner, hkey.symm⟩
    · intro ctx w
      have hdone : Done (.authed token (.updateAccountStatus userId status))
          (h ++ t ++ [⟨ctx, .inr (.invalidateUser (normalizeUserId userId)), w⟩]) := by
        apply done_snoc
        · trivial
        · intro hr
          exact absurd rfl (hr token userId status)
      show Prog.Meets _ _ _ _ (if status = .active then _ else _)
      split
      · exact hdone
      · apply meets_lift_swallow_query_bind
        · intro ctx' w'
          apply conduct_deletion rfl ((ha.mono _).mono _)
          · intro hash hq
            cases hq
          · intro key hq _
            cases hq
            exact ⟨owner, hmono _, by rw [hkey]⟩
        · intro ctx' w'
          apply conduct_lift (L := [.deleteAccess, .deleteRefresh])
            (Within.swallow (revokeAllTokensForUser_within (by simp) (by simp))) (by simp)
            (.inl hkeeps) (.inl (((ha.mono _).mono _).mono _)) Prog.meets_trivial
          intro t' x _
          cases x with
          | ok _ => exact (hdone.mono _).mono _
          | error _ => trivial
  · intro t x _
    trivial

/-! ### A password reset -/

/-- No credential was written but of this actor. -/
def WritesOnly (a : Str) (h : List (Entry machine)) : Prop :=
  ∀ e ∈ h, ∀ b, e.stmt.writesCredentialOf b → b = a

omit [Platform] in
theorem writesCredentialOf_silent {s : Stmt} {a : Str} (hs : s.effect ≠ some .writeCredential) :
    ¬ s.writesCredentialOf a := by
  intro hwrites
  exact hs (effect_writesCredentialOf hwrites)

/-- A statement of a password reset, as far as the server sees it. -/
structure ResetConduct (h : List (Entry machine)) (e : Entry machine) : Prop where
  keepsTokens : ∀ hash, e.stmt ≠ .db (.session (.deleteByToken hash))
  deletes : ∀ key, e.stmt = .db (.session (.deleteByUser key)) →
    ∃ user, Replaced user h ∧ key = normalizeUserId user.key
  writes : ∀ a b, e.stmt.writesCredentialOf a → (∃ e' ∈ h, e'.stmt.writesCredentialOf b) → b = a

theorem resetConduct_silent {h : List (Entry machine)} {e : Entry machine}
    (hsession : e.stmt.effect ≠ some .deleteSession)
    (hcredential : ∀ a, e.stmt.writesCredentialOf a → WritesOnly a h) : ResetConduct h e where
  keepsTokens hash he := by
    rw [he] at hsession
    exact hsession rfl
  deletes key he := by
    rw [he] at hsession
    exact absurd rfl hsession
  writes a b ha hb := by
    obtain ⟨e', he', hwrites⟩ := hb
    exact hcredential a ha e' he' b hwrites

/-- The password of one actor is set, and of no other. -/
theorem setPassword_resets {actorKey hash : Str} {h : List (Entry machine)}
    (hnone : ∀ a, WritesOnly a h) :
    (setPassword actorKey hash).Meets (fun _ => True) ResetConduct
      (Ends fun h' _ => WritesOnly actorKey h' ∧ ∃ e ∈ h', e.stmt.writesCredentialOf actorKey)
      h := by
  unfold setPassword
  apply meets_getNow_bind
  · intro ctx w _
    apply resetConduct_silent
    · intro heq
      cases heq
    · intro a ha
      cases ha
  intro e₁ now _ he₁
  have hclean : ∀ a, WritesOnly a (h ++ [e₁]) := by
    intro a e he b hb
    rcases List.mem_append.mp he with he | he
    · exact hnone a e he b hb
    · obtain rfl := List.mem_singleton.mp he
      rw [he₁.1] at hb
      cases hb
  apply meets_query_bind
  · intro ctx w _
    apply resetConduct_silent
    · intro heq
      cases heq
    · intro a _
      exact hclean a
  · intro e₂ rotated _ he₂
    have hwritten : e₂.stmt.writesCredentialOf actorKey := by
      rw [he₂.stmt]
      rfl
    have hfirst : WritesOnly actorKey (h ++ [e₁] ++ [e₂]) := by
      intro e he b hb
      rcases List.mem_append.mp he with he | he
      · exact hclean actorKey e he b hb
      · obtain rfl := List.mem_singleton.mp he
        rw [he₂.stmt] at hb
        exact hb.symm
    have hwrites : ∀ {s : Stmt}, s.effect = some .writeCredential →
        s.effect ≠ some .deleteSession := by
      intro s hs
      rw [hs]
      decide
    have hgrown : ∀ t : List (Entry machine),
        (∀ e ∈ t, e.stmt.effect ≠ some .deleteSession ∧
          ∀ a, e.stmt.writesCredentialOf a → a = actorKey) →
        WritesOnly actorKey (h ++ [e₁] ++ [e₂] ++ t) := by
      intro t ht e he b hb
      rcases List.mem_append.mp he with he | he
      · exact hfirst e he b hb
      · exact (ht e he).2 b hb
    -- whatever follows writes the credential of the same actor
    apply Prog.Only.meets (M := machine) (S := fun s => s.effect ≠ some .deleteSession ∧
      ∀ a, s.writesCredentialOf a → a = actorKey)
    · split
      · trivial
      · refine ⟨⟨by simp [Stmt.effect], fun a ha => ha.elim⟩, fun key =>
          ⟨⟨by simp [Stmt.effect], fun a ha => ha.elim⟩, fun createdAt => ?_⟩⟩
        refine ⟨⟨hwrites rfl, fun a ha => ha.symm⟩, fun created => ?_⟩
        rcases created with x | _
        · refine ⟨⟨hwrites rfl, fun a ha => ha.symm⟩, fun again => ?_⟩
          rcases again with x | again
          · trivial
          · cases again <;> trivial
        · trivial
    · intro t e ht he
      apply resetConduct_silent he.1
      intro a ha
      obtain rfl := he.2 a ha
      exact hgrown t ht
    · intro t x ht
      cases x with
      | ok _ => exact ⟨hgrown t ht, e₂, by simp, hwritten⟩
      | error _ => trivial
  · intro e x _
    trivial

/-- The password is replaced before the sessions are deleted. -/
theorem resetPassword_conduct {cfg : Config} {token newPassword : Str} :
    (resetPassword cfg token newPassword).Meets (fun _ => True) ResetConduct
      (Ends fun h' key => ∃ user, Replaced user h' ∧ key = user.key ∧
        ∃ e ∈ h', (∃ k, e.stmt = .db (.session (.deleteByUser k))) ∧ e.ctx.fault = none) [] := by
  have hsilent : ∀ {h : List (Entry machine)} {s : Stmt}, s.effect ≠ some .deleteSession →
      s.effect ≠ some .writeCredential → ∀ ctx w, True → ResetConduct h ⟨ctx, s, w⟩ := by
    intro h s hsession hcredential ctx w _
    apply resetConduct_silent hsession
    intro a ha
    exact absurd ha (writesCredentialOf_silent hcredential)
  apply meets_ofExcept_bind _ fun _ _ => trivial
  intro _ _
  apply meets_query_bind (hsilent (by nofun) (by nofun)) _ fun _ _ _ => trivial
  intro e₁ claimed _ he₁
  apply meets_ensure_bind _ fun _ => trivial
  intro _
  apply meets_query_bind (hsilent (by nofun) (by nofun)) _ fun _ _ _ => trivial
  intro e₂ row _ he₂
  apply meets_orThrow_bind _ fun _ => trivial
  intro resetToken _
  apply meets_query_bind (hsilent (by nofun) (by nofun)) _ fun _ _ _ => trivial
  intro e₃ found _ he₃
  apply meets_orThrow_bind _ fun _ => trivial
  intro user hfound
  obtain rfl : found = some user := hfound
  apply meets_ofExcept_bind _ fun _ _ => trivial
  intro _ _
  apply meets_orThrow_bind _ fun _ => trivial
  intro actorKey hactor
  apply meets_hashPassword_bind (hsilent (by nofun) (by nofun))
  intro e₄ hash _ he₄
  have hnone : ∀ a, WritesOnly a ([] ++ [e₁] ++ [e₂] ++ [e₃] ++ [e₄]) := by
    intro a e he b hb
    simp only [List.nil_append, List.cons_append, List.mem_cons, List.not_mem_nil, or_false] at he
    rcases he with rfl | rfl | rfl | rfl
    · rw [he₁.stmt] at hb
      cases hb
    · rw [he₂.stmt] at hb
      cases hb
    · rw [he₃.stmt] at hb
      cases hb
    · rw [he₄] at hb
      cases hb
  apply Prog.Meets.bind (setPassword_resets hnone) _ fun _ _ _ => trivial
  intro t₅ _ hset
  have hreplaced : Replaced user ([] ++ [e₁] ++ [e₂] ++ [e₃] ++ [e₄] ++ t₅) :=
    ⟨⟨resetToken.email, (he₃.heard.mono [e₄]).mono t₅⟩, actorKey, hactor, hset.2⟩
  apply meets_getNow_bind (hsilent (by nofun) (by nofun))
  intro e₆ now _ _
  apply meets_query_bind (hsilent (by nofun) (by nofun)) _ fun _ _ _ => trivial
  intro e₇ updated _ _
  apply meets_query_bind (hsilent (by nofun) (by nofun)) _ fun _ _ _ => trivial
  intro e₈ _ _ _
  have hlate := ((hreplaced.mono [e₆]).mono [e₇]).mono [e₈]
  apply meets_query_bind _ _ fun _ _ _ => trivial
  · intro ctx w _
    refine ⟨nofun, fun key hkey => ?_, nofun⟩
    cases hkey
    exact ⟨user, hlate, rfl⟩
  · intro e₉ _ _ he₉
    exact ⟨user, hlate.mono [e₉], rfl, e₉, by simp, ⟨_, he₉.stmt⟩, he₉.sound⟩

theorem resetPassword_meets {cfg : Config} {resetToken newPassword : Str} :
    (Cached.resetPasswordRoute cfg resetToken newPassword).Meets (fun _ => True)
      (CacheConduct (.resetPassword cfg resetToken newPassword))
      (Completes (.resetPassword cfg resetToken newPassword)) [] := by
  have ha : ∀ h, KnowsCaller (.resetPassword cfg resetToken newPassword) h := by
    intro h token action hr
    cases hr
  have hbase : ((resetPassword cfg resetToken newPassword).lift authCache).Meets (fun _ => True)
      (CacheConduct (.resetPassword cfg resetToken newPassword))
      (fun h' x => ∀ key, x = .ok key → HasDeleted h' ∧
        ∃ user, Replaced user (baseEntries h') ∧ key = user.key) [] := by
    apply Prog.Meets.lift (M := machine) resetPassword_conduct
    · intro t e e₀ _ hbase he
      obtain ⟨ctx, s | s, w⟩ := e
      · cases hbase
        constructor
        · intro token action hr
          cases hr
        · intro token userId user hs
          cases hs
        · intro hash hs _
          cases hs
          exact absurd rfl (he.keepsTokens hash)
        · intro key hs _
          cases hs
          exact he.deletes key rfl
        · intro token hs
          cases hs
        · intro key hs
          cases hs
        · intro s' a b hs hwrites _ hb
          cases hs
          exact he.writes a b hwrites hb
      · cases hbase
    · intro t x _ hx key hkey
      subst hkey
      obtain ⟨user, hreplaced, hkey, e₀, he₀, ⟨k, hs⟩, hfault⟩ := hx
      obtain ⟨⟨ctx, s | s, w⟩, he, hbase⟩ := List.mem_filterMap.mp he₀
      · cases hbase
        obtain rfl : s = .db (.session (.deleteByUser k)) := hs
        exact ⟨⟨_, he, trivial, hfault⟩, user, hreplaced, hkey⟩
      · cases hbase
  unfold Cached.resetPasswordRoute Cached.resetPassword
  rw [Prog.bind_assoc']
  apply Prog.Meets.bind hbase
  · intro t key hkey
    obtain ⟨hdeleted, user, hreplaced, rfl⟩ := hkey _ rfl
    apply meets_withCache_bind
    · intro ctx w
      refine conduct_own (.inl (ha _)) ?_ ?_ ?_
      · intro token userId user hs
        cases hs
      · intro token hs
        cases hs
      · intro key hs _
        cases hs
        exact ⟨user, hreplaced, rfl⟩
    · intro ctx w
      apply revoke_meets (ha _)
      apply done_snoc
      · trivial
      · intro _
        exact hdeleted
  · intro t x _
    trivial

/-! ## The rule is met -/

/-- A request that ends no sessions is free in what it does for a user that it
    has let in. -/
theorem other_meets {ε β : Type} {p : Req ε β} (ha : KnowsCaller r h) (hends : ¬ r.Ends) :
    (p.lift authCache).Meets (fun _ => True) (CacheConduct r) (fun h' _ => KnowsCaller r h') h := by
  have htrivial : p.Meets (fun _ => True) (fun _ _ => True) (fun _ _ => True) (baseEntries h) :=
    Prog.meets_trivial
  apply htrivial.lift
  · intro t e e₀ _ hbase _
    obtain ⟨ctx, s | s, w⟩ := e
    · constructor
      · intro token action hr
        exact .inl (ha.mono t token action hr)
      · intro token userId user hs
        cases hs
      · intro hash _ hr
        exact absurd hr hends
      · intro key _ hr
        exact absurd hr hends
      · intro token _ hr
        exact absurd hr hends
      · intro key _ hr
        exact absurd hr hends
      · intro s' a b _ _ hr
        obtain ⟨cfg, token, newPassword, rfl⟩ := hr
        exact absurd trivial hends
    · cases hbase
  · intro t x _ _
    exact ha.mono t

/-- What is done for a user that was let in. -/
theorem action_meets {action : UserAction} (hk : Known token user h) :
    (action.run token user).Meets (fun _ => True) (CacheConduct (.authed token action))
      (CacheConclusion (.authed token action)) h := by
  have ha : KnowsCaller (.authed token action) h := knowsCaller_of_known hk
  have hmapped : ∀ {p : CacheReq AuthError Unit}, p.Meets (fun _ => True)
      (CacheConduct (.authed token action)) (Completes (.authed token action)) h →
      (p.mapError Failure.auth >>= fun _ => return Reply.ok).Meets (fun _ => True)
        (CacheConduct (.authed token action)) (CacheConclusion (.authed token action)) h := by
    intro p hp
    apply Prog.meets_bind.mpr
    apply Prog.Meets.mapError hp
    · intro t _ hdone
      exact conclusion_of_done (ha.mono t) fun _ => hdone
    · intro t x _
      exact conclusion_of_done (ha.mono t) fun _ => trivial
  cases action with
  | currentUser =>
    apply Prog.meets_bind.mpr
    apply Prog.Meets.mapError (other_meets ha id)
    · intro t _ ha'
      exact conclusion_of_done ha' fun hr => absurd hr id
    · intro t x ha'
      exact conclusion_of_done ha' fun hr => absurd hr id
  | logout => exact hmapped (logout_meets hk)
  | logoutAll => exact hmapped (logoutAll_meets hk)
  | updateAccountStatus userId status => exact hmapped (updateAccountStatus_meets hk)
  | endpoint call =>
    apply (other_meets ha id).weaken (fun _ hw => hw) (fun _ _ _ he => he)
    intro t x ha'
    exact conclusion_of_done ha' fun hr => absurd hr id

/-- Every request to an instance with a cache conducts itself. -/
theorem cacheConduct_met : cacheConduct.Met := by
  intro r
  show r.program.Meets (fun _ => True) (CacheConduct r) (CacheConclusion r) []
  have hfree : (∀ token action, r ≠ .authed token action) → ∀ h, KnowsCaller r h := by
    intro hr h token action hr'
    exact absurd hr' (hr token action)
  cases r with
  | authed token action =>
    have hgate : ((Cached.authedUser token).mapError Failure.auth).Meets (fun _ => True)
        (CacheConduct (.authed token action)) (Extracted token) [] := by
      apply Prog.Meets.mapError cachedAuthedUser_meets
      · intro t user hk
        exact hk
      · intro t x _
        trivial
    apply Prog.Meets.bind hgate
    · intro t user hk
      exact action_meets hk
    · intro t x _
      refine ⟨?_, ?_, ?_⟩
      · intro _ _ _ _ hout
        cases hout
      · intro _ hout
        cases hout
      · intro _ hout
        cases hout
  | resetPassword cfg token newPassword =>
    have ha := hfree nofun
    apply Prog.meets_bind.mpr
    apply Prog.Meets.mapError resetPassword_meets
    · intro t _ hdone
      exact conclusion_of_done (ha _) fun _ => hdone
    · intro t x _
      exact conclusion_of_done (ha _) fun _ => trivial
  | purgeExpired =>
    have ha := hfree nofun
    apply meets_withCache_bind
    · intro ctx w
      refine conduct_own (.inl (ha _)) ?_ ?_ ?_
      · intro token userId user hs
        cases hs
      · intro token hs
        cases hs
      · intro key hs
        cases hs
    · intro ctx w
      exact conclusion_of_done (ha _) fun hr => absurd hr id
  | call call =>
    apply (other_meets (hfree nofun []) id).weaken (fun _ hw => hw) (fun _ _ _ he => he)
    intro t x ha
    exact conclusion_of_done ha fun hr => absurd hr id

end

end SoulAuth
