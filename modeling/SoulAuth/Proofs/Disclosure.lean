import Mathlib.Data.List.Forall2
import SoulAuth.Framework.TwoRuns
import SoulAuth.Proofs.Tables

/-! # What the claims disclose

Two runs whose users differ in nothing that the scope discloses give the same
claims: neither the ID token nor UserInfo tells them apart. What they do
disclose of one user, for one scope, is the same.
-/

namespace SoulAuth

open Framework Framework.Prog

variable [Platform]

/-! ## Users that a scope does not tell apart -/

/-- The users differ in nothing but the email address and the verified flag. -/
def User.DiffersInEmail (u v : User) : Prop :=
  v = { u with email := v.email, verified := v.verified }

/-- The users differ in nothing but the username and the time of the last
    update. -/
def User.DiffersInProfile (u v : User) : Prop :=
  v = { u with username := v.username, usernameNormalized := v.usernameNormalized,
               updatedAt := v.updatedAt }

/-- The users agree on what a request looks up, and on what is disclosed. -/
structure User.Alike (d : ClaimDisclosure) (u v : User) : Prop where
  key : u.key = v.key
  subjectId : u.subjectId = v.subjectId
  accountStatus : u.accountStatus = v.accountStatus
  lastLoginAt : u.lastLoginAt = v.lastLoginAt
  email : d.email = true → u.email = v.email ∧ u.verified = v.verified
  profile : d.profile = true → u.username = v.username ∧ u.updatedAt = v.updatedAt

/-- The two states differ in nothing but the users, which are related row by
    row. -/
structure World.Alike (R : User → User → Prop) (w w' : World) : Prop where
  users : List.Forall₂ R w.db.users w'.db.users
  rest : w' = { w with db := { w.db with identity :=
    { w.db.identity with users := w'.db.users } } }

/-- A disclosure of no more than another one. -/
structure ClaimDisclosure.Within (d d' : ClaimDisclosure) : Prop where
  email : d.email = true → d'.email = true
  profile : d.profile = true → d'.profile = true

/-- The access token, where it is stored, discloses no more than `d`. -/
def World.Discloses (d : ClaimDisclosure) (token : Str) (w : World) : Prop :=
  ∀ t ∈ w.db.accessTokens, t.tokenHash = hashBearer token →
    (ClaimDisclosure.fromScope t.scope).Within d

/-- The access token, where it is stored, has a scope without the word. -/
def World.Lacks (word token : Str) (w : World) : Prop :=
  ∀ t ∈ w.db.accessTokens, t.tokenHash = hashBearer token →
    word ∉ Str.splitWhitespace t.scope

section

omit [Platform]

variable {d d' : ClaimDisclosure} {u v : User} {w w' : World} {R R' : User → User → Prop}
  {scope token : Str}

theorem User.DiffersInEmail.alike (h : u.DiffersInEmail v) : u.Alike ⟨false, true⟩ v := by
  rw [h]
  exact ⟨rfl, rfl, rfl, rfl, (nomatch ·), fun _ => ⟨rfl, rfl⟩⟩

theorem User.DiffersInProfile.alike (h : u.DiffersInProfile v) : u.Alike ⟨true, false⟩ v := by
  rw [h]
  exact ⟨rfl, rfl, rfl, rfl, fun _ => ⟨rfl, rfl⟩, (nomatch ·)⟩

/-- Users that agree on more agree on less. -/
theorem User.Alike.within (h : u.Alike d v) (hd : d'.Within d) : u.Alike d' v :=
  ⟨h.key, h.subjectId, h.accountStatus, h.lastLoginAt, fun he => h.email (hd.email he),
    fun hp => h.profile (hd.profile hp)⟩

theorem User.Alike.email_eq (h : u.Alike d v) :
    (if d.email then some u.email else none) = if d.email then some v.email else none := by
  split
  · next hd => rw [(h.email hd).1]
  · rfl

theorem User.Alike.verified_eq (h : u.Alike d v) :
    (if d.email then some u.verified else none) = if d.email then some v.verified else none := by
  split
  · next hd => rw [(h.email hd).2]
  · rfl

theorem User.Alike.username_eq (h : u.Alike d v) :
    (if d.profile then some u.username else none) =
      if d.profile then some v.username else none := by
  split
  · next hd => rw [(h.profile hd).1]
  · rfl

theorem User.Alike.updatedAt_eq (h : u.Alike d v) :
    (if d.profile then some u.updatedAt else none) =
      if d.profile then some v.updatedAt else none := by
  split
  · next hd => rw [(h.profile hd).2]
  · rfl

theorem World.Alike.mono (h : w.Alike R w') (hR : ∀ u v, R u v → R' u v) : w.Alike R' w' :=
  ⟨h.users.imp hR, h.rest⟩

theorem fromScope_lacks_email (h : "email".toList ∉ Str.splitWhitespace scope) :
    (ClaimDisclosure.fromScope scope).Within ⟨false, true⟩ :=
  ⟨fun he => absurd (of_decide_eq_true he) h, fun _ => rfl⟩

theorem fromScope_lacks_profile (h : "profile".toList ∉ Str.splitWhitespace scope) :
    (ClaimDisclosure.fromScope scope).Within ⟨true, false⟩ :=
  ⟨fun _ => rfl, fun hp => absurd (of_decide_eq_true hp) h⟩

/-- The first rows that pass a test are related, if related rows pass it
    alike. -/
theorem find?_alike {us vs : List User} {p : User → Bool} (h : List.Forall₂ R us vs)
    (hp : ∀ u v, R u v → p u = p v) :
    (us.find? p = none ∧ vs.find? p = none) ∨
      ∃ u v, us.find? p = some u ∧ vs.find? p = some v ∧ R u v := by
  induction h with
  | nil => exact .inl ⟨rfl, rfl⟩
  | @cons u v us vs hR _ ih =>
    by_cases hu : p u = true
    · have hv : p v = true := hp u v hR ▸ hu
      rw [List.find?_cons_of_pos hu, List.find?_cons_of_pos hv]
      exact .inr ⟨u, v, rfl, rfl, hR⟩
    · have hv : ¬ p v = true := hp u v hR ▸ hu
      rw [List.find?_cons_of_neg hu, List.find?_cons_of_neg hv]
      exact ih

theorem subjectOf_alike {us vs : List User} (h : List.Forall₂ (User.Alike d) us vs) (key : Str) :
    subjectOf us key = subjectOf vs key := by
  unfold subjectOf
  have hkeys : ∀ u v : User, u.Alike d v → decide (u.key = key) = decide (v.key = key) := by
    intro u v hR
    rw [hR.key]
  rcases find?_alike h hkeys with ⟨hu, hv⟩ | ⟨u, v, hu, hv, hR⟩
  · rw [hu, hv]
  · rw [hu, hv]
    exact hR.subjectId

end

/-! ## Statements that look at no attribute -/

/-- The statements that the claims are read with, but for the user row. -/
def Stmt.isBlind : Stmt → Bool
  | .now => true
  | .db (.identity (.user (.subjectOf _))) => true
  | .db (.identity (.actor (.find _))) => true
  | .db (.identity (.accountOfActor _)) => true
  | .db (.session (.authenticatedAt _)) => true
  | .db (.accessToken (.get _)) => true
  | _ => false

abbrev Stmt.Blind (s : Stmt) : Prop := s.isBlind = true

section

variable {d : ClaimDisclosure} {u v : User} {w w' : World} {s : Stmt} {ctx : Ctx}
  {userId sid scope token : Str}

/-- A statement fails alike in two states, or answers what the tables give. -/
theorem exec_reply_cases (ctx : Ctx) (s : DbStmt) (hnow : w.now = w'.now) :
    (∃ x, ((Stmt.db s).exec ctx w).1 = .error x ∧ ((Stmt.db s).exec ctx w').1 = .error x) ∨
      ∃ now, ((Stmt.db s).exec ctx w).1 = (s.exec now w.db).1 ∧
        ((Stmt.db s).exec ctx w').1 = (s.exec now w'.db).1 := by
  obtain ⟨elapsed, fault⟩ := ctx
  rcases fault with _ | fault
  · refine .inr ⟨w.now + elapsed, rfl, ?_⟩
    rw [hnow]
    rfl
  · cases fault <;> exact .inl ⟨_, rfl, rfl⟩

theorem exec_reply {s : DbStmt} (hnow : w.now = w'.now)
    (h : ∀ now, (s.exec now w.db).1 = (s.exec now w'.db).1) :
    ((Stmt.db s).exec ctx w).1 = ((Stmt.db s).exec ctx w').1 := by
  rcases exec_reply_cases ctx s hnow with ⟨x, hx, hx'⟩ | ⟨now, ht, ht'⟩
  · rw [hx, hx']
  · rw [ht, ht', h]

/-- They answer the same whoever the users are. -/
theorem blind_exec (hs : s.Blind) (hw : w.Alike (User.Alike d) w') :
    (s.exec ctx w).1 = (s.exec ctx w').1 := by
  obtain ⟨husers, hrest⟩ := hw
  have hnow : w.now = w'.now := by rw [hrest]
  unfold Stmt.Blind Stmt.isBlind at hs
  split at hs
  · show w.now + ctx.elapsed = w'.now + ctx.elapsed
    rw [hnow]
  · next key =>
    apply exec_reply hnow
    intro now
    show Except.ok (subjectOf w.db.users key) = Except.ok (subjectOf w'.db.users key)
    rw [subjectOf_alike husers]
  all_goals first
    | (rw [hrest]; exact exec_reply rfl fun _ => rfl)
    | cases hs

theorem query_blind {ε : Type} [OfDb ε] {t : DbStmt} (h : (Stmt.db t).Blind) :
    Only Stmt.Blind (query t : Req ε t.Reply) := by
  refine ⟨h, fun r => ?_⟩
  cases r <;> trivial

theorem authenticableActorOfUser_blind :
    Only Stmt.Blind (authenticableActorOfUser userId) := by
  apply Only.bind
  · exact .bind (query_blind rfl) fun _ => only_orThrow
  intro actorKey
  apply Only.bind (query_blind rfl)
  intro found
  apply Only.bind only_orThrow
  intro actor
  apply Only.bind only_done
  intro _
  exact .bind (query_blind rfl) fun _ => .bind only_orThrow fun _ => only_done

theorem orRefuse_blind {text : String} :
    Only Stmt.Blind (orRefuse text (authenticableActorOfUser userId)) :=
  .mapError authenticableActorOfUser_blind

theorem stableSubjectOfUser_blind : Only Stmt.Blind (stableSubjectOfUser u) :=
  .bind orRefuse_blind fun _ => only_done

theorem getNow_blind {ε : Type} : Only Stmt.Blind (getNow : Req ε Timestamp) :=
  ⟨rfl, fun _ => trivial⟩

theorem generateIdToken_blind {cfg : Config} {client : OidcClient} {nonce ref : Option Str} :
    Only Stmt.Blind (generateIdToken cfg client u nonce ref scope) := by
  apply Only.bind only_orThrow
  intro sid
  apply Only.bind getNow_blind
  intro now
  apply Only.bind stableSubjectOfUser_blind
  intro subject
  apply Only.bind (.attempt (query_blind rfl))
  intro found
  exact only_done

/-- A program of such statements is its own twin. -/
theorem blind_twins {ε α : Type} {p : Req ε α} {P : World → World → Prop}
    (hP : ∀ w w', P w w' → w.Alike (User.Alike d) w') (hp : Only Stmt.Blind p) :
    Twins P Eq p p :=
  hp.twins fun _ _ w w' hs hw => blind_exec hs (hP w w' hw)

/-! ## The ID token -/

/-- Users that agree on what the scope discloses have the same ID token. -/
theorem generateIdToken_alike (h : u.Alike (ClaimDisclosure.fromScope scope) v) (cfg : Config)
    (client : OidcClient) (nonce ref : Option Str) :
    generateIdToken cfg client u nonce ref scope = generateIdToken cfg client v nonce ref scope := by
  unfold generateIdToken stableSubjectOfUser
  simp only [h.key, h.lastLoginAt, h.email_eq, h.verified_eq, h.username_eq]

/-! ## UserInfo -/

/-- A lookup by user finds users that are alike, or fails alike. -/
theorem getUserById_twins {P : World → World → Prop}
    (hP : ∀ w w', P w w' → w.Alike (User.Alike d) w') :
    Twins P (User.Alike d) (getUserById userId) (getUserById userId) := by
  have hlooked : ∀ u v : User, u.Alike d v →
      (decide (u.subjectId = some (ownerKey userId)) || decide (u.key = ownerKey userId)) =
        (decide (v.subjectId = some (ownerKey userId)) || decide (v.key = ownerKey userId)) := by
    intro u v hR
    rw [hR.key, hR.subjectId]
  -- the tables differ in users only, and no lookup asks for what differs
  apply Twins.step
  intro ctx w w' hPw
  have halike := hP w w' hPw
  have hnow : w.now = w'.now := by rw [halike.rest]
  have hreply := exec_reply_cases ctx (.identity (.user (.findByActorOrId (ownerKey userId)))) hnow
  rcases hreply with ⟨x, hx, hx'⟩ | ⟨now, ht, ht'⟩
  · simp only [hx, hx']
    exact .error _
  · simp only [ht, ht', DbStmt.exec, IdentityStmt.exec, UserStmt.exec]
    rcases find?_alike halike.users hlooked with ⟨hu, hv⟩ | ⟨u, v, hu, hv, hR⟩
    · rw [hu, hv]
      exact .error _
    · rw [hu, hv]
      exact .ok hR

/-- So does the lookup of an active user. -/
theorem loadActiveUser_twins {P : World → World → Prop}
    (hP : ∀ w w', P w w' → w.Alike (User.Alike d) w') :
    Twins P (User.Alike d) (loadActiveUser userId) (loadActiveUser userId) := by
  apply (getUserById_twins hP).bind
  intro u v hR
  have husable : u.ensureUsable = v.ensureUsable := by
    unfold User.ensureUsable
    rw [hR.accountStatus]
  rw [← hR.key, ← husable]
  apply (blind_twins hP orRefuse_blind).bind_eq
  intro _
  -- both are refused with the same text, or none is
  rcases u.ensureUsable with x | _
  · exact .error _
  · exact .ok hR

/-- An access token is found in both states, with a scope that discloses no
    more than `d`. -/
theorem getAccessToken_twins {P : World → World → Prop}
    (hP : ∀ w w', P w w' → w.Alike (User.Alike d) w' ∧ w.Discloses d token) :
    Twins P (fun t t' => t = t' ∧ (ClaimDisclosure.fromScope t.scope).Within d)
      (getAccessToken token) (getAccessToken token) := by
  apply Twins.step
  intro ctx w w' hPw
  obtain ⟨halike, hdiscloses⟩ := hP w w' hPw
  rw [← blind_exec rfl halike]
  have hreply := exec_reply_cases ctx (.accessToken (.get (hashBearer token))) (Eq.refl w.now)
  rcases hreply with ⟨x, hx, -⟩ | ⟨now, ht, -⟩
  · simp only [hx]
    exact .error _
  · simp only [ht, DbStmt.exec, AccessTokenStmt.exec]
    rcases hfind : w.db.accessTokens.find? fun r => r.tokenHash = hashBearer token with _ | t
    · rw [hfind]
      exact .error _
    · rw [hfind]
      refine .ok ⟨rfl, ?_⟩
      exact hdiscloses t (List.mem_of_find?_eq_some hfind) (by simpa using List.find?_some hfind)

/-- Users that agree on what the scope of an access token discloses have the
    same UserInfo. -/
theorem getUserinfo_twins {P : World → World → Prop}
    (hP : ∀ w w', P w w' → w.Alike (User.Alike d) w' ∧ w.Discloses d token) :
    Twins P Eq (getUserinfo token) (getUserinfo token) := by
  have halike : ∀ w w', P w w' → w.Alike (User.Alike d) w' := fun w w' hPw => (hP w w' hPw).1
  apply (getAccessToken_twins hP).bind
  intro t t' ht
  obtain ⟨rfl, hwithin⟩ := ht
  apply (blind_twins halike getNow_blind).bind_eq
  intro now
  apply (blind_twins halike only_ensure).bind_eq
  intro _
  apply (blind_twins halike only_ensure).bind_eq
  intro _
  -- from here on the two runs hold users that differ
  apply (loadActiveUser_twins halike).bind
  intro u v hR
  have hsame := hR.within hwithin
  have hsubject : stableSubjectOfUser v = stableSubjectOfUser u := by
    rw [stableSubjectOfUser, stableSubjectOfUser, hR.key]
  rw [hsubject]
  apply (blind_twins halike stableSubjectOfUser_blind).bind_eq
  intro subject
  simp only [hsame.email_eq, hsame.verified_eq, hsame.username_eq, hsame.updatedAt_eq]
  exact .ok rfl

end

/-! ## The two builders -/

/-- The subject key of the identity root of a user. -/
def IdentityTables.subjectKeyOf (tables : IdentityTables) (userKey : Str) : Option Str := do
  let actorKey ← subjectOf tables.users (normalizeUserId userKey)
  let actor ← tables.actors.find? fun a =>
    a.key = idArgumentKey (actorAddress (normalizeActorId actorKey))
  return actor.subjectKey

/-- The user that an `user_id` refers to. -/
def IdentityTables.userOf (tables : IdentityTables) (userId : Str) : Option User :=
  tables.users.find? fun u => u.subjectId = some (ownerKey userId) || u.key = ownerKey userId

/-- What a scope discloses of a user. -/
structure Discloses (u : User) (scope : Str) (email : Option Str)
    (emailVerified : Option Bool) (preferredUsername : Option Str) : Prop where
  email : email = if "email".toList ∈ Str.splitWhitespace scope then some u.email else none
  emailVerified : emailVerified =
    if "email".toList ∈ Str.splitWhitespace scope then some u.verified else none
  preferredUsername : preferredUsername =
    if "profile".toList ∈ Str.splitWhitespace scope then some u.username else none

/-- The ID token and UserInfo agree on the subject and on the attributes. -/
structure SameClaims (claims : IdTokenClaims) (info : UserInfoResponse) : Prop where
  sub : claims.sub = info.sub
  email : claims.email = info.email
  emailVerified : claims.emailVerified = info.emailVerified
  preferredUsername : claims.preferredUsername = info.preferredUsername

/-- The access token, where it is stored, is one of the user for the scope. -/
def World.IssuedFor (tables : IdentityTables) (token : Str) (u : User) (scope : Str) (w : World) :
    Prop :=
  w.db.identity = tables ∧ ∀ t ∈ w.db.accessTokens, t.tokenHash = hashBearer token →
    t.scope = scope ∧ tables.userOf (actorAddress t.userId) = some u

section

variable {tables : IdentityTables} {I : World → Prop} {u : User} {h : List (Entry machine)}
  {token scope : Str}

omit [Platform] in
theorem discloses_fromScope : Discloses u scope
    (if (ClaimDisclosure.fromScope scope).email then some u.email else none)
    (if (ClaimDisclosure.fromScope scope).email then some u.verified else none)
    (if (ClaimDisclosure.fromScope scope).profile then some u.username else none) := by
  constructor <;> simp only [ClaimDisclosure.fromScope, decide_eq_true_eq]

/-- The subject is the one of the identity root of the user. -/
theorem stableSubjectOfUser_meets (hI : ∀ w, I w → w.db.identity = tables) :
    (stableSubjectOfUser u).Meets I (fun _ _ => True)
      (fun _ r => ∀ sub, r = .ok sub → tables.subjectKeyOf u.key = some sub) h := by
  have hactor : (authenticableActorOfUser u.key).Meets I (fun _ _ => True)
      (fun _ r => ∀ a, r = .ok a → tables.subjectKeyOf u.key = some a.subjectKey) h := by
    rw [authenticableActorOfUser, actorRefOfUser, Prog.bind_assoc']
    apply meets_query_bind (fun _ _ _ => trivial) _ (fun _ _ _ _ heq => nomatch heq)
    intro e actorKey hbefore hread
    apply meets_orThrow_bind _ (fun _ _ heq => nomatch heq)
    rintro actorKey rfl
    have hsubject : subjectOf tables.users (normalizeUserId u.key) = some actorKey := by
      rw [← hI _ hbefore]
      exact Except.ok.inj hread.reply
    apply meets_query_bind (fun _ _ _ => trivial) _ (fun _ _ _ _ heq => nomatch heq)
    intro e' found hbefore' hread'
    apply meets_orThrow_bind _ (fun _ _ heq => nomatch heq)
    rintro actor rfl
    have hfound : (tables.actors.find? fun a =>
        a.key = idArgumentKey (actorAddress (normalizeActorId actorKey))) = some actor := by
      rw [← hI _ hbefore']
      exact Except.ok.inj hread'.reply
    have hkey : tables.subjectKeyOf u.key = some actor.subjectKey := by
      rw [IdentityTables.subjectKeyOf, hsubject]
      simp [hfound]
    -- the account is asked for, but the subject does not come from it
    apply meets_ofExcept_bind _ (fun _ _ _ heq => nomatch heq)
    intro _ _
    apply meets_query_bind (fun _ _ _ => trivial) _ (fun _ _ _ _ heq => nomatch heq)
    intro _ account _ _
    apply meets_orThrow_bind _ (fun _ _ heq => nomatch heq)
    intro account _ a heq
    cases heq
    exact hkey
  have hrefuse : (orRefuse "Identity root is not authenticable"
      (authenticableActorOfUser u.key)).Meets I (fun _ _ => True)
      (fun _ r => ∀ a, r = .ok a → tables.subjectKeyOf u.key = some a.subjectKey) h := by
    apply hactor.mapError
    · intro _ a hr b heq
      cases heq
      exact hr a rfl
    · exact fun _ _ _ _ heq => nomatch heq
  apply hrefuse.bind
  · intro t a ha sub heq
    cases heq
    exact ha a rfl
  · intro t x _ sub heq
    cases heq

/-- What an ID token says of a user. -/
theorem generateIdToken_meets (hI : ∀ w, I w → w.db.identity = tables) {cfg : Config}
    {client : OidcClient} {nonce ref : Option Str} :
    (generateIdToken cfg client u nonce ref scope).Meets I (fun _ _ => True)
      (fun _ r => ∀ claims, r = .ok claims → tables.subjectKeyOf u.key = some claims.sub ∧
        Discloses u scope claims.email claims.emailVerified claims.preferredUsername) h := by
  apply meets_orThrow_bind _ (fun _ _ heq => nomatch heq)
  intro sid _
  apply meets_getNow_bind (fun _ _ _ => trivial)
  intro e now _ _
  apply (stableSubjectOfUser_meets hI).bind _ fun _ _ _ _ heq => nomatch heq
  intro t subject hsubject
  apply meets_skip_bind (.attempt (query_blind rfl)) (fun _ _ _ _ => trivial) _
    fun _ _ _ _ heq => nomatch heq
  intro t' found _ claims heq
  cases heq
  exact ⟨hsubject subject rfl, discloses_fromScope⟩

/-- What UserInfo says of a user. -/
theorem getUserinfo_meets (hI : ∀ w, I w → w.IssuedFor tables token u scope) :
    (getUserinfo token).Meets I (fun _ _ => True)
      (fun _ r => ∀ info, r = .ok info → tables.subjectKeyOf u.key = some info.sub ∧
        Discloses u scope info.email info.emailVerified info.preferredUsername) h := by
  have htables : ∀ w, I w → w.db.identity = tables := fun w hw => (hI w hw).1
  rw [getUserinfo, getAccessToken, Prog.bind_assoc']
  apply meets_query_bind (fun _ _ _ => trivial) _ (fun _ _ _ _ heq => nomatch heq)
  intro e row hbefore hread
  apply meets_orThrow_bind _ (fun _ _ heq => nomatch heq)
  rintro t rfl
  have hreply : (e.before.db.accessTokens.find? fun r => r.tokenHash = hashBearer token).map
      (fun r => { r with userId := actorAddress r.userId }) = some t :=
    Except.ok.inj hread.reply
  obtain ⟨stored, hstored, rfl⟩ := Option.map_eq_some_iff.mp hreply
  obtain ⟨rfl, huser⟩ := (hI _ hbefore).2 stored (List.mem_of_find?_eq_some hstored)
    (by simpa using List.find?_some hstored)
  apply meets_getNow_bind (fun _ _ _ => trivial)
  intro e' now _ _
  apply meets_ensure_bind _ (fun _ _ heq => nomatch heq)
  intro _
  apply meets_ensure_bind _ (fun _ _ heq => nomatch heq)
  intro _
  rw [loadActiveUser, getUserById, Prog.bind_assoc', Prog.bind_assoc']
  apply meets_query_bind (fun _ _ _ => trivial) _ (fun _ _ _ _ heq => nomatch heq)
  intro e'' found hbefore' hread'
  apply meets_orThrow_bind _ (fun _ _ heq => nomatch heq)
  rintro v rfl
  -- the token leads to the user whom the ID token is about
  have hsame : v = u := by
    have hv : tables.userOf (actorAddress stored.userId) = some v := by
      rw [← htables _ hbefore']
      exact Except.ok.inj hread'.reply
    exact Option.some.inj (hv.symm.trans huser)
  rw [hsame, Prog.bind_assoc']
  apply meets_skip_bind orRefuse_blind (fun _ _ _ _ => trivial) _ fun _ _ _ _ heq => nomatch heq
  intro t _ _
  rw [Prog.bind_assoc']
  apply meets_ofExcept_bind _ (fun _ _ _ heq => nomatch heq)
  intro _ _
  apply (stableSubjectOfUser_meets htables).bind _ fun _ _ _ _ heq => nomatch heq
  intro t' subject hsubject info heq
  cases heq
  exact ⟨hsubject subject rfl, discloses_fromScope⟩

/-- A pair of runs that differ in users hides the attributes behind a word. -/
structure Hides (word : Str) (differs : User → User → Prop) : Prop where
  idToken : ∀ (cfg : Config) (client : OidcClient) (nonce ref : Option Str) (scope : Str)
    (u v : User) (cs : Nat → Ctx) (ws ws' : Nat → World),
    word ∉ Str.splitWhitespace scope → differs u v → (∀ n, (ws n).Alike differs (ws' n)) →
      (generateIdToken cfg client u nonce ref scope).against cs ws =
        (generateIdToken cfg client v nonce ref scope).against cs ws'
  userinfo : ∀ (token : Str) (cs : Nat → Ctx) (ws ws' : Nat → World),
    (∀ n, (ws n).Alike differs (ws' n)) → (∀ n, (ws n).Lacks word token) →
      (getUserinfo token).against cs ws = (getUserinfo token).against cs ws'

theorem hides_of_alike {word : Str} {differs : User → User → Prop} {d : ClaimDisclosure}
    (hdiffers : ∀ u v, differs u v → u.Alike d v)
    (hword : ∀ scope, word ∉ Str.splitWhitespace scope →
      (ClaimDisclosure.fromScope scope).Within d) : Hides word differs where
  idToken := by
    intro cfg client nonce ref scope u v cs ws ws' hscope hR hws
    rw [← generateIdToken_alike ((hdiffers u v hR).within (hword scope hscope))]
    exact (blind_twins (fun w w' hw => World.Alike.mono hw hdiffers)
      generateIdToken_blind).against_eq hws
  userinfo := by
    intro token cs ws ws' hws hlacks
    have htwins : Twins (fun w w' : World => w.Alike differs w' ∧ w.Lacks word token) Eq
        (getUserinfo token) (getUserinfo token) := by
      apply getUserinfo_twins (d := d)
      intro w w' hw
      exact ⟨hw.1.mono hdiffers, fun t ht hhash => hword t.scope (hw.2 t ht hhash)⟩
    exact htwins.against_eq fun n => ⟨hws n, hlacks n⟩

/-- **Minimal disclosure.** Without the word `email` in the scope no claim
    depends on the email address and the verified flag, without `profile` none
    on the username and the time of the last update, whatever other requests
    do in between. For one user and one scope the ID token and UserInfo make
    the same claims. -/
theorem claims_disclosed :
    Hides "email".toList User.DiffersInEmail ∧ Hides "profile".toList User.DiffersInProfile ∧
    ∀ (tables : IdentityTables) (token : Str) (u : User) (scope : Str) (cfg : Config)
      (client : OidcClient) (nonce ref : Option Str) (cs cs' : Nat → Ctx) (ws ws' : Nat → World)
      (claims : IdTokenClaims) (info : UserInfoResponse),
      (∀ n, (ws n).db.identity = tables) → (∀ n, (ws' n).IssuedFor tables token u scope) →
      (generateIdToken cfg client u nonce ref scope).against cs ws = .ok claims →
      (getUserinfo token).against cs' ws' = .ok info → SameClaims claims info := by
  refine ⟨hides_of_alike (fun _ _ h => h.alike) fun _ h => fromScope_lacks_email h,
    hides_of_alike (fun _ _ h => h.alike) fun _ h => fromScope_lacks_profile h, ?_⟩
  intro tables token u scope cfg client nonce ref cs cs' ws ws' claims info hws hws' hclaims hinfo
  obtain ⟨_, -, hidToken⟩ := (generateIdToken_meets (I := fun w => w.db.identity = tables)
    (fun _ hw => hw) (h := [])).against cs hws
  obtain ⟨hsub, hdisclosed⟩ := hidToken claims hclaims
  obtain ⟨_, -, huserinfo⟩ := (getUserinfo_meets (I := World.IssuedFor tables token u scope)
    (fun _ hw => hw) (h := [])).against cs' hws'
  obtain ⟨hsub', hdisclosed'⟩ := huserinfo info hinfo
  constructor
  · exact Option.some.inj (hsub.symm.trans hsub')
  · rw [hdisclosed.email, hdisclosed'.email]
  · rw [hdisclosed.emailVerified, hdisclosed'.emailVerified]
  · rw [hdisclosed.preferredUsername, hdisclosed'.preferredUsername]

end

end SoulAuth

/-! ## A run that discloses the email address -/

namespace SoulAuth.Sample

open Framework Framework.System Framework.Prog

/-- Alice's code with the scope `openid email`, redeemed by the client. -/
def disclosed : World :=
  (after (prelude ++ start config (.authorize
      { authorizeRequest with scope := some "openid email".toList }
      ⟨some aliceBearer, none⟩) :: steps 2 13 ++
    start config (redeem code) :: steps 3 18)).state

/-- The access token that the client has then. -/
def disclosedToken : Str := numbered 't' 12

def disclosingClient : OidcClient := disclosed.db.clients.head?.get (by decide +kernel)

def aliceRow : User := disclosed.db.users.head?.get (by decide +kernel)

/-- Alice under another name. -/
def renamedRow : User := { aliceRow with username := "alicia".toList }

/-- The same state, with her other name. -/
def renamed : World :=
  { disclosed with db := { disclosed.db with identity :=
    { disclosed.db.identity with users := [renamedRow] } } }

theorem renamed_alike : disclosed.Alike User.DiffersInProfile renamed where
  users := by
    have husers : disclosed.db.users = [aliceRow] := by decide +kernel
    rw [husers]
    have hrow : ∀ u : User, u.DiffersInProfile { u with username := "alicia".toList } :=
      fun _ => rfl
    exact .cons (hrow aliceRow) .nil
  rest := rfl

/-- What the ID token says of her. -/
def aliceClaims : IdTokenClaims where
  iss := "https://auth.example".toList
  sub := numbered 'u' 9
  aud := clientId
  exp := 300
  iat := 0
  authTime := 0
  sid := aliceSession
  nonce := none
  email := some "a@b.c".toList
  emailVerified := some true
  preferredUsername := none

/-- What UserInfo says of her. -/
def aliceInfo : UserInfoResponse where
  sub := numbered 'u' 9
  email := some "a@b.c".toList
  emailVerified := some true
  preferredUsername := none
  updatedAt := none

/-- UserInfo says the same of her under either name, and what the ID token
    says. -/
theorem claims_disclosed_alice :
    (getUserinfo disclosedToken).against (fun _ => Ctx.calm) (fun _ => disclosed) =
      .ok aliceInfo ∧
    (getUserinfo disclosedToken).against (fun _ => Ctx.calm) (fun _ => renamed) =
      .ok aliceInfo ∧
    (generateIdToken config disclosingClient aliceRow none (some aliceSession)
      "openid email".toList).against (fun _ => Ctx.calm) (fun _ => disclosed) =
        .ok aliceClaims ∧
    SameClaims aliceClaims aliceInfo := by
  obtain ⟨-, hprofile, hsame⟩ := claims_disclosed
  have hclaims : (generateIdToken config disclosingClient aliceRow none (some aliceSession)
      "openid email".toList).against (fun _ => Ctx.calm) (fun _ => disclosed) =
        .ok aliceClaims := by decide +kernel
  have hinfo : (getUserinfo disclosedToken).against (fun _ => Ctx.calm) (fun _ => disclosed) =
      .ok aliceInfo := by decide +kernel
  have hlacks : disclosed.Lacks "profile".toList disclosedToken := by
    have h : ∀ t ∈ disclosed.db.accessTokens,
      "profile".toList ∉ Str.splitWhitespace t.scope := by decide +kernel
    exact fun t ht _ => h t ht
  have hissued : disclosed.IssuedFor disclosed.db.identity disclosedToken aliceRow
      "openid email".toList := by
    have h : ∀ t ∈ disclosed.db.accessTokens, t.scope = "openid email".toList ∧
      disclosed.db.identity.userOf (actorAddress t.userId) = some aliceRow := by decide +kernel
    exact ⟨rfl, fun t ht _ => h t ht⟩
  have halike : (getUserinfo disclosedToken).against (fun _ => Ctx.calm) (fun _ => disclosed) =
      (getUserinfo disclosedToken).against (fun _ => Ctx.calm) (fun _ => renamed) :=
    hprofile.userinfo _ _ _ _ (fun _ => renamed_alike) fun _ => hlacks
  exact ⟨hinfo, halike ▸ hinfo, hclaims, hsame _ _ _ _ _ _ _ _ _ _ _ _ _ _ (fun _ => rfl)
    (fun _ => hissued) hclaims hinfo⟩

end SoulAuth.Sample
