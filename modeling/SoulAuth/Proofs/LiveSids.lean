import SoulAuth.Proofs.AuthTimes
import SoulAuth.Proofs.SeenUsers

/-! # The session that an ID token names

A code is issued for a session that was found live. Its key is handed on
by the code and by one refresh token after the other, while the session
itself may end: nobody looks at it again before an ID token is signed.
-/

namespace SoulAuth

open Framework Framework.System

section

variable [Platform]

/-! ## Cookies -/

/-- The server has set the cookie: with the answer to a login, or to the
    verification of an email address. -/
inductive CookieSet (c : (server).Conf) : BrowserSessionClaims → Prop
  | login (j : Nat) (response : LoginResponse)
      (ret : c.Returned j (.ok (.loggedIn response))) : CookieSet c response.cookie
  | verification (j : Nat) (cfg : Config) (token ip : Str) (issued : IssuedSession)
      (cookie : BrowserSessionClaims) (req : c.reqOf j = some ⟨cfg, .verifyEmail token ip⟩)
      (ret : c.Returned j (.ok (.session issued))) (sub : cookie.sub = issued.user.id)
      (sid : cookie.sid = issued.sessionKey) : CookieSet c cookie

/-- Nobody forges the signature of a cookie: browsers present cookies that
    the server has set. -/
def CookiesGenuine (c : (server).Conf) : Prop :=
  ∀ i cfg request credentials cookie, c.reqOf i = some ⟨cfg, .authorize request credentials⟩ →
    credentials.cookie = some cookie → CookieSet c cookie

/-! ## Live sessions -/

/-- The session is there and not expired, and it is one of the human whose
    subject the token states. -/
def NamesLive (c : (server).Conf) (e : Entry machine) (hint : IdTokenClaims) : Prop :=
  ∃ s ∈ e.before.db.sessions, s.key = hint.sid ∧ clock e < s.expiresAt ∧
    ∃ a, Conceived c.trace a ∧ s.userId = a.actor.key ∧ hint.sub = a.actor.subjectKey

/-- At this place the request looks at the session, and that is the last
    thing it does. -/
structure LooksAt (c : (server).Conf) (i n : Nat) (e : Entry machine) (sid : Str) : Prop where
  place : c.trace[n]? = some (i, e)
  stmt : e.stmt = .db (.session (.authenticatedAt sid))
  last : entriesOf (S := server) i (c.trace.drop (n + 1)) = []

/-- Whoever is given an ID token has one that named a live session of the
    user when the request looked at it. -/
def SidsLive (c : (server).Conf) : Prop :=
  ∀ i hint, SignedBy c i hint → ∃ n e, LooksAt c i n e hint.sid ∧ NamesLive c e hint

/-- The entry deletes the session with this key. -/
def Deletes (sid : Str) (e : Entry machine) : Prop :=
  (∃ s ∈ e.before.db.sessions, s.key = sid) ∧ ∀ s ∈ e.after.db.sessions, s.key ≠ sid

/-- No statement before this place has deleted the session, and its time
    has not run out. -/
structure InForce (c : (server).Conf) (n : Nat) (e : Entry machine) (sid : Str) : Prop where
  kept : ∀ m j e', m < n → c.trace[m]? = some (j, e') → ¬ Deletes sid e'
  unexpired : ∀ s, Opened c s → s.key = sid → clock e < s.expiresAt

/-- When a request signs an ID token, the session has been neither deleted
    nor outlived since the code was issued. -/
def SessionsInForce (c : (server).Conf) : Prop :=
  ∀ i hint n e, SignedBy c i hint → LooksAt c i n e hint.sid → InForce c n e hint.sid

section

variable {now : Timestamp} {w : World} {c : (server).Conf} {i j m n : Nat} {e e' : Entry machine}
  {s s' : Session} {u : User} {hint : IdTokenClaims} {sid : Str} {g : HumanAggregate}
  {tr₁ tr₂ : List (Nat × Entry machine)}

/-! ## The owner of a session -/

theorem seen_of_lastUserRead (htr : c.trace = tr₁ ++ tr₂)
    (hread : lastUserRead (entriesOf (S := server) i tr₁) = some u) : Seen c u := by
  obtain ⟨e, hmem, hu⟩ := List.mem_filterMap.mp (List.mem_of_getLast? hread)
  exact ⟨i, e, htr ▸ List.mem_append_left _ (mem_entriesOf.mp hmem), userReadBy_mem hu⟩

/-- The key of a session was drawn for it. -/
theorem Opened.key (hc : Reachable (World.fresh now) c) (h : Opened c s) :
    IsPlainKey s.key ∧ s.key ≠ [] := by
  obtain ⟨i, e, hm, hs⟩ := h
  obtain ⟨tr₁, tr₂, htr⟩ := List.append_of_mem hm
  obtain ⟨r, -, hopens⟩ := conducted_at hc htr
  unfold Conducted at hopens
  rw [hs] at hopens
  exact isPlainKey_of_drawn hopens.keyDrawn

/-- The keys of a session and of its owner are plain. -/
theorem Opened.plain (hc : Reachable (World.fresh now) c) (h : Opened c s) :
    IsPlainKey s.key ∧ IsPlainKey s.userId := by
  refine ⟨(h.key hc).1, ?_⟩
  obtain ⟨i, e, hm, hs⟩ := h
  obtain ⟨tr₁, tr₂, htr⟩ := List.append_of_mem hm
  obtain ⟨r, hr, hopens⟩ := conducted_at hc htr
  unfold Conducted at hopens
  rw [hs] at hopens
  rcases hopens.owner with ⟨proof, hep, -⟩ | ⟨u, hread, hsubject, -⟩
  · -- the session of an AI actor belongs to the root that was found
    obtain ⟨r', hr', hconduct⟩ := (aiConduct_holds hc).entries _ _ _ _ htr
    cases hr.symm.trans hr'
    change AiConducted r _ e at hconduct
    unfold AiConducted at hconduct
    rw [hs] at hconduct
    obtain ⟨a, x, hproved, howner, -⟩ := (hconduct proof hep).proved
    obtain ⟨e₀, hm₀, hfound⟩ := heard_mem hproved.actor.found fun _ he => he
    obtain ⟨tr₃, tr₄, htr₁⟩ := List.append_of_mem hm₀
    have htr' : c.trace = tr₃ ++ (i, e₀) :: (tr₄ ++ (i, e) :: tr₂) := by
      rw [htr, htr₁]
      simp
    obtain ⟨c₁, hc₁, -, hstate⟩ := hc.before htr'
    rw [howner]
    apply plainRoots_holds hc₁
    rw [hstate]
    exact KeyedTable.mem_of_rowAt hfound.rootAt
  · exact ((seen_of_lastUserRead htr hread).plain hc hsubject).2

/-- The session that a cookie names belongs to the user that it names. -/
theorem CookieSet.owner (hc : Reachable (World.fresh now) c) {cookie : BrowserSessionClaims}
    (h : CookieSet c cookie) : ∃ s u, Opened c s ∧ Seen c u ∧ u.subjectId = some s.userId ∧
      cookie.sid = s.key ∧ cookie.sub = u.key := by
  have hresult : ∀ {j s u}, Heard (entriesOf (S := server) j c.trace) (.session (.create s)) () →
      lastUserRead (entriesOf (S := server) j c.trace) = some u → u.subjectId = some s.userId →
      Opened c s ∧ Seen c u ∧ idArgumentKey (userAddress u.key) = u.key := by
    intro j s u hcreated hread hsubject
    obtain ⟨e, hm, ha⟩ := heard_mem hcreated fun _ he => he
    have htrace : c.trace = c.trace ++ [] := (List.append_nil _).symm
    have hseen : Seen c u := seen_of_lastUserRead htrace hread
    exact ⟨⟨j, e, hm, ha.stmt⟩, hseen,
      (hseen.plain hc hsubject).1.idArgumentKey_address (by decide)⟩
  cases h with
  | login j response ret =>
    obtain ⟨r, -, s, u, hcreated, hread, hsubject, hsub, hsid⟩ := (conduct_holds hc).returned ret
    obtain ⟨hopened, hseen, hkey⟩ := hresult hcreated hread hsubject
    exact ⟨s, u, hopened, hseen, hsubject, hsid, hsub.trans hkey⟩
  | verification j cfg token ip issued _ req ret sub sid =>
    obtain ⟨r, hr, hout⟩ := (idTokenRule_holds hc).returned ret
    cases hr.symm.trans req
    obtain ⟨u, s, hcreated, hread, hsubject, hsid, hid⟩ := hout.opened token ip issued rfl rfl
    obtain ⟨hopened, hseen, hkey⟩ := hresult hcreated hread hsubject
    exact ⟨s, u, hopened, hseen, hsubject, sid.trans hsid, sub.trans (hid.trans hkey)⟩

/-- The bearer of a session names it, and its owner. -/
theorem Opened.bearer (hc : Reachable (World.fresh now) c) (h : Opened c s) {claims : Claims}
    (hbearer : s.tokenHash = hashBearer claims) :
    claims.sub = s.userId ∧ claims.sessionId = some s.key := by
  obtain ⟨i, e, hm, hs⟩ := h
  obtain ⟨tr₁, tr₂, htr⟩ := List.append_of_mem hm
  obtain ⟨r, -, hopens⟩ := conducted_at hc htr
  unfold Conducted at hopens
  rw [hs] at hopens
  obtain ⟨claims', hhash, hclaims⟩ := hopens.bearer
  obtain rfl : claims' = claims := hashBearer_inj.mp (hhash.symm.trans hbearer)
  exact hclaims

/-- What `authorize` has vouched for: a session that it found, of the user
    that it found. -/
theorem Vouched.session (hc : Reachable (World.fresh now) c) (hgenuine : CookiesGenuine c)
    (htr : c.trace = tr₁ ++ tr₂) {cfg : Config} {request : AuthorizeRequest}
    {credentials : AuthorizeCredentials} {actorKey : Str}
    (hreq : c.reqOf i = some ⟨cfg, .authorize request credentials⟩)
    (h : Vouched credentials (entriesOf (S := server) i tr₁) u sid) (hu : Seen c u)
    (hsubject : u.subjectId = some actorKey) :
    ∃ s e, (i, e) ∈ tr₁ ∧ s ∈ e.before.db.sessions ∧ s.key = sid ∧ s.userId = actorKey := by
  have hopened : ∀ {e s}, (i, e) ∈ tr₁ → s ∈ e.before.db.sessions → Opened c s :=
    fun hm hs => opened_of_mem hc (htr ▸ List.mem_append_left _ hm) hs
  cases h with
  | bearer claims a t presented session live passed linked =>
    obtain ⟨e, hm, hactive⟩ := heard_mem live fun _ he => he
    obtain ⟨s, hs, htoken⟩ := live_session hactive
    have hsession := hopened hm hs
    obtain ⟨hsub, hsid⟩ := hsession.bearer hc htoken
    refine ⟨s, e, hm, hs, Option.some.inj (hsid.symm.trans session), ?_⟩
    -- the root was found under the owner of the session
    obtain ⟨e₁, -, hroot⟩ := passed.found
    have hplain := (hsession.plain hc).2
    have hnormal : normalizeActorId s.userId = s.userId := hplain.normalizeId (by decide)
    have hkey : a.key = s.userId := by
      rw [KeyedTable.key_of_rowAt hroot.rootAt, hsub, hnormal]
      exact hplain.idArgumentKey_address (by decide)
    exact hkey.symm.trans (Option.some.inj (linked.symm.trans hsubject))
  | cookie claims t presented session live user =>
    obtain ⟨e, hm, hactive⟩ := heard_mem live fun _ he => he
    have hreply := hactive.reply
    simp only [DbStmt.exec, SessionStmt.exec, Except.ok.injEq] at hreply
    obtain ⟨s, hs, hlive⟩ := List.any_eq_true.mp hreply
    have hkey : s.key = sid := by simpa using (Bool.and_eq_true_iff.mp hlive).1
    refine ⟨s, e, hm, hs, hkey, ?_⟩
    obtain ⟨s', u', hopened', hseen', hsubject', hsid', hsub'⟩ :=
      (hgenuine i cfg request credentials claims hreq presented).owner hc
    obtain rfl := (hopened hm hs).eq_of_key hc hopened' (hkey.trans (session.symm.trans hsid'))
    have hnormal : normalizeUserId u'.key = u'.key :=
      (hseen'.plain hc hsubject').1.normalizeId (by decide)
    have hsame : u.key = u'.key := by rw [user, hsub', hnormal]
    have huser := hu.subjectId_eq hc hseen' hsame
    exact Option.some.inj (hsubject'.symm.trans (huser.symm.trans hsubject))

/-! ## What codes and refresh tokens refer to -/

/-- The reference names a session of the human that was there before. -/
def Refers (tr : List (Nat × Entry machine)) (g : HumanAggregate) (ref : Option Str) : Prop :=
  ∃ s j e, (j, e) ∈ tr ∧ s ∈ e.before.db.sessions ∧ ref = some s.key ∧ s.userId = g.actor.key

theorem Refers.mono {ref : Option Str} (h : Refers tr₁ g ref)
    (hsub : ∀ x ∈ tr₁, x ∈ tr₂) : Refers tr₂ g ref := by
  obtain ⟨s, j, e, hm, hs, href, howner⟩ := h
  exact ⟨s, j, e, hsub _ hm, hs, href, howner⟩

/-- The places before one are before the next. -/
theorem mem_take_of_le {x : Nat × Entry machine} (hle : m ≤ n) (hx : x ∈ c.trace.take m) :
    x ∈ c.trace.take n := by
  obtain ⟨k, hk, hat⟩ := mem_take_iff.mp hx
  exact mem_take_iff.mpr ⟨k, by omega, hat⟩

/-- A code refers to a session of its owner. -/
theorem code_refers (hc : Reachable (World.fresh now) c) (hgenuine : CookiesGenuine c)
    (hn : c.trace[n]? = some (i, e)) {row : OidcAuthorizationCode} (hrow : row ∈ e.before.db.codes) :
    ∃ g, Conceived c.trace g ∧ row.userId = g.actor.key ∧
      Refers (c.trace.take n) g row.authSessionRef := by
  have horigin := (steps_before hc hn).origin
    (P := fun w => ∃ r ∈ w.db.codes, r.userId = row.userId ∧ row.IsSaved r)
    ⟨row, hrow, rfl, rfl, rfl, rfl, rfl, rfl, rfl, rfl⟩
  rcases horigin with ⟨r, hr, -⟩ | ⟨j, e', hm, ⟨r, hr, huser, hsame⟩, hnew⟩
  · cases hr
  obtain ⟨m, hlt, hat⟩ := mem_take_iff.mp hm
  rcases code_before hr with ⟨r₀, hr₀, huser₀, hsame₀⟩ | ⟨saved, key, hs, hfound, hsaved⟩
  · exact absurd ⟨r₀, hr₀, huser₀.trans huser, hsame.trans hsame₀⟩ hnew
  -- the request that saved the code
  obtain ⟨⟨cfg, endpoint⟩, hreq, hconduct⟩ := conducted_at hc (split_at hat)
  unfold Conducted at hconduct
  rw [hs] at hconduct
  obtain ⟨request, credentials, rfl, hgrants⟩ := hconduct
  obtain ⟨u, sid, hread, -, hkey, href, hvouched⟩ := hgrants.owner
  have hseen := seen_of_lastUserRead (split_at hat) hread
  obtain ⟨g, hg, hgkey, hsubject⟩ := hseen.conceived hc
  -- the owner of the row is the root of the user
  have howner : row.userId = g.actor.key := by
    have hplain : normalizeUserId u.key = u.key :=
      (hseen.plain hc hsubject).1.normalizeId (by decide)
    rw [hkey, hplain] at hfound
    obtain ⟨v, hv, hvsubject⟩ := Option.bind_eq_some_iff.mp hfound
    have hvseen : Seen c v := ⟨j, e', List.mem_of_getElem? hat, List.mem_of_find?_eq_some hv⟩
    have hvkey : v.key = u.key := by simpa using List.find?_some hv
    have hsame' := hseen.subjectId_eq hc hvseen hvkey.symm
    rw [← huser]
    exact Option.some.inj (hvsubject.symm.trans (hsame'.symm.trans hsubject))
  obtain ⟨s, e₁, hm₁, hs₁, hskey, hsowner⟩ :=
    hvouched.session hc hgenuine (split_at hat) hreq hseen hsubject
  refine ⟨g, hg, howner, s, j, e₁, mem_take_of_le hlt.le hm₁, hs₁, ?_, hsowner⟩
  rw [(hsame.trans hsaved).authSessionRef, href, hskey]

/-- What was presented refers to a session of its owner. -/
theorem Presented.refers (hc : Reachable (World.fresh now) c) (hgenuine : CookiesGenuine c)
    {userId : Str} {ref : Option Str}
    (hrefresh : ∀ m j e' (t : OidcRefreshToken), m < n → c.trace[m]? = some (j, e') →
      t ∈ e'.before.db.refreshTokens → ∃ g, Conceived c.trace g ∧ t.userId = g.actor.key ∧
        Refers (c.trace.take m) g t.authSessionRef)
    (h : Presented (entriesOf (S := server) i (c.trace.take n)) userId ref) :
    ∃ g, Conceived c.trace g ∧ userId = actorAddress g.actor.key ∧
      Refers (c.trace.take n) g ref := by
  cases h with
  | code codeHash row read =>
    obtain ⟨m, e', hlt, hat, hread⟩ := heard_before read
    have hreply := hread.reply
    simp only [DbStmt.exec, CodeStmt.exec, Except.ok.injEq, Option.map_eq_some_iff] at hreply
    obtain ⟨stored, hstored, rfl⟩ := hreply
    obtain ⟨g, hg, howner, hrefers⟩ :=
      code_refers hc hgenuine hat (List.mem_of_find?_eq_some hstored)
    exact ⟨g, hg, congrArg actorAddress howner, hrefers.mono fun _ hx => mem_take_of_le hlt.le hx⟩
  | refresh tokenHash stored read =>
    obtain ⟨m, e', hlt, hat, hread⟩ := heard_before read
    have hreply := hread.reply
    simp only [DbStmt.exec, RefreshTokenStmt.exec, Except.ok.injEq,
      Option.map_eq_some_iff] at hreply
    obtain ⟨row, hrow, rfl⟩ := hreply
    obtain ⟨g, hg, howner, hrefers⟩ :=
      hrefresh m i e' row hlt hat (List.mem_of_find?_eq_some hrow)
    exact ⟨g, hg, congrArg actorAddress howner, hrefers.mono fun _ hx => mem_take_of_le hlt.le hx⟩

/-- A refresh token refers to a session of its owner, however long the chain
    of tokens is that it stands at the end of. -/
theorem refreshToken_refers (hc : Reachable (World.fresh now) c) (hgenuine : CookiesGenuine c)
    (hn : c.trace[n]? = some (i, e)) {t : OidcRefreshToken}
    (ht : t ∈ e.before.db.refreshTokens) :
    ∃ g, Conceived c.trace g ∧ t.userId = g.actor.key ∧
      Refers (c.trace.take n) g t.authSessionRef := by
  -- along the chain: a token was saved by a request that had read the one before
  induction n using Nat.strong_induction_on generalizing i e t with
  | _ n ih =>
    have horigin := (steps_before hc hn).origin
      (P := fun w => ∃ r ∈ w.db.refreshTokens, r.userId = t.userId ∧
        r.authSessionRef = t.authSessionRef) ⟨t, ht, rfl, rfl⟩
    rcases horigin with ⟨r, hr, -⟩ | ⟨j, e', hm, ⟨r, hr, huser, href⟩, hnew⟩
    · cases hr
    obtain ⟨m, hlt, hat⟩ := mem_take_iff.mp hm
    rcases refresh_before hr with ⟨r₀, hr₀, hsame⟩ | hs
    · rw [hsame] at huser href
      exact absurd ⟨r₀, hr₀, huser, href⟩ hnew
    have hconduct := idTokenConducted_at hc (split_at hat)
    unfold IdTokenConducted at hconduct
    rw [hs] at hconduct
    obtain ⟨userId, hpresented, howner⟩ := hconduct
    obtain ⟨g, hg, rfl, hrefers⟩ := hpresented.refers hc hgenuine
      fun k j e' t hlt' hat' ht' => ih k (by omega) hat' ht'
    refine ⟨g, hg, ?_, ?_⟩
    · have hplain := hg.isPlainKey hc (v := g.actor.key) (by simp [HumanAggregate.keys])
      rw [← huser, howner]
      exact hplain.1.normalizeActorId_address hplain.2
    · rw [← href]
      exact hrefers.mono fun _ hx => mem_take_of_le hlt.le hx

/-! ## The session of a signed token -/

/-- The user of a human is the one found under the key of the root. -/
theorem subjectId_of_findByActorOrId (hc : Reachable (World.fresh now) c)
    (hm : (i, e) ∈ c.trace) (hg : Conceived c.trace g)
    (hfound : Answered (.identity (.user (.findByActorOrId g.actor.key))) (some u) e) :
    u.subjectId = some g.actor.key ∧ Seen c u := by
  have hreply := hfound.reply
  simp only [DbStmt.exec, IdentityStmt.exec, UserStmt.exec, Except.ok.injEq] at hreply
  have hseen : Seen c u := ⟨i, e, hm, List.mem_of_find?_eq_some hreply⟩
  refine ⟨?_, hseen⟩
  have hor : u.subjectId = some g.actor.key ∨ u.key = g.actor.key := by
    simpa using List.find?_some hreply
  rcases hor with hsubject | hkey
  · exact hsubject
  · -- the key of a user is the key of no root
    obtain ⟨g', hg', hgkey, hsubject⟩ := hseen.conceived hc
    have hsame : g'.user.key = g.actor.key := hgkey.symm.trans hkey
    obtain rfl := hg.unique hc hg' (v := g.actor.key) (by simp [HumanAggregate.keys])
      (by simp [HumanAggregate.keys, hsame])
    exact hsubject

/-- Passing the gate as a user leads to the root of the user. -/
theorem UserPassed.subject (hc : Reachable (World.fresh now) c) {x : ActorIdentity}
    (h : UserPassed (entriesOf (S := server) i c.trace) u.key x) (hg : Conceived c.trace g)
    (hu : Seen c u) (hsubject : u.subjectId = some g.actor.key) :
    x.subjectKey = g.actor.subjectKey := by
  obtain ⟨g₀, hg₀, hkey, hsubject₀⟩ := hu.conceived hc
  have hactor : g₀.actor.key = g.actor.key := Option.some.inj (hsubject₀.symm.trans hsubject)
  obtain rfl := hg.unique hc hg₀ (v := g.actor.key) (by simp [HumanAggregate.keys])
    (by simp [HumanAggregate.keys, hactor])
  rw [hkey] at h
  have hxkey := h.root_key hc hg
  -- the root under this key is the one of the human
  obtain ⟨k, -, hpassed⟩ := h
  obtain ⟨e, hm, hroot⟩ := heard_mem hpassed.found fun _ he => he
  obtain ⟨g', hg', hkey', hsub'⟩ := ((lineage_along hc).2 _ hm).roots x
    (KeyedTable.mem_of_rowAt hroot.rootAt) hpassed.human
  obtain rfl := hg.unique hc hg' (v := g.actor.key) (by simp [HumanAggregate.keys])
    (by simp [HumanAggregate.keys, ← hkey', hxkey])
  exact hsub'

/-- **The family of a token.** A signed ID token names a session of its
    subject that was there before. -/
theorem SignedBy.session (hc : Reachable (World.fresh now) c) (hgenuine : CookiesGenuine c)
    (h : SignedBy c i hint) :
    ∃ n e, LooksAt c i n e hint.sid ∧ ∃ g, Conceived c.trace g ∧
      hint.sub = g.actor.subjectKey ∧ Refers (c.trace.take n) g (some hint.sid) := by
  obtain ⟨h₁, e, hh, hmay, htimes⟩ := h.signs hc
  obtain ⟨tr₁, tr₂, htr, rfl, hlast⟩ := entriesOf_split hh
  have hat : c.trace[tr₁.length]? = some (i, e) := by simp [htr]
  have htake : c.trace.take tr₁.length = tr₁ := by simp [htr]
  have hdrop : c.trace.drop (tr₁.length + 1) = tr₂ := by simp [htr]
  obtain ⟨userId, ref, hpresented, hsid, u, x, hfound, hpassed, hsub⟩ := hmay
  rw [← htake] at hpresented
  obtain ⟨g, hg, rfl, hrefers⟩ := hpresented.refers hc hgenuine
    fun m j e' t _ hat' ht => refreshToken_refers hc hgenuine hat' ht
  rw [hg.ownerKey_address hc] at hfound
  have hsubset : ∀ x ∈ entriesOf (S := server) i tr₁, x ∈ entriesOf (S := server) i c.trace :=
    fun _ hx => entriesOf_take htr hx
  obtain ⟨e₁, hm₁, ha₁⟩ := heard_mem hfound hsubset
  obtain ⟨hsubject, hseen⟩ := subjectId_of_findByActorOrId hc hm₁ hg ha₁
  have hpassed' : UserPassed (entriesOf (S := server) i c.trace) u.key x := by
    rw [htr, entriesOf_append]
    exact hpassed.mono _
  refine ⟨tr₁.length, e, ⟨hat, htimes.stmt, by rw [hdrop, hlast]⟩, g, hg,
    hsub.trans (hpassed'.subject hc hg hseen hsubject), ?_⟩
  -- the key of a session has no blanks to trim
  obtain ⟨s, j, e₂, hm₂, hs₂, href, hsowner⟩ := id hrefers
  obtain rfl : ref = s.key := Option.some.inj href
  have hskey := ((opened_of_mem hc (List.mem_of_mem_take hm₂) hs₂).plain hc).1
  rw [hsid, hskey.trim]
  exact hrefers

/-! ## Sessions between two places -/

theorem LooksAt.place_unique (h : LooksAt c i n e sid) (h' : LooksAt c i m e' sid) : n = m := by
  have hnot : ∀ {n m e e'}, LooksAt c i n e sid → LooksAt c i m e' sid → ¬ n < m := by
    intro n m e e' h h' hlt
    have hmem : (i, e') ∈ c.trace.drop (n + 1) := by
      apply List.mem_of_getElem? (i := m - (n + 1))
      rw [List.getElem?_drop]
      have hplace : n + 1 + (m - (n + 1)) = m := by omega
      rw [hplace]
      exact h'.place
    have hin := mem_entriesOf.mpr hmem
    rw [h.last] at hin
    cases hin
  have h₁ := hnot h h'
  have h₂ := hnot h' h
  omega

/-- A session that is not deleted stays. -/
theorem session_kept (hc : Reachable w c) (hn : c.trace[n]? = some (i, e))
    (hm : c.trace[m]? = some (j, e')) (hlt : m < n)
    (hs : ∃ s ∈ e'.before.db.sessions, s.key = sid)
    (hkept : ∀ k j e', k < n → c.trace[k]? = some (j, e') → ¬ Deletes sid e') :
    ∃ s ∈ e.before.db.sessions, s.key = sid := by
  have hafter : ∀ {k j e'}, k < n → c.trace[k]? = some (j, e') →
      (∃ s ∈ e'.before.db.sessions, s.key = sid) → ∃ s ∈ e'.after.db.sessions, s.key = sid := by
    intro k j e' hk hat hthere
    by_contra hgone
    apply hkept k j e' hk hat
    refine ⟨hthere, fun s hs hkey => hgone ⟨s, hs, hkey⟩⟩
  have hcut : (c.trace.take n)[m]? = some (j, e') := by rw [List.getElem?_take_of_lt hlt, hm]
  have hsteps := steps_before hc hn
  rw [split_at hcut] at hsteps
  apply hsteps.split_entry.2.preserves (P := fun w => ∃ s ∈ w.db.sessions, s.key = sid)
    (hafter hlt hm hs)
  intro k e'' hmem hthere
  obtain ⟨p, hp, hat⟩ := mem_take_iff.mp (List.mem_of_mem_drop hmem)
  exact hafter hp hat hthere

/-- A session that is deleted does not come back. -/
theorem deleted_stays (hc : Reachable (World.fresh now) c) (hn : c.trace[n]? = some (i, e))
    (hm : c.trace[m]? = some (j, e')) (hlt : m < n) (hdeletes : Deletes sid e') :
    ∀ s ∈ e.before.db.sessions, s.key ≠ sid := by
  intro s hs hkey
  obtain ⟨⟨s₀, hs₀, hkey₀⟩, hgone⟩ := hdeletes
  have hcut : (c.trace.take n)[m]? = some (j, e') := by rw [List.getElem?_take_of_lt hlt, hm]
  have hsteps := steps_before hc hn
  rw [split_at hcut] at hsteps
  rcases session_origin hsteps.split_entry.2 hs with hthere | ⟨k, e₁, hm₁, hcreate⟩
  · exact hgone s hthere hkey
  -- it was created once before the deletion and once after it
  rcases session_origin (steps_before hc hm) hs₀ with hfirst | ⟨k₀, e₀, hm₀, hcreate₀⟩
  · cases hfirst
  obtain ⟨p, hp, hat⟩ := mem_take_iff.mp hm₀
  obtain ⟨q, hq⟩ := List.mem_iff_getElem?.mp hm₁
  have hat' : c.trace[m + 1 + q]? = some (k, e₁) := by
    rw [List.getElem?_drop, List.getElem?_take] at hq
    split at hq
    · exact hq
    · cases hq
  have hlater : (c.trace.drop (p + 1))[m + 1 + q - (p + 1)]? = some (k, e₁) := by
    rw [List.getElem?_drop]
    have hplace : p + 1 + (m + 1 + q - (p + 1)) = m + 1 + q := by omega
    rw [hplace, hat']
  have htr : c.trace = c.trace.take p ++ (k₀, e₀) ::
      ((c.trace.drop (p + 1)).take (m + 1 + q - (p + 1)) ++ (k, e₁) ::
        (c.trace.drop (p + 1)).drop (m + 1 + q - (p + 1) + 1)) := by
    rw [← split_at hlater, ← split_at hat]
  exact session_key_once hc htr hcreate₀ hcreate (hkey₀.trans hkey.symm)

/-- **Live sessions.** The ID tokens of a run name live sessions of their
    subjects exactly when the session of each has been neither deleted nor
    outlived. -/
theorem sids_live_iff (hc : Reachable (World.fresh now) c) (hgenuine : CookiesGenuine c) :
    SidsLive c ↔ SessionsInForce c := by
  constructor
  · intro hlive i hint n e hsigned hlooks
    obtain ⟨n', e', hlooks', s, hs, hkey, hexpiry, -⟩ := hlive i hint hsigned
    obtain rfl := hlooks.place_unique hlooks'
    cases hlooks.place.symm.trans hlooks'.place
    have hopened := opened_of_mem hc (List.mem_of_getElem? hlooks.place) hs
    constructor
    · intro m j e' hlt hat hdeletes
      exact deleted_stays hc hlooks.place hat hlt hdeletes s hs hkey
    · intro s' hopened' hkey'
      rwa [← hopened.eq_of_key hc hopened' (hkey.trans hkey'.symm)]
  · intro hforce i hint hsigned
    obtain ⟨n, e, hlooks, g, hg, hsub, s, j, e', hm, hs, href, howner⟩ :=
      hsigned.session hc hgenuine
    have hin := hforce i hint n e hsigned hlooks
    have hsid : s.key = hint.sid := (Option.some.inj href).symm
    obtain ⟨m, hlt, hat⟩ := mem_take_iff.mp hm
    obtain ⟨s', hs', hkey'⟩ := session_kept hc hlooks.place hat hlt ⟨s, hs, hsid⟩ hin.kept
    have hopened := opened_of_mem hc (List.mem_of_mem_take hm) hs
    have hopened' := opened_of_mem hc (List.mem_of_getElem? hlooks.place) hs'
    obtain rfl := hopened'.eq_of_key hc hopened (hkey'.trans hsid.symm)
    exact ⟨n, e, hlooks, s', hs', hkey', hin.unexpired s' hopened' hkey', g, hg, howner, hsub⟩

end

end

end SoulAuth

namespace SoulAuth.Sample

open Framework Framework.System

/-- Whether no browser of the run presents a cookie. -/
def presentsNoCookie (c : (server).Conf) : Bool :=
  c.threads.all fun t =>
    match t.req.endpoint with
    | .authorize _ credentials => credentials.cookie.isNone
    | _ => true

theorem cookiesGenuine_of {c : (server).Conf} (h : presentsNoCookie c = true) :
    CookiesGenuine c := by
  intro i cfg request credentials cookie hreq hcookie
  obtain ⟨t, ht, htr⟩ := Option.map_eq_some_iff.mp hreq
  have hnone := List.all_eq_true.mp h t (List.mem_of_getElem? ht)
  simp only [htr, hcookie] at hnone
  cases hnone

/-- Whether no entry of the run deletes a session. -/
def keepsSessions (c : (server).Conf) : Bool :=
  c.trace.all fun x => x.2.before.db.sessions.all fun s =>
    x.2.after.db.sessions.any fun s' => s'.key = s.key

/-- Whether every session of the run lasts longer than the run. -/
def outlivesRun (c : (server).Conf) : Bool :=
  c.trace.all fun x =>
    match x.2.stmt with
    | .db (.session (.create s)) => c.trace.all fun y => clock y.2 < s.expiresAt
    | _ => true

theorem sessionsInForce_of {c : (server).Conf} (hkeeps : keepsSessions c = true)
    (houtlives : outlivesRun c = true) : SessionsInForce c := by
  intro i hint n e _ hlooks
  constructor
  · intro m j e' _ hat hdeletes
    obtain ⟨⟨s, hs, hkey⟩, hgone⟩ := hdeletes
    have hall := List.all_eq_true.mp hkeeps (j, e') (List.mem_of_getElem? hat)
    obtain ⟨s', hs', hkey'⟩ := List.any_eq_true.mp (List.all_eq_true.mp hall s hs)
    exact hgone s' hs' ((of_decide_eq_true hkey').trans hkey)
  · intro s hopened _
    obtain ⟨j, e', hm, hcreate⟩ := hopened
    have hall := List.all_eq_true.mp houtlives (j, e') hm
    simp only [hcreate] at hall
    exact of_decide_eq_true (List.all_eq_true.mp hall (i, e) (List.mem_of_getElem? hlooks.place))

theorem sids_live_rotated : SidsLive (after rotatedAgain) :=
  (sids_live_iff (after_reachable _) (cookiesGenuine_of (by decide +kernel))).mpr
    (sessionsInForce_of (by decide +kernel) (by decide +kernel))

/-- Whether an entry of request 6 that looks at a session finds none. -/
def findsNoSession (x : Nat × Entry machine) : Bool :=
  match x.2.stmt with
  | .db (.session (.authenticatedAt sid)) =>
    x.1 ≠ 6 || x.2.before.db.sessions.all fun s => s.key ≠ sid
  | _ => true

/-- An ID token of a session that its user has left. -/
theorem sids_live_fails : ¬ ∀ (now : Timestamp) (c : (server).Conf),
    Reachable (World.fresh now) c → CookiesGenuine c → SidsLive c := by
  intro hall
  have hlive := hall 0 (after rotatedAfterLogout) (after_reachable _)
    (cookiesGenuine_of (by decide +kernel))
  have hissued : (idTokenOf (after rotatedAfterLogout) 6).isSome = true := by decide +kernel
  have hblind : (after rotatedAfterLogout).trace.all findsNoSession = true := by decide +kernel
  obtain ⟨hint, hsome⟩ := Option.isSome_iff_exists.mp hissued
  obtain ⟨n, e, hlooks, s, hs, hkey, -⟩ := hlive 6 hint (signedBy_of hsome)
  have hnone := List.all_eq_true.mp hblind (6, e) (List.mem_of_getElem? hlooks.place)
  unfold findsNoSession at hnone
  simp only [hlooks.stmt, Bool.or_eq_true, decide_eq_true_eq, List.all_eq_true, ne_eq,
    not_true_eq_false, false_or] at hnone
  exact hnone s hs hkey

end SoulAuth.Sample
