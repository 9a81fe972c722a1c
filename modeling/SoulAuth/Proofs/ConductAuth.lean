import SoulAuth.Proofs.Conduct

/-! # The conduct of registration, login and recovery -/

namespace SoulAuth

open Framework

variable [Platform]

/-! ## Following one request -/

/-- An outcome rule that says nothing of failures. -/
def Ends {ε α : Type} (P : List (Entry machine) → α → Prop) :
    List (Entry machine) → Except ε α → Prop
  | h, .ok a => P h a
  | _, .error _ => True

/-- The program conducts itself, after `h`, as the request `c` should. -/
abbrev Follows {ε α : Type} (c : Call) (Q : List (Entry machine) → Except ε α → Prop)
    (h : List (Entry machine)) (p : Req ε α) : Prop :=
  p.Meets (fun _ => True) (Conducted c) Q h

/-- A program under a rule of its successful outcomes only. -/
abbrev Ending {ε α : Type} (P : List (Entry machine) → α → Prop) (h : List (Entry machine))
    (p : Req ε α) : Prop :=
  p.Meets (fun _ => True) (fun _ _ => True) (Ends P) h

section

variable {ε α β : Type} {h : List (Entry machine)}

/-- Whatever a first part does, the rest decides the outcome. -/
theorem ending_after {P : List (Entry machine) → β → Prop} {p : Req ε α} {f : α → Req ε β}
    (hf : ∀ t a, Ending P (h ++ t) (f a)) : Ending P h (p >>= f) :=
  Prog.Meets.bind Prog.meets_trivial (fun t a _ => hf t a) fun _ _ _ => trivial

/-- The same, for a rest that does not look back. -/
theorem ending_bind {P : List (Entry machine) → β → Prop} {p : Req ε α} {f : α → Req ε β}
    (hf : ∀ h a, Ending P h (f a)) : Ending P h (p >>= f) :=
  ending_after fun t a => hf (h ++ t) a

theorem ending_mapError {ε' : Type} {P : List (Entry machine) → α → Prop} {p : Req ε α}
    {g : ε → ε'} (hp : Ending P h p) : Ending P h (p.mapError g) :=
  Prog.Meets.mapError hp (fun _ _ ha => ha) fun _ _ _ => trivial

/-- A statement at the end of a program. -/
theorem ending_query [OfDb ε] {s : DbStmt} {P : List (Entry machine) → s.Reply → Prop}
    (hP : ∀ e a, Answered s a e → P (h ++ [e]) a) : Ending P h (query s : Req ε s.Reply) := by
  apply meets_query
  · intro ctx w _
    trivial
  · intro e a _ he
    exact hP e a he
  · intro e x _
    trivial

/-- What a request establishes when it conducts itself, it establishes. -/
theorem ending_of_follows {c : Call} {P : List (Entry machine) → α → Prop} {p : Req ε α}
    (hp : Follows c (Ends P) h p) : Ending P h p :=
  hp.weaken (fun _ hw => hw) (fun _ _ _ _ => trivial) fun _ _ hr => hr

end

/-- A statement that changes nothing and reads no account row. -/
def Stmt.Quiet (s : Stmt) : Prop := s.effect = none ∧ s.readsNoUser = true

/-- The history has grown by quiet statements only. -/
def Unchanged (h h' : List (Entry machine)) : Prop :=
  lastUserRead h' = lastUserRead h ∧ effectsOf h' = effectsOf h

section

variable {c : Call} {h t : List (Entry machine)}

theorem quiet_effectsOf (ht : ∀ e ∈ t, e.stmt.Quiet) : effectsOf t = [] :=
  List.filterMap_eq_nil_iff.mpr fun e he => (ht e he).1

theorem unchanged_of_quiet (ht : ∀ e ∈ t, e.stmt.Quiet) : Unchanged h (h ++ t) :=
  ⟨lastUserRead_append fun e he => (ht e he).2, by simp [quiet_effectsOf ht]⟩

theorem conducted_of_none {e : Entry machine} (he : e.stmt.effect = none) :
    Conducted c h e := by
  refine conducted_of_free fun x hx => ?_
  rw [he] at hx
  cases hx

theorem ends_of_forall {ε α : Type} {P : List (Entry machine) → α → Prop}
    {r : Except ε α} (hP : ∀ a, P h a) : Ends P h r := by
  cases r with
  | ok a => exact hP a
  | error x => trivial

theorem ends_mono {ε α : Type} {P P' : List (Entry machine) → α → Prop} {p : Req ε α}
    (hp : Follows c (Ends P) h p) (hP : ∀ t a, P (h ++ t) a → P' (h ++ t) a) :
    Follows c (Ends P') h p := by
  refine hp.weaken (fun _ hw => hw) (fun _ _ _ he => he) fun t r hr => ?_
  cases r with
  | ok a => exact hP t a hr
  | error x => trivial

/-- A quiet program leaves the history unchanged. -/
theorem quiet_follows {ε α : Type} {p : Req ε α} (hp : Prog.Only Stmt.Quiet p) :
    Follows c (fun h' _ => Unchanged h h') h p :=
  hp.meets (fun _ _ _ he => conducted_of_none he.1) fun _ _ ht => unchanged_of_quiet ht

/-- A program whose effects need no justification. -/
theorem free_follows {ε α : Type} {L : List Effect} {p : Req ε α} (hp : Within L p)
    (hL : ∀ x ∈ L, x ∈ freeEffects) :
    Follows c (fun h' _ => ∀ x ∈ effectsOf h', x ∈ effectsOf h ∨ x ∈ L) h p := by
  refine hp.meets (fun _ _ _ he => conducted_of_free fun x hx => hL x (he x hx)) ?_
  intro t r ht x hx
  rcases List.mem_append.mp (effectsOf_append ▸ hx) with hx | hx
  · exact .inl hx
  · exact .inr (effectsOf_within ht hx)

end

/-! ## Quiet programs -/

section

variable {ε α β : Type}

theorem quiet_read [OfDb ε] {s : DbStmt} (hs : s.effect = none)
    (hu : (Stmt.db s).readsNoUser = true) :
    Prog.Only Stmt.Quiet (query s : Req ε s.Reply) := by
  refine ⟨⟨hs, hu⟩, fun r => ?_⟩
  cases r <;> trivial

theorem quiet_getNow : Prog.Only Stmt.Quiet (getNow : Req ε Timestamp) :=
  ⟨⟨rfl, rfl⟩, fun _ => trivial⟩

theorem quiet_newUuid : Prog.Only Stmt.Quiet (newUuid : Req ε Str) :=
  ⟨⟨rfl, rfl⟩, fun _ => trivial⟩

theorem quiet_hashPassword {pw : Str} : Prog.Only Stmt.Quiet (hashPassword pw : Req ε Str) :=
  ⟨⟨rfl, rfl⟩, fun _ => trivial⟩

theorem quiet_verifyPassword {stored pw : Str} :
    Prog.Only Stmt.Quiet (verifyPassword stored pw) := by
  unfold verifyPassword
  split
  · exact ⟨⟨rfl, rfl⟩, fun _ => Prog.only_ensure⟩
  · trivial

theorem quiet_activePassword [OfDb ε] {key : Str} :
    Prog.Only Stmt.Quiet (activePassword key : Req ε (Option Credential)) :=
  .bind (quiet_read rfl rfl) fun _ => trivial

theorem quiet_hasPassword [OfDb ε] {key : Str} :
    Prog.Only Stmt.Quiet (hasPassword key : Req ε Bool) :=
  .bind (.bind quiet_activePassword fun _ => trivial) fun _ => trivial

theorem quiet_passwordRefOf {u : User} : Prog.Only Stmt.Quiet (passwordRefOf u) := by
  unfold passwordRefOf
  split
  · trivial
  · exact .bind quiet_activePassword fun _ => trivial

theorem quiet_getUserMfa {userId : Str} : Prog.Only Stmt.Quiet (getUserMfa userId) :=
  .bind (quiet_read rfl rfl) fun _ => Prog.only_orThrow

theorem quiet_enabledMethod {userId : Str} : Prog.Only Stmt.Quiet (enabledMethod userId) := by
  refine .bind (.attempt quiet_getUserMfa) fun found => ?_
  split <;> trivial

theorem quiet_probeActor {found : Option User} : Prog.Only Stmt.Quiet (probeActor found) := by
  unfold probeActor
  split
  · trivial
  · exact quiet_newUuid

theorem quiet_findActorById [OfDb ε] {key : Str} :
    Prog.Only Stmt.Quiet (findActorById key : Req ε (Option ActorIdentity)) :=
  quiet_read rfl rfl

theorem quiet_authenticableActor {key : Str} {expect : ActorKind} :
    Prog.Only Stmt.Quiet (authenticableActor key expect) := by
  refine .bind quiet_findActorById fun _ => .bind Prog.only_orThrow fun _ => ?_
  refine .bind trivial fun _ => ?_
  cases expect with
  | human => exact .bind (quiet_read rfl rfl) fun _ => .bind Prog.only_orThrow fun _ => trivial
  | aiActor => trivial

theorem quiet_authenticableActorOfUser {userId : Str} :
    Prog.Only Stmt.Quiet (authenticableActorOfUser userId) :=
  .bind (.bind (quiet_read rfl rfl) fun _ => Prog.only_orThrow) fun _ => quiet_authenticableActor

end

/-! ## The gate -/

section

variable {c : Call} {h t : List (Entry machine)} {key userId : Str} {a : ActorIdentity}

theorem ActorPassed.mono (hp : ActorPassed h key a) (t : List (Entry machine)) :
    ActorPassed (h ++ t) key a := by
  obtain ⟨hf, hh, ha, x, hx⟩ := hp
  exact ⟨hf.mono t, hh, ha, x, hx.mono t⟩

theorem UserPassed.mono (hp : UserPassed h userId a) (t : List (Entry machine)) :
    UserPassed (h ++ t) userId a := by
  obtain ⟨k, hk, hp⟩ := hp
  exact ⟨k, hk.mono t, hp.mono t⟩

theorem SessionGate.mono {u : User} {ep : Endpoint} (hg : SessionGate h u ep)
    (t : List (Entry machine)) : SessionGate (h ++ t) u ep := by
  cases ep with
  | register | verifyEmail => trivial
  | oauthCallback =>
    obtain ⟨a, ha⟩ := hg
    exact ⟨a, ha.mono t⟩
  | login =>
    obtain ⟨hs, a, ha⟩ := hg
    exact ⟨hs, a, ha.mono t⟩
  | mfaLoginVerify =>
    obtain ⟨hs, hk, a, ha⟩ := hg
    exact ⟨hs, hk, a, ha.mono t⟩
  | _ => exact hg.elim

theorem authenticableActor_follows :
    Follows c (Ends fun h' a => ActorPassed h' key a.actor ∧ Unchanged h h') h
      (authenticableActor key .human) := by
  have hfacts : Follows c (Ends fun h' a => ActorPassed h' key a.actor) h
      (authenticableActor key .human) := by
    refine meets_query_bind (fun _ _ _ => trivial) (fun e₁ found _ he₁ => ?_) fun _ _ _ => trivial
    refine meets_orThrow_bind (fun actor hactor => ?_) fun _ => trivial
    refine meets_ofExcept_bind (fun _ hgate => ?_) fun _ _ => trivial
    refine meets_query_bind (fun _ _ _ => trivial) (fun e₂ row _ he₂ => ?_) fun _ _ _ => trivial
    refine meets_orThrow_bind (fun account haccount => ?_) fun _ => trivial
    obtain ⟨hkind, hstatus⟩ := ActorIdentity.gate_ok hgate
    subst hactor haccount
    exact ⟨he₁.heard.mono [e₂], hkind, hstatus, account, he₂.heard⟩
  refine (hfacts.and (quiet_follows quiet_authenticableActor)).weaken (fun _ hw => hw)
    (fun _ _ _ he => he) fun t r hr => ?_
  cases r with
  | ok a => exact hr
  | error x => trivial

theorem authenticableActorOfUser_follows :
    Follows c (Ends fun h' a => UserPassed h' userId a.actor ∧ Unchanged h h') h
      (authenticableActorOfUser userId) := by
  have hfacts : Follows c (Ends fun h' a => UserPassed h' userId a.actor) h
      (authenticableActorOfUser userId) := by
    refine Prog.meets_bind.mpr ?_
    refine meets_query_bind (fun _ _ _ => trivial) (fun e₁ refs _ he₁ => ?_) fun _ _ _ => trivial
    cases refs with
    | none => trivial
    | some k =>
      exact ends_mono authenticableActor_follows fun t a hr => ⟨k, he₁.heard.mono t, hr.1⟩
  refine (hfacts.and (quiet_follows quiet_authenticableActorOfUser)).weaken (fun _ hw => hw)
    (fun _ _ _ he => he) fun t r hr => ?_
  cases r with
  | ok a => exact hr
  | error x => trivial

end

/-! ## Sessions and the write of a login -/

section

variable {c : Call} {h : List (Entry machine)} {u v : User}

/-- The write of a login leaves the row that the request read last. -/
theorem touchLastLogin_follows {ip : Str} (hread : lastUserRead h = some v)
    (huv : u.SameAccount v ∧ ∀ F, UserField.Same F u v) :
    Follows c (Ends fun h' u' => lastUserRead h' = some v ∧
      (∀ x ∈ effectsOf h', x ∈ effectsOf h ∨ x = .updateUser) ∧
      u'.subjectId = v.subjectId ∧ u'.key = idArgumentKey (userAddress v.key)) h
      (touchLastLogin u ip) := by
  obtain ⟨⟨hkey, hsub, hemail, hname, hnormalized⟩, hsame⟩ := huv
  refine meets_getNow_bind (fun _ _ _ => trivial) fun e₁ now _ he₁ => ?_
  have hread₁ : lastUserRead (h ++ [e₁]) = some v := by
    rw [lastUserRead_append, hread]
    simp [he₁.1, Stmt.readsNoUser]
  refine meets_query (fun _ _ _ => ?_) (fun e₂ u' _ he₂ => ?_) fun _ _ _ => trivial
  · refine ⟨⟨v, hread₁, by rw [hkey], ⟨hkey, hsub, hemail, hname, hnormalized⟩,
      fun F _ => ?_⟩⟩
    have := hsame F
    cases F <;> exact this
  · have hq₂ : e₂.stmt.readsNoUser = true := by rw [he₂.stmt]; rfl
    refine ⟨?_, fun x hx => ?_, ?_⟩
    · rw [lastUserRead_append (by simpa using hq₂), hread₁]
    · rw [effectsOf_append, effectsOf_append, effectsOf_singleton, effectsOf_singleton,
        he₁.1, he₂.effect] at hx
      simpa [Stmt.effect, DbStmt.effect] using hx
    · -- the reply is the content under the key of the statement
      have hr := he₂.reply
      simp only [DbStmt.exec, IdentityStmt.exec, UserStmt.exec] at hr
      split at hr
      · split at hr
        · cases hr
        split at hr
        · cases hr
        · cases hr
          exact ⟨hsub, by rw [hkey]⟩
      · cases hr

/-- A session is created for the account whose row was read last. -/
theorem createSession_follows {cfg : Config} {methods : List AuthenticationMethod}
    {refs : List Str} (hread : lastUserRead h = some v) (hsub : u.subjectId = v.subjectId)
    (hgate : SessionGate h v c.endpoint) (honce : .createSession ∉ effectsOf h) :
    Follows c (Ends fun h' issued => ∃ s, Heard h' (.session (.create s)) () ∧
      lastUserRead h' = some v ∧ v.subjectId = some s.userId ∧ issued.sessionKey = s.key ∧
      issued.user.id = u.key) h (createSession cfg u methods refs) := by
  refine meets_getNow_bind (fun _ _ _ => trivial) fun e₁ now _ he₁ => ?_
  refine meets_newUuid_bind (fun _ _ _ => trivial) fun e₂ sessionKey _ he₂ hv₂ => ?_
  refine meets_orThrow_bind (fun actorKey hactor => ?_) fun _ => trivial
  have hq : ∀ e ∈ [e₁] ++ [e₂], e.stmt.Quiet := by
    simp [he₁.1, he₂, Stmt.Quiet, Stmt.effect, Stmt.readsNoUser]
  have hun := unchanged_of_quiet (h := h) hq
  rw [← List.append_assoc] at hun
  have hread₂ := hun.1.trans hread
  have hv : v.subjectId = some actorKey := by rw [← hsub, hactor]
  refine meets_query_bind (fun _ _ _ => ?_) (fun e₃ _ _ he₃ => ?_) fun _ _ _ => trivial
  · refine ⟨by simp [uuidsOf, hv₂], ⟨_, rfl, rfl, rfl⟩, .inr ⟨v, hread₂, hv, ?_⟩, ?_⟩
    · exact (hgate.mono [e₁]).mono [e₂]
    · rw [hun.2]; exact honce
  · refine meets_skip_bind quiet_hasPassword (fun _ _ _ he => conducted_of_none he.1) ?_
      fun _ _ _ => trivial
    intro t has ht
    have hq₃ : e₃.stmt.readsNoUser = true := by rw [he₃.stmt]; rfl
    refine ⟨_, he₃.heard.mono t, ?_, hv, rfl, rfl⟩
    rw [(unchanged_of_quiet ht).1, lastUserRead_append (by simpa using hq₃), hread₂]

/-- What the last steps of a login establish: the session is the one that
    the response names, and it belongs to the row that was read last. -/
def SessionOpened (v : User) (h : List (Entry machine)) (issued : IssuedSession) : Prop :=
  ∃ s, Heard h (.session (.create s)) () ∧ lastUserRead h = some v ∧
    v.subjectId = some s.userId ∧ issued.sessionKey = s.key ∧
    issued.user.id = idArgumentKey (userAddress v.key)

/-- The last steps of every login. -/
theorem touchAndCreate_follows {α : Type} {cfg : Config} {ip : Str}
    {methods : List AuthenticationMethod} {q : User → Req AuthError α} {g : α → List Str}
    (hq : ∀ u, Prog.Only Stmt.Quiet (q u))
    (hread : lastUserRead h = some v) (hgate : SessionGate h v c.endpoint)
    (honce : .createSession ∉ effectsOf h) :
    Follows c (Ends (SessionOpened v)) h (touchLastLogin v ip >>= fun u => q u >>= fun r =>
      createSession cfg u methods (g r)) := by
  have hself : v.SameAccount v ∧ ∀ F, UserField.Same F v v :=
    ⟨⟨rfl, rfl, rfl, rfl, rfl⟩, fun F => by cases F <;> simp [UserField.Same]⟩
  refine (touchLastLogin_follows hread hself).bind ?_ fun _ _ _ => trivial
  rintro t₁ u ⟨hread₁, heff₁, hsub₁, hkey₁⟩
  refine meets_skip_bind (hq u) (fun _ _ _ he => conducted_of_none he.1) ?_
    fun _ _ _ => trivial
  intro t₂ r ht₂
  have hun := unchanged_of_quiet (h := h ++ t₁) ht₂
  refine (createSession_follows (hun.1.trans hread₁) hsub₁ ((hgate.mono t₁).mono t₂) ?_).weaken
    (fun _ hw => hw) (fun _ _ _ he => he) ?_
  · rw [hun.2]
    intro hx
    rcases heff₁ _ hx with hx | hx
    · exact honce hx
    · cases hx
  · rintro t (x | issued) hr
    · trivial
    · obtain ⟨s, hs, hl, hv, hk, hid⟩ := hr
      exact ⟨s, hs, hl, hv, hk, hid.trans hkey₁⟩

/-- The same with what a request does afterwards. -/
theorem touchAndCreate_bind {α β : Type} {cfg : Config} {ip : Str}
    {methods : List AuthenticationMethod} {q : User → Req AuthError α} {g : α → List Str}
    {k : IssuedSession → Req AuthError β} {Q : List (Entry machine) → Except AuthError β → Prop}
    (hq : ∀ u, Prog.Only Stmt.Quiet (q u))
    (hread : lastUserRead h = some v) (hgate : SessionGate h v c.endpoint)
    (honce : .createSession ∉ effectsOf h)
    (hk : ∀ t issued, SessionOpened v (h ++ t) issued → Follows c Q (h ++ t) (k issued))
    (hQ : ∀ h x, Q h (.error x)) :
    Follows c Q h (touchLastLogin v ip >>= fun u => q u >>= fun r =>
      createSession cfg u methods (g r) >>= k) := by
  have hparts : Follows c (Ends (SessionOpened v)) h (touchLastLogin v ip >>= fun u =>
      q u >>= fun r => createSession cfg u methods (g r)) :=
    touchAndCreate_follows hq hread hgate honce
  have := hparts.bind hk fun _ _ _ => hQ _ _
  simpa only [bind_assoc] using this

/-- A login is answered with the session and its cookie. -/
theorem withCookie_follows {issued : IssuedSession} (hs : SessionOpened v h issued) :
    Follows c (Ends LoggedIn) h (withCookie issued) := by
  refine meets_getNow_bind (fun _ _ _ => trivial) fun e now _ he => ?_
  obtain ⟨s, hs, hread, hsub, hkey, hid⟩ := hs
  refine ⟨s, v, hs.mono [e], ?_, hsub, hid, hkey⟩
  rw [lastUserRead_append, hread]
  simp [he.1, Stmt.readsNoUser]

end

/-! ## The requests -/

section

variable {cfg : Config} {h : List (Entry machine)}

/-- The answer to a lookup of an account is the row last read. -/
theorem lastUserRead_lookup {s : UserStmt} {a : (DbStmt.identity (.user s)).Reply}
    {e : Entry machine} {u : User} (he : Answered (.identity (.user s)) a e)
    (hu : s.rowRead e.before.db.users = some u) : lastUserRead (h ++ [e]) = some u := by
  refine lastUserRead_snoc ?_
  unfold userReadBy
  rw [he.stmt]
  simpa [he.sound] using hu

theorem findUserById_read {id : Str} {found : Option User} {e : Entry machine}
    (he : Answered (.identity (.user (.findById (idArgumentKey id)))) found e) {u : User}
    (hu : found = some u) :
    lastUserRead (h ++ [e]) = some u ∧ u.key = idArgumentKey id := by
  have hr : e.before.db.users.find? (fun u => u.key = idArgumentKey id) = some u := by
    have := he.reply
    subst hu
    simpa [DbStmt.exec, IdentityStmt.exec, UserStmt.exec] using this
  exact ⟨lastUserRead_lookup he hr, by simpa using List.find?_some hr⟩

theorem findUserByEmail_read {email : Str} {found : Option User} {e : Entry machine}
    (he : Answered (.identity (.user (.findByEmail email))) found e) {u : User}
    (hu : found = some u) : lastUserRead (h ++ [e]) = some u ∧ u.email = email := by
  have hr : e.before.db.users.find? (fun u => u.email = email) = some u := by
    have := he.reply
    subst hu
    simpa [DbStmt.exec, IdentityStmt.exec, UserStmt.exec] using this
  exact ⟨lastUserRead_lookup he hr, by simpa using List.find?_some hr⟩

theorem findByActor_read {actorKey : Str} {found : Option User} {e : Entry machine}
    (he : Answered (.identity (.user (.findByActor actorKey))) found e) {u : User}
    (hu : found = some u) :
    lastUserRead (h ++ [e]) = some u ∧ u.subjectId = some actorKey := by
  have hr : e.before.db.users.find? (fun u => u.subjectId = some actorKey) = some u := by
    have := he.reply
    subst hu
    simpa [DbStmt.exec, IdentityStmt.exec, UserStmt.exec] using this
  exact ⟨lastUserRead_lookup he hr, by simpa using List.find?_some hr⟩

/-- The creation of a human draws its six keys last. -/
theorem createHumanAggregate_follows {c : Call} {new : NewHuman}
    (honce : .createHuman ∉ effectsOf h)
    (hnew : ∀ req ip, c.endpoint = .register req ip →
      new.emailVerified = !c.cfg.emailVerificationEnabled)
    (hmade : ∀ keys now, (new.aggregate keys now).MadeBy c.endpoint) :
    Follows c (fun h' _ => ∀ x ∈ effectsOf h', x ∈ effectsOf h ∨ x = .createHuman) h
      (createHumanAggregate new) := by
  refine meets_getNow_bind (fun _ _ _ => trivial) fun e₀ now _ he₀ => ?_
  refine meets_newUuid_bind (fun _ _ _ => trivial) fun e₁ actor _ he₁ hv₁ => ?_
  refine meets_newUuid_bind (fun _ _ _ => trivial) fun e₂ user _ he₂ hv₂ => ?_
  refine meets_newUuid_bind (fun _ _ _ => trivial) fun e₃ account _ he₃ hv₃ => ?_
  refine meets_newUuid_bind (fun _ _ _ => trivial) fun e₄ credential _ he₄ hv₄ => ?_
  refine meets_newUuid_bind (fun _ _ _ => trivial) fun e₅ binding _ he₅ hv₅ => ?_
  refine meets_newUuid_bind (fun _ _ _ => trivial) fun e₆ subject _ he₆ hv₆ => ?_
  have huuids : uuidsOf (h ++ [e₀] ++ [e₁] ++ [e₂] ++ [e₃] ++ [e₄] ++ [e₅] ++ [e₆]) =
      uuidsOf (h ++ [e₀]) ++ [actor, user, account, credential, binding, subject] := by
    rw [uuidsOf_snoc hv₆, uuidsOf_snoc hv₅, uuidsOf_snoc hv₄, uuidsOf_snoc hv₃,
      uuidsOf_snoc hv₂, uuidsOf_snoc hv₁]
    simp only [List.append_assoc, List.cons_append, List.nil_append]
  have heff : effectsOf (h ++ [e₀] ++ [e₁] ++ [e₂] ++ [e₃] ++ [e₄] ++ [e₅] ++ [e₆]) =
      effectsOf h := by
    rw [effectsOf_snoc (by rw [he₆]; rfl), effectsOf_snoc (by rw [he₅]; rfl),
      effectsOf_snoc (by rw [he₄]; rfl), effectsOf_snoc (by rw [he₃]; rfl),
      effectsOf_snoc (by rw [he₂]; rfl), effectsOf_snoc (by rw [he₁]; rfl),
      effectsOf_snoc (by rw [he₀.1]; rfl)]
  refine meets_query_bind (fun _ _ _ => ?_) (fun e₇ _ _ he₇ => ?_) fun e₇ x he₇ => ?_
  · refine ⟨⟨new, ⟨actor, user, account, credential, binding, subject⟩, now, _, rfl, huuids⟩,
      hnew, hmade _ _, ?_⟩
    rw [heff]
    exact honce
  · show ∀ x ∈ effectsOf _, _
    rw [effectsOf_append, heff, effectsOf_singleton, he₇.effect]
    simp [DbStmt.effect]
  · show ∀ x ∈ effectsOf _, _
    rw [effectsOf_append, heff, effectsOf_singleton, he₇]
    simp [Stmt.effect, DbStmt.effect]

end

section

variable {cfg : Config} {c : Call} {h : List (Entry machine)} {α β : Type}
  {P : List (Entry machine) → β → Prop}

/-- A part of a program that only reads. -/
theorem reads_bind {ε : Type} {p : Req ε α} {f : α → Req ε β} (hp : Within [] p)
    (hok : ∀ t a, effectsOf (h ++ t) = effectsOf h → Follows c (Ends P) (h ++ t) (f a)) :
    Follows c (Ends P) h (p >>= f) := by
  refine meets_skip_bind hp (fun _ e _ he => ?_) (fun t a ht => hok t a ?_) fun _ _ _ => trivial
  · exact conducted_of_free fun x hx => absurd (he x hx) (by simp)
  · rw [effectsOf_append]
    have hnil : effectsOf t = [] :=
      List.eq_nil_iff_forall_not_mem.mpr fun x hx => absurd (effectsOf_within ht hx) (by simp)
    simp [hnil]

/-- A part of a program whose effects need no justification. -/
theorem free_bind {ε : Type} {L : List Effect} {p : Req ε α} {f : α → Req ε β}
    (hp : Within L p) (hL : ∀ x ∈ L, x ∈ freeEffects)
    (hok : ∀ t a, (∀ x ∈ effectsOf (h ++ t), x ∈ effectsOf h ∨ x ∈ L) →
      Follows c (Ends P) (h ++ t) (f a)) :
    Follows c (Ends P) h (p >>= f) := by
  refine meets_skip_bind hp (fun _ e _ he => conducted_of_free fun x hx => hL x (he x hx))
    (fun t a ht => hok t a fun x hx => ?_) fun _ _ _ => trivial
  rcases List.mem_append.mp (effectsOf_append ▸ hx) with hx | hx
  · exact .inl hx
  · exact .inr (effectsOf_within ht hx)

/-- A quiet part of a program. -/
theorem quiet_bind {ε : Type} {p : Req ε α} {f : α → Req ε β}
    (hp : Prog.Only Stmt.Quiet p)
    (hok : ∀ t a, Unchanged h (h ++ t) → Follows c (Ends P) (h ++ t) (f a)) :
    Follows c (Ends P) h (p >>= f) :=
  meets_skip_bind hp (fun _ _ _ he => conducted_of_none he.1)
    (fun t a ht => hok t a (unchanged_of_quiet ht)) fun _ _ _ => trivial

theorem register_follows {req : CreateUserRequest} {ip : Str} :
    Follows ⟨cfg, .register req ip⟩ (Ends fun _ _ => True) [] (register cfg req ip) := by
  refine meets_ofExcept_bind (fun email _ => ?_) fun _ _ => trivial
  refine meets_ofExcept_bind (fun _ _ => ?_) fun _ _ => trivial
  refine meets_orThrow_bind (fun submitted _ => ?_) fun _ => trivial
  refine meets_ofExcept_bind (fun username _ => ?_) fun _ _ => trivial
  refine reads_bind findUserByEmail_within fun t₁ existing heff₁ => ?_
  refine meets_ensure_bind (fun _ => ?_) fun _ => trivial
  refine reads_bind ensureUsernameAvailable_within fun t₂ name heff₂ => ?_
  refine reads_bind within_hashPassword fun t₃ passwordHash heff₃ => ?_
  refine reads_bind within_getNow fun t₄ now heff₄ => ?_
  refine reads_bind drawVerificationToken_within fun t₅ verification heff₅ => ?_
  have heff := ((heff₅.trans heff₄).trans heff₃).trans (heff₂.trans heff₁)
  generalize [] ++ t₁ ++ t₂ ++ t₃ ++ t₄ ++ t₅ = h at heff
  have hfresh : ∀ x, x ∉ effectsOf h := by simp [heff]
  refine Prog.meets_bind.mpr (Prog.Meets.mapError
    (createHumanAggregate_follows (hfresh _) ?_ fun _ _ => ⟨rfl, rfl⟩) (fun t keys hx => ?_)
    fun _ _ _ => trivial)
  · rintro req' ip' hep
    cases hep
    rfl
  · refine meets_query_bind (fun _ _ _ => trivial) (fun e found _ he => ?_) fun _ _ _ => trivial
    refine meets_orThrow_bind (fun created hcreated => ?_) fun _ => trivial
    obtain ⟨hread, -⟩ := findUserById_read (h := h ++ t) he hcreated
    cases verification with
    | some _ => trivial
    | none =>
      refine touchAndCreate_bind (fun _ => quiet_passwordRefOf) hread trivial ?_
        (fun _ _ _ => trivial) fun _ _ => trivial
      rw [effectsOf_snoc (by rw [he.stmt]; rfl)]
      intro hs
      rcases hx _ hs with hs | hs
      · exact hfresh _ hs
      · cases hs

/-- A login from the point where the password has been verified. -/
theorem loginVerified_follows {email password ip : Str} {u : User} {credential : Credential}
    (hread : lastUserRead h = some u) (honce : .createSession ∉ effectsOf h) :
    Follows ⟨cfg, .login email password ip⟩
      (Ends fun h' outcome => ∀ issued, outcome = .authenticated issued →
        SessionOpened u h' issued) h (loginVerified cfg u credential ip) := by
  refine meets_ensure_bind (fun _ => ?_) fun _ => trivial
  refine authenticableActorOfUser_follows.bind ?_ fun _ _ _ => trivial
  rintro t₁ actor ⟨hpassed, hread₁, heff₁⟩
  refine meets_ofExcept_bind (fun _ husable => ?_) fun _ _ => trivial
  refine meets_ensure_bind (fun _ => ?_) fun _ => trivial
  refine quiet_bind quiet_enabledMethod fun t₂ method hun₂ => ?_
  have hstatus : u.accountStatus = .active := User.ensureUsable_ok.mp husable
  cases method with
  | some method =>
    refine quiet_bind (.bind quiet_getNow fun _ => trivial) fun t₃ challenge _ => ?_
    rintro issued ⟨⟩
  | none =>
    refine touchAndCreate_bind (q := fun _ => pure ()) (g := fun _ => _) (fun _ => trivial)
      (hun₂.1.trans (hread₁.trans hread)) ⟨hstatus, actor.actor, hpassed.mono t₂⟩ ?_ ?_
      fun _ _ => trivial
    · rw [hun₂.2, heff₁]
      exact honce
    · rintro t issued hs _ ⟨⟩
      exact hs

theorem login_follows {email email' password ip : Str}
    (honce : .createSession ∉ effectsOf h) :
    Follows ⟨cfg, .login email' password ip⟩
      (Ends fun h' outcome => ∀ issued, outcome = .authenticated issued →
        ∃ u, SessionOpened u h' issued) h (login cfg email password ip) := by
  refine meets_ofExcept_bind (fun email _ => ?_) fun _ _ => trivial
  refine meets_query_bind (fun _ _ _ => trivial) (fun e found _ he => ?_) fun _ _ _ => trivial
  have heff : effectsOf (h ++ [e]) = effectsOf h := effectsOf_snoc (by rw [he.stmt]; rfl)
  refine quiet_bind quiet_probeActor fun t₁ actorKey hun₁ => ?_
  refine quiet_bind quiet_activePassword fun t₂ stored hun₂ => ?_
  cases found with
  | none => exact quiet_bind (.swallow quiet_verifyPassword) fun _ _ _ => trivial
  | some u =>
    cases stored with
    | none => exact quiet_bind (.swallow quiet_verifyPassword) fun _ _ _ => trivial
    | some credential =>
      obtain ⟨hread, -⟩ := findUserByEmail_read (h := h) he rfl
      refine meets_orThrow_bind (fun passwordHash _ => ?_) fun _ => trivial
      refine quiet_bind quiet_verifyPassword fun t₃ _ hun₃ => ?_
      refine ends_mono (loginVerified_follows (u := u) ?_ ?_)
        fun t outcome ho issued hi => ⟨u, ho issued hi⟩
      · rw [hun₃.1, hun₂.1, hun₁.1, hread]
      · rw [hun₃.2, hun₂.2, hun₁.2, heff]
        exact honce

/-- The lockout checks only write lockout records. -/
theorem ensureNotLockedOut_bind {email ip : Str} {f : Unit → Req AuthError β}
    (hok : ∀ t, (∀ x ∈ effectsOf (h ++ t), x ∈ effectsOf h ∨ x = .writeLockout) →
      Follows c (Ends P) (h ++ t) (f ())) :
    Follows c (Ends P) h (ensureNotLockedOut cfg email ip >>= f) :=
  free_bind (ensureNotLockedOut_within (List.mem_singleton.mpr rfl)) (by decide)
    fun t _ ht => hok t (by simpa using ht)

/-- What the routes say of a completed login. -/
def AnsweredLogin (h : List (Entry machine)) : Reply → Prop
  | .loggedIn response => LoggedIn h response
  | reply => ∀ response, reply ≠ .ok ∧ reply ≠ .tokens response

theorem loginRoute_follows {email password ip : Str} :
    Follows ⟨cfg, .login email password ip⟩ (Ends AnsweredLogin) []
      (loginRoute cfg email password ip) := by
  unfold loginRoute performLogin
  rw [bind_assoc]
  refine ensureNotLockedOut_bind fun t₁ heff₁ => ?_
  refine Prog.meets_bind.mpr (Prog.Meets.mapError (login_follows ?_) ?_ fun _ _ _ => trivial)
  · intro hx
    rcases heff₁ _ hx with hx | hx
    · simp at hx
    · cases hx
  · intro t₂ outcome ho
    cases outcome with
    | authenticated issued =>
      obtain ⟨u, hs⟩ := ho issued rfl
      refine (withCookie_follows hs).bind (fun _ _ hl => hl) fun _ _ _ => trivial
    | mfaRequired challenge method => exact fun response => ⟨by simp, by simp⟩

theorem completeMfaLogin_follows {challenge : MfaChallengeClaims} {factor : SecondFactor}
    {ip : Str} {method : AuthenticationMethod} (honce : .createSession ∉ effectsOf h) :
    Follows ⟨cfg, .mfaLoginVerify challenge factor ip⟩
      (Ends fun h' issued => ∃ u, SessionOpened u h' issued) h
      (completeMfaLogin cfg challenge.sub ip method) := by
  refine meets_query_bind (fun _ _ _ => trivial) (fun e found _ he => ?_) fun _ _ _ => trivial
  refine meets_orThrow_bind (fun u hu => ?_) fun _ => trivial
  obtain ⟨hread, hkey⟩ := findUserById_read (h := h) he hu
  refine authenticableActorOfUser_follows.bind ?_ fun _ _ _ => trivial
  rintro t₁ actor ⟨hpassed, hread₁, heff₁⟩
  refine meets_ofExcept_bind (fun _ husable => ?_) fun _ _ => trivial
  refine ends_mono (touchAndCreate_follows (fun _ => quiet_passwordRefOf) (hread₁.trans hread)
    ⟨User.ensureUsable_ok.mp husable, hkey, actor.actor, hpassed⟩ ?_) fun t issued hs => ⟨u, hs⟩
  rw [heff₁, effectsOf_snoc (by rw [he.stmt]; rfl)]
  exact honce

theorem mfaLoginVerify_follows {challenge : MfaChallengeClaims} {factor : SecondFactor}
    {ip : Str} :
    Follows ⟨cfg, .mfaLoginVerify challenge factor ip⟩
      (Ends fun h' issued => ∃ u, SessionOpened u h' issued) []
      (mfaLoginVerify cfg challenge factor ip) := by
  refine reads_bind (.bind within_getNow fun _ => within_ensure) fun t₁ _ heff₁ => ?_
  refine ensureNotLockedOut_bind fun t₂ heff₂ => ?_
  have hverify : Within [.writeMfa] (verifySecondFactor cfg challenge.sub factor) := by
    cases factor with
    | totp code => exact .bind (verifyTotp_within (by simp)) fun _ => within_pure
    | backupCode code => exact .bind (useBackupCode_within (by simp)) fun _ => within_pure
    | none => exact within_throw
  refine free_bind hverify.mapError (by decide) fun t₃ verified heff₃ => ?_
  refine meets_ensure_bind (fun _ => ?_) fun _ => trivial
  refine completeMfaLogin_follows fun hx => ?_
  rcases heff₃ _ hx with hx | hx
  · rcases heff₂ _ hx with hx | hx
    · rw [heff₁] at hx
      simp at hx
    · cases hx
  · simp at hx

theorem handleOauthCallback_follows {info : OAuthUserInfo} {ip : Str} :
    Follows ⟨cfg, .oauthCallback info ip⟩
      (Ends fun h' issued => ∃ u, SessionOpened u h' issued) []
      (handleOauthCallback cfg info ip) := by
  have hfind : Follows ⟨cfg, .oauthCallback info ip⟩
      (Ends fun h' u => lastUserRead h' = some u ∧ .createSession ∉ effectsOf h') []
      (findOrCreateOauthUser info) := by
    refine reads_bind resolveBinding_within fun t₁ bound heff₁ => ?_
    generalize [] ++ t₁ = h₁ at heff₁
    cases bound with
    | some actor =>
      refine meets_query_bind (fun _ _ _ => trivial) (fun e found _ he => ?_) fun _ _ _ => trivial
      cases found with
      | none => trivial
      | some u =>
        refine ⟨(findByActor_read he rfl).1, ?_⟩
        rw [effectsOf_snoc (by rw [he.stmt]; rfl), heff₁]
        simp
    | none =>
      refine meets_ofExcept_bind (fun email _ => ?_) fun _ _ => trivial
      refine reads_bind findUserByEmail_within fun t₂ existing heff₂ => ?_
      refine meets_ensure_bind (fun _ => ?_) fun _ => trivial
      refine reads_bind firstFreeUsername_within fun t₃ name heff₃ => ?_
      have hfresh : ∀ x, x ∉ effectsOf (h₁ ++ t₂ ++ t₃) := by
        rw [heff₃, heff₂, heff₁]
        simp
      refine Prog.meets_bind.mpr (Prog.Meets.mapError
        (createHumanAggregate_follows (hfresh _) ?_ ?_) (fun t keys hx => ?_) fun _ _ _ => trivial)
      · rintro req' ip' hep
        cases hep
      · intro keys now
        exact ⟨rfl, _, rfl, rfl, rfl⟩
      · refine meets_query_bind (fun _ _ _ => trivial) (fun e found _ he => ?_)
          fun _ _ _ => trivial
        cases found with
        | none => trivial
        | some u =>
          refine ⟨(findUserById_read he rfl).1, ?_⟩
          rw [effectsOf_snoc (by rw [he.stmt]; rfl)]
          intro hs
          rcases hx _ hs with hs | hs
          · exact hfresh _ hs
          · cases hs
  refine hfind.bind ?_ fun _ _ _ => trivial
  rintro t u ⟨hread, honce⟩
  refine authenticableActorOfUser_follows.bind ?_ fun _ _ _ => trivial
  rintro t₁ actor ⟨hpassed, hread₁, heff₁⟩
  exact ends_mono (touchAndCreate_follows (q := fun _ => pure ()) (g := fun _ => [])
    (fun _ => trivial) (hread₁.trans hread) ⟨actor.actor, hpassed⟩ (heff₁ ▸ honce))
    fun t issued hs => ⟨u, hs⟩

theorem verifyEmail_follows {bearer ip : Str} :
    Follows ⟨cfg, .verifyEmail bearer ip⟩ (Ends fun h' issued => ∃ u, SessionOpened u h' issued) []
      (verifyEmail cfg bearer ip) := by
  refine meets_getNow_bind (fun _ _ _ => trivial) fun e₀ now _ he₀ => ?_
  refine meets_query_bind (fun _ _ _ => trivial) (fun e₁ claimed _ he₁ => ?_) fun _ _ _ => trivial
  split
  · next key _ =>
    refine meets_query_bind (fun _ _ _ => trivial) (fun e₂ found _ he₂ => ?_) fun _ _ _ => trivial
    refine meets_orThrow_bind (fun u hu => ?_) fun _ => trivial
    obtain ⟨hread, -⟩ := findUserById_read (h := [] ++ [e₀] ++ [e₁]) he₂ hu
    refine ends_mono (touchAndCreate_follows (q := fun _ => pure ()) (g := fun _ => [])
      (fun _ => trivial) hread trivial ?_) fun _ _ hs => ⟨u, hs⟩
    rw [effectsOf_snoc (by rw [he₂.stmt]; rfl), effectsOf_append, effectsOf_singleton,
      he₁.effect, effectsOf_snoc (by rw [he₀.1]; rfl)]
    simp [DbStmt.effect]
  · trivial

/-! ## The other writers of the `user` row -/

/-- A row that is written back with other values in some of its fields. -/
theorem updateUser_follows {u v : User} (hread : lastUserRead h = some v)
    (hsame : u.SameAccount v)
    (hfields : ∀ F, c.endpoint.sets F = false → F.Same u v) :
    Follows c (fun h' _ => lastUserRead h' = some v) h (updateUser u : Req AuthError User) := by
  have hstay : ∀ e : Entry machine, e.stmt = .db (.identity (.user (.update
      (idArgumentKey (userAddress u.key)) u))) → lastUserRead (h ++ [e]) = some v := by
    intro e he
    rw [lastUserRead_append, hread]
    simp [he, Stmt.readsNoUser]
  refine meets_query (fun _ _ _ => ?_) (fun e _ _ he => hstay e he.stmt) fun e _ he => hstay e he
  exact ⟨v, hread, by rw [hsame.key], hsame, hfields⟩

theorem resendVerification_follows {email : Str} :
    Follows ⟨cfg, .resendVerification email⟩ (Ends fun _ _ => True) []
      (resendVerificationEmail cfg email) := by
  unfold resendVerificationEmail
  split
  · split
    · trivial
    · refine meets_query_bind (fun _ _ _ => trivial) (fun e found _ he => ?_) fun _ _ _ => trivial
      cases found with
      | none => trivial
      | some u =>
        obtain ⟨hread, -⟩ := findUserByEmail_read (h := []) he rfl
        simp only
        split
        · trivial
        · refine quiet_bind quiet_getNow fun t₁ now hun₁ => ?_
          refine quiet_bind quiet_newUuid fun t₂ value hun₂ => ?_
          refine Prog.Meets.bind (updateUser_follows (hun₂.1.trans (hun₁.1.trans hread))
            ⟨rfl, rfl, rfl, rfl, rfl⟩ fun F hF => ?_) (fun _ _ _ => trivial) fun _ _ _ => trivial
          cases F with
          | verificationToken => cases hF
          | membership => exact ⟨rfl, rfl⟩
          | _ => rfl
  · trivial

theorem updateMembership_follows {userId level : Str} {expiry : Option Timestamp} :
    Follows ⟨cfg, .updateMembership userId level expiry⟩ (Ends fun _ _ => True) []
      (updateMembership userId level expiry) := by
  refine meets_query_bind (fun _ _ _ => trivial) (fun e found _ he => ?_) fun _ _ _ => trivial
  refine meets_orThrow_bind (fun u hu => ?_) fun _ => trivial
  obtain ⟨hread, -⟩ := findUserById_read (h := []) he hu
  refine meets_ofExcept_bind (fun level _ => ?_) fun _ _ => trivial
  refine quiet_bind quiet_getNow fun t₁ now hun₁ => ?_
  refine Prog.Meets.bind (updateUser_follows (hun₁.1.trans hread) ⟨rfl, rfl, rfl, rfl, rfl⟩
    fun F hF => ?_) (fun t₂ updated _ => ?_) fun _ _ _ => trivial
  · cases F with
    | membership => cases hF
    | verificationToken => exact ⟨rfl, rfl⟩
    | _ => rfl
  · split
    · trivial
    · exact quiet_bind quiet_hasPassword fun _ _ _ => trivial

/-! ## Passwords -/

theorem Entitled.mono (hent : Entitled c h) (t : List (Entry machine)) :
    Entitled c (h ++ t) :=
  fun token pw hep => (hent token pw hep).mono t

theorem conducted_of_entitled {e : Entry machine} (hent : Entitled c h)
    (he : e.stmt.Within (.writeCredential :: freeEffects)) : Conducted c h e := by
  obtain ⟨ctx, s, w⟩ := e
  unfold Conducted
  split
  all_goals first
    | trivial
    | exact hent
    | (next hs => exact absurd (he _ (by simp only at hs; subst hs; rfl)) (by decide))

/-- A statement of the writing of a password. -/
def Stmt.WritesPassword (s : Stmt) : Prop :=
  s.Within [.writeCredential] ∧ s.readsNoUser = true

theorem setPassword_only {key hash : Str} :
    Prog.Only Stmt.WritesPassword (setPassword key hash) := by
  have hquiet : ∀ {α : Type} {p : Req AuthError α}, Prog.Only Stmt.Quiet p →
      Prog.Only Stmt.WritesPassword p := by
    intro α p hp
    refine hp.mono fun s hs => ⟨fun x hx => ?_, hs.2⟩
    rw [hs.1] at hx
    cases hx
  have hwrite : ∀ s : CredentialStmt, Prog.Only Stmt.WritesPassword
      (query (.identity (.credential s)) : Req AuthError s.Reply) := by
    intro s
    refine ⟨⟨fun x hx => ?_, rfl⟩, fun r => by cases r <;> trivial⟩
    cases s <;> simp_all [Stmt.effect, DbStmt.effect]
  refine .bind (hquiet quiet_getNow) fun now => .bind (hwrite _) fun rotated => ?_
  split
  · trivial
  · refine .bind (hquiet quiet_newUuid) fun _ => .bind (hquiet quiet_getNow) fun _ => ?_
    refine .bind (.attempt (hwrite _)) fun created => ?_
    split
    · trivial
    · refine .bind (hwrite _) fun rotated => ?_
      split <;> trivial

theorem setPassword_bind {key hash : Str} {f : Unit → Req AuthError β} (hent : Entitled c h)
    (hok : ∀ t, lastUserRead (h ++ t) = lastUserRead h → Follows c (Ends P) (h ++ t) (f ())) :
    Follows c (Ends P) h (setPassword key hash >>= f) :=
  meets_skip_bind setPassword_only
    (fun t _ _ he => conducted_of_entitled (hent.mono t) fun x hx => by
      simp [List.mem_singleton.mp (he.1 x hx)])
    (fun t _ ht => hok t (lastUserRead_append fun e he => (ht e he).2)) fun _ _ _ => trivial

theorem initializePassword_follows {userId password : Str} :
    Follows ⟨cfg, .initializePassword userId password⟩ (Ends fun _ _ => True) []
      (initializePassword cfg userId password) := by
  refine meets_ofExcept_bind (fun _ _ => ?_) fun _ _ => trivial
  refine meets_query_bind (fun _ _ _ => trivial) (fun e found _ he => ?_) fun _ _ _ => trivial
  refine meets_orThrow_bind (fun u hu => ?_) fun _ => trivial
  obtain ⟨hread, -⟩ := findUserById_read (h := []) he hu
  refine meets_orThrow_bind (fun actorKey _ => ?_) fun _ => trivial
  refine quiet_bind (.bind quiet_activePassword fun _ => trivial) fun t₁ existing hun₁ => ?_
  refine meets_ensure_bind (fun _ => ?_) fun _ => trivial
  refine quiet_bind quiet_hashPassword fun t₂ hash hun₂ => ?_
  refine setPassword_bind (fun _ _ hep => by cases hep) fun t₃ hread₃ => ?_
  refine quiet_bind quiet_getNow fun t₄ now hun₄ => ?_
  have hread₄ := hun₄.1.trans (hread₃.trans (hun₂.1.trans (hun₁.1.trans hread)))
  refine Prog.Meets.weaken (updateUser_follows hread₄ ⟨rfl, rfl, rfl, rfl, rfl⟩ fun F _ => ?_)
    (fun _ hw => hw) (fun _ _ _ he => he) fun _ _ _ => ends_of_forall fun _ => trivial
  cases F <;> simp [UserField.Same]

theorem requestPasswordReset_follows {email : Str} :
    Follows ⟨cfg, .requestPasswordReset email⟩ (Ends fun _ _ => True) []
      (requestPasswordReset email) := by
  unfold requestPasswordReset
  split
  · trivial
  · refine reads_bind findUserByEmail_within fun t₁ found heff₁ => ?_
    split
    · trivial
    · split
      · trivial
      · refine free_bind (L := [.spendResetToken]) (within_write rfl (by simp)) (by decide)
          fun t₂ _ heff₂ => ?_
        refine meets_newUuid_bind (fun _ _ _ => trivial) fun e₃ token _ he₃ hv₃ => ?_
        refine meets_getNow_bind (fun _ _ _ => trivial) fun e₄ now _ he₄ => ?_
        refine meets_newUuid_bind (fun _ _ _ => trivial) fun e₅ key _ he₅ hv₅ => ?_
        refine meets_query (fun _ _ _ => ⟨⟨token, ?_, rfl⟩, fun hx => ?_⟩)
          (fun _ _ _ _ => trivial) fun _ _ _ => trivial
        · rw [uuidsOf_snoc hv₅, uuidsOf_append, uuidsOf_snoc hv₃]
          simp
        · rw [effectsOf_snoc (by rw [he₅]; rfl), effectsOf_snoc (by rw [he₄.1]; rfl),
            effectsOf_snoc (by rw [he₃]; rfl)] at hx
          rcases heff₂ _ hx with hx | hx
          · rw [heff₁] at hx
            simp at hx
          · simp at hx

/-! ## The two revocations -/

theorem revokeAllTokensForUser_follows {userId : Str} :
    Follows c (Ends fun h' _ => Heard h' (.accessToken (.revokeAll (ownerKey userId))) () ∧
      Heard h' (.refreshToken (.revokeAll (ownerKey userId))) () ∧
      lastUserRead h' = lastUserRead h) h (revokeAllTokensForUser userId) := by
  refine meets_query_bind (fun _ _ _ => trivial) (fun e₁ _ _ he₁ => ?_) fun _ _ _ => trivial
  refine meets_query (fun _ _ _ => trivial) (fun e₂ _ _ he₂ => ?_) fun _ _ _ => trivial
  refine ⟨he₁.heard.mono [e₂], he₂.heard, ?_⟩
  rw [lastUserRead_stay (by rw [he₂.stmt]; rfl), lastUserRead_stay (by rw [he₁.stmt]; rfl)]

theorem logoutAll_follows {userId : Str} :
    Follows ⟨cfg, .logoutAll userId⟩ (Ends fun h' _ => RevokedAll h' userId) []
      (logoutAll userId) := by
  refine meets_query_bind (fun _ _ _ => trivial) (fun e₁ _ _ he₁ => ?_) fun _ _ _ => trivial
  refine Prog.Meets.mapError revokeAllTokensForUser_follows ?_ fun _ _ _ => trivial
  rintro t a ⟨haccess, hrefresh, -⟩
  exact ⟨he₁.heard.mono t, haccess, hrefresh⟩

theorem resetPassword_follows {token newPassword : Str} :
    Follows ⟨cfg, .resetPassword token newPassword⟩
      (Ends fun h' key => ∃ u, lastUserRead h' = some u ∧ key = u.key ∧
        Heard h' (.session (.deleteByUser (normalizeUserId u.key))) ()) []
      (resetPassword cfg token newPassword) := by
  refine meets_ofExcept_bind (fun _ _ => ?_) fun _ _ => trivial
  refine meets_query_bind (fun _ _ _ => trivial) (fun e₁ claimed _ he₁ => ?_) fun _ _ _ => trivial
  refine meets_ensure_bind (fun hone => ?_) fun _ => trivial
  obtain rfl : claimed = 1 := hone
  refine meets_query_bind (fun _ _ _ => trivial) (fun e₂ row _ he₂ => ?_) fun _ _ _ => trivial
  refine meets_orThrow_bind (fun resetToken _ => ?_) fun _ => trivial
  refine meets_query_bind (fun _ _ _ => trivial) (fun e₃ found _ he₃ => ?_) fun _ _ _ => trivial
  refine meets_orThrow_bind (fun u hu => ?_) fun _ => trivial
  obtain ⟨hread, -⟩ := findUserByEmail_read (h := [] ++ [e₁] ++ [e₂]) he₃ hu
  have hent : Entitled ⟨cfg, .resetPassword token newPassword⟩
      ([] ++ [e₁] ++ [e₂] ++ [e₃]) := by
    rintro _ _ ⟨⟩
    exact (he₁.heard.mono [e₂]).mono [e₃]
  refine meets_ofExcept_bind (fun _ _ => ?_) fun _ _ => trivial
  refine meets_orThrow_bind (fun actorKey _ => ?_) fun _ => trivial
  refine quiet_bind quiet_hashPassword fun t₄ hash hun₄ => ?_
  refine setPassword_bind (hent.mono t₄) fun t₅ hread₅ => ?_
  refine quiet_bind quiet_getNow fun t₆ now hun₆ => ?_
  refine Prog.Meets.bind (updateUser_follows (hun₆.1.trans (hread₅.trans (hun₄.1.trans hread)))
    ⟨rfl, rfl, rfl, rfl, rfl⟩ fun F _ => ?_) (fun t₇ updated hread₇ => ?_) fun _ _ _ => trivial
  · cases F <;> simp [UserField.Same]
  refine meets_query_bind (fun _ _ _ => trivial) (fun e₈ _ _ he₈ => ?_) fun _ _ _ => trivial
  refine meets_query_bind (fun _ _ _ => trivial) (fun e₉ _ _ he₉ => ?_) fun _ _ _ => trivial
  refine ⟨u, ?_, rfl, he₉.heard⟩
  rw [lastUserRead_stay (by rw [he₉.stmt]; rfl), lastUserRead_stay (by rw [he₈.stmt]; rfl)]
  exact hread₇

theorem resetPasswordRoute_follows {token newPassword : Str} :
    Follows ⟨cfg, .resetPassword token newPassword⟩
      (Ends fun h' _ => ∃ u, lastUserRead h' = some u ∧ RevokedAll h' u.key) []
      (resetPasswordRoute cfg token newPassword) := by
  refine resetPassword_follows.bind ?_ fun _ _ _ => trivial
  rintro t₁ key ⟨u, hread, rfl, hsessions⟩
  refine Prog.Meets.mapError revokeAllTokensForUser_follows ?_ fun _ _ _ => trivial
  rintro t₂ a ⟨haccess, hrefresh, hread₂⟩
  exact ⟨u, hread₂.trans hread, hsessions.mono t₂, haccess, hrefresh⟩

/-! ## AI actors -/

theorem registerAiActor_follows {publicKey label : Str} :
    Follows c (Ends fun _ _ => True) [] (registerAiActor publicKey label) := by
  refine meets_ofExcept_bind (fun _ _ => ?_) fun _ _ => trivial
  have hcreate : Follows c (Ends fun _ _ => True) [] createAiActor := by
    refine meets_newUuid_bind (fun _ _ _ => trivial) fun e₁ subject _ he₁ hv₁ => ?_
    refine meets_getNow_bind (fun _ _ _ => trivial) fun e₂ now _ he₂ => ?_
    refine meets_newUuid_bind (fun _ _ _ => trivial) fun e₃ key _ he₃ hv₃ => ?_
    refine meets_query_bind (fun _ _ _ => ⟨rfl, ?_, ?_⟩) (fun _ _ _ _ => trivial)
      fun _ _ _ => trivial
    · rw [uuidsOf_snoc hv₃]
      simp
    · rw [uuidsOf_snoc hv₃, uuidsOf_append, uuidsOf_snoc hv₁]
      simp
  refine Prog.Meets.bind hcreate (fun t actor _ => ?_) fun _ _ _ => trivial
  exact free_bind (addCredentialFor_within (L := [.writeAiCredential]) (by simp)) (by decide)
    fun _ _ _ => trivial

theorem issueChallenge_follows {actorKey : Str} :
    Follows c (Ends fun _ _ => True) [] (issueChallenge cfg actorKey) := by
  refine reads_bind (.mapError requireAiActor_within) fun t₁ actor heff₁ => ?_
  refine meets_ensure_bind (fun _ => ?_) fun _ => trivial
  refine meets_newSecureToken_bind (fun _ _ _ => trivial) fun e₂ nonce _ he₂ hv₂ => ?_
  refine meets_getNow_bind (fun _ _ _ => trivial) fun e₃ now _ he₃ => ?_
  refine meets_newUuid_bind (fun _ _ _ => trivial) fun e₄ key _ he₄ hv₄ => ?_
  refine meets_query_bind (fun _ _ _ => ⟨?_, ?_⟩) (fun _ _ _ _ => trivial) fun _ _ _ => trivial
  · rw [tokensOf_append, tokensOf_append, tokensOf_snoc hv₂]
    simp
  · rw [effectsOf_snoc (by rw [he₄]; rfl), effectsOf_snoc (by rw [he₃.1]; rfl),
      effectsOf_snoc (by rw [he₂]; rfl), heff₁]
    simp

theorem authenticateAiActor_follows {proof : AiActorProof} :
    Follows ⟨cfg, .authenticateAiActor proof⟩ (Ends fun _ _ => True) []
      (authenticateAiActor cfg proof) := by
  refine meets_ensure_bind (fun _ => ?_) fun _ => trivial
  refine meets_ofExcept_bind (fun _ _ => ?_) fun _ _ => trivial
  refine meets_getNow_bind (fun _ _ _ => trivial) fun e₁ now _ he₁ => ?_
  refine meets_query_bind (fun _ _ _ => trivial) (fun e₂ consumed _ he₂ => ?_) fun _ _ _ => trivial
  refine meets_ensure_bind (fun hone => ?_) fun _ => trivial
  obtain rfl : consumed = 1 := hone
  have hconsumed := he₂.heard (h := [] ++ [e₁])
  have heff₂ : .createSession ∉ effectsOf ([] ++ [e₁] ++ [e₂]) := by
    rw [effectsOf_append, effectsOf_singleton, he₂.effect, effectsOf_snoc (by rw [he₁.1]; rfl)]
    simp [DbStmt.effect]
  generalize [] ++ [e₁] ++ [e₂] = h₂ at hconsumed heff₂
  refine reads_bind (.mapError requireAiActor_within) fun t₃ actor heff₃ => ?_
  refine meets_ensure_bind (fun _ => ?_) fun _ => trivial
  refine reads_bind (within_read rfl) fun t₄ credentials heff₄ => ?_
  refine meets_orThrow_bind (fun credential _ => ?_) fun _ => trivial
  refine reads_bind within_getNow fun t₅ touchedAt heff₅ => ?_
  refine free_bind (L := [.writeAiCredential]) (.swallow (within_write rfl (by simp)))
    (by decide) fun t₆ _ heff₆ => ?_
  refine meets_getNow_bind (fun _ _ _ => trivial) fun e₇ issuedAt _ he₇ => ?_
  refine meets_newUuid_bind (fun _ _ _ => trivial) fun e₈ sessionKey _ he₈ hv₈ => ?_
  refine meets_query_bind (fun _ _ _ => ⟨?_, ⟨_, rfl, rfl, rfl⟩, .inl ⟨proof, rfl, now, ?_⟩, ?_⟩)
    (fun _ _ _ _ => trivial) fun _ _ _ => trivial
  · rw [uuidsOf_snoc hv₈]
    simp
  · simpa only [List.append_assoc] using hconsumed.mono (t₃ ++ (t₄ ++ (t₅ ++ (t₆ ++ ([e₇] ++ [e₈])))))
  · rw [effectsOf_snoc (by rw [he₈]; rfl), effectsOf_snoc (by rw [he₇.1]; rfl)]
    intro hx
    rcases heff₆ _ hx with hx | hx
    · rw [heff₅, heff₄, heff₃] at hx
      exact heff₂ hx
    · simp at hx

end

end SoulAuth
