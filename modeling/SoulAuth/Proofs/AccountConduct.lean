import SoulAuth.Proofs.SeenUsers

/-! # The conduct of requests on accounts

What a request has done before it writes the status of an account or of an
identity root, a password, or a reset token, and what it has done when it
returns. The rows of one account are written by separate statements, so
the rule says which of them a request has left behind.
-/

namespace SoulAuth

open Framework Framework.System

variable [Platform]

/-! ## The rule -/

/-- The status of an account is set: by the request to set it. -/
structure SetsAccount (c : Call) (h : List (Entry machine)) (key : Str)
    (status : AccountStatus) : Prop where
  endpoint : ∃ userId, c.endpoint = .updateAccountStatus userId status ∧
    userRecordKey userId = some key
  once : .setAccountStatus ∉ effectsOf h

/-- The status of an identity root is set by such a request: of the root of
    the account, after the account. -/
structure SetsRoot (status : AccountStatus) (key : Str) (h : List (Entry machine))
    (rootKey : Str) (rootStatus : ActorStatus) : Prop where
  account : ∃ t, Heard h (.identity (.user (.setAccountStatus key status t))) ()
  user : ∃ u actorKey a, Heard h (.identity (.user (.findById key))) (some u) ∧
    u.subjectId = some actorKey ∧
    Heard h (.identity (.actor (.find (idArgumentKey (actorAddress actorKey))))) (some a) ∧
    rootKey = a.key
  status : rootStatus = status.actorStatus

/-- A password is stored: for the user whose row the request has read. A
    reset has found the account active. -/
def StoresPassword (c : Call) (h : List (Entry machine)) (actorKey : Str) : Prop :=
  (∃ token pw email u, c.endpoint = .resetPassword token pw ∧
    Heard h (.identity (.user (.findByEmail email))) (some u) ∧ u.subjectId = some actorKey ∧
    u.accountStatus = .active) ∨
  ∃ userId pw, c.endpoint = .initializePassword userId pw

/-- A reset token is inserted: for an email address whose tokens the request
    has invalidated. -/
structure InsertsToken (c : Call) (h : List (Entry machine)) (row : PasswordResetToken) :
    Prop where
  endpoint : ∃ email, c.endpoint = .requestPasswordReset email
  invalidated : Heard h (.resetToken (.invalidate row.email)) ()
  unused : row.used = false

/-- What holds of a statement on accounts. -/
def AccountConducted (c : Call) (h : List (Entry machine)) (e : Entry machine) : Prop :=
  match e.stmt with
  | .db (.identity (.user (.setAccountStatus key status _))) => SetsAccount c h key status
  | .db (.identity (.actor (.setStatus rootKey rootStatus _))) =>
    ∀ userId status, c.endpoint = .updateAccountStatus userId status →
      ∃ key, userRecordKey userId = some key ∧ SetsRoot status key h rootKey rootStatus
  | .db (.identity (.credential (.rotate actorKey _ _))) => StoresPassword c h actorKey
  | .db (.identity (.credential (.create x))) => StoresPassword c h x.actorIdentityId
  | .db (.resetToken (.create row)) => InsertsToken c h row
  | _ => True

/-- The status of the account has been followed to the identity root, as far
    as the root was found. -/
def Followed (h : List (Entry machine)) (key : Str) (status : AccountStatus) : Prop :=
  ∃ u, Heard h (.identity (.user (.findById key))) (some u) ∧
    ∀ actorKey, u.subjectId = some actorKey →
      ∃ e ∈ h, e.stmt = .db (.identity (.actor (.find (idArgumentKey (actorAddress actorKey))))) ∧
        ∀ a, Answered (.identity (.actor (.find (idArgumentKey (actorAddress actorKey)))))
          (some a) e →
          ∃ e' ∈ h, ∃ t, e'.stmt =
            .db (.identity (.actor (.setStatus a.key status.actorStatus t)))

/-- The account was set to be deleted, and after that its password was
    revoked. -/
def RevokedPassword (h : List (Entry machine)) (key : Str) : Prop :=
  ∃ u t h₁ e h₂, h = h₁ ++ e :: h₂ ∧
    Heard h₁ (.identity (.user (.findById key))) (some u) ∧
    Answered (.identity (.user (.setAccountStatus key .deleted t))) () e ∧
    ∀ actorKey, u.subjectId = some actorKey →
      ∃ t', Heard h₂ (.identity (.credential (.revoke actorKey t'))) ()

/-- The other tokens of the email address have been invalidated. -/
def PurgedTokens (h : List (Entry machine)) (token : Str) : Prop :=
  ∃ row, Heard h (.resetToken (.find (hashBearer token))) (some row) ∧
    Heard h (.resetToken (.invalidate row.email)) ()

/-- What holds of the outcome of a request on accounts. -/
structure AccountConcluded (c : Call) (h : List (Entry machine)) (r : Except Failure Reply) :
    Prop where
  followed : ∀ userId status key t, c.endpoint = .updateAccountStatus userId status →
    userRecordKey userId = some key →
    Heard h (.identity (.user (.setAccountStatus key status t))) () → Followed h key status
  revoked : ∀ userId reply, c.endpoint = .updateAccountStatus userId .deleted → r = .ok reply →
    ∃ key, userRecordKey userId = some key ∧ RevokedPassword h key
  purged : ∀ token pw reply, c.endpoint = .resetPassword token pw → r = .ok reply →
    PurgedTokens h token

def accountRule : System.Rule server where
  assumes := fun _ => True
  entry := AccountConducted
  outcome := AccountConcluded

/-! ## Following the programs -/

section

variable {c : Call} {h : List (Entry machine)} {ε α β : Type} {key actorKey userId : Str}
  {status : AccountStatus} {u : User}

/-- The effects of the statements of the rule. -/
def accountEffects : List Effect :=
  [.setAccountStatus, .setActorStatus, .writeCredential, .createResetToken]

/-- A statement that the rule says nothing of. -/
theorem accountConducted_of_within {e : Entry machine} {L : List Effect} (he : e.stmt.Within L)
    (hL : ∀ x ∈ L, x ∉ accountEffects) : AccountConducted c h e := by
  obtain ⟨ctx, s, w⟩ := e
  have hout : ∀ x, x ∈ accountEffects → s.effect ≠ some x := by
    intro x hx heff
    exact hL x (he x heff) hx
  unfold AccountConducted
  split
  all_goals first
    | trivial
    | (next hs => cases hs; exact absurd rfl (hout _ (by decide)))

/-- A program under the rule of one request. -/
abbrev AccountFollows {ε α : Type} (c : Call) (Q : List (Entry machine) → Except ε α → Prop)
    (h : List (Entry machine)) (p : Req ε α) : Prop :=
  p.Meets (fun _ => True) (AccountConducted c) Q h

/-- A part of a program without the statements of the rule. -/
theorem accountSkip_bind {p : Req ε α} {f : α → Req ε β}
    {Q : List (Entry machine) → Except ε β → Prop} {L : List Effect} (hp : Within L p)
    (hL : ∀ x ∈ L, x ∉ accountEffects)
    (hok : ∀ t a, (∀ e ∈ t, e.stmt.Within L) → AccountFollows c Q (h ++ t) (f a))
    (herr : ∀ t x, (∀ e ∈ t, e.stmt.Within L) → Q (h ++ t) (.error x)) :
    AccountFollows c Q h (p >>= f) :=
  meets_skip_bind hp (fun _ _ _ he => accountConducted_of_within he hL) hok herr

theorem accountSkip {p : Req ε α} {Q : List (Entry machine) → Except ε α → Prop}
    {L : List Effect} (hp : Within L p) (hL : ∀ x ∈ L, x ∉ accountEffects)
    (hQ : ∀ t x, (∀ e ∈ t, e.stmt.Within L) → Q (h ++ t) x) : AccountFollows c Q h p :=
  hp.meets (fun _ _ _ he => accountConducted_of_within he hL) hQ

/-- A statement with an effect was not answered in a part without it. -/
theorem heard_of_within {t : List (Entry machine)} {L : List Effect} {s : DbStmt} {a : s.Reply}
    {x : Effect} (ht : ∀ e ∈ t, e.stmt.Within L) (hs : s.effect = some x) (hx : x ∉ L)
    (hh : Heard (h ++ t) s a) : Heard h s a := by
  obtain ⟨e, he, ha⟩ := hh
  rcases List.mem_append.mp he with he | he
  · exact ⟨e, he, ha⟩
  · exact absurd (ht e he x (ha.effect.trans hs)) hx

theorem Followed.mono (hf : Followed h key status) (t : List (Entry machine)) :
    Followed (h ++ t) key status := by
  obtain ⟨u, hu, hroot⟩ := hf
  refine ⟨u, hu.mono t, fun actorKey hlinked => ?_⟩
  obtain ⟨e, he, hs, hset⟩ := hroot actorKey hlinked
  refine ⟨e, List.mem_append_left t he, hs, fun a ha => ?_⟩
  obtain ⟨e', he', t', hs'⟩ := hset a ha
  exact ⟨e', List.mem_append_left t he', t', hs'⟩

theorem RevokedPassword.mono (hr : RevokedPassword h key) (t : List (Entry machine)) :
    RevokedPassword (h ++ t) key := by
  obtain ⟨u, t', h₁, e, h₂, rfl, hu, ha, hrevoke⟩ := hr
  refine ⟨u, t', h₁, e, h₂ ++ t, by simp, hu, ha, fun actorKey hlinked => ?_⟩
  obtain ⟨t'', hheard⟩ := hrevoke actorKey hlinked
  exact ⟨t'', hheard.mono t⟩

/-- The lookup of an identity root is one entry, whatever its outcome. -/
def LooksUp {ε : Type} (h : List (Entry machine)) (actorKey : Str) (h' : List (Entry machine))
    (found : Except ε (Option ActorIdentity)) : Prop :=
  ∃ e, h' = h ++ [e] ∧
    e.stmt = .db (.identity (.actor (.find (idArgumentKey (actorAddress actorKey))))) ∧
    ∀ a, Answered (.identity (.actor (.find (idArgumentKey (actorAddress actorKey)))))
      (some a) e ↔ found = .ok (some a)

theorem findActorById_looks {ε : Type} [OfDb ε] :
    AccountFollows (ε := ε) c (LooksUp h actorKey) h (findActorById actorKey) := by
  unfold findActorById
  rw [← Prog.bind_pure' (query _)]
  apply meets_query_failing_bind
  · intro ctx w _
    trivial
  · intro e found _ he
    refine ⟨e, rfl, he.stmt, fun a => ⟨fun ha => ?_, fun ha => ?_⟩⟩
    · cases he.reply.symm.trans ha.reply
      rfl
    · cases ha
      exact he
  · intro e x hs hnone
    exact ⟨e, rfl, hs, fun a => ⟨fun ha => absurd ha (hnone _), nofun⟩⟩

/-- What the last part of a change of status adds to a history. -/
def Syncs (h : List (Entry machine)) (key actorKey : Str) (status : AccountStatus)
    (h' : List (Entry machine)) (r : Except AuthError Unit) : Prop :=
  ∃ t, h' = h ++ t ∧ Followed h' key status ∧ ∀ x, r = .ok x → status = .deleted →
    ∃ t', Heard t (.identity (.credential (.revoke actorKey t'))) ()

/-- The status of the root follows the one of the account, which has been
    set. -/
theorem syncActorStatus_accounts {cfg : Config} {t : Timestamp}
    (hkey : userRecordKey userId = some key)
    (hset : Heard h (.identity (.user (.setAccountStatus key status t))) ())
    (hu : Heard h (.identity (.user (.findById key))) (some u))
    (hlinked : u.subjectId = some actorKey) :
    AccountFollows ⟨cfg, .updateAccountStatus userId status⟩ (Syncs h key actorKey status) h
      (syncActorStatus actorKey status) := by
  -- the last part: the password of a deleted account is revoked
  have hrevoke : ∀ t, Followed (h ++ t) key status →
      AccountFollows ⟨cfg, .updateAccountStatus userId status⟩ (Syncs h key actorKey status)
        (h ++ t) (if status = .deleted then revokePassword actorKey else return () : Req AuthError Unit) := by
    intro t hf
    by_cases hdeleted : status = .deleted
    · rw [if_pos hdeleted]
      apply meets_getNow_bind (fun _ _ _ => trivial)
      intro e₁ now _ _
      have hf' := hf.mono [e₁]
      apply meets_query
      · intro ctx w _
        trivial
      · intro e₂ _ _ he₂
        refine ⟨t ++ [e₁] ++ [e₂], by simp, hf'.mono [e₂], fun _ _ _ => ⟨now, ?_⟩⟩
        exact he₂.heard
      · intro e₂ x _
        exact ⟨t ++ [e₁] ++ [e₂], by simp, hf'.mono [e₂], nofun⟩
    · rw [if_neg hdeleted]
      exact ⟨t, rfl, hf, fun _ _ h => absurd h hdeleted⟩
  have hfind : AccountFollows ⟨cfg, .updateAccountStatus userId status⟩
      (fun h' (x : Except AuthError _) => ∃ found, x = .ok found ∧ LooksUp h actorKey h' found) h
      (findActorById actorKey : Req AuthError (Option ActorIdentity)).attempt :=
    findActorById_looks.attempt fun _ found hlook => ⟨found, rfl, hlook⟩
  -- the root is followed, unless it was not found
  have hmissing : ∀ (e : Entry machine) (t : List (Entry machine)),
      e.stmt = .db (.identity (.actor (.find (idArgumentKey (actorAddress actorKey))))) →
      (∀ a, Answered (.identity (.actor (.find (idArgumentKey (actorAddress actorKey)))))
        (some a) e → ∃ e' ∈ t, ∃ t', e'.stmt =
          .db (.identity (.actor (.setStatus a.key status.actorStatus t')))) →
      Followed (h ++ [e] ++ t) key status := by
    intro e t hs hroot
    refine ⟨u, (hu.mono [e]).mono t, fun actorKey' hlinked' => ?_⟩
    obtain rfl : actorKey = actorKey' := Option.some.inj (hlinked.symm.trans hlinked')
    refine ⟨e, by simp, hs, fun a ha => ?_⟩
    obtain ⟨e', he', t', hs'⟩ := hroot a ha
    exact ⟨e', List.mem_append_right _ he', t', hs'⟩
  apply hfind.bind
  · intro t₁ found hlook
    obtain ⟨found', hsame, e, heq, hs, hfound⟩ := hlook
    obtain rfl : found = found' := Except.ok.inj hsame
    obtain rfl : t₁ = [e] := List.append_cancel_left heq
    have hnone : (∀ a, found ≠ .ok (some a)) → Followed (h ++ [e]) key status := by
      intro hne
      simpa using hmissing e [] hs fun a ha => absurd ((hfound a).mp ha) (hne a)
    cases found with
    | error x => exact hrevoke [e] (hnone nofun)
    | ok o =>
      cases o with
      | none => exact hrevoke [e] (hnone nofun)
      | some a =>
        have ha : Answered (.identity (.actor (.find (idArgumentKey (actorAddress actorKey)))))
            (some a) e := (hfound a).mpr rfl
        show AccountFollows _ _ _ (setStatus a status.actorStatus >>= fun _ =>
          if status = .deleted then revokePassword actorKey else return ())
        unfold setStatus
        rw [Prog.bind_assoc']
        apply meets_getNow_bind (fun _ _ _ => trivial)
        intro e₁ now _ _
        have hfollowed : ∀ e₂ : Entry machine,
            e₂.stmt = .db (.identity (.actor (.setStatus a.key status.actorStatus now))) →
            Followed (h ++ [e] ++ [e₁] ++ [e₂]) key status := by
          intro e₂ hs₂
          have hset₂ := hmissing e ([e₁] ++ [e₂]) hs fun a' ha' => by
            cases Except.ok.inj ((hfound a').mp ha')
            exact ⟨e₂, by simp, now, hs₂⟩
          simpa using hset₂
        apply meets_query_bind
        · intro ctx w _ userId' status' hep
          cases hep
          refine ⟨key, hkey, ⟨t, (hset.mono [e]).mono [e₁]⟩, ?_, rfl⟩
          exact ⟨u, actorKey, a, (hu.mono [e]).mono [e₁], hlinked, ha.heard.mono [e₁], rfl⟩
        · intro e₂ _ _ he₂
          have hrest := hrevoke ([e] ++ [e₁] ++ [e₂])
            (by simpa using hfollowed e₂ he₂.stmt)
          simpa using hrest
        · intro e₂ x hs₂
          exact ⟨[e] ++ [e₁] ++ [e₂], by simp, hfollowed e₂ hs₂, nofun⟩
  · intro t x hx
    obtain ⟨found, hsame, -⟩ := hx
    cases hsame

/-- The effects of the statements that end the sessions and tokens of an
    account. -/
def endingEffects : List Effect := [.deleteSession, .deleteAccess, .deleteRefresh]

theorem updateUserAccountStatus_accounts {cfg : Config} :
    AccountFollows ⟨cfg, .updateAccountStatus userId status⟩ (fun h' r =>
      (∀ key t, userRecordKey userId = some key →
        Heard h' (.identity (.user (.setAccountStatus key status t))) () →
        Followed h' key status) ∧
      (∀ x, r = .ok x → ∃ key, userRecordKey userId = some key ∧
        (status = .deleted → RevokedPassword h' key))) []
      (updateUserAccountStatus userId status) := by
  have hnone : ∀ {h : List (Entry machine)}, .setAccountStatus ∉ effectsOf h → ∀ key t,
      ¬ Heard h (.identity (.user (.setAccountStatus key status t))) () := by
    intro h hnot key t hh
    obtain ⟨e, he, ha⟩ := hh
    exact hnot (mem_effectsOf.mpr ⟨e, he, ha.effect⟩)
  have hupdate : AccountFollows ⟨cfg, .updateAccountStatus userId status⟩ (fun h' r =>
      (∀ key t, userRecordKey userId = some key →
        Heard h' (.identity (.user (.setAccountStatus key status t))) () →
        Followed h' key status) ∧
      (∀ x, r = .ok x → ∃ key, userRecordKey userId = some key ∧
        (status = .deleted → RevokedPassword h' key))) []
      (updateAccountStatus userId status) := by
    apply meets_orThrow_bind
    · intro key hkey
      apply meets_query_bind
      · intro ctx w _
        trivial
      · intro e₁ found _ he₁
        have h₁ : .setAccountStatus ∉ effectsOf ([] ++ [e₁]) := by
          rw [effectsOf_snoc he₁.effect]
          exact List.not_mem_nil
        apply meets_orThrow_bind
        · intro u hu
          subst hu
          apply meets_getNow_bind (fun _ _ _ => trivial)
          intro e₂ now _ he₂
          have h₂ : .setAccountStatus ∉ effectsOf ([] ++ [e₁] ++ [e₂]) := by
            rw [effectsOf_snoc (by rw [he₂.1]; rfl)]
            exact h₁
          apply meets_query_failing_bind
          · intro ctx w _
            exact ⟨⟨userId, rfl, hkey⟩, h₂⟩
          · intro e₃ _ _ he₃
            have hread : Heard ([] ++ [e₁] ++ [e₂]) (.identity (.user (.findById key))) (some u) :=
              he₁.heard.mono [e₂]
            split
            · next actorKey hlinked =>
              apply (syncActorStatus_accounts hkey he₃.heard (hread.mono [e₃]) hlinked).weaken
                (fun _ hw => hw) fun _ _ _ he => he
              intro t r hsync
              obtain ⟨t', hsame, hfollowed, hrevoke⟩ := hsync
              obtain rfl : t = t' := List.append_cancel_left hsame
              refine ⟨fun key' _ hkey' _ => ?_, fun x hx => ⟨key, hkey, fun hdeleted => ?_⟩⟩
              · cases hkey.symm.trans hkey'
                exact hfollowed
              · subst hdeleted
                refine ⟨u, now, [] ++ [e₁] ++ [e₂], e₃, t, by simp, hread, he₃, ?_⟩
                intro actorKey' hlinked'
                cases hlinked.symm.trans hlinked'
                exact hrevoke x hx rfl
            · next hlinked =>
              refine ⟨fun key' _ hkey' _ => ?_, fun x _ => ⟨key, hkey, fun hdeleted => ?_⟩⟩
              · cases hkey.symm.trans hkey'
                refine ⟨u, hread.mono [e₃], fun actorKey hl => ?_⟩
                cases hlinked.symm.trans hl
              · subst hdeleted
                refine ⟨u, now, [] ++ [e₁] ++ [e₂], e₃, [], rfl, hread, he₃, ?_⟩
                intro actorKey hl
                cases hlinked.symm.trans hl
          · intro e₃ x hs hfailed
            refine ⟨fun key' t hkey' hh => ?_, nofun⟩
            cases hkey.symm.trans hkey'
            obtain ⟨e, he, ha⟩ := hh
            rcases List.mem_append.mp he with he | he
            · exact absurd ⟨e, he, ha⟩ (hnone h₂ key t)
            · obtain rfl := List.mem_singleton.mp he
              cases hs.symm.trans ha.stmt
              exact absurd ha (hfailed ())
        · intro _
          exact ⟨fun key' t _ hh => absurd hh (hnone h₁ key' t), nofun⟩
      · intro e₁ x hs
        have h₁ : .setAccountStatus ∉ effectsOf ([] ++ [e₁]) := by
          rw [effectsOf_snoc (by rw [hs]; rfl)]
          exact List.not_mem_nil
        exact ⟨fun key' t _ hh => absurd hh (hnone h₁ key' t), nofun⟩
    · intro _
      exact ⟨fun key' t _ hh => absurd hh (hnone List.not_mem_nil key' t), nofun⟩
  apply hupdate.bind
  · intro t _ hdone
    obtain ⟨hfollowed, hrevoked⟩ := hdone
    -- what follows ends sessions and tokens, and writes no status
    have hrest : Within endingEffects (if status = .active then return () else do
        (deleteSessionsByUserId (normalizeUserId userId) : Req AuthError Unit).swallow
        (revokeAllTokensForUser (normalizeUserId userId)).swallow : Req AuthError Unit) := by
      split
      · exact within_pure
      · apply Within.bind (.swallow (deleteSessionsByUserId_within (by simp [endingEffects])))
        intro _
        exact .swallow (revokeAllTokensForUser_within (by simp [endingEffects])
          (by simp [endingEffects]))
    apply accountSkip hrest (by decide)
    intro t' r ht'
    constructor
    · intro key t'' hkey hh
      have hold := heard_of_within ht' rfl (by decide) hh
      exact (hfollowed key t'' hkey hold).mono t'
    · intro x _
      obtain ⟨key, hkey, hdeleted⟩ := hrevoked () rfl
      exact ⟨key, hkey, fun hd => (hdeleted hd).mono t'⟩
  · intro t x hdone
    exact ⟨hdone.1, nofun⟩

/-! ## Passwords and reset tokens -/

/-- The actor whose password a statement stores. -/
def Stmt.storesFor : Stmt → Option Str
  | .db (.identity (.credential (.rotate key _ _))) => some key
  | .db (.identity (.credential (.create x))) => some x.actorIdentityId
  | _ => none

theorem StoresPassword.mono (hs : StoresPassword c h actorKey) (t : List (Entry machine)) :
    StoresPassword c (h ++ t) actorKey := by
  rcases hs with ⟨token, pw, email, u, hep, hread, hlinked, hactive⟩ | hinit
  · exact .inl ⟨token, pw, email, u, hep, hread.mono t, hlinked, hactive⟩
  · exact .inr hinit

theorem accountConducted_of_stores {e : Entry machine} (he : e.stmt.Within [.writeCredential])
    (hs : ∀ key, e.stmt.storesFor = some key → StoresPassword c h key) :
    AccountConducted c h e := by
  obtain ⟨ctx, s, w⟩ := e
  have hout : ∀ x, s.effect = some x → x = .writeCredential := by
    intro x hx
    simpa using he x hx
  unfold AccountConducted
  split
  all_goals first
    | trivial
    | (next hs' => cases hs'; exact hs _ rfl)
    | (next hs' => cases hs'; cases hout _ rfl)

/-- A statement that stores no password but the one of the actor. -/
def Stmt.SetsPasswordOf (actorKey : Str) (s : Stmt) : Prop :=
  s.Within [.writeCredential] ∧ ∀ key, s.storesFor = some key → key = actorKey

omit [Platform] in
theorem setsPasswordOf_quiet {s : Stmt} (heff : s.effect = none) (hnone : s.storesFor = none) :
    s.SetsPasswordOf actorKey := by
  constructor
  · intro x hx
    cases heff.symm.trans hx
  · intro key hkey
    cases hnone.symm.trans hkey

omit [Platform] in
theorem setsPasswordOf_write {s : Stmt} (heff : s.effect = some .writeCredential)
    (hkey : s.storesFor = some actorKey) : s.SetsPasswordOf actorKey := by
  constructor
  · intro x hx
    cases heff.symm.trans hx
    exact List.mem_singleton_self _
  · intro key hkey'
    exact Option.some.inj (hkey'.symm.trans hkey)

theorem setPassword_stores {hash : Str} :
    Prog.Only (M := machine) (Stmt.SetsPasswordOf actorKey) (setPassword actorKey hash) := by
  have hrotate : ∀ now, Prog.Only (M := machine) (Stmt.SetsPasswordOf actorKey)
      (rotatePassword actorKey hash now : Req AuthError Bool) := by
    intro now
    refine ⟨setsPasswordOf_write rfl rfl, fun r => ?_⟩
    cases r <;> trivial
  have hnow : Prog.Only (M := machine) (Stmt.SetsPasswordOf actorKey)
      (getNow : Req AuthError Timestamp) :=
    ⟨setsPasswordOf_quiet rfl rfl, fun _ => trivial⟩
  apply Prog.Only.bind hnow
  intro now
  apply Prog.Only.bind (hrotate now)
  intro rotated
  split
  · trivial
  · apply Prog.Only.bind (p := newUuid) ⟨setsPasswordOf_quiet rfl rfl, fun _ => trivial⟩
    intro key
    apply Prog.Only.bind hnow
    intro createdAt
    apply Prog.Only.bind
    · apply Prog.Only.attempt
      refine ⟨setsPasswordOf_write rfl rfl, fun r => ?_⟩
      cases r <;> trivial
    · intro created
      split
      · trivial
      · apply Prog.Only.bind (hrotate now)
        intro rotated
        split <;> trivial

/-- The password is stored, and then the rest. -/
theorem setPassword_accounts {hash : Str} {f : Unit → Req AuthError β}
    {Q : List (Entry machine) → Except AuthError β → Prop} (hs : StoresPassword c h actorKey)
    (hok : ∀ t, AccountFollows c Q (h ++ t) (f ()))
    (herr : ∀ t x, Q (h ++ t) (.error x)) :
    AccountFollows c Q h (setPassword actorKey hash >>= f) := by
  apply meets_skip_bind setPassword_stores
  · intro t e _ he
    apply accountConducted_of_stores he.1
    intro key hkey
    rw [he.2 key hkey]
    exact hs.mono t
  · intro t _ _
    exact hok t
  · intro t x _
    exact herr t x

theorem initializePassword_accounts {cfg : Config} {password : Str} :
    AccountFollows ⟨cfg, .initializePassword userId password⟩ (fun _ _ => True) []
      (initializePassword cfg userId password) := by
  apply meets_ofExcept_bind _ (fun _ _ => trivial)
  intro _ _
  apply accountSkip_bind findUserById_within (L := []) (by decide) _ (fun _ _ _ => trivial)
  intro t₁ found _
  apply meets_orThrow_bind _ (fun _ => trivial)
  intro u _
  apply meets_orThrow_bind _ (fun _ => trivial)
  intro actorKey _
  apply accountSkip_bind activePasswordHash_within (L := []) (by decide) _ (fun _ _ _ => trivial)
  intro t₂ existing _
  apply meets_ensure_bind _ (fun _ => trivial)
  intro _
  apply accountSkip_bind within_hashPassword (L := []) (by decide) _ (fun _ _ _ => trivial)
  intro t₃ hash _
  apply setPassword_accounts (.inr ⟨userId, password, rfl⟩) _ (fun _ _ => trivial)
  intro t₄
  have hrest : Within [.updateUser] (getNow >>= fun now =>
      updateUser { u with updatedAt := now } : Req AuthError User) :=
    .bind within_getNow fun _ => updateUser_within (by simp)
  exact accountSkip hrest (by decide) fun _ _ _ => trivial

theorem resetPassword_accounts {cfg : Config} {token newPassword : Str} :
    AccountFollows ⟨cfg, .resetPassword token newPassword⟩
      (fun h' r => ∀ x, r = .ok x → PurgedTokens h' token) []
      (resetPassword cfg token newPassword) := by
  apply meets_ofExcept_bind _ (fun _ _ => nofun)
  intro _ _
  apply meets_query_bind (fun _ _ _ => trivial) _ (fun _ _ _ => nofun)
  intro e₁ claimed _ _
  apply meets_ensure_bind _ (fun _ => nofun)
  intro _
  apply meets_query_bind (fun _ _ _ => trivial) _ (fun _ _ _ => nofun)
  intro e₂ row _ he₂
  apply meets_orThrow_bind _ (fun _ => nofun)
  intro resetToken hrow
  subst hrow
  have hfound : Heard ([] ++ [e₁] ++ [e₂]) (.resetToken (.find (hashBearer token)))
      (some resetToken) := he₂.heard
  apply meets_query_bind (fun _ _ _ => trivial) _ (fun _ _ _ => nofun)
  intro e₃ found _ he₃
  apply meets_orThrow_bind _ (fun _ => nofun)
  intro u hu
  subst hu
  apply meets_ofExcept_bind _ (fun _ _ => nofun)
  intro _ husable
  apply meets_orThrow_bind _ (fun _ => nofun)
  intro actorKey hlinked
  have hstores : StoresPassword ⟨cfg, .resetPassword token newPassword⟩
      ([] ++ [e₁] ++ [e₂] ++ [e₃]) actorKey :=
    .inl ⟨token, newPassword, resetToken.email, u, rfl, he₃.heard, hlinked,
      User.ensureUsable_ok.mp husable⟩
  apply accountSkip_bind within_hashPassword (L := []) (by decide) _ (fun _ _ _ => nofun)
  intro t₄ hash _
  apply setPassword_accounts (hstores.mono t₄) _ (fun _ _ => nofun)
  intro t₅
  apply accountSkip_bind within_getNow (L := []) (by decide) _ (fun _ _ _ => nofun)
  intro t₆ now _
  apply accountSkip_bind (updateUser_within (List.mem_singleton_self _)) (by decide) _
    (fun _ _ _ => nofun)
  intro t₇ _ _
  apply meets_query_bind (fun _ _ _ => trivial) _ (fun _ _ _ => nofun)
  intro e₈ _ _ he₈
  apply meets_query_bind (fun _ _ _ => trivial) _ (fun _ _ _ => nofun)
  intro e₉ _ _ _ x _
  refine ⟨resetToken, ?_, he₈.heard.mono [e₉]⟩
  have hkept := ((((hfound.mono [e₃]).mono t₄).mono t₅).mono t₆).mono t₇
  exact (hkept.mono [e₈]).mono [e₉]

theorem requestPasswordReset_accounts {cfg : Config} {email : Str} :
    AccountFollows ⟨cfg, .requestPasswordReset email⟩ (fun _ _ => True) []
      (requestPasswordReset email) := by
  unfold requestPasswordReset
  split
  · trivial
  · apply accountSkip_bind findUserByEmail_within (L := []) (by decide) _ (fun _ _ _ => trivial)
    intro t₁ found _
    split
    · trivial
    · split
      · trivial
      · apply meets_query_bind (fun _ _ _ => trivial) _ (fun _ _ _ => trivial)
        intro e₂ _ _ he₂
        apply meets_newUuid_bind (fun _ _ _ => trivial)
        intro e₃ token _ _ _
        apply meets_getNow_bind (fun _ _ _ => trivial)
        intro e₄ now _ _
        apply meets_newUuid_bind (fun _ _ _ => trivial)
        intro e₅ key _ _ _
        apply meets_query _ (fun _ _ _ _ => trivial) (fun _ _ _ => trivial)
        intro ctx w _
        exact ⟨⟨email, rfl⟩, ((he₂.heard.mono [e₃]).mono [e₄]).mono [e₅], rfl⟩

/-! ## Every request -/

theorem respond_accounts {f : α → Reply} {p : Req AuthError α}
    {Q : List (Entry machine) → Except Failure Reply → Prop}
    (hp : AccountFollows c (fun h' r => Q h' ((r.mapError .auth).map f)) [] p) :
    AccountFollows c Q [] (respond f p) := by
  apply Prog.meets_bind.mpr
  apply Prog.meets_mapError.mpr
  apply hp.weaken (fun _ hw => hw) fun _ _ _ he => he
  intro t r hr
  cases r with
  | ok a => exact hr
  | error x => exact hr

theorem accountConcluded_of_other {r : Except Failure Reply}
    (hstatus : ∀ userId status, c.endpoint ≠ .updateAccountStatus userId status)
    (hreset : ∀ token pw, c.endpoint ≠ .resetPassword token pw) : AccountConcluded c h r := by
  constructor
  · intro userId status key t hep
    exact absurd hep (hstatus userId status)
  · intro userId reply hep
    exact absurd hep (hstatus userId _)
  · intro token pw reply hep
    exact absurd hep (hreset token pw)

theorem accountConcluded_of_reset {cfg : Config} {token pw : Str} {r : Except Failure Reply}
    (hr : ∀ reply, r = .ok reply → PurgedTokens h token) :
    AccountConcluded ⟨cfg, .resetPassword token pw⟩ h r := by
  constructor
  · intro userId status key t hep
    cases hep
  · intro userId reply hep
    cases hep
  · intro token' pw' reply hep hreply
    cases hep
    exact hr reply hreply

/-- **Every request keeps to the rule of accounts.** -/
theorem accountRule_met : accountRule.Met := by
  intro c
  obtain ⟨cfg, endpoint⟩ := c
  show AccountFollows ⟨cfg, endpoint⟩ (AccountConcluded ⟨cfg, endpoint⟩) [] (endpoint.program cfg)
  have hquiet : (∀ userId status, endpoint ≠ .updateAccountStatus userId status) →
      (∀ token pw, endpoint ≠ .resetPassword token pw) →
      (∀ x ∈ endpoint.effects, x ∉ accountEffects) →
      AccountFollows ⟨cfg, endpoint⟩ (AccountConcluded ⟨cfg, endpoint⟩) []
        (endpoint.program cfg) := by
    intro hstatus hreset heffects
    apply accountSkip (Call.within ⟨cfg, endpoint⟩) heffects
    intro t r _
    exact accountConcluded_of_other hstatus hreset
  cases endpoint with
  | updateAccountStatus userId status =>
    apply respond_accounts
    apply updateUserAccountStatus_accounts.weaken (fun _ hw => hw) fun _ _ _ he => he
    intro t r hr
    obtain ⟨hfollowed, hrevoked⟩ := hr
    constructor
    · intro userId' status' key t' hep hkey hh
      cases hep
      exact hfollowed key t' hkey hh
    · intro userId' reply hep hreply
      cases hep
      cases r with
      | ok x =>
        obtain ⟨key, hkey, hdeleted⟩ := hrevoked x rfl
        exact ⟨key, hkey, hdeleted rfl⟩
      | error x => cases hreply
    · intro token pw reply hep
      cases hep
  | resetPassword token pw =>
    apply respond_accounts
    apply resetPassword_accounts.bind
    · intro t userKey hpurged
      apply accountSkip (.mapError (revokeAllTokensForUser_within
        (L := [.deleteAccess, .deleteRefresh]) (by simp) (by simp))) (by decide)
      intro t' r _
      apply accountConcluded_of_reset
      intro reply _
      obtain ⟨row, hfound, hinvalid⟩ := hpurged userKey rfl
      exact ⟨row, hfound.mono t', hinvalid.mono t'⟩
    · intro t x _
      apply accountConcluded_of_reset
      intro reply hreply
      cases hreply
  | initializePassword userId pw =>
    apply respond_accounts
    apply initializePassword_accounts.weaken (fun _ hw => hw) fun _ _ _ he => he
    intro t r _
    exact accountConcluded_of_other (by simp) (by simp)
  | requestPasswordReset email =>
    apply respond_accounts
    apply requestPasswordReset_accounts.weaken (fun _ hw => hw) fun _ _ _ he => he
    intro t r _
    exact accountConcluded_of_other (by simp) (by simp)
  | setAiActorStatus actorKey status =>
    -- the rule speaks of a root's status only where an account's is set
    have hconduct : ∀ (h : List (Entry machine)) (e : Entry machine),
        e.stmt.Within [.setActorStatus, .deleteSession] →
        AccountConducted ⟨cfg, .setAiActorStatus actorKey status⟩ h e := by
      intro h e he
      obtain ⟨ctx, s, w⟩ := e
      unfold AccountConducted
      split
      all_goals first
        | trivial
        | (intro _ _ hep; cases hep)
        | (next hs => cases hs; exact absurd (he _ rfl) (by decide))
    exact (Call.within ⟨cfg, .setAiActorStatus actorKey status⟩).meets
      (fun t e _ he => hconduct ([] ++ t) e he) fun t r _ =>
        accountConcluded_of_other (by simp) (by simp)
  | _ => exact hquiet (by simp) (by simp) (by simp [Endpoint.effects, accountEffects])

theorem accountRule_holds {w : World} {conf : (server).Conf} (hc : Reachable w conf) :
    accountRule.Inv conf :=
  hc.rule accountRule_met fun _ => trivial

theorem accountConducted_at {w : World} {conf : (server).Conf} (hc : Reachable w conf) {n i : Nat}
    {e : Entry machine} (hn : conf.trace[n]? = some (i, e)) : ∃ r, conf.reqOf i = some r ∧
      AccountConducted r (entriesOf (S := server) i (conf.trace.take n)) e :=
  (accountRule_holds hc).entries_at hn

end

end SoulAuth
