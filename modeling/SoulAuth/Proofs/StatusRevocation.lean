import SoulAuth.Proofs.FaultyRuns
import SoulAuth.Proofs.RecordKeys
import SoulAuth.Proofs.Tables

/-! # Changes of status and what they revoke

An account that is taken out of use loses its sessions and its tokens in
three statements after the new status is written. Their failures are logged
and not reported, so that the request succeeds whatever became of them.
-/

namespace SoulAuth

open Framework Framework.Prog

section

variable [Platform]

/-- The outcome, the world and the statements of a change of status that is
    on its own. -/
def updateStatusAlone (userId : Str) (status : AccountStatus) (cs : Nat → Ctx) (w : World) :
    Except AuthError Unit × World × List (Entry machine) :=
  (updateUserAccountStatus userId status).runAlone cs w

/-- The user that the request names. -/
def NamesUser (userId : Str) (w : World) (u : User) : Prop :=
  w.db.identity.users.find? (fun r => r.key = normalizeUserId userId) = some u

/-! ## What a user holds -/

def NoSession (u : User) (db : Db) : Prop :=
  ∀ s ∈ db.sessions, u.subjectId ≠ some s.userId

def NoAccessToken (u : User) (db : Db) : Prop :=
  ∀ t ∈ db.accessTokens, u.subjectId ≠ some t.userId

def NoUnusedRefreshToken (u : User) (db : Db) : Prop :=
  ∀ t ∈ db.refreshTokens, u.subjectId = some t.userId → t.used = true

/-- No session, no access token and no unused refresh token of the user. -/
structure AccessCut (u : User) (db : Db) : Prop where
  sessions : NoSession u db
  accessTokens : NoAccessToken u db
  refreshTokens : NoUnusedRefreshToken u db

/-! ## The statements that revoke -/

/-- The number of statements that revoke the password of a deleted account. -/
def deletionLength (status : AccountStatus) : Nat := if status = .deleted then 2 else 0

/-- The number of statements that follow the account to its root. -/
def syncLength (actorKey : Str) (status : AccountStatus) (cs : Nat → Ctx) (db : Db) : Nat :=
  (if (cs 0).fault = none ∧ (∃ a ∈ db.identity.actors,
    a.key = idArgumentKey (actorAddress actorKey)) then 3 else 1) + deletionLength status

/-- The number of the first of them. Before it, the row is read, the clock,
    and the new status is written; if the row has a root that can be read,
    the root follows; and the password of a deleted account is revoked. -/
def revocationNumber (u : User) (status : AccountStatus) (cs : Nat → Ctx) (w : World) : Nat :=
  match u.subjectId with
  | none => 3
  | some actorKey =>
    3 + syncLength actorKey status (later 3 cs) w.db

/-- The revocation of tokens is addressed to the user. -/
def Addressed (userId : Str) (u : User) (w : World) : Prop :=
  ∀ a, u.subjectId = some a →
    ownedBy w.db.identity.users (ownerKey (normalizeUserId userId)) a = true

/-- Each kind of thing is revoked, or there is nothing of the kind: the
    sessions go first; then the access tokens; and if that is reported, the
    refresh tokens. -/
structure Revokes (userId : Str) (u : User) (cs : Nat → Ctx) (n : Nat) (w : World) : Prop where
  sessions : NoSession u w.db ∨ (cs n).Executes
  accessTokens : NoAccessToken u w.db ∨ (cs (n + 1)).Executes ∧ Addressed userId u w
  refreshTokens : NoUnusedRefreshToken u w.db ∨
    (cs (n + 1)).fault = none ∧ (cs (n + 2)).Executes ∧ Addressed userId u w

/-! ## Up to the revocation -/

section

variable {userId : Str} {status : AccountStatus} {u : User} {cs : Nat → Ctx} {db : Db}
  {now : Timestamp} {n : Nat}

/-- What a change of status leaves alone. -/
structure SameHoldings (db db' : Db) : Prop where
  sessions : db'.sessions = db.sessions
  accessTokens : db'.accessTokens = db.accessTokens
  refreshTokens : db'.refreshTokens = db.refreshTokens
  subjects : ∀ key, subjectOf db'.identity.users key = subjectOf db.identity.users key

omit [Platform] in
/-- The new status changes no key and no subject. -/
theorem subjectOf_setAccountStatus {users : List User} {k : Str} {t : Timestamp} (key : Str) :
    subjectOf (users.map fun r =>
      if r.key = k then { r with accountStatus := status, updatedAt := t } else r) key =
      subjectOf users key := by
  have hkeys : ((fun r : User => decide (r.key = key)) ∘ fun r =>
      if r.key = k then { r with accountStatus := status, updatedAt := t } else r) =
      fun r => decide (r.key = key) := by
    funext r
    by_cases hk : r.key = k
    · simp only [Function.comp, if_pos hk]
    · simp only [Function.comp, if_neg hk]
  unfold subjectOf
  rw [List.find?_map, hkeys, Option.bind_map]
  congr 1
  funext r
  by_cases hk : r.key = k
  · simp only [Function.comp, if_pos hk]
  · simp only [Function.comp, if_neg hk]

omit [Platform] in
theorem SameHoldings.refl (db : Db) : SameHoldings db db := ⟨rfl, rfl, rfl, fun _ => rfl⟩

/-- What a part of the request does that succeeds. -/
def Keeps (cs : Nat → Ctx) (k : Nat) (db : Db) (r : Except AuthError Unit) (w' : World)
    (cs' : Nat → Ctx) : Prop :=
  r = .ok () → SameHoldings db w'.db ∧ cs' = later k cs

omit [Platform] in
/-- Parts follow each other. -/
theorem Keeps.after {j k l : Nat} {db₁ : Db} {r : Except AuthError Unit} {w' : World}
    {cs' : Nat → Ctx} (h : Keeps (later j cs) k db₁ r w' cs') (hsame : SameHoldings db db₁)
    (hl : l = j + k) : Keeps cs l db r w' cs' := by
  intro hok
  obtain ⟨hsame', rfl⟩ := h hok
  constructor
  · exact ⟨hsame'.sessions.trans hsame.sessions, hsame'.accessTokens.trans hsame.accessTokens,
      hsame'.refreshTokens.trans hsame.refreshTokens,
      fun key => (hsame'.subjects key).trans (hsame.subjects key)⟩
  · rw [later_later, hl]

theorem revokePassword_runs {actorKey : Str} :
    Runs (if status = .deleted then revokePassword actorKey else return ()) cs ⟨db, now, n⟩
      (Keeps cs (deletionLength status) db) := by
  unfold deletionLength
  by_cases hdeleted : status = .deleted
  · rw [if_pos hdeleted, if_pos hdeleted]
    unfold revokePassword
    rw [runs_getNow_bind]
    apply runs_exec rfl
    · intro _ _
      exact ⟨⟨rfl, rfl, rfl, fun _ => rfl⟩, later_later 1 1 cs⟩
    · intro x db' _ _ hok
      cases hok
  · rw [if_neg hdeleted, if_neg hdeleted]
    intro _
    exact ⟨.refl db, (later_zero cs).symm⟩

theorem syncActorStatus_runs {actorKey : Str} :
    Runs (syncActorStatus actorKey status) cs ⟨db, now, n⟩
      (Keeps cs (syncLength actorKey status cs db) db) := by
  unfold syncActorStatus findActorById
  rw [runs_bind, runs_attempt]
  apply runs_read rfl
  · intro hsound
    rcases hfind : db.identity.actors.find? fun a =>
      a.key = idArgumentKey (actorAddress actorKey) with _ | actor
    · have hno : ¬ ∃ a ∈ db.identity.actors, a.key = idArgumentKey (actorAddress actorKey) := by
        simpa using hfind
      simp only [hfind]
      apply revokePassword_runs.weaken
      intro r w' cs' hkeeps
      apply hkeeps.after ⟨rfl, rfl, rfl, fun _ => rfl⟩
      rw [syncLength, if_neg (fun h => hno h.2)]
    · have hthere : ∃ a ∈ db.identity.actors, a.key = idArgumentKey (actorAddress actorKey) :=
        ⟨actor, List.mem_of_find?_eq_some hfind, by simpa using List.find?_some hfind⟩
      simp only [hfind]
      unfold setStatus
      rw [bind_assoc, runs_getNow_bind]
      apply runs_exec_bind rfl
      · intro _
        simp only [later_later, Nat.reduceAdd]
        apply revokePassword_runs.weaken
        intro r w' cs' hkeeps
        apply hkeeps.after (show SameHoldings db _ from ⟨rfl, rfl, rfl, fun _ => rfl⟩)
        rw [syncLength, if_pos ⟨hsound, hthere⟩]
      · intro x db' _ _ hok
        cases hok
  · intro x hfault
    apply revokePassword_runs.weaken
    intro r w' cs' hkeeps
    apply hkeeps.after (.refl _)
    rw [syncLength, if_neg (fun h => hfault h.1)]

/-- What a change of status has done when it succeeds, before it revokes. -/
theorem updateAccountStatus_runs (hu : NamesUser userId ⟨db, now, n⟩ u) :
    Runs (updateAccountStatus userId status) cs ⟨db, now, n⟩
      (Keeps cs (revocationNumber u status cs ⟨db, now, n⟩) db) := by
  unfold updateAccountStatus
  apply runs_orThrow_bind
  swap
  · intro _ hok
    cases hok
  intro key hkey
  have hnormal : key = normalizeUserId userId := by
    simp only [userRecordKey] at hkey
    split at hkey
    · cases hkey
    · exact (Option.some.inj hkey).symm
  subst hnormal
  apply runs_read_bind rfl
  swap
  · intro _ _ hok
    cases hok
  intro _
  apply runs_orThrow_bind
  swap
  · intro _ hok
    cases hok
  intro u' hu'
  cases hu.symm.trans hu'
  rw [runs_getNow_bind]
  apply runs_exec_bind rfl
  swap
  · intro _ _ _ _ hok
    cases hok
  intro _
  simp only [later_later, Nat.reduceAdd]
  have hsame : ∀ t, SameHoldings db { db with identity := { db.identity with
      users := db.identity.users.map fun r => if r.key = normalizeUserId userId then
        { r with accountStatus := status, updatedAt := t } else r } } :=
    fun t => ⟨rfl, rfl, rfl, subjectOf_setAccountStatus⟩
  rcases hsubject : u.subjectId with _ | actorKey
  · intro _
    refine ⟨hsame _, ?_⟩
    rw [revocationNumber, hsubject]
  · apply syncActorStatus_runs.weaken
    intro r w' cs' hkeeps
    apply hkeeps.after (hsame _)
    simp only [revocationNumber, hsubject]
    rfl

/-! ## The revocation -/

omit [Platform] in
theorem normalizeUserId_idem (value : Str) :
    normalizeUserId (normalizeUserId value) = normalizeUserId value :=
  (isNormalKey_normalizeId (by decide) value).normalizeId

omit [Platform] in
/-- What is left of the user's things once those of some owners are deleted. -/
theorem filter_cut_iff {α : Type} {l : List α} {owner : α → Str} {owned : Str → Bool}
    {D : α → Prop} :
    (∀ x ∈ l.filter (fun x => !owned (owner x)), u.subjectId = some (owner x) → D x) ↔
      (∀ x ∈ l, u.subjectId = some (owner x) → D x) ∨
        ∀ a, u.subjectId = some a → owned a = true := by
  constructor
  · intro hleft
    by_cases hall : ∀ a, u.subjectId = some a → owned a = true
    · exact .inr hall
    · left
      intro x hx hsubject
      apply hleft x _ hsubject
      rw [List.mem_filter]
      refine ⟨hx, ?_⟩
      -- the user has one subject, and it is not among the owners
      by_contra howned
      apply hall
      intro a ha
      cases hsubject.symm.trans ha
      simpa using howned
  · intro hcut x hx hsubject
    rw [List.mem_filter] at hx
    rcases hcut with hnone | hall
    · exact hnone x hx.1 hsubject
    · have howned := hall _ hsubject
      simp [howned] at hx

omit [Platform] in
/-- The same when the deletion has been executed or not. -/
theorem cut_iff {α : Type} {l l' : List α} {owner : α → Str} {owned : Str → Bool}
    {D : α → Prop} {c : Prop} [Decidable c]
    (hl : l' = if c then l.filter (fun x => !owned (owner x)) else l) :
    (∀ x ∈ l', u.subjectId = some (owner x) → D x) ↔
      (∀ x ∈ l, u.subjectId = some (owner x) → D x) ∨
        c ∧ ∀ a, u.subjectId = some a → owned a = true := by
  by_cases hc : c
  · rw [hl, if_pos hc, filter_cut_iff]
    simp only [hc, true_and]
  · rw [hl, if_neg hc]
    simp only [hc, false_and, or_false]

/-- The tables after the revocation of tokens. -/
structure TokensRevoked (userId : Str) (cs : Nat → Ctx) (db db' : Db) : Prop where
  sessions : db'.sessions = db.sessions
  accessTokens : db'.accessTokens = if (cs 0).Executes then db.accessTokens.filter fun t =>
    !ownedBy db.identity.users (ownerKey userId) t.userId else db.accessTokens
  refreshTokens : db'.refreshTokens = if (cs 0).fault = none ∧ (cs 1).Executes then
    db.refreshTokens.filter fun t => !ownedBy db.identity.users (ownerKey userId) t.userId
    else db.refreshTokens

theorem revokeAllTokens_runs :
    Runs ((revokeAllTokensForUser userId).swallow : Req AuthError Unit) cs ⟨db, now, n⟩
      fun r w' _ => r = .ok () ∧ TokensRevoked userId cs db w'.db := by
  rw [runs_swallow]
  unfold revokeAllTokensForUser
  apply runs_exec_bind rfl
  · intro haccess
    have hexecutes : (cs 0).Executes := .inl haccess
    apply runs_exec rfl
    · intro hrefresh
      refine ⟨rfl, rfl, ?_, ?_⟩
      · rw [if_pos hexecutes]
        rfl
      · rw [if_pos ⟨haccess, .inl hrefresh⟩]
        rfl
    · intro x db' _ hdb
      subst hdb
      refine ⟨rfl, ?_⟩
      by_cases hrefresh : (cs 1).Executes
      · rw [later_apply, if_pos hrefresh]
        refine ⟨rfl, ?_, ?_⟩
        · rw [if_pos hexecutes]
          rfl
        · rw [if_pos ⟨haccess, hrefresh⟩]
          rfl
      · rw [later_apply, if_neg hrefresh]
        refine ⟨rfl, ?_, ?_⟩
        · rw [if_pos hexecutes]
          rfl
        · rw [if_neg (fun h => hrefresh h.2)]
  · intro x db' hfault hdb
    subst hdb
    have hno : ¬ ((cs 0).fault = none ∧ (cs 1).Executes) := fun h => hfault h.1
    by_cases hexecutes : (cs 0).Executes
    · rw [if_pos hexecutes]
      refine ⟨rfl, rfl, ?_, ?_⟩
      · rw [if_pos hexecutes]
        rfl
      · rw [if_neg hno]
    · rw [if_neg hexecutes]
      refine ⟨rfl, rfl, ?_, ?_⟩
      · rw [if_neg hexecutes]
      · rw [if_neg hno]

/-- What is left of the user's things after the three statements. -/
theorem revocation_runs (hu : subjectOf db.identity.users (normalizeUserId userId) = u.subjectId) :
    Runs ((deleteSessionsByUserId (normalizeUserId userId) : Req AuthError Unit).swallow >>=
        fun _ => ((revokeAllTokensForUser (normalizeUserId userId)).swallow : Req AuthError Unit))
      cs ⟨db, now, n⟩ fun r w' _ => r = .ok () ∧
        (AccessCut u w'.db ↔ Revokes userId u cs 0 ⟨db, now, n⟩) := by
  rw [runs_bind, deleteSessionsByUserId, runs_ignored_query, normalizeUserId_idem]
  show Runs _ _ _ _
  -- the deletion of the sessions leaves the other tables alone
  have hdeleted : ∀ t, ∃ d, d = (if (cs 0).Executes then
        (DbStmt.exec t (.session (.deleteByUser (normalizeUserId userId))) db).2 else db) ∧
      (NoSession u d ↔ NoSession u db ∨ (cs 0).Executes) ∧ d.identity = db.identity ∧
      d.accessTokens = db.accessTokens ∧ d.refreshTokens = db.refreshTokens := by
    intro t
    by_cases hexecutes : (cs 0).Executes
    · rw [if_pos hexecutes]
      refine ⟨_, rfl, ?_, rfl, rfl, rfl⟩
      apply iff_of_true _ (.inr hexecutes)
      intro s hs hsubject
      have hkept := (List.mem_filter.mp hs).2
      rw [hu, hsubject] at hkept
      simp at hkept
    · rw [if_neg hexecutes]
      refine ⟨db, rfl, ?_, rfl, rfl, rfl⟩
      constructor
      · intro hno
        exact .inl hno
      · intro hno
        exact hno.resolve_right hexecutes
  obtain ⟨d, hd, hsessions, hidentity, haccess, hrefresh⟩ := hdeleted (now + (cs 0).elapsed)
  rw [← hd]
  apply revokeAllTokens_runs.weaken
  intro r w' _ hends
  obtain ⟨hok, hrevoked⟩ := hends
  refine ⟨hok, ?_⟩
  have haccess' : NoAccessToken u w'.db ↔
      NoAccessToken u db ∨ (cs 1).Executes ∧ Addressed userId u ⟨db, now, n⟩ := by
    have htable := hrevoked.accessTokens
    rw [hidentity, haccess] at htable
    exact cut_iff (D := fun _ => False) htable
  have hrefresh' : NoUnusedRefreshToken u w'.db ↔ NoUnusedRefreshToken u db ∨
      (cs 1).fault = none ∧ (cs 2).Executes ∧ Addressed userId u ⟨db, now, n⟩ := by
    have htable := hrevoked.refreshTokens
    rw [hidentity, hrefresh] at htable
    rw [← and_assoc]
    exact cut_iff htable
  have hsessions' : NoSession u w'.db ↔ NoSession u db ∨ (cs 0).Executes := by
    rw [← hsessions]
    unfold NoSession
    rw [hrevoked.sessions]
  constructor
  · intro hcut
    exact ⟨hsessions'.mp hcut.sessions, haccess'.mp hcut.accessTokens,
      hrefresh'.mp hcut.refreshTokens⟩
  · intro hrevokes
    exact ⟨hsessions'.mpr hrevokes.sessions, haccess'.mpr hrevokes.accessTokens,
      hrefresh'.mpr hrevokes.refreshTokens⟩

omit [Platform] in
theorem SameHoldings.noSession {db' : Db} (h : SameHoldings db db') :
    NoSession u db' ↔ NoSession u db := by
  rw [NoSession, NoSession, h.sessions]

omit [Platform] in
theorem SameHoldings.noAccessToken {db' : Db} (h : SameHoldings db db') :
    NoAccessToken u db' ↔ NoAccessToken u db := by
  rw [NoAccessToken, NoAccessToken, h.accessTokens]

omit [Platform] in
theorem SameHoldings.noUnusedRefreshToken {db' : Db} (h : SameHoldings db db') :
    NoUnusedRefreshToken u db' ↔ NoUnusedRefreshToken u db := by
  rw [NoUnusedRefreshToken, NoUnusedRefreshToken, h.refreshTokens]

omit [Platform] in
theorem SameHoldings.addressed {db' : Db} {now' : Timestamp} {n' : Nat}
    (h : SameHoldings db db') : Addressed userId u ⟨db', now', n'⟩ ↔
      Addressed userId u ⟨db, now, n⟩ := by
  unfold Addressed ownedBy
  rw [h.subjects]

theorem updateUserAccountStatus_runs (hu : NamesUser userId ⟨db, now, n⟩ u)
    (hstatus : status ≠ .active) :
    Runs (updateUserAccountStatus userId status) cs ⟨db, now, n⟩ fun r w' _ => r = .ok () →
      (AccessCut u w'.db ↔
        Revokes userId u cs (revocationNumber u status cs ⟨db, now, n⟩) ⟨db, now, n⟩) := by
  unfold updateUserAccountStatus
  rw [runs_bind]
  apply (updateAccountStatus_runs hu).weaken
  intro r w' cs' hkeeps
  cases r with
  | error x =>
    intro hok
    cases hok
  | ok _ =>
    obtain ⟨hsame, rfl⟩ := hkeeps rfl
    obtain ⟨db', now', n'⟩ := w'
    have hsubject : subjectOf db'.identity.users (normalizeUserId userId) = u.subjectId := by
      rw [hsame.subjects]
      unfold subjectOf
      rw [hu]
      rfl
    rw [if_neg hstatus]
    apply (revocation_runs hsubject).weaken
    intro r w'' _ hends _
    rw [hends.2]
    constructor
    · intro h
      exact ⟨h.sessions.imp_left hsame.noSession.mp,
        h.accessTokens.imp hsame.noAccessToken.mp (And.imp_right hsame.addressed.mp),
        h.refreshTokens.imp hsame.noUnusedRefreshToken.mp
          (And.imp_right (And.imp_right hsame.addressed.mp))⟩
    · intro h
      exact ⟨h.sessions.imp_left hsame.noSession.mpr,
        h.accessTokens.imp hsame.noAccessToken.mpr (And.imp_right hsame.addressed.mpr),
        h.refreshTokens.imp hsame.noUnusedRefreshToken.mpr
          (And.imp_right (And.imp_right hsame.addressed.mpr))⟩

omit [Platform] in
/-- The tokens of a user with a drawn key are addressed. -/
theorem addressed_of_plainKey {w : World} (hu : NamesUser userId w u)
    (hplain : IsPlainKey (normalizeUserId userId)) : Addressed userId u w := by
  intro a ha
  have howner : ownerKey (normalizeUserId userId) = normalizeUserId userId := by
    unfold ownerKey
    rw [normalizeUserId_idem]
    exact hplain.normalizeId (by decide)
  have hsubject : subjectOf w.db.identity.users (normalizeUserId userId) = u.subjectId := by
    unfold subjectOf
    rw [hu]
    rfl
  simp only [ownedBy, howner, hsubject, ha, decide_true, Bool.or_true]

end

/-- **Access after a change of status.** When the change of the status of a
    user to another one than active succeeds, no session, no access token
    and no unused refresh token of the user is left exactly if each kind is
    revoked or there was nothing of it. -/
theorem access_cut_iff {userId : Str} {status : AccountStatus} {u : User} {cs : Nat → Ctx}
    {w : World} (hu : NamesUser userId w u) (hstatus : status ≠ .active)
    (hok : (updateStatusAlone userId status cs w).1 = .ok ()) :
    AccessCut u (updateStatusAlone userId status cs w).2.1.db ↔
      Revokes userId u cs (revocationNumber u status cs w) w := by
  obtain ⟨db, now, n⟩ := w
  exact (updateUserAccountStatus_runs hu hstatus).outcome hok

end

namespace Sample

/-- Suspending Alice after she has signed in to the client, with nothing
    failing. -/
theorem access_cut_alice : ∃ u, NamesUser alice (after exchanged).state u ∧
    AccessCut u (updateStatusAlone alice .suspended (fun _ => Ctx.calm)
      (after exchanged).state).2.1.db := by
  obtain ⟨u, hu⟩ : ∃ u, NamesUser alice (after exchanged).state u :=
    Option.isSome_iff_exists.mp (by decide +kernel)
  have hplain : IsPlainKey (normalizeUserId alice) := by
    rw [show normalizeUserId alice = alice by decide +kernel]
    exact isPlainKey_uuid 5
  have haddressed : Addressed alice u (after exchanged).state := addressed_of_plainKey hu hplain
  have hok : (updateStatusAlone alice .suspended (fun _ => Ctx.calm)
      (after exchanged).state).1 = .ok () := by decide +kernel
  have hrevokes : ∀ n, Revokes alice u (fun _ => Ctx.calm) n (after exchanged).state :=
    fun n => ⟨.inr (.inl rfl), .inr ⟨.inl rfl, haddressed⟩, .inr ⟨rfl, .inl rfl, haddressed⟩⟩
  exact ⟨u, hu, (access_cut_iff hu (by decide) hok).mpr (hrevokes _)⟩

/-- The deletion of her sessions is refused: the request succeeds, and a
    session of hers is left. -/
theorem access_cut_fails : ¬ ∀ (userId : Str) (status : AccountStatus) (u : User)
    (cs : Nat → Ctx) (w : World), NamesUser userId w u → status ≠ .active →
    (updateStatusAlone userId status cs w).1 = .ok () →
    AccessCut u (updateStatusAlone userId status cs w).2.1.db := by
  intro hall
  obtain ⟨u, hu⟩ : ∃ u, NamesUser alice (after exchanged).state u :=
    Option.isSome_iff_exists.mp (by decide +kernel)
  have hsubject : ((after exchanged).state.db.identity.users.find? fun r =>
      r.key = normalizeUserId alice).bind User.subjectId = some aliceActor := by decide +kernel
  rw [hu] at hsubject
  have hsession : ((updateStatusAlone alice .suspended (refusedAt 6)
      (after exchanged).state).2.1.db.sessions.any fun s => s.userId = aliceActor) = true := by
    decide +kernel
  obtain ⟨s, hs, howner⟩ := List.any_eq_true.mp hsession
  have hcut := hall alice .suspended u (refusedAt 6) _ hu (by decide) (by decide +kernel)
  apply hcut.sessions s hs
  rw [of_decide_eq_true howner]
  exact hsubject

end Sample

end SoulAuth
