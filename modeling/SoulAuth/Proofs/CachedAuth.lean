import SoulAuth.Proofs.AiSessions
import SoulAuth.Proofs.SeenUsers
import SoulAuth.Routes.CachedAuth

/-! # Cached authentication and the end of sessions

A token is good for the cache as long as an entry stands there for it. An
entry is made after the session was looked up, and nothing ties the two
together: an operation that deletes the session and clears the cache may do
both between them. Where no entry is made so late, a token whose session has
been deleted is refused from then on.
-/

namespace SoulAuth

open Framework Framework.System

/-! ## Every request shadows requests of the server -/

section

variable [Platform] {α β : Type}

theorem respond_bind (f : β → Reply) (p : Req AuthError α) (q : α → Req AuthError β) :
    respond f (p >>= q) = p.mapError .auth >>= fun a => respond f (q a) := by
  unfold respond
  rw [Prog.mapError_bind, Prog.bind_assoc']

theorem shadows_withCache {q : Option (Req Failure Reply)} {ε : Type} {s : CacheStmt} :
    Shadows (S := server) authCache q (withCache s : CacheReq ε s.Reply) :=
  .own fun _ => .done _ _

/-- The extractor is how `get_current_user` begins, with or without a hit,
    and what follows may go on with that. -/
theorem shadows_authed {bearer : Claims} {k : User → CacheReq Failure β}
    (hk : ∀ user, Shadows (S := server) authCache
      (some (respond Reply.user (currentUserResponse user))) (k user)) :
    Shadows (S := server) authCache none
      ((Cached.authedUser bearer).mapError .auth >>= k) := by
  apply Shadows.own
  intro hit
  rcases hit with _ | user
  · apply Shadows.call (S := server) ⟨bareConfig, .currentUser bearer⟩
    show Shadows (S := server) authCache (some (respond _ (authedUser bearer >>= _)))
      (((authedUser bearer).lift authCache >>= fun user =>
        withCache (.insert bearer user.key user) >>= fun _ => pure user).mapError .auth >>= k)
    rw [respond_bind, Prog.mapError_bind, Prog.bind_assoc']
    apply Shadows.lift_mapError_bind
    intro user
    apply Shadows.own
    intro _
    exact hk user
  · apply Shadows.call (S := server) ⟨bareConfig, .currentUserCached user⟩
    show Shadows (S := server) authCache (some (respond _ (authedUserCached user >>= _)))
      (((authedUserCached user).lift authCache).mapError .auth >>= k)
    rw [respond_bind]
    exact Shadows.lift_mapError_bind hk

theorem shadows_logout {bearer : Claims} :
    Shadows (S := server) authCache none (Cached.logoutRoute bearer) := by
  apply Shadows.bind
  · apply Shadows.call (S := server) ⟨bareConfig, .logout bearer⟩
    apply Shadows.lift_bind
    intro _
    exact shadows_withCache
  · intro _
    exact shadows_withCache

theorem shadows_logoutAll {user : User} :
    Shadows (S := server) authCache none (Cached.logoutAllRoute user) := by
  apply Shadows.call (S := server) ⟨bareConfig, .logoutAll user.key⟩
  show Shadows (S := server) authCache (some (respond _ (deleteSessionsByUserId user.key >>= _))) _
  rw [respond_bind]
  unfold Cached.logoutAllRoute Cached.logoutAllSessions
  rw [Prog.bind_assoc']
  apply Shadows.lift_bind
  intro _
  apply Shadows.own
  intro _
  apply Shadows.own
  intro _
  exact Shadows.lift_prefix

theorem shadows_resetPassword {cfg : Config} {token newPassword : Str} :
    Shadows (S := server) authCache none (Cached.resetPasswordRoute cfg token newPassword) := by
  apply Shadows.call (S := server) ⟨cfg, .resetPassword token newPassword⟩
  show Shadows (S := server) authCache
    (some (respond _ (resetPassword cfg token newPassword >>= _))) _
  rw [respond_bind]
  unfold Cached.resetPasswordRoute Cached.resetPassword
  rw [Prog.bind_assoc']
  apply Shadows.lift_bind
  intro userId
  apply Shadows.own
  intro _
  exact Shadows.lift_prefix

theorem shadows_updateAccountStatus {userId : Str} {status : AccountStatus} :
    Shadows (S := server) authCache none (Cached.updateUserAccountStatus userId status) := by
  apply Shadows.call (S := server) ⟨bareConfig, .updateAccountStatus userId status⟩
  show Shadows (S := server) authCache
    (some (respond _ (updateAccountStatus userId status >>= _))) _
  rw [respond_bind]
  apply Shadows.lift_bind
  intro _
  apply Shadows.own
  intro _
  show Shadows (S := server) authCache _ (if status = .active then _ else _)
  by_cases hactive : status = .active
  · rw [if_pos hactive, if_pos hactive]
    exact .done _ _
  · rw [if_neg hactive, if_neg hactive, respond_bind]
    apply Shadows.lift_bind
    intro _
    exact Shadows.lift_prefix

/-- Every request shadows requests of the server. -/
theorem cachedCall_shadows (r : CachedCall) :
    Shadows (S := server) authCache none r.program := by
  cases r with
  | authed bearer action =>
    apply shadows_authed
    intro user
    cases action with
    | currentUser =>
      apply Shadows.lift_mapError_bind
      intro _
      exact .done _ _
    | logout =>
      apply Shadows.of_none
      apply shadows_logout.mapError.bind
      intro _
      exact .done _ _
    | logoutAll =>
      apply Shadows.of_none
      apply shadows_logoutAll.mapError.bind
      intro _
      exact .done _ _
    | updateAccountStatus userId status =>
      apply Shadows.of_none
      apply shadows_updateAccountStatus.mapError.bind
      intro _
      exact .done _ _
    | endpoint call =>
      apply Shadows.of_none
      exact Shadows.request (S := server) (call user)
  | resetPassword cfg token newPassword =>
    apply shadows_resetPassword.mapError.bind
    intro _
    exact .done _ _
  | purgeExpired =>
    apply shadows_withCache.bind
    intro _
    exact .done _ _
  | call r => exact Shadows.request (S := server) r

end

/-! ## Sessions that are gone, users that are one -/

section

variable [Platform] {now : Timestamp} {c : (server).Conf} {i j k : Nat}
  {tr₁ tr₂ : List (Nat × Entry machine)} {d e q : Entry machine} {s : Session} {token : Claims}
  {u v : User} {a : Str}

/-- The database has executed the statement, whether the request learnt it or
    not. -/
def TookEffect (e : Entry machine) : Prop :=
  e.ctx.fault = none ∨ e.ctx.fault = some .lostReply

/-- The statement deletes the session. -/
def Covers (d : Entry machine) (s : Session) : Prop :=
  d.stmt = .db (.session (.deleteByToken s.tokenHash)) ∨
    ∃ key, d.stmt = .db (.session (.deleteByUser key)) ∧
      subjectOf d.before.db.users key = some s.userId

theorem Covers.deleted (h : Covers d s) (heffect : TookEffect d) : s ∉ d.after.db.sessions := by
  obtain ⟨⟨elapsed, fault⟩, stmt, w⟩ := d
  have hafter : ∀ q : SessionStmt, stmt = .db (.session q) →
      Entry.after (M := machine) ⟨⟨elapsed, fault⟩, stmt, w⟩ =
        { w.advance elapsed with
          db := { w.db with sessions := (q.exec w.db.users w.db.sessions).2 } } := by
    intro q hq
    subst hq
    rcases heffect with hf | hf
    · obtain rfl : fault = none := hf
      rfl
    · obtain rfl : fault = some .lostReply := hf
      rfl
  rcases h with hs | ⟨key, hs, hsubject⟩
  · rw [hafter _ hs]
    intro hmem
    simpa using (List.mem_filter.mp hmem).2
  · rw [hafter _ hs]
    intro hmem
    have hkept := (List.mem_filter.mp hmem).2
    rw [show subjectOf w.db.users key = some s.userId from hsubject] at hkept
    simp at hkept

/-- A session that has been deleted is found no more. -/
theorem session_gone (hc : Reachable (World.fresh now) c) (htr : c.trace = tr₁ ++ (i, d) :: tr₂)
    (hcreate : ∃ j e, (j, e) ∈ tr₁ ∧ e.stmt = .db (.session (.create s)))
    (hhash : s.tokenHash = hashBearer token) (hgone : s ∉ d.after.db.sessions)
    (hq : (k, q) ∈ tr₂) {t : Timestamp} :
    ¬ Answered (.session (.isActive (hashBearer token) t)) true q := by
  intro hlive
  obtain ⟨s', hs', hhash'⟩ := live_session hlive
  obtain ⟨j, e, he, hs⟩ := hcreate
  have hmem : (j, e) ∈ c.trace := by
    rw [htr]
    exact List.mem_append_left _ he
  obtain ⟨tr₃, tr₄, rfl⟩ := List.append_of_mem hq
  have hsteps := hc.steps
  rw [htr] at hsteps
  have hbetween := hsteps.split_entry.2.split_entry.1
  have hfirst : Steps (S := server) (World.fresh now) (tr₁ ++ [(i, d)]) d.after :=
    .snoc i d hsteps.split_entry.1 rfl
  -- the session that is found was created by the entry that created the first
  have hsame : ∀ {j' e'}, (j', e') ∈ c.trace → e'.stmt = .db (.session (.create s')) →
      (j, e) = (j', e') ∧ s = s' := by
    intro j' e' hm' hs''
    have heq := session_creation_unique hc hmem hm' hs hs'' (hhash.trans hhash'.symm)
    cases heq
    cases hs.symm.trans hs''
    exact ⟨rfl, rfl⟩
  rcases session_origin hbetween hs' with hthere | ⟨j', e', hm', hcreate'⟩
  · rcases session_origin hfirst hthere with hinit | ⟨j', e', hm', hcreate'⟩
    · cases hinit
    · have hin : (j', e') ∈ c.trace := by
        rw [htr]
        rcases List.mem_append.mp hm' with hm' | hm'
        · exact List.mem_append_left _ hm'
        · rw [List.mem_singleton.mp hm']
          simp
      obtain ⟨-, rfl⟩ := hsame hin hcreate'
      exact hgone hthere
  · -- created after the deletion: by an entry that stands before it
    obtain ⟨tr₅, tr₆, rfl⟩ := List.append_of_mem he
    obtain ⟨tr₇, tr₈, rfl⟩ := List.append_of_mem hm'
    have htwice : c.trace = tr₅ ++ (j, e) :: ((tr₆ ++ (i, d) :: tr₇) ++
        (j', e') :: (tr₈ ++ (k, q) :: tr₄)) := by
      rw [htr]
      simp
    exact session_created_once hc htwice hs hcreate' (hhash.trans hhash'.symm)

end

end SoulAuth
