import SoulAuth.Proofs.AiSessions
import SoulAuth.Proofs.IdTokenConduct
import SoulAuth.Proofs.Tables

/-! # The time of an authentication

An ID token states when the user has authenticated. The time is read from
the row of the session that the token names; when that fails, or the row
is gone, the time of the user's last login stands in for it.
-/

namespace SoulAuth

open Framework Framework.System

section

variable [Platform]

/-! ## Sessions of a run -/

/-- The session has been created in the run. -/
def Opened (c : (server).Conf) (s : Session) : Prop :=
  ∃ i e, (i, e) ∈ c.trace ∧ e.stmt = .db (.session (.create s))

section

variable {now : Timestamp} {w : World} {c : (server).Conf} {i : Nat} {e : Entry machine}
  {s s' : Session} {hint : IdTokenClaims}

/-- Every session that was found in the table was created in the run. -/
theorem opened_of_mem (hc : Reachable (World.fresh now) c) (hm : (i, e) ∈ c.trace)
    (hs : s ∈ e.before.db.sessions) : Opened c s := by
  obtain ⟨tr₁, tr₂, htr⟩ := List.append_of_mem hm
  have hsteps := hc.steps
  rw [htr] at hsteps
  rcases session_origin hsteps.split_entry.1 hs with hfirst | hcreated
  · cases hfirst
  · obtain ⟨j, e', hm', hs'⟩ := hcreated
    exact ⟨j, e', htr ▸ List.mem_append_left _ hm', hs'⟩

/-- Two sessions with one key are one session. -/
theorem Opened.eq_of_key (hc : Reachable w c) (h : Opened c s) (h' : Opened c s')
    (hkey : s.key = s'.key) : s = s' := by
  obtain ⟨i, e, hm, hs⟩ := h
  obtain ⟨j, e', hm', hs'⟩ := h'
  rcases split_members hm hm' with heq | ⟨tr₁, tr₂, tr₃, htr⟩ | ⟨tr₁, tr₂, tr₃, htr⟩
  · cases heq
    cases hs.symm.trans hs'
    rfl
  · exact absurd hkey (session_key_once hc htr hs hs')
  · exact absurd hkey.symm (session_key_once hc htr hs' hs)

/-- Every session says when it was established. -/
theorem Opened.dated (hc : Reachable w c) (h : Opened c s) :
    ∃ t, s.authenticatedAt = some t := by
  obtain ⟨i, e, hm, hs⟩ := h
  obtain ⟨tr₁, tr₂, htr⟩ := List.append_of_mem hm
  have hconduct := idTokenConducted_at hc htr
  unfold IdTokenConducted at hconduct
  rw [hs] at hconduct
  exact Option.isSome_iff_exists.mp hconduct

/-! ## Signed ID tokens -/

/-- The server has answered request `i` with the ID token. -/
def SignedBy (c : (server).Conf) (i : Nat) (hint : IdTokenClaims) : Prop :=
  ∃ response, c.Returned i (.ok (.tokens response)) ∧ response.idToken = some hint

/-- What the request had done when it signed the token. -/
theorem SignedBy.signs (hc : Reachable w c) (h : SignedBy c i hint) :
    SignsToken (entriesOf (S := server) i c.trace) hint := by
  obtain ⟨response, hret, hhint⟩ := h
  obtain ⟨r, hr, request, hep, -⟩ := (conduct_holds hc).returned hret
  obtain ⟨r', hr', hout⟩ := (idTokenRule_holds hc).returned hret
  cases hr.symm.trans hr'
  exact hout.signs request response hint hep rfl hhint

/-- All ID tokens that name a session carry the time at which it was
    established. -/
structure AuthTimesHeld (c : (server).Conf) : Prop where
  established : ∀ i hint, SignedBy c i hint →
    ∃ s, Opened c s ∧ s.key = hint.sid ∧ s.authenticatedAt = some hint.authTime
  stable : ∀ i j hint hint', SignedBy c i hint → SignedBy c j hint' → hint.sid = hint'.sid →
    hint.authTime = hint'.authTime

/-- Whenever a request reads the time of a session, the read succeeds, and
    the session has not been deleted. -/
def SessionsRead (c : (server).Conf) : Prop :=
  ∀ i e sid, (i, e) ∈ c.trace → e.stmt = .db (.session (.authenticatedAt sid)) →
    e.ctx.fault = none ∧ ∃ s ∈ e.before.db.sessions, s.key = sid

/-- What a successful read of a session answers. -/
theorem answered_authenticatedAt {sid : Str} (hc : Reachable (World.fresh now) c)
    (hm : (i, e) ∈ c.trace) (hs : e.stmt = .db (.session (.authenticatedAt sid)))
    (hfault : e.ctx.fault = none) (hthere : ∃ s ∈ e.before.db.sessions, s.key = sid) :
    ∃ s t, Opened c s ∧ s.key = sid ∧ s.authenticatedAt = some t ∧
      Answered (.session (.authenticatedAt sid)) (some t) e := by
  obtain ⟨s₀, hs₀, hkey₀⟩ := hthere
  have hfound : ∃ s, (e.before.db.sessions.find? fun r => r.key = sid) = some s := by
    apply Option.isSome_iff_exists.mp
    rw [List.find?_isSome]
    exact ⟨s₀, hs₀, by simpa using hkey₀⟩
  obtain ⟨s, hfind⟩ := hfound
  have hopened := opened_of_mem hc hm (List.mem_of_find?_eq_some hfind)
  obtain ⟨t, ht⟩ := hopened.dated hc
  refine ⟨s, t, hopened, by simpa using List.find?_some hfind, ht, hs, hfault, ?_⟩
  simp [DbStmt.exec, SessionStmt.exec, hfind, ht]

/-- **Stable authentication times.** While the row of a session can be read
    whenever a token is signed for it, all these tokens carry its time. -/
theorem auth_times_held (hc : Reachable (World.fresh now) c) (hread : SessionsRead c) :
    AuthTimesHeld c := by
  have hheld : ∀ i hint, SignedBy c i hint →
      ∃ s, Opened c s ∧ s.key = hint.sid ∧ s.authenticatedAt = some hint.authTime := by
    intro i hint hsigned
    obtain ⟨h₁, e, hh, -, hs, htime⟩ := hsigned.signs hc
    have he : e ∈ entriesOf (S := server) i c.trace := by
      rw [hh]
      simp
    have hm := mem_entriesOf.mp he
    obtain ⟨hfault, hthere⟩ := hread i e hint.sid hm hs
    obtain ⟨s, t, hopened, hkey, ht, ha⟩ := answered_authenticatedAt hc hm hs hfault hthere
    exact ⟨s, hopened, hkey, (htime t ha).symm ▸ ht⟩
  constructor
  · exact hheld
  · intro i j hint hint' hsigned hsigned' hsid
    obtain ⟨s, hopened, hkey, ht⟩ := hheld i hint hsigned
    obtain ⟨s', hopened', hkey', ht'⟩ := hheld j hint' hsigned'
    obtain rfl := hopened.eq_of_key hc hopened' (hkey.trans (hsid.trans hkey'.symm))
    exact Option.some.inj (ht.symm.trans ht')

end

end

end SoulAuth

namespace SoulAuth.Sample

open Framework Framework.System

/-- Alice logs in again, a hundred seconds after her first session. -/
def loggedInAgain : List (server).Action :=
  exchanged ++ start config (.login "a@b.c".toList password "ip".toList) ::
    .step 4 ⟨100, none⟩ :: steps 4 30

/-- Request 5 refreshes the tokens of the first session. -/
def rotatedAgain : List (server).Action :=
  loggedInAgain ++ start config (refresh (numbered 't' 13)) :: steps 5 20

/-- The same after request 5 has logged the first session out. -/
def rotatedAfterLogout : List (server).Action :=
  loggedInAgain ++ start config (.logout aliceBearer) :: steps 5 3 ++
    start config (refresh (numbered 't' 13)) :: steps 6 20

/-- The ID token in the response of request `i`. -/
def idTokenOf (c : (server).Conf) (i : Nat) : Option IdTokenClaims :=
  match c.outcome i with
  | some (.ok (.tokens response)) => response.idToken
  | _ => none

theorem signedBy_of {c : (server).Conf} {i : Nat} {hint : IdTokenClaims}
    (h : idTokenOf c i = some hint) : SignedBy c i hint := by
  unfold idTokenOf at h
  split at h
  · next response ho => exact ⟨response, Conf.returned_of_outcome ho, h⟩
  · cases h

/-- Whether an entry that reads the time of a session finds it. -/
def findsSession (x : Nat × Entry machine) : Bool :=
  match x.2.stmt with
  | .db (.session (.authenticatedAt sid)) =>
    x.2.ctx.fault = none && x.2.before.db.sessions.any fun s => s.key = sid
  | _ => true

theorem sessionsRead_of {c : (server).Conf} (h : c.trace.all findsSession = true) :
    SessionsRead c := by
  intro i e sid hm hs
  have hfinds := List.all_eq_true.mp h (i, e) hm
  unfold findsSession at hfinds
  simp only [hs, Bool.and_eq_true, decide_eq_true_eq, List.any_eq_true] at hfinds
  exact hfinds

theorem auth_times_held_rotated : AuthTimesHeld (after rotatedAgain) :=
  auth_times_held (after_reachable _) (sessionsRead_of (by decide +kernel))

/-- Two ID tokens of one session with two times. -/
theorem auth_times_differ : ¬ ∀ (now : Timestamp) (c : (server).Conf),
    Reachable (World.fresh now) c → AuthTimesHeld c := by
  intro hall
  have hheld := hall 0 (after rotatedAfterLogout) (after_reachable _)
  have hfirst : (idTokenOf (after rotatedAfterLogout) 3).map (fun h => (h.sid, h.authTime)) =
      some (aliceSession, 0) := by decide +kernel
  have hlast : (idTokenOf (after rotatedAfterLogout) 6).map (fun h => (h.sid, h.authTime)) =
      some (aliceSession, 100) := by decide +kernel
  obtain ⟨hint, hsome, heq⟩ := Option.map_eq_some_iff.mp hfirst
  obtain ⟨hint', hsome', heq'⟩ := Option.map_eq_some_iff.mp hlast
  have hsame := hheld.stable 3 6 hint hint' (signedBy_of hsome) (signedBy_of hsome')
  simp only [Prod.mk.injEq] at heq heq'
  rw [heq.1, heq'.1, heq.2, heq'.2] at hsame
  exact absurd (hsame rfl) (by decide)

end SoulAuth.Sample
