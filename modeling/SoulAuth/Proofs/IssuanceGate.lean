import SoulAuth.Proofs.LiveSids
import SoulAuth.Proofs.RecordKeys
import SoulAuth.Proofs.Tables

/-! # The gate before sessions and codes

A session or a code should be issued only for an account in use whose
identity root is in use. The endpoints that issue them do not share one gate:
some check the account only, one the root only, and two check nothing.
-/

namespace SoulAuth

open Framework Framework.System

section

variable [Platform]

/-! ## The two checks -/

/-- What has to hold of the user for whom something is issued. -/
inductive GateCheck
  | account
  | root
  deriving DecidableEq, Repr

/-- The account is active in the row that the request read last; the root was
    there, of a human with an account, and active, at a statement of the
    request. -/
def GateCheck.Passed (h : List (Entry machine)) (u : User) : GateCheck → Prop
  | account => u.accountStatus = .active
  | root => ∃ e ∈ h, ∃ x ∈ e.before.db.identity.actors, u.subjectId = some x.key ∧
      x.actorKind = .human ∧ x.status = .active ∧ HasAccount e.before.db x.key

/-- The entry creates a session of the user, or a code. -/
inductive IssuesTo (u : User) (e : Entry machine) : Prop
  | session (s : Session) (created : Answered (.session (.create s)) () e)
      (owner : u.subjectId = some s.userId)
  | code (row : OidcAuthorizationCode) (userKey : Str)
      (saved : Answered (.code (.save row userKey)) () e) (owner : userKey = u.key)

/-- The entry creates a session or a code, for whomever. -/
def Issues (e : Entry machine) : Prop :=
  (∃ s, Answered (.session (.create s)) () e) ∨
    ∃ row userKey, Answered (.code (.save row userKey)) () e

/-- At place `n` request `i`, at this endpoint, issues something to a human. -/
structure Issuance (c : (server).Conf) (n i : Nat) (e : Entry machine) (ep : Endpoint) : Prop where
  place : c.trace[n]? = some (i, e)
  request : ∃ cfg, c.reqOf i = some ⟨cfg, ep⟩
  human : ∀ proof, ep ≠ .authenticateAiActor proof
  issues : Issues e

/-- What is issued at place `n` is for the user whose row the request read
    last, and the check holds of it. -/
def IssuedUnder (c : (server).Conf) (n i : Nat) (e : Entry machine) (check : GateCheck) : Prop :=
  ∃ u, lastUserRead (entriesOf (S := server) i (c.trace.take n)) = some u ∧ IssuesTo u e ∧
    check.Passed (entriesOf (S := server) i (c.trace.take n)) u

/-- Both checks hold of everything that is issued. -/
def IssuanceGate (c : (server).Conf) : Prop :=
  ∀ n i e ep, Issuance c n i e ep → ∀ check, IssuedUnder c n i e check

/-! ## The checks that are left out -/

/-- The bearer that was presented speaks for the user, and its root passed
    the gate. -/
def BearerPassed (credentials : AuthorizeCredentials) (h : List (Entry machine)) (u : User) :
    Prop :=
  ∃ claims x, credentials.bearer = some claims ∧ ActorPassed h claims.sub x ∧
    u.subjectId = some x.key

/-- The checks that an endpoint leaves out. A registration and the link of
    the mail make none; the callback of a provider does not ask for the
    account; and `authorize` does not ask for the root, unless a bearer led
    it to the user. -/
def Omits (h : List (Entry machine)) : Endpoint → GateCheck → Prop
  | .register _ _, _ => True
  | .verifyEmail _ _, _ => True
  | .oauthCallback _ _, .account => True
  | .authorize _ credentials, .root =>
    ∀ u, lastUserRead h = some u → ¬ BearerPassed credentials h u
  | _, _ => False

/-- Where a check is left out, it would have passed. -/
def OmissionsHarmless (c : (server).Conf) : Prop :=
  ∀ n i e ep, Issuance c n i e ep → ∀ check,
    Omits (entriesOf (S := server) i (c.trace.take n)) ep check → IssuedUnder c n i e check

section

variable {now : Timestamp} {c : (server).Conf} {i n : Nat} {e : Entry machine} {ep : Endpoint}
  {u : User} {x : ActorIdentity} {key : Str}

/-! ## The roots that were found -/

/-- A root that the gate found is the root of the user, when it has the key
    that the user names. -/
theorem ActorPassed.root_passed (hc : Reachable (World.fresh now) c)
    (h : ActorPassed (entriesOf (S := server) i (c.trace.take n)) key x)
    (hu : u.subjectId = some x.key) :
    GateCheck.root.Passed (entriesOf (S := server) i (c.trace.take n)) u := by
  obtain ⟨e, he, hroot⟩ := h.found
  obtain ⟨m, -, hat⟩ := mem_entriesOf_take.mp he
  obtain ⟨c₁, hc₁, -, hstate⟩ := hc.before (split_at hat)
  have hmem : x ∈ e.before.db.identity.actors := KeyedTable.mem_of_rowAt hroot.rootAt
  have haccount : HasAccount e.before.db x.key := by
    rw [← hstate]
    apply (linked_holds hc₁).account
    exact ⟨x, hstate ▸ hmem, rfl, h.human⟩
  exact ⟨e, he, x, hmem, hu, h.human, h.active, haccount⟩

/-- The gate finds the root that the row of the user names. -/
theorem UserPassed.subjectId (hc : Reachable (World.fresh now) c) (hu : Seen c u)
    (h : UserPassed (entriesOf (S := server) i (c.trace.take n)) u.key x) :
    u.subjectId = some x.key := by
  obtain ⟨g, hg, hkey, hsubject⟩ := hu.conceived hc
  have hall : UserPassed (entriesOf (S := server) i c.trace) u.key x := by
    rw [← List.take_append_drop n c.trace, entriesOf_append]
    exact h.mono _
  rw [hkey] at hall
  rw [hsubject, hall.root_key hc hg]

theorem UserPassed.root_passed (hc : Reachable (World.fresh now) c) (hu : Seen c u)
    (h : UserPassed (entriesOf (S := server) i (c.trace.take n)) u.key x) :
    GateCheck.root.Passed (entriesOf (S := server) i (c.trace.take n)) u := by
  have hsubject := h.subjectId hc hu
  obtain ⟨key, -, hpassed⟩ := h
  exact hpassed.root_passed hc hsubject

/-- A subject that the gate followed is, in its normal form, the plain key of
    a user. -/
theorem UserPassed.isPlainKey (hc : Reachable (World.fresh now) c) {sub : Str}
    (h : UserPassed (entriesOf (S := server) i (c.trace.take n)) sub x) :
    IsPlainKey (normalizeUserId sub) := by
  obtain ⟨k, ⟨e, he, hread⟩, -⟩ := h
  obtain ⟨m, -, hat⟩ := mem_entriesOf_take.mp he
  have hreply := hread.reply
  simp only [DbStmt.exec, IdentityStmt.exec, UserStmt.exec, Except.ok.injEq] at hreply
  obtain ⟨v, hv, hsubject⟩ := Option.bind_eq_some_iff.mp hreply
  have hseen : Seen c v := ⟨i, e, List.mem_of_getElem? hat, List.mem_of_find?_eq_some hv⟩
  have hkey : v.key = normalizeUserId sub := by simpa using List.find?_some hv
  rw [← hkey]
  exact (hseen.plain hc hsubject).1

/-- The completion of a login looks the account and the root up under two
    readings of one subject. -/
theorem UserPassed.of_challenge (hc : Reachable (World.fresh now) c) (hu : Seen c u) {sub : Str}
    (h : UserPassed (entriesOf (S := server) i (c.trace.take n)) sub x)
    (hkey : u.key = idArgumentKey sub) :
    UserPassed (entriesOf (S := server) i (c.trace.take n)) u.key x := by
  obtain ⟨g, -, -, hsubject⟩ := hu.conceived hc
  have hplain := (hu.plain hc hsubject).1
  have hsame : u.key = normalizeUserId sub := by
    rw [hkey]
    exact idArgumentKey_eq_normalizeUserId (hkey ▸ hplain) (h.isPlainKey hc)
  have hnormal : normalizeUserId u.key = u.key := hplain.normalizeId (by decide)
  obtain ⟨k, hk, hpassed⟩ := h
  refine ⟨k, ?_, hpassed⟩
  rw [hnormal, hsame]
  exact hk

/-! ## What the endpoints check -/

/-- Who a new session is for, and what its request checked. -/
theorem session_issuedUnder (hc : Reachable (World.fresh now) c) {s : Session}
    (hi : Issuance c n i e ep) (hs : Answered (.session (.create s)) () e) (check : GateCheck)
    (hchecks : ¬ Omits (entriesOf (S := server) i (c.trace.take n)) ep check) :
    IssuedUnder c n i e check := by
  obtain ⟨cfg, hreq⟩ := hi.request
  obtain ⟨r, hr, hopens⟩ := conducted_at hc (split_at hi.place)
  obtain rfl := Option.some.inj (hr.symm.trans hreq)
  unfold Conducted at hopens
  rw [hs.stmt] at hopens
  rcases hopens.owner with ⟨proof, hproof, -⟩ | ⟨u, hread, howner, hgate⟩
  · exact absurd hproof (hi.human proof)
  refine ⟨u, hread, .session s hs howner, ?_⟩
  have hu : Seen c u := seen_of_lastUserRead (List.take_append_drop n c.trace).symm hread
  cases ep with
  | register req ip => exact absurd trivial hchecks
  | verifyEmail token ip => exact absurd trivial hchecks
  | oauthCallback info ip =>
    obtain ⟨x, hpassed⟩ := hgate
    cases check with
    | account => exact absurd trivial hchecks
    | root => exact hpassed.root_passed hc hu
  | login email password ip =>
    obtain ⟨hactive, x, hpassed⟩ := hgate
    cases check with
    | account => exact hactive
    | root => exact hpassed.root_passed hc hu
  | mfaLoginVerify challenge factor ip =>
    obtain ⟨hactive, hkey, x, hpassed⟩ := hgate
    cases check with
    | account => exact hactive
    | root => exact (hpassed.of_challenge hc hu hkey).root_passed hc hu
  | _ => exact absurd hgate id

/-- Who a new code is for, and what its request checked. -/
theorem code_issuedUnder (hc : Reachable (World.fresh now) c) {row : OidcAuthorizationCode}
    {userKey : Str} (hi : Issuance c n i e ep) (hs : Answered (.code (.save row userKey)) () e)
    (check : GateCheck)
    (hchecks : ¬ Omits (entriesOf (S := server) i (c.trace.take n)) ep check) :
    IssuedUnder c n i e check := by
  obtain ⟨cfg, hreq⟩ := hi.request
  obtain ⟨r, hr, hgrants⟩ := conducted_at hc (split_at hi.place)
  obtain rfl := Option.some.inj (hr.symm.trans hreq)
  unfold Conducted at hgrants
  rw [hs.stmt] at hgrants
  obtain ⟨request, credentials, rfl, hgrants⟩ := hgrants
  obtain ⟨u, sid, hread, hactive, hkey, -, -⟩ := hgrants.owner
  have hu : Seen c u := seen_of_lastUserRead (List.take_append_drop n c.trace).symm hread
  obtain ⟨g, -, -, hsubject⟩ := hu.conceived hc
  have hnormal : normalizeUserId u.key = u.key := (hu.plain hc hsubject).1.normalizeId (by decide)
  refine ⟨u, hread, .code row userKey hs (hkey.trans hnormal), ?_⟩
  cases check with
  | account => exact hactive
  | root =>
    -- only a bearer makes `authorize` look at the root
    have hbearer : BearerPassed credentials (entriesOf (S := server) i (c.trace.take n)) u := by
      by_contra hnone
      apply hchecks
      intro v hv
      obtain rfl := Option.some.inj (hread.symm.trans hv)
      exact hnone
    obtain ⟨claims, x, -, hpassed, hlinked⟩ := hbearer
    exact hpassed.root_passed hc hlinked

/-- **The gate has gaps.** In every run, what is issued to a human is issued
    to an account in use with a root in use exactly when this happens to be so
    wherever an endpoint leaves one of the two checks out. -/
theorem issuance_gate_iff (hc : Reachable (World.fresh now) c) :
    IssuanceGate c ↔ OmissionsHarmless c := by
  constructor
  · intro hgate n i e ep hi check _
    exact hgate n i e ep hi check
  · intro hharmless n i e ep hi check
    by_cases hchecks : Omits (entriesOf (S := server) i (c.trace.take n)) ep check
    · exact hharmless n i e ep hi check hchecks
    · rcases hi.issues with ⟨s, hs⟩ | ⟨row, userKey, hs⟩
      · exact session_issuedUnder hc hi hs check hchecks
      · exact code_issuedUnder hc hi hs check hchecks

end

end

end SoulAuth

namespace SoulAuth.Sample

open Framework Framework.System

/-- Alice registers, an administrator suspends her account, and she follows
    the link of the mail. -/
def suspendedThenVerified : List (server).Action :=
  start verifying (.register registration "ip".toList) :: steps 0 14 ++
    start verifying (.updateAccountStatus (numbered 'u' 3) .suspended) :: steps 1 9 ++
    start verifying (.verifyEmail (numbered 'u' 1) "ip".toList) :: steps 2 9

/-- Whether request `i` creates a session at place `n`. -/
def createsSessionAt (c : (server).Conf) (n i : Nat) : Bool :=
  match c.trace[n]? with
  | some (j, e) =>
    match e.stmt with
    | .db (.session (.create s)) =>
      j = i && e.ctx.fault = none &&
        ((DbStmt.session (.create s)).exec (clock e) e.before.db).1.toOption = some ()
    | _ => false
  | none => false

theorem createsSessionAt_spec {c : (server).Conf} {n i : Nat}
    (h : createsSessionAt c n i = true) :
    ∃ e s, c.trace[n]? = some (i, e) ∧ Answered (.session (.create s)) () e := by
  unfold createsSessionAt at h
  split at h
  · next j e hat =>
    split at h
    · next s hs =>
      obtain ⟨hboth, hreply⟩ := Bool.and_eq_true_iff.mp h
      obtain ⟨hj, hfault⟩ := Bool.and_eq_true_iff.mp hboth
      obtain rfl : j = i := of_decide_eq_true hj
      refine ⟨e, s, hat, hs, of_decide_eq_true hfault, ?_⟩
      cases hr : ((DbStmt.session (.create s)).exec (clock e) e.before.db).1 with
      | ok b => rfl
      | error x =>
        rw [hr] at hreply
        cases of_decide_eq_true hreply
    · cases h
  · cases h

theorem suspendedThenVerified_facts :
    let c := after suspendedThenVerified
    createsSessionAt c 30 2 = true ∧
      (lastUserRead (entriesOf (S := server) 2 (c.trace.take 30))).map User.accountStatus =
        some .suspended ∧
      c.reqOf 2 = some ⟨verifying, .verifyEmail (numbered 'u' 1) "ip".toList⟩ := by
  decide +kernel

/-- In her run the two agree. -/
theorem issuance_gate_iff_alice :
    IssuanceGate (after suspendedThenVerified) ↔ OmissionsHarmless (after suspendedThenVerified) :=
  issuance_gate_iff (after_reachable _)

/-- The link gives Alice a session, though her account is suspended. -/
theorem issuance_gate_fails : ¬ ∀ c : (server).Conf, Reachable (World.fresh 0) c →
    IssuanceGate c := by
  intro hclaim
  obtain ⟨hcreates, hstatus, hreq⟩ := suspendedThenVerified_facts
  obtain ⟨e, s, hat, hs⟩ := createsSessionAt_spec hcreates
  have hissuance : Issuance (after suspendedThenVerified) 30 2 e
      (.verifyEmail (numbered 'u' 1) "ip".toList) :=
    ⟨hat, ⟨verifying, hreq⟩, nofun, .inl ⟨s, hs⟩⟩
  obtain ⟨u, hread, -, hactive⟩ := hclaim _ (after_reachable _) 30 2 e _ hissuance .account
  rw [hread] at hstatus
  have hboth : AccountStatus.active = .suspended :=
    (show u.accountStatus = .active from hactive).symm.trans (Option.some.inj hstatus)
  cases hboth

end SoulAuth.Sample
