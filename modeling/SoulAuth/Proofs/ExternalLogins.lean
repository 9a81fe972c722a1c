import SoulAuth.Proofs.HumanAggregates

/-! # External identities and users

A login with an external identity finds its user through the binding, or
creates both in one transaction. The unique index on bindings makes this a
partial injection from external identities to users, whatever the email
addresses are.
-/

namespace SoulAuth

open Framework Framework.System

section

variable [Platform]

/-! ## How a login finds its user -/

/-- The user that a login with an external identity ends up with: the one of
    the bound root, or the one it has just created. -/
inductive Resolves (info : OAuthUserInfo) (h : List (Entry machine)) (u : User) : Prop
  | bound (b : IdentityBinding) (a : ActorIdentity)
      (binding : Heard h (.identity (.findBinding info.provider info.providerUserId)) (some b))
      (root : Heard h (.identity (.actor (.find
        (idArgumentKey (actorAddress b.actorIdentityId))))) (some a))
      (user : Heard h (.identity (.user (.findByActor a.key))) (some u))
  | created (x : HumanAggregate) (created : Heard h (.identity (.createHuman x)) ())
      (user : Heard h (.identity (.user (.findById (idArgumentKey (userAddress x.user.key)))))
        (some u))

section

variable {h : List (Entry machine)} {cfg : Config} {info : OAuthUserInfo} {ip : Str} {u : User}

theorem Resolves.mono (hr : Resolves info h u) (t : List (Entry machine)) :
    Resolves info (h ++ t) u := by
  cases hr with
  | bound b a binding root user => exact .bound b a (binding.mono t) (root.mono t) (user.mono t)
  | created x created user => exact .created x (created.mono t) (user.mono t)

/-- The statement that creates a human is the last one of its program. -/
theorem createHumanAggregate_creates {new : NewHuman} :
    Ending (fun h' keys => ∃ x, x.user.key = keys.2 ∧ Heard h' (.identity (.createHuman x)) ())
      h (createHumanAggregate new) := by
  iterate 7
    apply ending_bind
    intro _ _
  apply meets_query_bind (fun _ _ _ => trivial) _ fun _ _ _ => trivial
  intro e _ _ he
  exact ⟨_, rfl, he.heard⟩

theorem findOrCreateOauthUser_resolves :
    Ending (fun h' u => Resolves info h' u) h (findOrCreateOauthUser info) := by
  -- what the look-up of the binding has found
  have hbound : Ending (fun h' found => ∀ a, found = some a →
      ∃ b, Heard h' (.identity (.findBinding info.provider info.providerUserId)) (some b) ∧
        Heard h' (.identity (.actor (.find (idArgumentKey (actorAddress b.actorIdentityId)))))
          (some a)) h (resolveBinding info.provider info.providerUserId) := by
    apply meets_query_bind (fun _ _ _ => trivial) _ fun _ _ _ => trivial
    intro e₁ found _ he₁
    cases found with
    | none =>
      intro a ha
      cases ha
    | some b =>
      show Prog.Meets _ _ _ _ (if b.isActive = true then _ else _)
      split
      · apply ending_query (s := .identity (.actor (.find
          (idArgumentKey (actorAddress b.actorIdentityId)))))
        intro e₂ a he₂ a' ha
        cases ha
        exact ⟨b, he₁.heard.mono [e₂], he₂.heard⟩
      · intro a ha
        cases ha
  apply Prog.Meets.bind hbound _ fun _ _ _ => trivial
  intro t found hfound
  cases found with
  | some a =>
    obtain ⟨b, hbinding, hroot⟩ := hfound a rfl
    apply meets_query_bind (fun _ _ _ => trivial) _ fun _ _ _ => trivial
    intro e row _ he
    cases row with
    | none => trivial
    | some u => exact .bound b a (hbinding.mono [e]) (hroot.mono [e]) he.heard
  | none =>
    apply meets_ofExcept_bind _ fun _ _ => trivial
    intro email _
    apply ending_bind
    intro h₁ existing
    apply meets_ensure_bind _ fun _ => trivial
    intro _
    apply ending_bind
    intro h₂ name
    apply Prog.Meets.bind (ending_mapError createHumanAggregate_creates) _ fun _ _ _ => trivial
    intro t' keys hcreated
    obtain ⟨x, hkey, hx⟩ := hcreated
    apply meets_query_bind (fun _ _ _ => trivial) _ fun _ _ _ => trivial
    intro e row _ he
    cases row with
    | none => trivial
    | some u => exact .created x (hx.mono [e]) (hkey ▸ he.heard)

/-- The row that an update answers has the key that it was written under. -/
theorem updated_key {key : Str} {content u' : User} {e : Entry machine}
    (he : Answered (.identity (.user (.update key content))) u' e) : u'.key = key := by
  have hreply := he.reply
  simp only [DbStmt.exec, IdentityStmt.exec, UserStmt.exec] at hreply
  split at hreply
  · split at hreply
    · cases hreply
    · split at hreply
      · cases hreply
      · cases hreply
        rfl
  · cases hreply

/-- The account of the session is the one that was found, under the key that
    the last login was written under. -/
theorem handleOauthCallback_resolves :
    Ending (fun h' issued => ∃ u, Resolves info h' u ∧
      issued.user.id = idArgumentKey (userAddress u.key)) h
      (handleOauthCallback cfg info ip) := by
  apply Prog.Meets.bind findOrCreateOauthUser_resolves _ fun _ _ _ => trivial
  intro t₁ u hu
  apply ending_after
  intro t₂ gate
  have hu₂ := hu.mono t₂
  generalize h ++ t₁ ++ t₂ = h₂ at hu₂
  have htouch : Ending (fun h' u' => Resolves info h' u ∧
      u'.key = idArgumentKey (userAddress u.key)) h₂ (touchLastLogin u ip) := by
    apply ending_after
    intro t₃ now
    apply ending_query (s := .identity (.user (.update (idArgumentKey (userAddress u.key)) _)))
    intro e₄ u' he₄
    exact ⟨(hu₂.mono t₃).mono [e₄], updated_key he₄⟩
  apply Prog.Meets.bind htouch _ fun _ _ _ => trivial
  intro t₃ u' hu'
  obtain ⟨hu₃, hkey⟩ := hu'
  -- the rest is the session of the account that was written
  apply ending_after
  intro t₄ now
  apply ending_after
  intro t₅ sessionKey
  apply meets_orThrow_bind _ fun _ => trivial
  intro actorKey _
  apply ending_after
  intro t₆ _
  apply ending_after
  intro t₇ has
  exact ⟨u, (((hu₃.mono t₄).mono t₅).mono t₆).mono t₇, hkey⟩

/-- The rule of logins with external identities. -/
def loginRule : Rule server where
  assumes _ := True
  entry _ _ _ := True
  outcome c h r := ∀ info ip response, c.endpoint = .oauthCallback info ip →
    r = .ok (.loggedIn response) →
    ∃ u, Resolves info h u ∧ response.issued.user.id = idArgumentKey (userAddress u.key)

theorem loginRule_met : loginRule.Met := by
  intro ⟨cfg, endpoint⟩
  by_cases hlogin : ∃ info ip, endpoint = .oauthCallback info ip
  · obtain ⟨info, ip, rfl⟩ := hlogin
    show (respond Reply.loggedIn (handleOauthCallback cfg info ip >>= withCookie)).Meets _ _ _ []
    have hresolves : Ending (fun h' (response : LoginResponse) => ∃ u, Resolves info h' u ∧
        response.issued.user.id = idArgumentKey (userAddress u.key)) []
        (handleOauthCallback cfg info ip >>= withCookie) := by
      apply Prog.Meets.bind handleOauthCallback_resolves _ fun _ _ _ => trivial
      intro t issued hissued
      obtain ⟨u, hu, hid⟩ := hissued
      apply ending_after
      intro t' now
      exact ⟨u, hu.mono t', hid⟩
    apply Prog.Meets.bind (ending_mapError hresolves)
    · intro t response hresponse info' ip' response' hep heq
      cases hep
      cases heq
      exact hresponse
    · intro t x _ _ _ _ _ heq
      cases heq
  · apply Prog.meets_trivial.weaken (fun _ hw => hw) (fun _ _ _ he => he)
    intro t r _ info ip response hep
    exact absurd ⟨info, ip, hep⟩ hlogin

end

/-! ## Bindings along a run -/

section

variable {w : World} {now : Timestamp} {c : (server).Conf} {i : Nat} {e : Entry machine}
  {tr : List (Nat × Entry machine)} {a : HumanAggregate} {b : IdentityBinding}

/-- What an entry makes of the bindings: it adds the one of a new human, or
    nothing. -/
theorem bindings_after (e : Entry machine) :
    e.after.db.identity.bindings = e.before.db.identity.bindings ∨
      ∃ a, e.stmt = .db (.identity (.createHuman a)) ∧
        a.violation e.before.db.identity = none ∧
        e.after.db.identity.bindings = e.before.db.identity.bindings ++ a.binding.toList := by
  rcases identity_after e with hsame | ⟨s, hs, hafter⟩
  · exact .inl (by rw [hsame])
  · cases s with
    | createHuman a =>
      rcases createHuman_after hs with hsame | ⟨hfree, hall⟩
      · exact .inl (by rw [hsame])
      · exact .inr ⟨a, hs, hfree, by rw [hall]⟩
    | _ => exact .inl (by rw [hafter]; rfl)

/-- A binding lasts: through one entry, and through a run. -/
theorem binding_persist (hb : b ∈ e.before.db.identity.bindings) :
    b ∈ e.after.db.identity.bindings := by
  rcases bindings_after e with hsame | ⟨a, -, -, hnew⟩
  · exact hsame ▸ hb
  · rw [hnew]
    exact List.mem_append_left _ hb

theorem binding_persist_along {w' : World} (h : Steps (S := server) w tr w')
    (hb : b ∈ w.db.identity.bindings) : b ∈ w'.db.identity.bindings :=
  h.preserves (P := fun w => b ∈ w.db.identity.bindings) hb fun _ _ _ hb => binding_persist hb

/-- A binding that was in the table belongs to a human, and still does. -/
theorem binding_owner (hc : Reachable (World.fresh now) c) (hm : (i, e) ∈ c.trace)
    (hb : b ∈ e.before.db.identity.bindings) :
    b ∈ c.state.db.identity.bindings ∧ ∃ a, Conceived c.trace a ∧ a.binding = some b := by
  obtain ⟨tr₁, tr₂, htr⟩ := List.append_of_mem hm
  constructor
  · have hall := hc.steps
    rw [htr] at hall
    exact binding_persist_along hall.split_entry.2 (binding_persist hb)
  · obtain ⟨c₁, hc₁, htr₁, hstate⟩ := hc.before htr
    obtain ⟨as, hh⟩ := humans_hold hc₁
    rw [← hstate, hh.bindings] at hb
    obtain ⟨a, ha, hab⟩ := List.mem_flatMap.mp hb
    refine ⟨a, ?_, by simpa using hab⟩
    rw [htr, ← htr₁]
    exact (hh.conceived a ha).mono _

/-- An external identity is bound once. -/
theorem bindings_nodup {w : World} (h : Steps (S := server) (World.fresh now) tr w) :
    (w.db.identity.bindings.map fun b => (b.provider, b.providerSubject)).Nodup := by
  apply h.preserves (P := fun w =>
    (w.db.identity.bindings.map fun b => (b.provider, b.providerSubject)).Nodup) List.nodup_nil
  intro i e _ hn
  rcases bindings_after e with hsame | ⟨a, -, hfree, hnew⟩
  · rw [hsame]
    exact hn
  · rw [hnew, List.map_append]
    cases hb : a.binding with
    | none => simpa using hn
    | some x =>
      apply List.nodup_append.mpr ⟨hn, List.nodup_singleton _, _⟩
      intro k hk k' hk' heq
      obtain ⟨y, hy, rfl⟩ := List.mem_map.mp hk
      obtain rfl := List.mem_singleton.mp hk'
      exact (violation_none hfree).2 x hb y hy heq

/-- The user that an external identity stands for. -/
structure Bound (c : (server).Conf) (a : HumanAggregate) (info : OAuthUserInfo) : Prop where
  conceived : Conceived c.trace a
  binding : ∃ b ∈ c.state.db.identity.bindings, a.binding = some b ∧
    b.provider = info.provider ∧ b.providerSubject = info.providerUserId

/-- An external identity stands for one user. -/
theorem Bound.unique (hc : Reachable (World.fresh now) c) {a' : HumanAggregate}
    {info info' : OAuthUserInfo} (h : Bound c a info) (h' : Bound c a' info')
    (heq : (info.provider, info.providerUserId) = (info'.provider, info'.providerUserId)) :
    a = a' := by
  obtain ⟨b, hb, hab, hprovider, hsubject⟩ := h.binding
  obtain ⟨b', hb', hab', hprovider', hsubject'⟩ := h'.binding
  have hsame : b = b' := by
    apply List.inj_on_of_nodup_map (bindings_nodup hc.steps) hb hb'
    rw [hprovider, hsubject, hprovider', hsubject', heq]
  have hroot := (h.conceived.consistent hc).binding b (by simp [hab])
  have hroot' := (h'.conceived.consistent hc).binding b' (by simp [hab'])
  have hkey : a.actor.key = a'.actor.key := by rw [← hroot, ← hroot', hsame]
  exact h.conceived.unique hc h'.conceived (v := a.actor.key) (by simp [HumanAggregate.keys])
    (by simp [HumanAggregate.keys, hkey])

/-- A user stands for one external identity. -/
theorem Bound.info_eq {info info' : OAuthUserInfo} (h : Bound c a info) (h' : Bound c a info') :
    (info.provider, info.providerUserId) = (info'.provider, info'.providerUserId) := by
  obtain ⟨b, -, hab, hprovider, hsubject⟩ := h.binding
  obtain ⟨b', -, hab', hprovider', hsubject'⟩ := h'.binding
  obtain rfl := Option.some.inj (hab.symm.trans hab')
  rw [← hprovider, ← hsubject, ← hprovider', ← hsubject']

/-- A user row of a state belongs to a human created in the run. -/
theorem user_conceived (hc : Reachable (World.fresh now) c) (hm : (i, e) ∈ c.trace) {u : User}
    (hu : u ∈ e.before.db.users) : ∃ a, Conceived c.trace a ∧ u.SameAccount a.user :=
  ((lineage_along hc).2 _ hm).users u hu

/-- The address of a human's user row leads to its key. -/
theorem Conceived.userAddress_key (hc : Reachable (World.fresh now) c)
    (ha : Conceived c.trace a) : idArgumentKey (userAddress a.user.key) = a.user.key := by
  have hplain := (ha.isPlainKey hc (v := a.user.key) (by simp [HumanAggregate.keys])).1
  exact hplain.idArgumentKey_address (by decide)

/-- A user that was found through its binding. -/
theorem bound_of_found (hc : Reachable (World.fresh now) c) {info : OAuthUserInfo} {u : User}
    {x : ActorIdentity}
    (hbinding : Heard (entriesOf (S := server) i c.trace)
      (.identity (.findBinding info.provider info.providerUserId)) (some b))
    (hroot : Heard (entriesOf (S := server) i c.trace)
      (.identity (.actor (.find (idArgumentKey (actorAddress b.actorIdentityId))))) (some x))
    (huser : Heard (entriesOf (S := server) i c.trace)
      (.identity (.user (.findByActor x.key))) (some u)) :
    ∃ a, Bound c a info ∧ u.key = a.user.key := by
  obtain ⟨e₁, hm₁, he₁⟩ := heard_mem hbinding fun _ he => he
  have hfound : e₁.before.db.identity.bindings.find? (fun b =>
      b.provider = info.provider && b.providerSubject = info.providerUserId) = some b := by
    have hreply := he₁.reply
    simpa [DbStmt.exec, IdentityStmt.exec] using hreply
  obtain ⟨hprovider, hsubject⟩ : b.provider = info.provider ∧
      b.providerSubject = info.providerUserId := by
    simpa using List.find?_some hfound
  obtain ⟨hlast, a, ha, hab⟩ := binding_owner hc hm₁ (List.mem_of_find?_eq_some hfound)
  -- the root of the binding is the root of the human, and so is the user
  have howner : b.actorIdentityId = a.actor.key := (ha.consistent hc).binding b (by simp [hab])
  have hplain := (ha.isPlainKey hc (v := a.actor.key) (by simp [HumanAggregate.keys])).1
  obtain ⟨e₂, -, he₂⟩ := heard_mem hroot fun _ he => he
  have hx : x.key = a.actor.key := by
    rw [KeyedTable.key_of_rowAt he₂.rootAt, howner]
    exact hplain.idArgumentKey_address (by decide)
  obtain ⟨e₃, hm₃, he₃⟩ := heard_mem huser fun _ he => he
  have hrow : e₃.before.db.users.find? (fun v => v.subjectId = some x.key) = some u := by
    have hreply := he₃.reply
    simpa [DbStmt.exec, IdentityStmt.exec, UserStmt.exec] using hreply
  obtain ⟨a', ha', hacc⟩ := user_conceived hc hm₃ (List.mem_of_find?_eq_some hrow)
  have hkey : a'.actor.key = a.actor.key := by
    have hself := (ha'.consistent hc).subject
    have hsubj : u.subjectId = some x.key := by simpa using List.find?_some hrow
    rw [← hacc.subjectId, hsubj, hx] at hself
    exact (Option.some.inj hself).symm
  obtain rfl := ha'.unique hc ha (v := a'.actor.key) (by simp [HumanAggregate.keys])
    (by simp [HumanAggregate.keys, hkey])
  exact ⟨a', ⟨ha', b, hlast, hab, hprovider, hsubject⟩, hacc.key⟩

/-- A user that the login has created. -/
theorem bound_of_created (hc : Reachable (World.fresh now) c) {cfg : Config}
    {info : OAuthUserInfo} {ip : Str} {u : User}
    (hr : c.reqOf i = some ⟨cfg, .oauthCallback info ip⟩)
    (hcreated : Heard (entriesOf (S := server) i c.trace) (.identity (.createHuman a)) ())
    (huser : Heard (entriesOf (S := server) i c.trace)
      (.identity (.user (.findById (idArgumentKey (userAddress a.user.key))))) (some u)) :
    ∃ a, Bound c a info ∧ u.key = a.user.key := by
  obtain ⟨e₁, hm₁, he₁⟩ := heard_mem hcreated fun _ he => he
  have ha : Conceived c.trace a := ⟨i, e₁, hm₁, he₁.stmt⟩
  have hmade : a.MadeBy (.oauthCallback info ip) :=
    CreatedBy.made hc ⟨e₁, a, hm₁, he₁.stmt, rfl⟩ hr ha rfl
  obtain ⟨-, b, hab, hprovider, hsubject⟩ := hmade
  have hin : b ∈ e₁.after.db.identity.bindings := by
    have hreply := he₁.reply
    rw [he₁.after]
    simp only [DbStmt.exec, IdentityStmt.exec, HumanAggregate.create] at hreply ⊢
    split at hreply
    · cases hreply
    · exact List.mem_append_right _ (by simp [hab])
  have hlast : b ∈ c.state.db.identity.bindings := by
    obtain ⟨tr₁, tr₂, htr⟩ := List.append_of_mem hm₁
    have hall := hc.steps
    rw [htr] at hall
    exact binding_persist_along hall.split_entry.2 hin
  obtain ⟨e₂, -, he₂⟩ := heard_mem huser fun _ he => he
  have hrow : e₂.before.db.users.find? (fun v =>
      v.key = idArgumentKey (userAddress a.user.key)) = some u := by
    have hreply := he₂.reply
    simpa [DbStmt.exec, IdentityStmt.exec, UserStmt.exec] using hreply
  have hkey : u.key = idArgumentKey (userAddress a.user.key) := by
    simpa using List.find?_some hrow
  exact ⟨a, ⟨ha, b, hlast, hab, hprovider, hsubject⟩, hkey.trans (ha.userAddress_key hc)⟩

/-- A login with an external identity that has succeeded has returned the
    user that this identity stands for. -/
theorem login_bound (hc : Reachable (World.fresh now) c) {cfg : Config} {info : OAuthUserInfo}
    {ip : Str} {response : LoginResponse}
    (hr : c.reqOf i = some ⟨cfg, .oauthCallback info ip⟩)
    (hret : c.Returned i (.ok (.loggedIn response))) :
    ∃ a, Bound c a info ∧ response.issued.user.id = a.user.key := by
  have hrule := hc.rule loginRule_met fun _ => trivial
  obtain ⟨r, hr', hout⟩ := hrule.returned hret
  cases hr.symm.trans hr'
  obtain ⟨u, hu, hid⟩ := hout info ip response rfl rfl
  have hbound : ∃ a, Bound c a info ∧ u.key = a.user.key := by
    cases hu with
    | bound b x binding root user => exact bound_of_found hc binding root user
    | created x created user => exact bound_of_created hc hr created user
  obtain ⟨a, ha, hkey⟩ := hbound
  exact ⟨a, ha, by rw [hid, hkey, ha.conceived.userAddress_key hc]⟩

/-- **External logins.** Two logins with external identities return the same
    user exactly when the identities are the same, and the user that a login
    returns was created by a login with the same identity. -/
theorem externalLogins_injective (hc : Reachable (World.fresh now) c) :
    (∀ i j cfg cfg' info info' ip ip' response response',
      c.reqOf i = some ⟨cfg, .oauthCallback info ip⟩ →
      c.Returned i (.ok (.loggedIn response)) →
      c.reqOf j = some ⟨cfg', .oauthCallback info' ip'⟩ →
      c.Returned j (.ok (.loggedIn response')) →
      (response.issued.user.id = response'.issued.user.id ↔
        (info.provider, info.providerUserId) = (info'.provider, info'.providerUserId))) ∧
    ∀ i k cfg info ip response, c.reqOf i = some ⟨cfg, .oauthCallback info ip⟩ →
      c.Returned i (.ok (.loggedIn response)) → CreatedBy c k response.issued.user.id →
      ∃ cfg' info' ip', c.reqOf k = some ⟨cfg', .oauthCallback info' ip'⟩ ∧
        (info'.provider, info'.providerUserId) = (info.provider, info.providerUserId) := by
  constructor
  · intro i j cfg cfg' info info' ip ip' response response' hr hret hr' hret'
    obtain ⟨a, ha, hid⟩ := login_bound hc hr hret
    obtain ⟨a', ha', hid'⟩ := login_bound hc hr' hret'
    rw [hid, hid']
    constructor
    · intro hkey
      obtain rfl := ha.conceived.unique hc ha'.conceived (v := a.user.key)
        (by simp [HumanAggregate.keys]) (by simp [HumanAggregate.keys, hkey])
      exact ha.info_eq ha'
    · intro hinfo
      rw [ha.unique hc ha' hinfo]
  · intro i k cfg info ip response hr hret hby
    obtain ⟨a, ha, hid⟩ := login_bound hc hr hret
    have hcreated := hby
    obtain ⟨e, x, hm, -, -⟩ := hcreated
    obtain ⟨⟨cfg', endpoint⟩, hrk, -⟩ := within_at hc hm
    have hmade := hby.made hc hrk ha.conceived hid
    obtain ⟨b, -, hab, hprovider, hsubject⟩ := ha.binding
    cases endpoint with
    | register req ip' =>
      obtain ⟨-, hnone⟩ := hmade
      cases hab.symm.trans hnone
    | oauthCallback info' ip' =>
      obtain ⟨-, b', hab', hprovider', hsubject'⟩ := hmade
      obtain rfl := Option.some.inj (hab.symm.trans hab')
      exact ⟨cfg', info', ip', hrk, by rw [← hprovider, ← hsubject, ← hprovider', ← hsubject']⟩
    | _ => exact hmade.elim

end

end

namespace Sample

/-- Request 2 logs Bob in again, under another email address. -/
def rejoined : List (server).Action :=
  joined ++ start config (.oauthCallback { bobInfo with email := "a@b.c".toList } "ip".toList) ::
    steps 2 25

/-- Whether request `i` has logged somebody in. -/
def loggedIn (c : (server).Conf) (i : Nat) : Option LoginResponse :=
  match c.outcome i with
  | some (.ok (.loggedIn response)) => some response
  | _ => none

theorem returned_loggedIn {c : (server).Conf} {i : Nat} (h : (loggedIn c i).isSome = true) :
    ∃ response, c.Returned i (.ok (.loggedIn response)) := by
  unfold loggedIn at h
  split at h
  · next response ho => exact ⟨response, Conf.returned_of_outcome ho⟩
  · cases h

theorem externalLogins_injective_bob : ∃ response response',
    (after rejoined).Returned 1 (.ok (.loggedIn response)) ∧
    (after rejoined).Returned 2 (.ok (.loggedIn response')) ∧
    response.issued.user.id = response'.issued.user.id := by
  have hreq : (after rejoined).reqOf 1 = some ⟨config, .oauthCallback bobInfo "ip".toList⟩ := by
    decide +kernel
  have hreq' : (after rejoined).reqOf 2 = some ⟨config,
      .oauthCallback { bobInfo with email := "a@b.c".toList } "ip".toList⟩ := by
    decide +kernel
  obtain ⟨response, hret⟩ := returned_loggedIn (c := after rejoined) (i := 1) (by decide +kernel)
  obtain ⟨response', hret'⟩ := returned_loggedIn (c := after rejoined) (i := 2) (by decide +kernel)
  have hlogins := (externalLogins_injective (after_reachable rejoined)).1
  exact ⟨response, response', hret, hret',
    (hlogins _ _ _ _ _ _ _ _ _ _ hreq hret hreq' hret').mpr rfl⟩

end Sample

end SoulAuth
