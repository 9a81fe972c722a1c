import SoulAuth.Framework.OneShot
import SoulAuth.Proofs.ConductSystem

/-! # How an entry changes the tables

An entry either leaves the database alone or executes its statement on it,
and a statement only writes the tables of its own group.
-/

namespace SoulAuth

open Framework Framework.System

variable [Platform]

/-- An entry that changes the database executes its statement. -/
theorem db_after (e : Entry machine) : e.after.db = e.before.db ∨
    ∃ s, e.stmt = .db s ∧ e.after.db = (s.exec (clock e) e.before.db).2 := by
  obtain ⟨⟨elapsed, fault⟩, s, w⟩ := e
  cases s with
  | db s =>
    cases fault with
    | none => exact .inr ⟨s, rfl, rfl⟩
    | some fault =>
      cases fault with
      | refused | conflict => exact .inl rfl
      | lostReply => exact .inr ⟨s, rfl, rfl⟩
  | _ => exact .inl rfl

/-- The entry executes the statement `s`, whether or not the reply arrives. -/
structure Executes (s : DbStmt) (e : Entry machine) : Prop where
  stmt : e.stmt = .db s
  executed : e.ctx.fault = none ∨ e.ctx.fault = some .lostReply

instance (s : DbStmt) (e : Entry machine) : Decidable (Executes s e) :=
  decidable_of_iff (e.stmt = .db s ∧ (e.ctx.fault = none ∨ e.ctx.fault = some .lostReply))
    ⟨fun h => ⟨h.1, h.2⟩, fun h => ⟨h.1, h.2⟩⟩

theorem Executes.after {s : DbStmt} {e : Entry machine} (h : Executes s e) :
    e.after.db = (s.exec (clock e) e.before.db).2 := by
  obtain ⟨⟨elapsed, fault⟩, s', w⟩ := e
  obtain ⟨rfl, hf | hf⟩ := h
  · cases hf
    rfl
  · cases hf
    rfl

theorem Answered.executes {s : DbStmt} {a : s.Reply} {e : Entry machine} (h : Answered s a e) :
    Executes s e := ⟨h.stmt, .inl h.sound⟩

/-- An entry executes one statement on the database, or none. -/
theorem db_executed (e : Entry machine) :
    (∃ s, Executes s e) ∨ (∀ s, ¬ Executes s e) ∧ e.after.db = e.before.db := by
  by_cases hex : ∃ s, Executes s e
  · exact .inl hex
  · have hnone : ∀ s, ¬ Executes s e := fun s hs => hex ⟨s, hs⟩
    refine .inr ⟨hnone, ?_⟩
    obtain ⟨⟨elapsed, fault⟩, s, w⟩ := e
    cases s with
    | db s =>
      rcases fault with _ | _ | _ | _
      · exact absurd ⟨rfl, .inl rfl⟩ (hnone s)
      · rfl
      · rfl
      · exact absurd ⟨rfl, .inr rfl⟩ (hnone s)
    | _ => rfl

section

variable (e : Entry machine)

theorem identity_after : e.after.db.identity = e.before.db.identity ∨
    ∃ s, e.stmt = .db (.identity s) ∧
      e.after.db.identity = (s.exec e.before.db.identity).2 := by
  rcases db_after e with h | ⟨s, hs, h⟩
  · exact .inl (by rw [h])
  · cases s with
    | identity s => exact .inr ⟨s, hs, by rw [h]; rfl⟩
    | _ => exact .inl (by rw [h]; rfl)

/-- What an entry makes of the account rows. -/
theorem users_after : e.after.db.users = e.before.db.users ∨
    (∃ s, e.stmt = .db (.identity (.user s)) ∧
      e.after.db.users = (s.exec e.before.db.users).2) ∨
    ∃ a, e.stmt = .db (.identity (.createHuman a)) ∧
      e.after.db.users = e.before.db.users ++ [a.user] := by
  rcases identity_after e with h | ⟨s, hs, h⟩
  · exact .inl (congrArg IdentityTables.users h)
  · have hafter := congrArg IdentityTables.users h
    cases s with
    | user s => exact .inr (.inl ⟨s, hs, hafter⟩)
    | createHuman a =>
      simp only [IdentityStmt.exec, HumanAggregate.create] at hafter
      split at hafter
      · exact .inl hafter
      · exact .inr (.inr ⟨a, hs, hafter⟩)
    | _ => exact .inl hafter

theorem sessions_after : e.after.db.sessions = e.before.db.sessions ∨
    ∃ s, e.stmt = .db (.session s) ∧
      e.after.db.sessions = (s.exec e.before.db.users e.before.db.sessions).2 := by
  rcases db_after e with h | ⟨s, hs, h⟩
  · exact .inl (by rw [h])
  · cases s with
    | session s => exact .inr ⟨s, hs, by rw [h]; rfl⟩
    | _ => exact .inl (by rw [h]; rfl)

theorem resetTokens_after : e.after.db.resetTokens = e.before.db.resetTokens ∨
    ∃ s, e.stmt = .db (.resetToken s) ∧
      e.after.db.resetTokens = (s.exec (clock e) e.before.db.resetTokens).2 := by
  rcases db_after e with h | ⟨s, hs, h⟩
  · exact .inl (by rw [h])
  · cases s with
    | resetToken s => exact .inr ⟨s, hs, by rw [h]; rfl⟩
    | _ => exact .inl (by rw [h]; rfl)

theorem codes_after : e.after.db.codes = e.before.db.codes ∨
    ∃ s, e.stmt = .db (.code s) ∧
      e.after.db.codes = (s.exec e.before.db.users e.before.db.codes).2 := by
  rcases db_after e with h | ⟨s, hs, h⟩
  · exact .inl (by rw [h])
  · cases s with
    | code s => exact .inr ⟨s, hs, by rw [h]; rfl⟩
    | _ => exact .inl (by rw [h]; rfl)

theorem accessTokens_after : e.after.db.accessTokens = e.before.db.accessTokens ∨
    ∃ s, e.stmt = .db (.accessToken s) ∧
      e.after.db.accessTokens = (s.exec e.before.db.users e.before.db.accessTokens).2 := by
  rcases db_after e with h | ⟨s, hs, h⟩
  · exact .inl (by rw [h])
  · cases s with
    | accessToken s => exact .inr ⟨s, hs, by rw [h]; rfl⟩
    | _ => exact .inl (by rw [h]; rfl)

theorem refreshTokens_after : e.after.db.refreshTokens = e.before.db.refreshTokens ∨
    ∃ s, e.stmt = .db (.refreshToken s) ∧
      e.after.db.refreshTokens = (s.exec e.before.db.users e.before.db.refreshTokens).2 := by
  rcases db_after e with h | ⟨s, hs, h⟩
  · exact .inl (by rw [h])
  · cases s with
    | refreshToken s => exact .inr ⟨s, hs, by rw [h]; rfl⟩
    | _ => exact .inl (by rw [h]; rfl)

theorem ai_after : e.after.db.ai = e.before.db.ai ∨
    ∃ s, e.stmt = .db (.ai s) ∧ e.after.db.ai = (s.exec e.before.db.ai).2 := by
  rcases db_after e with h | ⟨s, hs, h⟩
  · exact .inl (by rw [h])
  · cases s with
    | ai s => exact .inr ⟨s, hs, by rw [h]; rfl⟩
    | _ => exact .inl (by rw [h]; rfl)

end

/-! ## Where rows come from -/

/-- The same code, used or not: only the owner's key is chosen at the save. -/
structure OidcAuthorizationCode.IsSaved (row saved : OidcAuthorizationCode) : Prop where
  codeHash : row.codeHash = saved.codeHash
  clientId : row.clientId = saved.clientId
  redirectUri : row.redirectUri = saved.redirectUri
  scope : row.scope = saved.scope
  codeChallenge : row.codeChallenge = saved.codeChallenge
  authSessionRef : row.authSessionRef = saved.authSessionRef
  expiresAt : row.expiresAt = saved.expiresAt

omit [Platform] in
theorem OidcAuthorizationCode.IsSaved.trans {a b d : OidcAuthorizationCode} (h : a.IsSaved b)
    (h' : b.IsSaved d) : a.IsSaved d :=
  ⟨h.codeHash.trans h'.codeHash, h.clientId.trans h'.clientId,
    h.redirectUri.trans h'.redirectUri, h.scope.trans h'.scope,
    h.codeChallenge.trans h'.codeChallenge, h.authSessionRef.trans h'.authSessionRef,
    h.expiresAt.trans h'.expiresAt⟩

/-- A code is in the table before an entry, or the entry saves it. -/
theorem code_before {e : Entry machine} {row : OidcAuthorizationCode}
    (hrow : row ∈ e.after.db.codes) :
    (∃ row₀ ∈ e.before.db.codes, row₀.userId = row.userId ∧ row.IsSaved row₀) ∨
    ∃ saved key, e.stmt = .db (.code (.save saved key)) ∧
      subjectOf e.before.db.users key = some row.userId ∧ row.IsSaved saved := by
  have hself : ∀ r : OidcAuthorizationCode, r.IsSaved r := fun _ =>
    ⟨rfl, rfl, rfl, rfl, rfl, rfl, rfl⟩
  rcases codes_after e with h | ⟨s, hs, h⟩
  · exact .inl ⟨row, h ▸ hrow, rfl, hself row⟩
  · rw [h] at hrow
    cases s with
    | save saved key =>
      simp only [CodeStmt.exec] at hrow
      split at hrow
      · exact .inl ⟨row, hrow, rfl, hself row⟩
      · next actorKey hkey =>
        split at hrow
        · exact .inl ⟨row, hrow, rfl, hself row⟩
        · rcases List.mem_append.mp hrow with hrow | hrow
          · exact .inl ⟨row, hrow, rfl, hself row⟩
          · obtain rfl := List.mem_singleton.mp hrow
            exact .inr ⟨saved, key, hs, hkey, rfl, rfl, rfl, rfl, rfl, rfl, rfl⟩
    | get => exact .inl ⟨row, hrow, rfl, hself row⟩
    | consume =>
      obtain ⟨row₀, hrow₀, rfl⟩ := List.mem_map.mp hrow
      refine .inl ⟨row₀, hrow₀, ?_, ?_⟩
      · split <;> rfl
      · split <;> exact ⟨rfl, rfl, rfl, rfl, rfl, rfl, rfl⟩
    | deleteExpired => exact .inl ⟨row, List.mem_of_mem_filter hrow, rfl, hself row⟩

/-- A refresh token is in the table before an entry, used or not, or the entry
    saves it. -/
theorem refresh_before {e : Entry machine} {t : OidcRefreshToken}
    (ht : t ∈ e.after.db.refreshTokens) :
    (∃ t₀ ∈ e.before.db.refreshTokens, t = { t₀ with used := t.used }) ∨
      e.stmt = .db (.refreshToken (.save t)) := by
  have hsame : t ∈ e.before.db.refreshTokens →
      ∃ t₀ ∈ e.before.db.refreshTokens, t = { t₀ with used := t.used } := fun h => ⟨t, h, rfl⟩
  rcases refreshTokens_after e with heq | ⟨s, hs, hafter⟩
  · exact .inl (hsame (heq ▸ ht))
  · rw [hafter] at ht
    cases s with
    | save row =>
      simp only [RefreshTokenStmt.exec] at ht
      split at ht
      · exact .inl (hsame ht)
      · rcases List.mem_append.mp ht with ht | ht
        · exact .inl (hsame ht)
        · obtain rfl := List.mem_singleton.mp ht
          exact .inr hs
    | get => exact .inl (hsame ht)
    | consume =>
      obtain ⟨t₀, ht₀, rfl⟩ := List.mem_map.mp ht
      refine .inl ⟨t₀, ht₀, ?_⟩
      split <;> rfl
    | _ => exact .inl (hsame (List.mem_of_mem_filter ht))

/-- An access token is in the table before an entry, or the entry saves it. -/
theorem access_before {e : Entry machine} {t : OidcAccessToken}
    (ht : t ∈ e.after.db.accessTokens) :
    t ∈ e.before.db.accessTokens ∨ Executes (.accessToken (.save t)) e := by
  rcases db_executed e with ⟨s, hs⟩ | ⟨-, hsame⟩
  · rw [hs.after] at ht
    cases s with
    | accessToken s =>
      cases s with
      | save row =>
        simp only [DbStmt.exec, AccessTokenStmt.exec] at ht
        split at ht
        · exact .inl ht
        · rcases List.mem_append.mp ht with ht | ht
          · exact .inl ht
          · obtain rfl := List.mem_singleton.mp ht
            exact .inr hs
      | get => exact .inl ht
      | _ => exact .inl (List.mem_of_mem_filter ht)
    | _ => exact .inl ht
  · exact .inl (hsame ▸ ht)

/-- An unused refresh token is in the table, unused, before an entry, or the
    entry saves it. -/
theorem unused_before {e : Entry machine} {t : OidcRefreshToken}
    (ht : t ∈ e.after.db.refreshTokens) (hunused : t.used = false) :
    t ∈ e.before.db.refreshTokens ∨ Executes (.refreshToken (.save t)) e := by
  rcases db_executed e with ⟨s, hs⟩ | ⟨-, hsame⟩
  · rw [hs.after] at ht
    cases s with
    | refreshToken s =>
      cases s with
      | save row =>
        simp only [DbStmt.exec, RefreshTokenStmt.exec] at ht
        split at ht
        · exact .inl ht
        · rcases List.mem_append.mp ht with ht | ht
          · exact .inl ht
          · obtain rfl := List.mem_singleton.mp ht
            exact .inr hs
      | get => exact .inl ht
      | consume h =>
        obtain ⟨t₀, ht₀, heq⟩ := List.mem_map.mp ht
        split at heq
        · rw [← heq] at hunused
          cases hunused
        · exact .inl (heq ▸ ht₀)
      | _ => exact .inl (List.mem_of_mem_filter ht)
    | _ => exact .inl ht
  · exact .inl (hsame ▸ ht)

/-! ## Reading a trace -/

section

variable {w : World} {c : (server).Conf} {tr₁ tr₂ : List (Nat × Entry machine)} {i j : Nat}
  {e : Entry machine}

/-- The entries of a request before a cut are among all of its entries. -/
theorem entriesOf_take (htr : c.trace = tr₁ ++ tr₂) {x : Entry machine}
    (hx : x ∈ entriesOf (S := server) i tr₁) : x ∈ entriesOf (S := server) i c.trace := by
  rw [htr, entriesOf_append]
  exact List.mem_append_left _ hx

/-- What a request has heard stands in the trace. -/
theorem heard_mem {h : List (Entry machine)} {s : DbStmt} {a : s.Reply}
    {tr : List (Nat × Entry machine)} (hh : Heard h s a)
    (hsub : ∀ e ∈ h, e ∈ entriesOf (S := server) i tr) :
    ∃ e, (i, e) ∈ tr ∧ Answered s a e := by
  obtain ⟨e, he, ha⟩ := hh
  exact ⟨e, mem_entriesOf.mp (hsub e he), ha⟩

/-- What a request has heard before a place of the trace. -/
theorem heard_before {n : Nat} {tr : List (Nat × Entry machine)} {s : DbStmt} {a : s.Reply}
    (hh : Heard (entriesOf (S := server) i (tr.take n)) s a) :
    ∃ m e, m < n ∧ tr[m]? = some (i, e) ∧ Answered s a e := by
  obtain ⟨e, he, ha⟩ := hh
  obtain ⟨m, hm, hat⟩ := mem_entriesOf_take.mp he
  exact ⟨m, e, hm, hat, ha⟩

/-- What the rule says of an entry, wherever it stands in the trace. -/
theorem conducted_at (hc : Reachable w c) (htr : c.trace = tr₁ ++ (i, e) :: tr₂) :
    ∃ r, c.reqOf i = some r ∧ Conducted r (entriesOf (S := server) i tr₁) e :=
  (conduct_holds hc).entries tr₁ i e tr₂ htr

/-- What an entry does lies within the footprint of its request. -/
theorem within_at (hc : Reachable w c) (hm : (i, e) ∈ c.trace) :
    ∃ r, c.reqOf i = some r ∧ e.stmt.Within r.endpoint.effects := by
  obtain ⟨tr₁, tr₂, htr⟩ := List.append_of_mem hm
  exact (footprint_holds hc).entries tr₁ i e tr₂ htr

/-- A value that a request draws and issues once is issued at one place of
    the trace. -/
theorem issued_once {f : Entry machine → Option Str} {g : Nat → Str} (hf : IsDraw f g)
    (hc : Reachable w c) {e' : Entry machine} {tr₃ : List (Nat × Entry machine)} {x : Effect}
    {v : Str} (htr : c.trace = tr₁ ++ (i, e) :: (tr₂ ++ (j, e') :: tr₃))
    (hx : e.stmt.effect = some x)
    (hv : v ∈ (entriesOf (S := server) i tr₁).filterMap f)
    (hv' : v ∈ (entriesOf (S := server) j (tr₁ ++ (i, e) :: tr₂)).filterMap f)
    (honce : x ∉ effectsOf (entriesOf (S := server) j (tr₁ ++ (i, e) :: tr₂))) : False := by
  have hcut : c.trace = (tr₁ ++ (i, e) :: tr₂) ++ (j, e') :: tr₃ := by
    rw [htr, List.append_assoc, List.cons_append]
  have hlift : ∀ {k : Nat} {tr tr' : List (Nat × Entry machine)}, c.trace = tr ++ tr' →
      v ∈ (entriesOf (S := server) k tr).filterMap f →
      v ∈ (entriesOf (S := server) k c.trace).filterMap f := by
    intro k tr tr' h hm
    rw [h, entriesOf_append, List.filterMap_append]
    exact List.mem_append_left _ hm
  obtain rfl : i = j := draws_thread hf hc (hlift htr hv) (hlift hcut hv')
  refine honce (mem_effectsOf.mpr ⟨e, ?_, hx⟩)
  rw [entriesOf_append]
  exact List.mem_append_right _ (mem_entriesOf.mpr (by simp))

/-- The same with the places of the trace. -/
theorem issued_once_at {f : Entry machine → Option Str} {g : Nat → Str} (hf : IsDraw f g)
    (hc : Reachable w c) {n m : Nat} {x : Effect} {v : Str} (hlt : n < m)
    (hn : c.trace[n]? = some (i, e)) (hx : e.stmt.effect = some x)
    (hv : v ∈ (entriesOf (S := server) i (c.trace.take n)).filterMap f)
    (hv' : v ∈ (entriesOf (S := server) j (c.trace.take m)).filterMap f)
    (honce : x ∉ effectsOf (entriesOf (S := server) j (c.trace.take m))) : False := by
  have hlift : ∀ {k l : Nat}, v ∈ (entriesOf (S := server) k (c.trace.take l)).filterMap f →
      v ∈ (entriesOf (S := server) k c.trace).filterMap f := by
    intro k l hm
    rw [← List.take_append_drop l c.trace, entriesOf_append, List.filterMap_append]
    exact List.mem_append_left _ hm
  obtain rfl : i = j := draws_thread hf hc (hlift hv) (hlift hv')
  exact honce (mem_effectsOf.mpr ⟨e, mem_entriesOf_take.mpr ⟨n, hlt, hn⟩, hx⟩)

/-- The state at a place of the trace. -/
theorem steps_before {n : Nat} (hc : Reachable w c) (hn : c.trace[n]? = some (i, e)) :
    Steps (S := server) w (c.trace.take n) e.before := by
  have hsteps := hc.steps
  rw [split_at hn] at hsteps
  exact hsteps.split_entry.1

/-- What a request issues at a place of the trace: it has drawn the value, and
    issues nothing of the kind before. -/
structure IssuesAt (f : Entry machine → Option Str) (c : (server).Conf) (x : Effect) (v : Str)
    (n i : Nat) (e : Entry machine) : Prop where
  place : c.trace[n]? = some (i, e)
  effect : e.stmt.effect = some x
  drawn : v ∈ (entriesOf (S := server) i (c.trace.take n)).filterMap f
  once : x ∉ effectsOf (entriesOf (S := server) i (c.trace.take n))

/-- A value is issued at one place of the trace. -/
theorem IssuesAt.unique {f : Entry machine → Option Str} {g : Nat → Str} (hf : IsDraw f g)
    (hc : Reachable w c) {n m : Nat} {x : Effect} {v : Str} {e' : Entry machine}
    (h : IssuesAt f c x v n i e)
    (h' : IssuesAt f c x v m j e') : n = m := by
  rcases Nat.lt_trichotomy n m with hlt | heq | hlt
  · exact (issued_once_at hf hc hlt h.place h.effect h.drawn h'.drawn h'.once).elim
  · exact heq
  · exact (issued_once_at hf hc hlt h'.place h'.effect h'.drawn h.drawn h.once).elim

end

end SoulAuth

/-! ## A sample deployment

Concrete runs need concrete random values and hashes. The functions here
behave as the packages do on the values that occur in the runs of this
development. -/

namespace SoulAuth.Sample

open Framework Framework.System

/-- A text that is not in another one is not drawn twice. -/
def numbered (c : Char) (n : Nat) : Str := c :: List.replicate n 'x'

theorem numbered_injective (c : Char) : Function.Injective (numbered c) := by
  intro m n h
  simpa [numbered] using congrArg List.length h

/-- The hash of a password starts with the name of the algorithm and, here,
    ends with the password. -/
def hashOf (n : Nat) (pw : Str) : Str := "$argon2".toList ++ (numbered 'h' n ++ '$' :: pw)

/-- The text before the salt, which tells Argon2 hashes from others. -/
theorem isSome_stripPrefix_hashOf (n : Nat) (pw : Str) :
    (Str.stripPrefix "$argon2".toList (hashOf n pw)).isSome = true := by
  unfold hashOf
  rw [Str.stripPrefix_append]
  rfl

theorem isSuffixOf_hashOf (n : Nat) (pw : Str) :
    ('$' :: pw).isSuffixOf (hashOf n pw) = true := by
  rw [List.isSuffixOf_iff_suffix]
  exact ⟨"$argon2".toList ++ numbered 'h' n, List.append_assoc _ _ _⟩

/-- Sample third-party functions. -/
scoped instance platform : Platform where
  uuid := numbered 'u'
  uuid_injective := numbered_injective 'u'
  uuid_ne_nil n := by simp [numbered]
  uuid_chars n c hc := by
    rcases List.mem_cons.mp hc with rfl | hc
    · exact .inl (by decide)
    · rw [List.eq_of_mem_replicate hc]
      exact .inl (by decide)
  secureToken := numbered 't'
  secureToken_injective := numbered_injective 't'
  s256 verifier := verifier
  sha256Hex text := text
  argon2Hash := hashOf
  argon2WellFormed stored := (Str.stripPrefix "$argon2".toList stored).isSome
  argon2Verify stored pw := ('$' :: pw).isSuffixOf stored
  argon2Hash_wellFormed := isSome_stripPrefix_hashOf
  argon2Verify_hash := isSuffixOf_hashOf
  dummyPasswordHash := "$argon2$none".toList
  totpGenerate secret time := (if time / 30 % 2 = 0 then '#' else '%') :: secret
  totpBytesError _ := none
  totpNewError _ := none
  base64UrlDecode text := some (List.replicate (if text.length < 44 then 32 else 64) 0)
  isVerifyingKey _ := true
  ed25519Verify key payload signature := signature = key ++ payload
  isLowercase := Char.isLower
  isUppercase := Char.isUpper
  isAlphanumeric := Char.isAlphanum

/-- The settings of the sample server. -/
def lockout : LockoutConfig where
  maxAttempts := 3
  lockoutDurationMinutes := 15
  resetWindowMinutes := 60
  enableIpLockout := true
  enableUserLockout := true
  maxAttempts_pos := by decide
  lockoutDuration_pos := by decide

/-- A server that does not verify email addresses. -/
def config : Config where
  jwtExpiration := 3600
  emailVerificationEnabled := false
  passwordMinLength := 8
  appUrl := "https://auth.example".toList
  loginPageUrl := none
  mfaKeyConfigured := false
  lockout := lockout

/-- The same server with email verification. -/
def verifying : Config := { config with emailVerificationEnabled := true }

/-- A new request, and `n` undisturbed statements of request `i`. -/
def start (cfg : Config) (ep : Endpoint) : (server).Action := .start ⟨cfg, ep⟩

def steps (i n : Nat) : List (server).Action := List.replicate n (.step i Ctx.calm)

/-- Statement number `k` is refused, and no other fails. -/
def refusedAt (k : Nat) : Nat → Ctx := fun n => if n = k then ⟨0, some .refused⟩ else Ctx.calm

/-- The choices of the scheduler, from a fresh deployment at time zero. -/
def after (as : List (server).Action) : (server).Conf :=
  (server.initial (World.fresh 0)).run as

theorem after_reachable (as : List (server).Action) : Reachable (World.fresh 0) (after as) :=
  ⟨as, rfl⟩

/-! ### A client and an account -/

/-- A confidential client without PKCE. -/
def clientRequest : CreateOidcClientRequest where
  clientName := "app".toList
  clientType := .confidentialClient
  redirectUris := ["https://app.example/cb".toList]
  postLogoutRedirectUris := none
  allowedScopes := none
  allowedGrantTypes := none
  allowedResponseTypes := none
  requirePkce := some false
  accessTokenLifetime := none
  refreshTokenLifetime := none
  idTokenLifetime := none

/-- What the client was given. -/
def clientId : Str := numbered 't' 0

def clientSecret : Str := numbered 't' 1

def password : Str := "Passw0rd1".toList

/-- The registration of Alice. -/
def registration : CreateUserRequest := ⟨"a@b.c".toList, some "alice".toList, password⟩

/-- Request 0 creates the client, request 1 registers Alice, who has a
    session then. -/
def prelude : List (server).Action :=
  start config (.createClient clientRequest "admin".toList) :: steps 0 5 ++
    start config (.register registration "ip".toList) :: steps 1 20

/-- The keys that Alice's registration drew. -/
def aliceActor : Str := numbered 'u' 4

def alice : Str := numbered 'u' 5

def aliceSession : Str := numbered 'u' 10

/-- The bearer of Alice's session. -/
def aliceBearer : Claims where
  sub := aliceActor
  exp := 3600
  iat := 0
  sessionId := some aliceSession
  subjectType := some .human

/-- A request for a code, with Alice's bearer. -/
def authorizeRequest : AuthorizeRequest where
  responseType := "code".toList
  clientId := clientId
  redirectUri := "https://app.example/cb".toList
  scope := some "openid".toList
  state := none
  nonce := none
  codeChallenge := none
  codeChallengeMethod := none
  prompt := none
  maxAge := none

def authorizeAlice : Endpoint := .authorize authorizeRequest ⟨some aliceBearer, none⟩

/-- The redemption of a code by the client. -/
def redemption (code : Str) : TokenRequest where
  grantType := "authorization_code".toList
  code := some code
  redirectUri := some "https://app.example/cb".toList
  clientId := some clientId
  clientSecret := some clientSecret
  codeVerifier := none
  refreshToken := none
  scope := none

def redeem (code : Str) : Endpoint := .token (redemption code)

/-- The rotation of a refresh token by the client. -/
def rotation (token : Str) : TokenRequest where
  grantType := "refresh_token".toList
  code := none
  redirectUri := none
  clientId := some clientId
  clientSecret := some clientSecret
  codeVerifier := none
  refreshToken := some token
  scope := none

def refresh (token : Str) : Endpoint := .token (rotation token)

/-- The code that request 2 issues after the prelude. -/
def code : Str := numbered 't' 11

/-- Request 2 issues the code. -/
def authorized : List (server).Action := prelude ++ start config authorizeAlice :: steps 2 13

/-- Request 3 redeems it. -/
def exchanged : List (server).Action := authorized ++ start config (redeem code) :: steps 3 18

/-- Whether request `i` has been answered with tokens. -/
def answeredWithTokens (c : (server).Conf) (i : Nat) : Bool :=
  match c.outcome i with
  | some (.ok (.tokens _)) => true
  | _ => false

theorem tokens_of_answered {c : (server).Conf} {i : Nat} (h : answeredWithTokens c i = true) :
    ∃ response, c.Returned i (.ok (.tokens response)) := by
  unfold answeredWithTokens at h
  split at h
  · next response ho => exact ⟨response, Conf.returned_of_outcome ho⟩
  · cases h

/-- Whether entry `n` of a history answered `a` to the statement `s`. -/
def answersAt (h : List (Entry machine)) (n : Nat) (s : DbStmt) (a : s.Reply)
    [DecidableEq s.Reply] : Bool :=
  match h[n]? with
  | some e =>
    decide (e.stmt = .db s ∧ e.ctx.fault = none) &&
      ((s.exec (clock e) e.before.db).1.toOption = some a : Bool)
  | none => false

theorem answered_of_answersAt {h : List (Entry machine)} {n : Nat} {s : DbStmt} {a : s.Reply}
    [DecidableEq s.Reply] (ha : answersAt h n s a = true) : ∃ e ∈ h, Answered s a e := by
  unfold answersAt at ha
  split at ha
  · next e he =>
    obtain ⟨hstmt, hreply⟩ := Bool.and_eq_true_iff.mp ha
    obtain ⟨hs, hfault⟩ := of_decide_eq_true hstmt
    have hsome := of_decide_eq_true hreply
    refine ⟨e, List.mem_of_getElem? he, hs, hfault, ?_⟩
    cases hr : (s.exec (clock e) e.before.db).1 with
    | ok b =>
      rw [hr] at hsome
      rw [Option.some.inj hsome]
    | error x =>
      rw [hr] at hsome
      cases hsome
  · cases ha

end SoulAuth.Sample
