import SoulAuth.Proofs.CachedRevocation

/-! # Runs of the cache

The cache by itself, called any number of times: it never outgrows its
bound, and what it returns for a token is what was inserted last under it,
not long ago and not invalidated since.
-/

namespace SoulAuth

open Framework

/-- A call of the cache at a time. -/
abbrev CacheCall := Timestamp × CacheStmt

/-- The cache after a sequence of calls. -/
def AuthCache.after (cache : AuthCache) (calls : List CacheCall) : AuthCache :=
  calls.foldl (fun cache call => (call.2.exec call.1 cache).2) cache

/-- The times of the calls do not decrease. -/
def NonDecreasing (calls : List CacheCall) : Prop :=
  calls.Pairwise fun earlier later => earlier.1 ≤ later.1

/-- The call replaces or removes what was inserted under `token` for
    `userId`: an insertion under the token, or an invalidation of the token
    or of the user. -/
def CacheStmt.Ends (token : Claims) (userId : Str) : CacheStmt → Prop
  | insert token' _ _ => token' = token
  | invalidateToken token' => token' = token
  | invalidateUser userId' => userId' = userId
  | _ => False

/-- Under `token` the calls inserted `user` last, at the time `τ` and with
    the identifier `userId`; nothing has invalidated it since. -/
def LastInserted (calls : List CacheCall) (token : Claims) (userId : Str) (user : User)
    (τ : Timestamp) : Prop :=
  ∃ before behind, calls = before ++ (τ, .insert token userId user) :: behind ∧
    ∀ call ∈ behind, ¬ call.2.Ends token userId

/-! ## The bound -/

namespace AuthCache

variable {cache : AuthCache} {token : Claims} {userId : Str} {user : User} {now : Timestamp}
  {x : CacheEntry}

/-- There is room for one more entry. -/
theorem length_makeRoom (entries : List CacheEntry) (now : Timestamp) :
    (makeRoom entries now).length < maxEntries := by
  unfold makeRoom
  by_cases hfull : maxEntries ≤ entries.length
  · rw [if_pos hfull]
    by_cases hlive : maxEntries ≤ (live entries now).length
    · rw [if_pos hlive]
      decide
    · rw [if_neg hlive]
      omega
  · rw [if_neg hfull]
    omega

theorem length_upsert (k : Hashed Claims) (f : Option CacheEntry → CacheEntry)
    (entries : List CacheEntry) :
    (KeyedTable.upsert CacheEntry.key k f entries).length ≤ entries.length + 1 := by
  unfold KeyedTable.upsert
  split
  · rw [List.length_map]
    omega
  · rw [List.length_append, List.length_singleton]

theorem length_insert (h : cache.entries.length ≤ maxEntries) :
    (cache.insert token userId user now).entries.length ≤ maxEntries := by
  unfold insert
  split
  · exact h
  · next ttl _ =>
    have hroom := length_makeRoom cache.entries now
    have hone := length_upsert (key token)
      (fun _ => ⟨key token, user, userId, now + ttl⟩) (makeRoom cache.entries now)
    exact hone.trans hroom

end AuthCache

/-- No call takes the cache over its bound. -/
theorem CacheStmt.length_exec {s : CacheStmt} {now : Timestamp} {cache : AuthCache}
    (h : cache.entries.length ≤ AuthCache.maxEntries) :
    (s.exec now cache).2.entries.length ≤ AuthCache.maxEntries := by
  have hfilter : ∀ p : CacheEntry → Bool,
      (cache.entries.filter p).length ≤ AuthCache.maxEntries := by
    intro p
    exact (List.length_filter_le p cache.entries).trans h
  cases s with
  | get token => exact h
  | insert token userId user => exact AuthCache.length_insert h
  | invalidateToken token =>
    show (AuthCache.invalidateToken _ _).entries.length ≤ _
    unfold AuthCache.invalidateToken
    split
    · exact h
    · exact hfilter _
  | invalidateUser userId =>
    show (AuthCache.invalidateUser _ _).entries.length ≤ _
    unfold AuthCache.invalidateUser
    split
    · exact h
    · exact hfilter _
  | purgeExpired =>
    show (AuthCache.purgeExpired _ _).entries.length ≤ _
    unfold AuthCache.purgeExpired
    split
    · exact h
    · exact hfilter _

/-- **The bound.** -/
theorem AuthCache.length_after (calls : List CacheCall) {cache : AuthCache}
    (h : cache.entries.length ≤ AuthCache.maxEntries) :
    (cache.after calls).entries.length ≤ AuthCache.maxEntries := by
  induction calls generalizing cache with
  | nil => exact h
  | cons call calls ih => exact ih (CacheStmt.length_exec h)

/-! ## Where an entry comes from -/

namespace AuthCache

variable {cache : AuthCache} {token : Claims} {userId : Str} {user : User} {now : Timestamp}
  {x : CacheEntry}

/-- An insertion leaves the entries of other tokens alone. -/
theorem mem_upsert_other {k : Hashed Claims} {y : CacheEntry} {entries : List CacheEntry}
    (h : x ∈ KeyedTable.upsert CacheEntry.key k (fun _ => y) entries) :
    x ∈ entries ∧ x.key ≠ k ∨ x = y := by
  unfold KeyedTable.upsert at h
  split at h
  · obtain ⟨r, hr, hx⟩ := List.mem_map.mp h
    by_cases hkey : r.key = k
    · rw [if_pos hkey] at hx
      exact .inr hx.symm
    · rw [if_neg hkey] at hx
      subst hx
      exact .inl ⟨hr, hkey⟩
  · next hnone =>
    rcases List.mem_append.mp h with h | h
    · left
      constructor
      · exact h
      · intro hkey
        apply hnone
        rw [List.any_eq_true]
        exact ⟨x, h, by simpa using hkey⟩
    · exact .inr (List.mem_singleton.mp h)

/-- What is returned is an entry that has not expired. -/
theorem get_live (h : cache.get token now = some user) :
    ∃ x ∈ cache.entries, x.key = key token ∧ x.user = user ∧ now < x.expiresAt := by
  unfold get at h
  cases httl : cache.ttl with
  | none =>
    rw [httl] at h
    cases h
  | some ttl =>
    cases hrow : KeyedTable.rowAt CacheEntry.key (key token) cache.entries with
    | none =>
      rw [httl, hrow] at h
      cases h
    | some x =>
      simp only [httl, hrow, Option.bind_eq_bind, Option.bind_some] at h
      by_cases hexpired : x.expiresAt ≤ now
      · rw [if_pos hexpired] at h
        cases h
      · rw [if_neg hexpired] at h
        exact ⟨x, KeyedTable.mem_of_rowAt hrow, KeyedTable.key_of_rowAt hrow, Option.some.inj h,
          Int.lt_of_not_ge hexpired⟩

end AuthCache

/-- A call leaves an entry where it was, and then it does not end it, or has
    inserted it. -/
theorem CacheStmt.origin {s : CacheStmt} {now : Timestamp} {cache : AuthCache} {ttl : Nat}
    {x : CacheEntry} (httl : cache.ttl = some ttl) (h : x ∈ (s.exec now cache).2.entries) :
    (x ∈ cache.entries ∧ ∀ token, x.key = AuthCache.key token → ¬ s.Ends token x.userId) ∨
      ∃ token, s = .insert token x.userId x.user ∧ x.key = AuthCache.key token ∧
        x.expiresAt = now + ttl := by
  cases s with
  | get token => exact .inl ⟨h, fun _ _ hends => hends⟩
  | insert token userId user =>
    simp only [CacheStmt.exec, AuthCache.insert, httl] at h
    rcases AuthCache.mem_upsert_other h with ⟨hold, hother⟩ | rfl
    · left
      constructor
      · exact AuthCache.mem_makeRoom hold
      · intro token' hkey hends
        obtain rfl : token = token' := hends
        exact hother hkey
    · exact .inr ⟨token, rfl, rfl, rfl⟩
  | invalidateToken token =>
    simp only [CacheStmt.exec, AuthCache.invalidateToken, httl, List.mem_filter,
      decide_eq_true_eq] at h
    left
    constructor
    · exact h.1
    · intro token' hkey hends
      obtain rfl : token = token' := hends
      exact h.2 hkey
  | invalidateUser userId =>
    simp only [CacheStmt.exec, AuthCache.invalidateUser, httl, List.mem_filter,
      decide_eq_true_eq] at h
    left
    constructor
    · exact h.1
    · intro token' _ hends
      exact h.2 hends.symm
  | purgeExpired =>
    simp only [CacheStmt.exec, AuthCache.purgeExpired, httl, AuthCache.live,
      List.mem_filter] at h
    exact .inl ⟨h.1, fun _ _ hends => hends⟩

theorem AuthCache.after_snoc (cache : AuthCache) (calls : List CacheCall) (call : CacheCall) :
    cache.after (calls ++ [call]) = (call.2.exec call.1 (cache.after calls)).2 := by
  rw [AuthCache.after, List.foldl_append]
  rfl

theorem AuthCache.after_ttl (cache : AuthCache) (calls : List CacheCall) :
    (cache.after calls).ttl = cache.ttl := by
  induction calls generalizing cache with
  | nil => rfl
  | cons call calls ih => exact (ih _).trans CacheStmt.exec_ttl

/-- An insertion that the next call does not end stays the last one. -/
theorem LastInserted.snoc {calls : List CacheCall} {token : Claims} {userId : Str} {user : User}
    {τ : Timestamp} (h : LastInserted calls token userId user τ) {call : CacheCall}
    (hcall : ¬ call.2.Ends token userId) :
    LastInserted (calls ++ [call]) token userId user τ := by
  obtain ⟨before, behind, rfl, hkept⟩ := h
  refine ⟨before, behind ++ [call], by simp, ?_⟩
  intro d hd
  rcases List.mem_append.mp hd with hd | hd
  · exact hkept d hd
  · obtain rfl := List.mem_singleton.mp hd
    exact hcall

/-- **Entries.** Every entry of the cache was the last one inserted under
    its token, one lifetime before it expires. -/
theorem AuthCache.lastInserted_of_mem (ttl : Nat) (calls : List CacheCall) :
    ∀ x ∈ ((⟨some ttl, []⟩ : AuthCache).after calls).entries,
      ∃ token τ, x.key = key token ∧ LastInserted calls token x.userId x.user τ ∧
        x.expiresAt = τ + ttl := by
  induction calls using List.reverseRecOn with
  | nil =>
    intro x hx
    cases hx
  | append_singleton calls call ih =>
    intro x hx
    have httl := after_ttl ⟨some ttl, []⟩ calls
    rw [after_snoc] at hx
    rcases CacheStmt.origin httl hx with ⟨hold, hnot⟩ | ⟨token, hs, hkey, hexpires⟩
    · obtain ⟨token, τ, hkey, hlast, hexpires⟩ := ih x hold
      exact ⟨token, τ, hkey, hlast.snoc (hnot token hkey), hexpires⟩
    · have hcall : call = (call.1, .insert token x.userId x.user) := Prod.ext rfl hs
      refine ⟨token, call.1, hkey, ⟨calls, [], ?_, ?_⟩, hexpires⟩
      · rw [← hcall]
      · intro d hd
        cases hd

/-- **The cache.** From the empty cache, with its lifetime in the ticks of
    the clock: after any calls the cache is within its bound, and when their
    times do not decrease, a user whom `get` returns for a token is the user
    inserted last under it, less than a lifetime ago; since then neither
    the token nor the user has been invalidated. -/
theorem AuthCache.cache_sound (ttl : Option Nat) (calls : List CacheCall) :
    ((⟨ttl, []⟩ : AuthCache).after calls).entries.length ≤ maxEntries ∧
    ∀ token now user, NonDecreasing (calls ++ [(now, .get token)]) →
      ((⟨ttl, []⟩ : AuthCache).after calls).get token now = some user →
      ∃ userId τ lifetime, ttl = some lifetime ∧ LastInserted calls token userId user τ ∧
        τ ≤ now ∧ now < τ + lifetime := by
  constructor
  · exact length_after calls (Nat.zero_le _)
  · intro token now user horder hget
    have hon := (get_some hget).1
    rw [after_ttl] at hon
    obtain ⟨lifetime, hlifetime⟩ := Option.ne_none_iff_exists'.mp hon
    dsimp only at hlifetime
    subst hlifetime
    obtain ⟨x, hx, hkey, rfl, hlive⟩ := get_live hget
    obtain ⟨token', τ, hkey', hlast, hexpires⟩ := lastInserted_of_mem lifetime calls x hx
    obtain rfl : token = token' := hashBearer_inj.mp (hkey.symm.trans hkey')
    have hpast : τ ≤ now := by
      obtain ⟨before, behind, rfl, -⟩ := hlast
      have hlater := (List.pairwise_append.mp horder).2.2
      exact hlater (τ, .insert token x.userId x.user) (by simp) (now, .get token) (by simp)
    rw [hexpires] at hlive
    exact ⟨x.userId, τ, lifetime, rfl, hlast, hpast, hlive⟩

namespace Sample

def cachedUser : User where
  key := "abc".toList
  subjectId := none
  email := "alice@example.com".toList
  username := "alice".toList
  usernameNormalized := "alice".toList
  createdAt := 0
  updatedAt := 0
  verified := true
  verificationTokenHash := none
  verificationTokenExpiresAt := none
  accountStatus := .active
  membershipLevel := "FREE".toList
  membershipExpiry := none
  lastLoginAt := none
  lastLoginIp := none

/-- A user is inserted twice under one token; another user's entries are
    removed. -/
def cacheCalls : List CacheCall :=
  [(0, .insert aliceBearer "abc".toList { cachedUser with verified := false }),
    (1, .insert aliceBearer "abc".toList cachedUser), (3, .invalidateUser "bob".toList),
    (3, .purgeExpired)]

theorem cache_sound_sample :
    NonDecreasing (cacheCalls ++ [(5, .get aliceBearer)]) ∧
    ((⟨some 5, []⟩ : AuthCache).after cacheCalls).get aliceBearer 5 = some cachedUser ∧
    ∃ userId τ lifetime, (some 5 : Option Nat) = some lifetime ∧
      LastInserted cacheCalls aliceBearer userId cachedUser τ ∧ (τ : Timestamp) ≤ 5 ∧
      (5 : Timestamp) < τ + lifetime := by
  have horder : NonDecreasing (cacheCalls ++ [(5, .get aliceBearer)]) := by
    unfold NonDecreasing
    decide
  have hget : ((⟨some 5, []⟩ : AuthCache).after cacheCalls).get aliceBearer 5 =
      some cachedUser := by
    decide
  have hsound := (AuthCache.cache_sound (some 5) cacheCalls).2 aliceBearer 5 cachedUser
  exact ⟨horder, hget, hsound horder hget⟩

end Sample

end SoulAuth
