import SoulAuth.Framework.TwoRuns
import SoulAuth.Proofs.Footprint
import SoulAuth.Proofs.Tables

/-! # Generated usernames

The first login through an external provider makes a username out of the email
address: its permitted characters, and a number when that name is taken.
Nothing cuts the name off, so that its length is that of the address. The
look-ups run among those of other requests: number `k` of them finds the users
of `ws k`, whoever has left them there.
-/

namespace SoulAuth

open Framework Framework.Prog

/-! ## Permitted names -/

/-- The characters of `validate_username`. -/
def isUsernameChar (c : Char) : Bool := Str.isAsciiAlphanumeric c || c = '_' || c = '-'

/-- The name that attempt number `attempt` tries. -/
def usernameCandidate (seed : Str) (attempt : Nat) : Str :=
  if attempt = 0 then seed else seed ++ (toString attempt).toList

/-- How many attempts make a name of at most 32 characters out of a seed of
    `n`. -/
def fittingAttempts (n : Nat) : Nat :=
  if n ≤ 29 then 1000 else if n = 30 then 100 else if n = 31 then 10 else if n = 32 then 1 else 0

section

variable {s seed base : Str} {c : Char} {k n : Nat}

/-- Permitted characters are visible. -/
theorem usernameChar_visible (h : isUsernameChar c = true) : 32 < c.toNat ∧ c.toNat < 127 := by
  simp only [isUsernameChar, Bool.or_eq_true, decide_eq_true_eq] at h
  rcases h with (h | rfl) | rfl
  · exact Str.isAlphanum_visible h
  · decide
  · decide

theorem utf8Size_of_visible (h : c.toNat < 127) : c.utf8Size = 1 := by
  rw [Char.utf8Size_eq_one_iff]
  show c.val.toNat ≤ 127
  exact Nat.le_of_lt h

/-- A name of permitted characters has as many bytes as characters, and nothing
    to trim. -/
theorem plain_name (h : ∀ c ∈ s, isUsernameChar c = true) :
    Str.trim s = s ∧ Str.byteLen s = s.length := by
  constructor
  · apply Str.trimBoth_eq_self
    intro c hc
    exact Str.isWhitespace_visible (usernameChar_visible (h c hc))
  · have hone : s.map (fun c => c.utf8Size) = s.map fun _ => 1 := by
      apply List.map_congr_left
      intro c hc
      exact utf8Size_of_visible (usernameChar_visible (h c hc)).2
    rw [Str.byteLen, hone]
    simp

/-- Such a name is valid when its length is. -/
theorem validateUsername_iff (h : ∀ c ∈ s, isUsernameChar c = true) :
    validateUsername s = .ok s ↔ 3 ≤ s.length ∧ s.length ≤ 32 := by
  obtain ⟨htrim, hlength⟩ := plain_name h
  have hchars : (s.all fun c => Str.isAsciiAlphanumeric c || c = '_' || c = '-') = true :=
    List.all_eq_true.mpr h
  unfold validateUsername
  dsimp only
  rw [htrim, hlength]
  by_cases hbad : s.length < 3 ∨ s.length > 32
  · rw [if_pos hbad]
    constructor
    · intro heq
      cases heq
    · intro hgood
      omega
  · rw [if_neg hbad, if_pos hchars]
    constructor
    · intro _
      omega
    · intro _
      rfl

/-! ## The seed and its numbers -/

theorem seed_chars (h : c ∈ usernameSeed base) : isUsernameChar c = true := by
  have hfallback : ∀ c ∈ "user".toList, isUsernameChar c = true :=
    Str.forall_mem_of_all (by decide)
  -- the characters that are kept, or the fallback when there are none
  have hkept : ∀ seed : Str, c ∈ (if seed.filter isUsernameChar = [] then "user".toList
      else seed.filter isUsernameChar) → isUsernameChar c = true := by
    intro seed hc
    split at hc
    · exact hfallback c hc
    · exact (List.mem_filter.mp hc).2
  rcases List.mem_append.mp h with h | h
  · exact hkept _ h
  · rw [(List.mem_replicate.mp h).2]
    decide

theorem three_le_seed : 3 ≤ (usernameSeed base).length := by
  unfold usernameSeed
  dsimp only
  rw [List.length_append, List.length_replicate]
  omega

theorem toString_toList (k : Nat) : (toString k).toList = Nat.toDigits 10 k :=
  Nat.toList_repr

theorem candidate_chars (hseed : ∀ c ∈ seed, isUsernameChar c = true) :
    ∀ c ∈ usernameCandidate seed k, isUsernameChar c = true := by
  intro c hc
  unfold usernameCandidate at hc
  split at hc
  · exact hseed c hc
  · rcases List.mem_append.mp hc with hc | hc
    · exact hseed c hc
    · rw [toString_toList] at hc
      have hdigit : c.isDigit = true := Nat.isDigit_of_mem_toDigits (by decide) (by decide) hc
      simp [isUsernameChar, Str.isAsciiAlphanumeric, Char.isAlphanum, hdigit]

theorem seed_le_candidate : seed.length ≤ (usernameCandidate seed k).length := by
  unfold usernameCandidate
  split
  · exact Nat.le_refl _
  · rw [List.length_append]
    exact Nat.le_add_right _ _

/-- The number of digits decides which attempts fit. -/
theorem candidate_fits (hk : k < 1000) :
    (usernameCandidate seed k).length ≤ 32 ↔ k < fittingAttempts seed.length := by
  unfold usernameCandidate fittingAttempts
  by_cases hzero : k = 0
  · rw [if_pos hzero]
    split_ifs <;> omega
  · rw [if_neg hzero, List.length_append, toString_toList]
    have hpos : 0 < (Nat.toDigits 10 k).length := Nat.length_toDigits_pos
    have hone := Nat.length_toDigits_le_iff (n := k) (k := 1) (b := 10) (by decide) (by decide)
    have htwo := Nat.length_toDigits_le_iff (n := k) (k := 2) (b := 10) (by decide) (by decide)
    have hthree := Nat.length_toDigits_le_iff (n := k) (k := 3) (b := 10) (by decide) (by decide)
    have hall : (Nat.toDigits 10 k).length ≤ 3 := hthree.mpr (by omega)
    split_ifs <;> omega

end

/-! ## The look-ups -/

/-- A look-up in this context and state answers that the name is free. -/
structure FindsFree (ctx : Ctx) (w : World) (normalized : Str) : Prop where
  answers : ctx.fault = none
  free : ∀ u ∈ w.db.identity.users, u.usernameNormalized ≠ normalized

/-- It answers that the name is taken. -/
structure FindsTaken (ctx : Ctx) (w : World) (normalized : Str) : Prop where
  answers : ctx.fault = none
  taken : ∃ u ∈ w.db.identity.users, u.usernameNormalized = normalized

/-- Attempt number `k` is the first one that finds its name free. -/
structure FirstFree (seed : Str) (cs : Nat → Ctx) (ws : Nat → World) (k : Nat) : Prop where
  attempted : k < 1000
  taken : ∀ j < k, FindsTaken (cs j) (ws j) (normalizeUsername (usernameCandidate seed j))
  free : FindsFree (cs k) (ws k) (normalizeUsername (usernameCandidate seed k))

section

variable {seed base : Str} {cs : Nat → Ctx} {ws : Nat → World} {normalized : Str} {α : Type}

theorem findsFree_iff {ctx : Ctx} {w : World} (hctx : ctx.fault = none) :
    FindsFree ctx w normalized ↔
      (w.db.identity.users.find? fun u => u.usernameNormalized = normalized) = none := by
  rw [List.find?_eq_none]
  simp only [decide_eq_true_eq]
  constructor
  · intro h
    exact h.free
  · intro h
    exact ⟨hctx, h⟩

theorem findsTaken_iff {ctx : Ctx} {w : World} (hctx : ctx.fault = none) :
    FindsTaken ctx w normalized ↔
      (w.db.identity.users.find? fun u => u.usernameNormalized = normalized).isSome = true := by
  rw [List.find?_isSome]
  simp only [decide_eq_true_eq]
  constructor
  · intro h
    exact h.taken
  · intro h
    exact ⟨hctx, h⟩

/-- A candidate is valid when it fits. -/
theorem validate_candidate_iff {k : Nat} (hk : k < 1000) :
    let candidate := usernameCandidate (usernameSeed base) k
    validateUsername candidate = .ok candidate ↔
      k < fittingAttempts (usernameSeed base).length := by
  intro candidate
  have hlong : 3 ≤ candidate.length := Nat.le_trans three_le_seed seed_le_candidate
  rw [validateUsername_iff (candidate_chars fun c hc => seed_chars hc), ← candidate_fits hk]
  constructor
  · intro h
    exact h.2
  · intro h
    exact ⟨hlong, h⟩

variable [Platform]

/-- A look-up, and what follows it. -/
theorem against_findUser {f : Option User → Req AuthError α} :
    (findUserByUsername normalized >>= f).against cs ws = match (cs 0).fault with
      | none =>
        (f ((ws 0).db.identity.users.find? fun u => u.usernameNormalized = normalized)).against
          (fun n => cs (n + 1)) fun n => ws (n + 1)
      | some .conflict => .error (.ofDb .conflict)
      | some _ => .error (.ofDb .connection) := by
  rw [findUserByUsername, query_bind]
  show (onResponse f
    (Stmt.exec (cs 0) (.db (.identity (.user (.findByUsername normalized)))) (ws 0)).1).against
      _ _ = _
  rw [Stmt.exec]
  cases (cs 0).fault with
  | none => rfl
  | some x => cases x <;> rfl

/-- The attempts from number `a` on end with the first name that is free. -/
theorem firstFree_against {a n : Nat} {r : Str × Str} :
    (firstFreeUsername seed a n).against cs ws = .ok r ↔
      ∃ k < n, (∀ j < k, FindsTaken (cs j) (ws j)
          (normalizeUsername (usernameCandidate seed (a + j)))) ∧
        FindsFree (cs k) (ws k) (normalizeUsername (usernameCandidate seed (a + k))) ∧
        (usernameCandidate seed (a + k),
          normalizeUsername (usernameCandidate seed (a + k))) = r := by
  induction n generalizing a cs ws with
  | zero =>
    constructor
    · intro h
      cases h
    · intro h
      obtain ⟨k, hk, -⟩ := h
      exact absurd hk (Nat.not_lt_zero k)
  | succ n ih =>
    have hfirst : firstFreeUsername seed a (n + 1) =
        findUserByUsername (normalizeUsername (usernameCandidate seed a)) >>= fun taken =>
          taken.elim (pure (usernameCandidate seed a, normalizeUsername (usernameCandidate seed a)))
            fun _ => firstFreeUsername seed (a + 1) n := by
      apply bind_congr
      intro taken
      cases taken <;> rfl
    rw [hfirst, against_findUser]
    cases hfault : (cs 0).fault with
    | some x =>
      constructor
      · intro h
        cases x <;> cases h
      · intro h
        obtain ⟨k, -, htaken, hfree, -⟩ := h
        -- the first look-up would have answered
        have hanswers : (cs 0).fault = none := by
          cases k with
          | zero => exact hfree.answers
          | succ k => exact (htaken 0 (Nat.succ_pos k)).answers
        rw [hfault] at hanswers
        cases hanswers
    | none =>
      cases hfind : (ws 0).db.identity.users.find? fun u =>
          u.usernameNormalized = normalizeUsername (usernameCandidate seed a) with
      | none =>
        constructor
        · intro h
          refine ⟨0, Nat.succ_pos n, fun j hj => absurd hj (Nat.not_lt_zero j), ?_, ?_⟩
          · exact (findsFree_iff hfault).mpr hfind
          · exact Except.ok.inj h
        · intro h
          obtain ⟨k, -, htaken, -, hr⟩ := h
          cases k with
          | zero => exact congrArg Except.ok hr
          | succ k =>
            have hsome := (findsTaken_iff hfault).mp (htaken 0 (Nat.succ_pos k))
            rw [Nat.add_zero, hfind] at hsome
            cases hsome
      | some u =>
        have htaken₀ :
            FindsTaken (cs 0) (ws 0) (normalizeUsername (usernameCandidate seed (a + 0))) :=
          (findsTaken_iff hfault).mpr (by rw [Nat.add_zero, hfind]; rfl)
        show (firstFreeUsername seed (a + 1) n).against _ _ = _ ↔ _
        rw [ih]
        constructor
        · intro h
          obtain ⟨k, hk, htaken, hfree, hr⟩ := h
          have hnumber : a + (k + 1) = a + 1 + k := by omega
          refine ⟨k + 1, Nat.succ_lt_succ hk, ?_, hnumber ▸ hfree, hnumber ▸ hr⟩
          intro j hj
          cases j with
          | zero => exact htaken₀
          | succ j =>
            have hnumber' : a + (j + 1) = a + 1 + j := by omega
            exact hnumber' ▸ htaken j (Nat.lt_of_succ_lt_succ hj)
        · intro h
          obtain ⟨k, hk, htaken, hfree, hr⟩ := h
          cases k with
          | zero =>
            have hnone := (findsFree_iff hfault).mp hfree
            rw [Nat.add_zero, hfind] at hnone
            cases hnone
          | succ k =>
            have hnumber : a + (k + 1) = a + 1 + k := by omega
            refine ⟨k, Nat.lt_of_succ_lt_succ hk, ?_, hnumber ▸ hfree, hnumber ▸ hr⟩
            intro j hj
            have hnumber' : a + (j + 1) = a + 1 + j := by omega
            exact hnumber' ▸ htaken (j + 1) (Nat.succ_lt_succ hj)

/-- A generated name is the first one that is free. -/
theorem generateUniqueUsername_against {r : Str × Str} :
    (generateUniqueUsername base).against cs ws = .ok r ↔
      ∃ k, FirstFree (usernameSeed base) cs ws k ∧
        (usernameCandidate (usernameSeed base) k,
          normalizeUsername (usernameCandidate (usernameSeed base) k)) = r := by
  rw [generateUniqueUsername, firstFree_against]
  simp only [Nat.zero_add]
  constructor
  · intro ⟨k, hk, htaken, hfree, hr⟩
    exact ⟨k, ⟨hk, htaken, hfree⟩, hr⟩
  · intro ⟨k, h, hr⟩
    exact ⟨k, h.attempted, h.taken, h.free, hr⟩

end

variable [Platform]

/-- The names that `generate_unique_username` returns are valid, and were free
    when they were looked up. -/
def GeneratesUsable (base : Str) (cs : Nat → Ctx) (ws : Nat → World) : Prop :=
  ∀ candidate normalized,
    (generateUniqueUsername base).against cs ws = .ok (candidate, normalized) →
    validateUsername candidate = .ok candidate ∧ normalized = normalizeUsername candidate ∧
      ∃ k < 1000, candidate = usernameCandidate (usernameSeed base) k ∧
        FindsFree (cs k) (ws k) normalized

/-- **Which names are usable.** A generated username is valid, and was free,
    exactly when the first free attempt is one of those whose name fits. -/
theorem generates_usable_iff (base : Str) (cs : Nat → Ctx) (ws : Nat → World) :
    GeneratesUsable base cs ws ↔
      ∀ k, FirstFree (usernameSeed base) cs ws k →
        k < fittingAttempts (usernameSeed base).length := by
  constructor
  · intro h k hfirst
    have hgenerated := generateUniqueUsername_against.mpr ⟨k, hfirst, rfl⟩
    exact (validate_candidate_iff hfirst.attempted).mp (h _ _ hgenerated).1
  · intro h candidate normalized hgenerated
    obtain ⟨k, hfirst, hr⟩ := generateUniqueUsername_against.mp hgenerated
    obtain ⟨rfl, rfl⟩ := Prod.mk.inj hr
    exact ⟨(validate_candidate_iff hfirst.attempted).mpr (h k hfirst), rfl, k, hfirst.attempted,
      rfl, hfirst.free⟩

end SoulAuth

namespace SoulAuth.Sample

open Framework Framework.Prog

/-- An address that is accepted, with 33 characters before the sign. -/
def longAddress : Str := List.replicate 33 'a' ++ "@b.c".toList

/-- Nobody has the name, and it is too long. -/
theorem generates_unusable :
    validateEmail longAddress = .ok longAddress ∧
      Str.splitOnce '@' longAddress = some (List.replicate 33 'a', "b.c".toList) ∧
      ¬ GeneratesUsable (List.replicate 33 'a') (fun _ => Ctx.calm) fun _ => World.fresh 0 := by
  refine ⟨by decide +kernel, by decide +kernel, ?_⟩
  intro h
  have hgenerated : (generateUniqueUsername (List.replicate 33 'a')).against (fun _ => Ctx.calm)
      (fun _ => World.fresh 0) = .ok (List.replicate 33 'a', List.replicate 33 'a') := by
    decide +kernel
  have hvalid := (h _ _ hgenerated).1
  have hlong : validateUsername (List.replicate 33 'a') ≠ .ok (List.replicate 33 'a') := by
    decide +kernel
  exact hlong hvalid

end SoulAuth.Sample
