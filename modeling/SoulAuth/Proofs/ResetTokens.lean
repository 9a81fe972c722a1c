import SoulAuth.Framework.OneShot
import SoulAuth.Proofs.AccountConduct
import SoulAuth.Proofs.Tables

/-! # Password-reset tokens

A request for a reset token invalidates the tokens of its email address and
inserts a new one; a reset consumes one token and invalidates the others.
Between the two statements of either another request may insert its token.
-/

namespace SoulAuth

open Framework Framework.System

section

variable [Platform]

/-- The token is for this email address, unused and unexpired. -/
def PasswordResetToken.isValid (email : Str) (now : Timestamp) (r : PasswordResetToken) : Bool :=
  r.email = email && !r.used && now < r.expiresAt

/-- At this place of the trace request `i` inserts the token. -/
def InsertsAt (c : (server).Conf) (i n : Nat) (row : PasswordResetToken) : Prop :=
  ∃ e, c.trace[n]? = some (i, e) ∧ Executes (.resetToken (.create row)) e

/-- At this place of the trace request `i` invalidates the tokens of the
    email address. -/
def InvalidatesAt (c : (server).Conf) (i n : Nat) (email : Str) : Prop :=
  ∃ e, c.trace[n]? = some (i, e) ∧ Executes (.resetToken (.invalidate email)) e

/-- Request `k` has reset a password with the token that has become `row`. -/
def ResetWith (c : (server).Conf) (k : Nat) (row : PasswordResetToken) : Prop :=
  ∃ cfg token pw reply i n, c.reqOf k = some ⟨cfg, .resetPassword token pw⟩ ∧
    c.Returned k (.ok reply) ∧ InsertsAt c i n row ∧ row.tokenHash = hashBearer token

/-- Each email address has one valid token at most, and after a reset none
    of the tokens of earlier requests can be redeemed. Which requests are
    earlier than a reset is a parameter. -/
structure Exclusive (earlier : Nat → Nat → Prop) (c : (server).Conf) : Prop where
  one : ∀ email, c.state.db.resetTokens.countP (·.isValid email c.state.now) ≤ 1
  spent : ∀ k j n row row', ResetWith c k row → earlier j k → InsertsAt c j n row' →
    row'.email = row.email →
    ∀ x ∈ c.state.db.resetTokens, x.tokenHash = row'.tokenHash → x.used = true

/-- When a request inserts a token, no token is valid that another request
    has inserted since the invalidation. -/
def NoRival (c : (server).Conf) : Prop :=
  ∀ i j n₀ n₁ n row row' e, InvalidatesAt c i n₀ row.email → n₀ < n₁ → n₁ < n →
    InsertsAt c j n₁ row' → c.trace[n]? = some (i, e) →
    Executes (.resetToken (.create row)) e →
    ∀ x ∈ e.before.db.resetTokens, x.tokenHash = row'.tokenHash →
      x.isValid row.email (clock e) = false

/-- An earlier request inserts its token before the reset invalidates the
    tokens of the email address. -/
def InsertedInTime (earlier : Nat → Nat → Prop) (c : (server).Conf) : Prop :=
  ∀ k j n p row row', ResetWith c k row → earlier j k → InsertsAt c j n row' →
    row'.email = row.email → InvalidatesAt c k p row.email → n < p

section

variable {now : Timestamp} {w : World} {c : (server).Conf} {i j k m n p : Nat}
  {e e' : Entry machine} {x row row' : PasswordResetToken}

/-! ## Where tokens come from -/

/-- A token is inserted at one place. -/
theorem InsertsAt.place (hc : Reachable w c) (h : InsertsAt c i n row) (h' : InsertsAt c j m row')
    (hhash : row.tokenHash = row'.tokenHash) : n = m ∧ row = row' := by
  obtain ⟨e, hn, hx⟩ := h
  obtain ⟨e', hm, hx'⟩ := h'
  have hissues : ∀ {n i : Nat} {e : Entry machine} {row : PasswordResetToken},
      c.trace[n]? = some (i, e) → Executes (.resetToken (.create row)) e →
      IssuesAt uuidOf c .createResetToken row.tokenHash.of n i e := by
    intro n i e row hn hx
    obtain ⟨r, -, hconduct⟩ := conducted_at hc (split_at hn)
    unfold Conducted at hconduct
    rw [hx.stmt] at hconduct
    obtain ⟨token, hdrawn, htoken⟩ := hconduct.drawn
    rw [htoken]
    exact ⟨hn, by rw [hx.stmt]; rfl, hdrawn, hconduct.once⟩
  have hissues' := hissues hm hx'
  rw [← hhash] at hissues'
  obtain rfl : n = m := (hissues hn hx).unique isDraw_uuid hc hissues'
  cases hn.symm.trans hm
  cases hx.stmt.symm.trans hx'.stmt
  exact ⟨rfl, rfl⟩

theorem InsertsAt.later {c₁ : (server).Conf} {tr : List (Nat × Entry machine)}
    (h : InsertsAt c₁ i n row) (htr : c.trace = c₁.trace ++ tr) : InsertsAt c i n row := by
  obtain ⟨e, hn, hx⟩ := h
  refine ⟨e, ?_, hx⟩
  rw [htr, List.getElem?_append_left (List.getElem?_eq_some_iff.mp hn).1]
  exact hn

/-- What an entry makes of the tokens: each of them is one from before, no
    less used, or the new one. -/
theorem resetToken_before (hx : x ∈ e.after.db.resetTokens) :
    (∃ y ∈ e.before.db.resetTokens, x.tokenHash = y.tokenHash ∧ x.email = y.email ∧
      x.expiresAt = y.expiresAt ∧ (y.used = true → x.used = true)) ∨
    Executes (.resetToken (.create x)) e := by
  rcases db_executed e with ⟨s, hs⟩ | ⟨-, hsame⟩
  · rw [hs.after] at hx
    cases s with
    | resetToken s =>
      cases s with
      | create r =>
        simp only [DbStmt.exec, ResetTokenStmt.exec] at hx
        split at hx
        · exact .inl ⟨x, hx, rfl, rfl, rfl, id⟩
        · rcases List.mem_append.mp hx with hx | hx
          · exact .inl ⟨x, hx, rfl, rfl, rfl, id⟩
          · obtain rfl := List.mem_singleton.mp hx
            exact .inr hs
      | invalidate email =>
        obtain ⟨y, hy, rfl⟩ := List.mem_map.mp hx
        refine .inl ⟨y, hy, ?_⟩
        split <;> simp
      | claim h =>
        obtain ⟨y, hy, rfl⟩ := List.mem_map.mp hx
        refine .inl ⟨y, hy, ?_⟩
        split <;> simp
      | find h => exact .inl ⟨x, hx, rfl, rfl, rfl, id⟩
      | deleteSpent t => exact .inl ⟨x, List.mem_of_mem_filter hx, rfl, rfl, rfl, id⟩
    | _ => exact .inl ⟨x, hx, rfl, rfl, rfl, id⟩
  · rw [hsame] at hx
    exact .inl ⟨x, hx, rfl, rfl, rfl, id⟩

/-- Every token was inserted. -/
theorem inserted_of_mem (hc : Reachable (World.fresh now) c) (hx : x ∈ c.state.db.resetTokens) :
    ∃ i n row, InsertsAt c i n row ∧ x.tokenHash = row.tokenHash ∧ x.email = row.email := by
  have hall := hc.steps.preserves (P := fun w => ∀ x ∈ w.db.resetTokens,
    ∃ i n row, InsertsAt c i n row ∧ x.tokenHash = row.tokenHash ∧ x.email = row.email)
    (fun _ h => absurd h List.not_mem_nil) fun i e hmem hbefore x hx => by
      rcases resetToken_before hx with ⟨y, hy, hhash, hemail, -⟩ | hcreate
      · obtain ⟨i', n, row, hins, hhash', hemail'⟩ := hbefore y hy
        exact ⟨i', n, row, hins, hhash.trans hhash', hemail.trans hemail'⟩
      · obtain ⟨n, hn⟩ := List.mem_iff_getElem?.mp hmem
        exact ⟨i, n, x, ⟨e, hn, hcreate⟩, rfl, rfl⟩
  exact hall x hx

/-- A token that stands before an invalidation of its address is spent from
    then on. -/
theorem spent_of_invalidated (hc : Reachable (World.fresh now) c) (hins : InsertsAt c j n row)
    (hinv : InvalidatesAt c i p row.email) (hlt : n < p) :
    ∀ x ∈ c.state.db.resetTokens, x.tokenHash = row.tokenHash → x.used = true := by
  obtain ⟨e, hp, hx⟩ := hinv
  have hsteps := hc.steps
  rw [split_at hp] at hsteps
  apply hsteps.split_entry.2.preserves
    (P := fun w => ∀ x ∈ w.db.resetTokens, x.tokenHash = row.tokenHash → x.used = true)
  · -- the invalidation finds it under its address
    intro x hmem hhash
    rw [hx.after] at hmem
    obtain ⟨y, hy, rfl⟩ := List.mem_map.mp hmem
    obtain ⟨c₁, hc₁, htr₁, hstate⟩ := hc.before (split_at hp)
    obtain ⟨i', n', row', hins', hhash', hemail'⟩ := inserted_of_mem hc₁ (hstate ▸ hy)
    have hlift : InsertsAt c i' n' row' := by
      apply hins'.later
      rw [htr₁]
      exact split_at hp
    have hsame : y.tokenHash = row.tokenHash := by
      split at hhash <;> exact hhash
    obtain ⟨-, rfl⟩ := hlift.place hc hins (hhash'.symm.trans hsame)
    by_cases hused : y.used = true
    · split
      · rfl
      · exact hused
    · rw [if_pos (by simp [hemail', hused])]
  · intro i' e' hmem hbefore x hxmem hhash
    rcases resetToken_before hxmem with ⟨y, hy, hhash', -, -, hused⟩ | hcreate
    · exact hused (hbefore y hy (hhash'.symm.trans hhash))
    · -- it is not inserted again
      obtain ⟨q, hq⟩ := List.mem_iff_getElem?.mp hmem
      have hat : c.trace[p + 1 + q]? = some (i', e') := by simpa using hq
      have hins' : InsertsAt c i' (p + 1 + q) x := ⟨e', hat, hcreate⟩
      have hplace := (hins'.place hc hins hhash).1
      omega

/-! ## One valid token -/

/-- An entry that inserts no token for the address makes none valid. -/
theorem countP_valid_le {email : Str} (hno : ∀ row, Executes (.resetToken (.create row)) e →
    row.email ≠ email) :
    e.after.db.resetTokens.countP (·.isValid email e.after.now) ≤
      e.before.db.resetTokens.countP (·.isValid email e.before.now) := by
  have htime : e.before.db.resetTokens.countP (·.isValid email e.after.now) ≤
      e.before.db.resetTokens.countP (·.isValid email e.before.now) := by
    apply List.countP_mono_left
    intro r _ hvalid
    have hle : e.before.now ≤ e.after.now := after_now e ▸ before_le_clock e
    simp only [PasswordResetToken.isValid, Bool.and_eq_true, decide_eq_true_eq] at hvalid ⊢
    exact ⟨hvalid.1, lt_of_le_of_lt hle hvalid.2⟩
  refine le_trans ?_ htime
  rcases db_executed e with ⟨s, hs⟩ | ⟨-, hsame⟩
  · rw [hs.after]
    cases s with
    | resetToken s =>
      cases s with
      | create r =>
        simp only [DbStmt.exec, ResetTokenStmt.exec]
        split
        · exact le_refl _
        · rw [List.countP_append]
          simp [PasswordResetToken.isValid, hno r hs]
      | invalidate email' =>
        apply countP_map_le
        intro r
        split
        · simp [PasswordResetToken.isValid]
        · exact id
      | claim h =>
        apply countP_map_le
        intro r
        split
        · simp [PasswordResetToken.isValid]
        · exact id
      | find h => exact le_refl _
      | deleteSpent t => exact List.filter_sublist.countP_le
    | _ => exact le_refl _
  · rw [hsame]

/-- When a request inserts a token for an address, no other is valid. -/
theorem none_valid (hc : Reachable (World.fresh now) c) (hrival : NoRival c)
    (hn : c.trace[n]? = some (i, e)) (hx : Executes (.resetToken (.create row)) e) :
    e.before.db.resetTokens.countP (·.isValid row.email (clock e)) = 0 := by
  apply List.countP_eq_zero.mpr
  intro x hmem hvalid
  obtain ⟨c₁, hc₁, htr₁, hstate⟩ := hc.before (split_at hn)
  rw [← hstate] at hmem
  obtain ⟨j, n₁, row', hins', hhash, hemail⟩ := inserted_of_mem hc₁ hmem
  have hvalid' := hvalid
  simp only [PasswordResetToken.isValid, Bool.and_eq_true, decide_eq_true_eq] at hvalid'
  obtain ⟨⟨hrow, hunused⟩, -⟩ := hvalid'
  -- the request has invalidated the address before
  obtain ⟨r, -, hconduct⟩ := accountConducted_at hc hn
  unfold AccountConducted at hconduct
  rw [hx.stmt] at hconduct
  obtain ⟨n₀, e₀, hlt₀, hn₀, hinv⟩ := heard_before hconduct.invalidated
  have htake : ∀ {m k : Nat} {e' : Entry machine}, m < n → c.trace[m]? = some (k, e') →
      c₁.trace[m]? = some (k, e') := by
    intro m k e' hlt hm
    rw [htr₁, List.getElem?_take, if_pos hlt]
    exact hm
  obtain ⟨e₁, hn₁, hx₁⟩ := id hins'
  have hlt₁ : n₁ < n := by
    have hlen := (List.getElem?_eq_some_iff.mp hn₁).1
    rw [htr₁, List.length_take] at hlen
    omega
  rw [htr₁, List.getElem?_take, if_pos hlt₁] at hn₁
  rcases Nat.lt_trichotomy n₁ n₀ with hlt | heq | hlt
  · have hspent := spent_of_invalidated hc₁ hins'
      ⟨e₀, htake hlt₀ hn₀, by rw [← hemail, hrow]; exact hinv.executes⟩ hlt x hmem hhash
    simp [hspent] at hunused
  · subst heq
    cases hn₁.symm.trans hn₀
    cases hx₁.stmt.symm.trans hinv.stmt
  · have hfalse := hrival i j n₀ n₁ n row row' e ⟨e₀, hn₀, hinv.executes⟩ hlt hlt₁
      ⟨e₁, hn₁, hx₁⟩ hn hx x (hstate ▸ hmem) hhash
    rw [hvalid] at hfalse
    cases hfalse

theorem one_valid (hc : Reachable (World.fresh now) c) (hrival : NoRival c) (email : Str) :
    c.state.db.resetTokens.countP (·.isValid email c.state.now) ≤ 1 := by
  apply hc.steps.preserves
    (P := fun w => w.db.resetTokens.countP (·.isValid email w.now) ≤ 1) (Nat.zero_le 1)
  intro i e hmem hbefore
  by_cases hins : ∃ row, Executes (.resetToken (.create row)) e ∧ row.email = email
  · obtain ⟨row, hx, rfl⟩ := hins
    obtain ⟨n, hn⟩ := List.mem_iff_getElem?.mp hmem
    have hzero := none_valid hc hrival hn hx
    rw [hx.after, after_now]
    simp only [DbStmt.exec, ResetTokenStmt.exec]
    split
    · exact hzero.le.trans (Nat.zero_le 1)
    · rw [List.countP_append, hzero, Nat.zero_add]
      exact List.countP_le_length
  · refine le_trans (countP_valid_le fun row hx hrow => hins ⟨row, hx, hrow⟩) hbefore

/-- **Reset tokens are exclusive**, when no request inserts its token while
    another one is between its invalidation and its insertion, or after a
    reset that the request is earlier than. -/
theorem reset_tokens_exclusive (hc : Reachable (World.fresh now) c)
    (earlier : Nat → Nat → Prop) (hrival : NoRival c) (hintime : InsertedInTime earlier c) :
    Exclusive earlier c := by
  constructor
  · exact one_valid hc hrival
  · intro k j n row row' hreset hearlier hins hemail
    obtain ⟨cfg, token, pw, reply, i, m, hk, hret, hins₀, hhash⟩ := id hreset
    obtain ⟨r, hr, hconcluded⟩ := (accountRule_holds hc).returned hret
    obtain rfl := Option.some.inj (hk.symm.trans hr)
    obtain ⟨found, hfound, hinv⟩ := hconcluded.purged token pw reply rfl rfl
    -- the address that the reset has invalidated is the one of its token
    obtain ⟨e₁, hmem₁, hfound⟩ := heard_mem hfound fun _ he => he
    have hmem : found ∈ e₁.before.db.resetTokens ∧ found.tokenHash = hashBearer token := by
      have hreply := hfound.reply
      simp only [DbStmt.exec, ResetTokenStmt.exec, Except.ok.injEq] at hreply
      exact ⟨List.mem_of_find?_eq_some hreply, by simpa using List.find?_some hreply⟩
    obtain ⟨tr₁, tr₂, htr⟩ := List.append_of_mem hmem₁
    obtain ⟨c₁, hc₁, htr₁, hstate⟩ := hc.before htr
    obtain ⟨i', m', row₁, hins₁, hhash₁, hemail₁⟩ := inserted_of_mem hc₁ (hstate ▸ hmem.1)
    have hins₁' : InsertsAt c i' m' row₁ := hins₁.later (htr₁ ▸ htr)
    obtain ⟨-, rfl⟩ := hins₁'.place hc hins₀ (hhash₁.symm.trans (hmem.2.trans hhash.symm))
    obtain ⟨e₂, hmem₂, hinv⟩ := heard_mem hinv fun _ he => he
    obtain ⟨p, hp⟩ := List.mem_iff_getElem?.mp hmem₂
    rw [hemail₁] at hinv
    have hpurge : InvalidatesAt c k p row₁.email := ⟨e₂, hp, hinv.executes⟩
    have hlt := hintime k j n p row₁ row' hreset hearlier hins hemail hpurge
    exact spent_of_invalidated hc hins (hemail ▸ hpurge) hlt

end

end

end SoulAuth

namespace SoulAuth.Sample

open Framework Framework.System

def resetRequest : (server).Action := start config (.requestPasswordReset "a@b.c".toList)

/-- Request 2 has sent Alice a reset token. -/
def resetRequested : List (server).Action := prelude ++ resetRequest :: steps 2 10

/-- Request 3 resets her password with it. -/
def passwordReset : List (server).Action :=
  resetRequested ++ start config (.resetPassword (numbered 'u' 11) password) :: steps 3 20

/-- Requests 2 and 3 both invalidate before they insert. -/
def resetRequestedTwice : List (server).Action :=
  prelude ++ resetRequest :: steps 2 2 ++ resetRequest :: steps 3 10 ++ steps 2 10

/-- The entry inserts a reset token. -/
def insertsToken (e : Entry machine) : Bool :=
  match e.stmt with
  | .db (.resetToken (.create _)) => true
  | _ => false

theorem insertsToken_of {c : (server).Conf} {i n : Nat} {row : PasswordResetToken}
    (h : InsertsAt c i n row) : ∃ e, c.trace[n]? = some (i, e) ∧ insertsToken e = true := by
  obtain ⟨e, hn, hx⟩ := h
  refine ⟨e, hn, ?_⟩
  unfold insertsToken
  rw [hx.stmt]

/-- A single insertion has no rival. -/
theorem noRival_of_single {c : (server).Conf}
    (h : c.trace.countP (fun x => insertsToken x.2) ≤ 1) : NoRival c := by
  intro i j n₀ n₁ n row row' e _ _ hlt hins hn hx
  obtain ⟨e₁, hn₁, he₁⟩ := insertsToken_of hins
  obtain ⟨e₂, hn₂, he₂⟩ := insertsToken_of ⟨e, hn, hx⟩
  rw [split_at hn₂, List.countP_append, List.countP_cons, if_pos he₂] at h
  have hfirst : 0 < (c.trace.take n).countP fun x => insertsToken x.2 :=
    List.countP_pos_iff.mpr ⟨(j, e₁), mem_take_iff.mpr ⟨n₁, hlt, hn₁⟩, he₁⟩
  omega

/-- All insertions come before a place, and the reset `k` comes after it. -/
theorem insertedInTime_of_cut {c : (server).Conf} {earlier : Nat → Nat → Prop} (k m : Nat)
    (hreset : ∀ i cfg token pw, c.reqOf i = some ⟨cfg, .resetPassword token pw⟩ → i = k)
    (hbefore : ((c.trace.drop m).all fun x => !insertsToken x.2) = true)
    (hafter : ((c.trace.take m).all fun x => x.1 ≠ k) = true) : InsertedInTime earlier c := by
  intro k' j n p row row' hwith _ hins _ hinv
  obtain ⟨cfg, token, pw, _, _, _, hk, -⟩ := hwith
  obtain rfl := hreset k' cfg token pw hk
  obtain ⟨e, hn, he⟩ := insertsToken_of hins
  obtain ⟨e', hp, -⟩ := hinv
  have hnm : n < m := by
    by_contra hle
    have hdrop : (c.trace.drop m)[n - m]? = some (j, e) := by
      rw [List.getElem?_drop, Nat.add_sub_cancel' (Nat.le_of_not_lt hle)]
      exact hn
    have hno := List.all_eq_true.mp hbefore (j, e) (List.mem_of_getElem? hdrop)
    simp [he] at hno
  have hmp : m ≤ p := by
    by_contra hlt
    have hin := mem_take_iff.mpr ⟨p, Nat.lt_of_not_le hlt, hp⟩
    have hne := List.all_eq_true.mp hafter (k', e') hin
    simp at hne
  omega

theorem reset_tokens_exclusive_alice : Exclusive (· < ·) (after passwordReset) := by
  have hreset : ∀ i cfg token pw,
      (after passwordReset).reqOf i = some ⟨cfg, .resetPassword token pw⟩ → i = 3 := by
    intro i cfg token pw hi
    have hreqs : (after passwordReset).threads.map (fun t => match t.req.endpoint with
        | .resetPassword _ _ => true
        | _ => false) = [false, false, false, true] := by decide +kernel
    obtain ⟨t, ht, hreq⟩ := Option.map_eq_some_iff.mp hi
    have hat := congrArg (·[i]?) hreqs
    simp only [List.getElem?_map, ht, Option.map_some, hreq] at hat
    rcases i with _ | _ | _ | _ | i <;> simp at hat
    rfl
  exact reset_tokens_exclusive (after_reachable passwordReset) (· < ·)
    (noRival_of_single (by decide +kernel))
    (insertedInTime_of_cut 3 (after resetRequested).trace.length hreset (by decide +kernel)
      (by decide +kernel))

/-- Both tokens are valid when both requests have returned. -/
theorem reset_tokens_shared : ¬ ∀ (now : Timestamp) (c : (server).Conf),
    Reachable (World.fresh now) c → (∀ i < c.threads.length, ∃ r, c.Returned i r) →
    Exclusive (· < ·) c := by
  intro hall
  have hreturned : ∀ i < (after resetRequestedTwice).threads.length,
      ∃ r, (after resetRequestedTwice).Returned i r := by
    intro i hi
    have hdone : (List.range (after resetRequestedTwice).threads.length).all (fun i =>
        ((after resetRequestedTwice).outcome i).isSome) = true := by decide +kernel
    have hout := List.all_eq_true.mp hdone i (List.mem_range.mpr hi)
    obtain ⟨r, hr⟩ := Option.isSome_iff_exists.mp hout
    exact ⟨r, Conf.returned_of_outcome hr⟩
  have hone := (hall 0 _ (after_reachable resetRequestedTwice) hreturned).one "a@b.c".toList
  have htwo : (after resetRequestedTwice).state.db.resetTokens.countP
      (·.isValid "a@b.c".toList (after resetRequestedTwice).state.now) = 2 := by decide +kernel
  omega

end SoulAuth.Sample
