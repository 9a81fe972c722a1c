import SoulAuth.Proofs.Footprint

/-! # The history of a request

What a request has done so far is the list of its own entries. This file
has the vocabulary in which the proofs read it: the statements that
answered, the values drawn, the account rows read, the effects had. The
rules at the end follow a program statement by statement.
-/

namespace SoulAuth

open Framework

variable [Platform]

/-- The time at which an entry was executed. -/
def clock (e : Entry machine) : Timestamp := e.before.now + e.ctx.elapsed

theorem after_now (e : Entry machine) : e.after.now = clock e := by
  obtain ⟨⟨elapsed, fault⟩, s, w⟩ := e
  cases s with
  | db s => rcases fault with _ | _ | _ | _ <;> rfl
  | _ => rfl

theorem before_le_clock (e : Entry machine) : e.before.now ≤ clock e := by
  have helapsed : (0 : Int) ≤ (e.ctx.elapsed : Int) := Int.natCast_nonneg _
  exact Int.le_add_of_nonneg_right helapsed

/-- The entry is the statement `s`, and the statement answered `a`. -/
structure Answered (s : DbStmt) (a : s.Reply) (e : Entry machine) : Prop where
  stmt : e.stmt = .db s
  sound : e.ctx.fault = none
  reply : (s.exec (clock e) e.before.db).1 = .ok a

/-- The entry read the clock, and it was `t`. -/
def SawTime (t : Timestamp) (e : Entry machine) : Prop := e.stmt = .now ∧ clock e = t

/-! ## Values drawn -/

/-- The UUID that an entry drew. -/
def uuidOf (e : Entry machine) : Option Str :=
  match e.stmt with
  | .uuid => some (Platform.uuid e.before.drawn)
  | _ => none

/-- The random token that an entry drew. -/
def tokenOf (e : Entry machine) : Option Str :=
  match e.stmt with
  | .secureToken => some (Platform.secureToken e.before.drawn)
  | _ => none

/-- The UUIDs drawn in a history. -/
def uuidsOf (h : List (Entry machine)) : List Str := h.filterMap uuidOf

/-- The tokens drawn in a history. -/
def tokensOf (h : List (Entry machine)) : List Str := h.filterMap tokenOf

/-! ## Account rows read -/

/-- The row that a statement on `user` reads. -/
def UserStmt.rowRead : UserStmt → List User → Option User
  | findById key, t => t.find? fun u => u.key = key
  | findByEmail email, t => t.find? fun u => u.email = email
  | findByUsername n, t => t.find? fun u => u.usernameNormalized = n
  | findByActor a, t => t.find? fun u => u.subjectId = some a
  | findByActorOrId k, t => t.find? fun u => u.subjectId = some k || u.key = k
  | _, _ => none

/-- The row that an entry read. -/
def userReadBy (e : Entry machine) : Option User :=
  match e.stmt with
  | .db (.identity (.user s)) => if e.ctx.fault = none then s.rowRead e.before.db.users else none
  | _ => none

/-- The account rows read in a history. -/
def userReads (h : List (Entry machine)) : List User := h.filterMap userReadBy

/-- The row that a request read last. -/
def lastUserRead (h : List (Entry machine)) : Option User := (userReads h).getLast?

/-- A statement that reads no account row. -/
def Stmt.readsNoUser : Stmt → Bool
  | .db (.identity (.user (.subjectOf _))) => true
  | .db (.identity (.user (.update _ _))) => true
  | .db (.identity (.user (.claimVerification _ _))) => true
  | .db (.identity (.user (.setAccountStatus _ _ _))) => true
  | .db (.identity (.user _)) => false
  | _ => true

theorem userReadBy_eq_none {e : Entry machine} (h : e.stmt.readsNoUser = true) :
    userReadBy e = none := by
  obtain ⟨ctx, s, w⟩ := e
  unfold userReadBy
  split
  · next s hs =>
    cases hs
    cases s <;> simp_all [Stmt.readsNoUser, UserStmt.rowRead]
  · rfl

/-! ## Effects had -/

/-- The effects of the statements of a history. -/
def effectsOf (h : List (Entry machine)) : List Effect := h.filterMap fun e => e.stmt.effect

section

variable {h t : List (Entry machine)} {e : Entry machine}

@[simp] theorem uuidsOf_append : uuidsOf (h ++ t) = uuidsOf h ++ uuidsOf t :=
  List.filterMap_append

@[simp] theorem tokensOf_append : tokensOf (h ++ t) = tokensOf h ++ tokensOf t :=
  List.filterMap_append

@[simp] theorem userReads_append : userReads (h ++ t) = userReads h ++ userReads t :=
  List.filterMap_append

@[simp] theorem effectsOf_append : effectsOf (h ++ t) = effectsOf h ++ effectsOf t :=
  List.filterMap_append

@[simp] theorem uuidsOf_nil : uuidsOf [] = [] := rfl

@[simp] theorem tokensOf_nil : tokensOf [] = [] := rfl

@[simp] theorem userReads_nil : userReads [] = [] := rfl

@[simp] theorem effectsOf_nil : effectsOf [] = [] := rfl

theorem userReads_singleton : userReads [e] = (userReadBy e).toList := by
  unfold userReads
  cases h : userReadBy e <;> simp [h]

theorem effectsOf_singleton : effectsOf [e] = e.stmt.effect.toList := by
  unfold effectsOf
  cases h : e.stmt.effect <;> simp [h]

theorem uuidsOf_snoc {v : Str} (he : uuidOf e = some v) :
    uuidsOf (h ++ [e]) = uuidsOf h ++ [v] := by
  simp [uuidsOf, he]

theorem tokensOf_snoc {v : Str} (he : tokenOf e = some v) :
    tokensOf (h ++ [e]) = tokensOf h ++ [v] := by
  simp [tokensOf, he]

theorem effectsOf_snoc (he : e.stmt.effect = none) : effectsOf (h ++ [e]) = effectsOf h := by
  simp [effectsOf_singleton, he]

theorem mem_effectsOf {x : Effect} : x ∈ effectsOf h ↔ ∃ e ∈ h, e.stmt.effect = some x := by
  simp [effectsOf]

/-- A part of a program whose effects are listed has no others. -/
theorem effectsOf_within {L : List Effect} (ht : ∀ e ∈ t, e.stmt.Within L) {x : Effect}
    (hx : x ∈ effectsOf t) : x ∈ L := by
  obtain ⟨e, he, hx⟩ := mem_effectsOf.mp hx
  exact ht e he x hx

theorem userReads_eq_nil (ht : ∀ e ∈ t, e.stmt.readsNoUser = true) : userReads t = [] := by
  refine List.filterMap_eq_nil_iff.mpr fun e he => ?_
  exact userReadBy_eq_none (ht e he)

theorem lastUserRead_append (ht : ∀ e ∈ t, e.stmt.readsNoUser = true) :
    lastUserRead (h ++ t) = lastUserRead h := by
  simp [lastUserRead, userReads_eq_nil ht]

theorem lastUserRead_stay (he : e.stmt.readsNoUser = true) :
    lastUserRead (h ++ [e]) = lastUserRead h :=
  lastUserRead_append (by simpa using he)

theorem lastUserRead_snoc {u : User} (he : userReadBy e = some u) :
    lastUserRead (h ++ [e]) = some u := by
  simp [lastUserRead, userReads_singleton, he]

end

/-! ## What an answer says -/

namespace Answered

variable {s : DbStmt} {a : s.Reply} {e : Entry machine}

/-- The statement has been executed. -/
theorem after (h : Answered s a e) : e.after.db = (s.exec (clock e) e.before.db).2 := by
  obtain ⟨ctx, s', w⟩ := e
  obtain ⟨rfl, hf, -⟩ := h
  simp only at hf
  simp [Entry.after, Stmt.exec, hf, clock, World.advance]

theorem effect (h : Answered s a e) : e.stmt.effect = s.effect := by
  rw [h.stmt]; rfl

end Answered

/-- An account row that was read is in the table. -/
theorem userReadBy_mem {e : Entry machine} {u : User} (h : userReadBy e = some u) :
    u ∈ e.before.db.users := by
  unfold userReadBy at h
  split at h
  · split at h
    · next s _ _ =>
      cases s with
      | subjectOf | update | claimVerification | setAccountStatus => cases h
      | _ => exact List.mem_of_find?_eq_some h
    · cases h
  · cases h

/-! ## Following a program -/

section

variable {ε ε' α β : Type} {I : World → Prop} {E : List (Entry machine) → Entry machine → Prop}
  {Q : List (Entry machine) → Except ε β → Prop} {h : List (Entry machine)}

/-- How a query goes on with the response to its statement. -/
def onResponse [OfDb ε] {s : DbStmt} (f : s.Reply → Req ε β) :
    Except DbFailure s.Reply → Req ε β
  | .ok a => f a
  | .error x => .done (.error (OfDb.ofDb x))

theorem query_bind [OfDb ε] {s : DbStmt} (f : s.Reply → Req ε β) :
    (query s >>= f) = .step (Stmt.db s) (onResponse f) := by
  refine congrArg (Prog.step (M := machine) (Stmt.db s)) (funext fun r => ?_)
  cases r <;> rfl

/-- A query either answers or fails; when it fails it has not answered. -/
theorem meets_query_failing_bind [OfDb ε] {s : DbStmt} {f : s.Reply → Req ε β}
    (hE : ∀ ctx w, I w → E h ⟨ctx, .db s, w⟩)
    (hok : ∀ e a, I e.before → Answered s a e → (f a).Meets I E Q (h ++ [e]))
    (herr : ∀ e x, e.stmt = .db s → (∀ a, ¬ Answered s a e) →
      Q (h ++ [e]) (.error (OfDb.ofDb x))) :
    (query s >>= f).Meets I E Q h := by
  rw [query_bind]
  intro ctx w hw
  refine ⟨hE ctx w hw, ?_⟩
  obtain ⟨elapsed, fault⟩ := ctx
  show (onResponse f (Stmt.exec ⟨elapsed, fault⟩ (.db s) w).1).Meets I E Q _
  cases fault with
  | none =>
    rcases hr : (Stmt.exec ⟨elapsed, none⟩ (.db s) w).1 with x | a
    · apply herr _ x rfl
      intro a ha
      cases hr.symm.trans ha.reply
    · exact hok _ a hw ⟨rfl, rfl, hr⟩
  | some fault =>
    have hfail : ∀ a, ¬ Answered s a ⟨⟨elapsed, some fault⟩, .db s, w⟩ := by
      intro a ha
      cases ha.sound
    cases fault with
    | refused => exact herr _ _ rfl hfail
    | conflict => exact herr _ _ rfl hfail
    | lostReply => exact herr _ _ rfl hfail

/-- The same without that. -/
theorem meets_query_bind [OfDb ε] {s : DbStmt} {f : s.Reply → Req ε β}
    (hE : ∀ ctx w, I w → E h ⟨ctx, .db s, w⟩)
    (hok : ∀ e a, I e.before → Answered s a e → (f a).Meets I E Q (h ++ [e]))
    (herr : ∀ e x, e.stmt = .db s → Q (h ++ [e]) (.error (OfDb.ofDb x))) :
    (query s >>= f).Meets I E Q h :=
  meets_query_failing_bind hE hok fun e x hs _ => herr e x hs

/-- A query that ends a program. -/
theorem meets_query [OfDb ε] {s : DbStmt} {Q : List (Entry machine) → Except ε s.Reply → Prop}
    (hE : ∀ ctx w, I w → E h ⟨ctx, .db s, w⟩)
    (hok : ∀ e a, I e.before → Answered s a e → Q (h ++ [e]) (.ok a))
    (herr : ∀ e x, e.stmt = .db s → Q (h ++ [e]) (.error (OfDb.ofDb x))) :
    (query s).Meets I E Q h := by
  rw [← Prog.bind_pure' (query s)]
  exact meets_query_bind hE hok herr

theorem meets_getNow_bind {f : Timestamp → Req ε β} (hE : ∀ ctx w, I w → E h ⟨ctx, .now, w⟩)
    (hok : ∀ e t, I e.before → SawTime t e → (f t).Meets I E Q (h ++ [e])) :
    (getNow >>= f).Meets I E Q h :=
  fun ctx w hw => ⟨hE ctx w hw, hok ⟨ctx, .now, w⟩ _ hw ⟨rfl, rfl⟩⟩

theorem meets_newUuid_bind {f : Str → Req ε β} (hE : ∀ ctx w, I w → E h ⟨ctx, .uuid, w⟩)
    (hok : ∀ e v, I e.before → e.stmt = .uuid → uuidOf e = some v →
      (f v).Meets I E Q (h ++ [e])) :
    (newUuid >>= f).Meets I E Q h :=
  fun ctx w hw => ⟨hE ctx w hw, hok ⟨ctx, .uuid, w⟩ _ hw rfl rfl⟩

theorem meets_newSecureToken_bind {f : Str → Req ε β}
    (hE : ∀ ctx w, I w → E h ⟨ctx, .secureToken, w⟩)
    (hok : ∀ e v, I e.before → e.stmt = .secureToken → tokenOf e = some v →
      (f v).Meets I E Q (h ++ [e])) :
    (newSecureToken >>= f).Meets I E Q h :=
  fun ctx w hw => ⟨hE ctx w hw, hok ⟨ctx, .secureToken, w⟩ _ hw rfl rfl⟩

theorem meets_hashPassword_bind {pw : Str} {f : Str → Req ε β}
    (hE : ∀ ctx w, I w → E h ⟨ctx, .hashPassword pw, w⟩)
    (hok : ∀ e v, I e.before → e.stmt = .hashPassword pw → (f v).Meets I E Q (h ++ [e])) :
    (hashPassword pw >>= f).Meets I E Q h :=
  fun ctx w hw => ⟨hE ctx w hw, hok ⟨ctx, .hashPassword pw, w⟩ _ hw rfl⟩

theorem meets_ensure_bind {c : Prop} [Decidable c] {x : ε} {f : Unit → Req ε β}
    (hok : c → (f ()).Meets I E Q h) (herr : ¬ c → Q h (.error x)) :
    (Prog.ensure c x >>= f).Meets I E Q h := by
  unfold Prog.ensure
  split
  · next hc => exact hok hc
  · next hc => exact herr hc

theorem meets_orThrow_bind {o : Option α} {x : ε} {f : α → Req ε β}
    (hok : ∀ a, o = some a → (f a).Meets I E Q h) (herr : o = none → Q h (.error x)) :
    (Prog.orThrow x o >>= f).Meets I E Q h := by
  cases o with
  | some a => exact hok a rfl
  | none => exact herr rfl

theorem meets_ofExcept_bind {r : Except ε α} {f : α → Req ε β}
    (hok : ∀ a, r = .ok a → (f a).Meets I E Q h) (herr : ∀ x, r = .error x → Q h (.error x)) :
    (Prog.ofExcept r >>= f).Meets I E Q h := by
  cases r with
  | ok a => exact hok a rfl
  | error x => exact herr x rfl

/-- A part of a program that issues only statements of one kind, all of
    them tolerated. -/
theorem meets_skip_bind {S : Stmt → Prop} {p : Req ε α} {f : α → Req ε β}
    (hp : Prog.Only S p)
    (hE : ∀ t e, (∀ e' ∈ t, S e'.stmt) → S e.stmt → E (h ++ t) e)
    (hok : ∀ t a, (∀ e ∈ t, S e.stmt) → (f a).Meets I E Q (h ++ t))
    (herr : ∀ t x, (∀ e ∈ t, S e.stmt) → Q (h ++ t) (.error x)) :
    (p >>= f).Meets I E Q h := by
  refine Prog.meets_bind.mpr (hp.meets hE fun t r ht => ?_)
  cases r with
  | ok a => exact hok t a ht
  | error x => exact herr t x ht

end

end SoulAuth
