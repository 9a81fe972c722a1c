import SoulAuth.Framework.KeyedTable
import SoulAuth.Proofs.History
import SoulAuth.Services.AccountLockout

/-! # The table of lockout records

A record is stored under the key that `lockoutRecordId` computes, and looked
up by its identifier. As long as every statement addresses the record of the
identifier it writes, the table is a function from keys to records.
-/

namespace SoulAuth

open Framework Framework.System

/-! ## Record keys -/

theorem head?_lockoutRecordId (id : Str) (ty : LockoutType) :
    (lockoutRecordId id ty).head? = match ty with
      | .user => some 'u'
      | .ipAddress => some 'i' := by
  have huser : "user".toList.head? = some 'u' := by decide +kernel
  have hip : "ipaddress".toList.head? = some 'i' := by decide +kernel
  cases ty with
  | user =>
    show ("user".toList ++ _).head? = _
    rw [List.head?_append, huser]
    rfl
  | ipAddress =>
    show ("ipaddress".toList ++ _).head? = _
    rw [List.head?_append, hip]
    rfl

/-- Records of different types have different keys. -/
theorem lockoutRecordId_inj {a b : Str} {ty ty' : LockoutType} :
    lockoutRecordId a ty = lockoutRecordId b ty' ↔
      ty = ty' ∧ Str.replaceChar ' ' '_' a = Str.replaceChar ' ' '_' b := by
  constructor
  · intro h
    have hty : ty = ty' := by
      have hhead := congrArg List.head? h
      rw [head?_lockoutRecordId, head?_lockoutRecordId] at hhead
      cases ty with
      | user =>
        cases ty' with
        | user => rfl
        | ipAddress => exact absurd (Option.some.inj hhead) (by decide)
      | ipAddress =>
        cases ty' with
        | user => exact absurd (Option.some.inj hhead) (by decide)
        | ipAddress => rfl
    subst hty
    exact ⟨rfl, (List.cons.inj (List.append_cancel_left h)).2⟩
  · rintro ⟨rfl, h⟩
    rw [lockoutRecordId, lockoutRecordId, h]

/-- The identifiers that have a record key in common. -/
def Collide (a b : Str) : Prop := Str.replaceChar ' ' '_' a = Str.replaceChar ' ' '_' b

instance (a b : Str) : Decidable (Collide a b) :=
  inferInstanceAs (Decidable (Str.replaceChar ' ' '_' a = Str.replaceChar ' ' '_' b))

/-- An identifier without blanks and underscores has its key for itself. -/
theorem Collide.eq {a b : Str} (h : Collide a b) (hb : ∀ c ∈ b, c ≠ ' ' ∧ c ≠ '_') : a = b := by
  induction a generalizing b with
  | nil =>
    cases b with
    | nil => rfl
    | cons d b => cases h
  | cons c a ih =>
    cases b with
    | nil => cases h
    | cons d b =>
      obtain ⟨hhead, htail⟩ := List.cons.inj h
      obtain ⟨hblank, hunder⟩ := hb d (by simp)
      have hc : c = d := by
        simp only [if_neg hblank] at hhead
        by_cases hcb : c = ' '
        · rw [if_pos hcb] at hhead
          exact absurd hhead.symm hunder
        · rwa [if_neg hcb] at hhead
      rw [hc, ih htail fun c hc => hb c (by simp [hc])]

/-! ## The table as a function -/

/-- The row under a key. -/
abbrev lockoutAt (key : Str) (t : List AccountLockout) : Option AccountLockout :=
  KeyedTable.rowAt AccountLockout.key key t

/-- Every row is stored under the key of its identifier, and no key twice. -/
structure Keyed (t : List AccountLockout) : Prop where
  key : ∀ r ∈ t, r.key = lockoutRecordId r.identifier r.lockoutType
  nodup : (t.map AccountLockout.key).Nodup

theorem keyed_nil : Keyed [] := ⟨nofun, List.nodup_nil⟩

/-- The statement writes a row under the key of its identifier. -/
def LockoutStmt.IsAddressed : LockoutStmt → Prop
  | save l => l.key = lockoutRecordId l.identifier l.lockoutType
  | countFailure key id ty => key = lockoutRecordId id ty
  | _ => True

/-- The rows that the cleanup leaves. -/
def AccountLockout.isKept (now staleBefore : Timestamp) (r : AccountLockout) : Bool :=
  !((r.status ≠ .normal && match r.lockedUntil with
      | some u => u < now
      | none => false) ||
    (r.status = .normal && r.lastAttemptAt < staleBefore))

/-- What a statement makes of the row under a key. -/
def LockoutStmt.onRow (now : Timestamp) (key : Str) :
    LockoutStmt → Option AccountLockout → Option AccountLockout
  | save l, r => if key = l.key then some l else r
  | countFailure k id ty, r => if key = k then some (AccountLockout.counted k id ty now r) else r
  | lockIfReached k maxAttempts duration, r => r.map fun r =>
    if r.isReached k maxAttempts then r.lock duration now else r
  | cleanup now' staleBefore, r => r.filter (AccountLockout.isKept now' staleBefore)
  | _, r => r

section

variable {t : List AccountLockout} {now : Timestamp}

/-- The unique index never stands in the way. -/
theorem Keyed.not_clash (h : Keyed t) {key id : Str} {ty : LockoutType}
    (hkey : key = lockoutRecordId id ty) : lockoutClash key id ty t = false := by
  rw [lockoutClash, List.any_eq_false]
  intro r hr
  have hr' := h.key r hr
  simp only [Bool.and_eq_true, decide_eq_true_eq, not_and]
  rintro ⟨hne, rfl⟩ rfl
  exact hne (hr'.trans hkey.symm)

theorem counted_key {key id : Str} {ty : LockoutType} {r : Option AccountLockout}
    (hr : ∀ r', r = some r' → r'.key = key) :
    (AccountLockout.counted key id ty now r).key = key := by
  cases r with
  | none => rfl
  | some r => exact hr r rfl

theorem lock_key {k : Str} {m d : Nat} (r : AccountLockout) :
    (if r.isReached k m then r.lock d now else r).key = r.key := by
  split <;> rfl

/-- **The table is a function.** An addressed statement acts on the rows of
    a table key by key. -/
theorem Keyed.rowAt_exec (h : Keyed t) {s : LockoutStmt} (hs : s.IsAddressed) (key : Str) :
    lockoutAt key (s.exec now t).2 = s.onRow now key (lockoutAt key t) := by
  cases s with
  | get id ty => rfl
  | attempts k => rfl
  | save l =>
    rw [LockoutStmt.exec, if_neg (by rw [h.not_clash hs]; decide)]
    exact KeyedTable.rowAt_upsert fun _ _ => rfl
  | countFailure k id ty =>
    rw [LockoutStmt.exec, if_neg (by rw [h.not_clash hs]; decide)]
    have hrow : lockoutAt key (KeyedTable.upsert AccountLockout.key k
        (AccountLockout.counted k id ty now) t) = _ :=
      KeyedTable.rowAt_upsert fun _ hr => counted_key hr
    rw [LockoutStmt.onRow]
    by_cases hk : key = k
    · subst hk
      exact hrow
    · rw [if_neg hk] at hrow ⊢
      exact hrow
  | lockIfReached k m d => exact KeyedTable.rowAt_map fun r _ => lock_key r
  | cleanup now' staleBefore => exact KeyedTable.rowAt_filter h.nodup

/-- Addressed statements keep the rows under their keys. -/
theorem Keyed.exec (h : Keyed t) {s : LockoutStmt} (hs : s.IsAddressed) : Keyed (s.exec now t).2 := by
  cases s with
  | get id ty => exact h
  | attempts k => exact h
  | save l =>
    rw [LockoutStmt.exec, if_neg (by rw [h.not_clash hs]; decide)]
    refine ⟨fun r hr => ?_, KeyedTable.nodup_upsert (fun _ _ => rfl) h.nodup⟩
    have hcases := KeyedTable.mem_upsert (α := AccountLockout) (κ := Str) (k := l.key) (f := fun _ => l) hr
    rcases hcases with hr | rfl | ⟨_, _, _, rfl⟩
    · exact h.key r hr
    · exact hs
    · exact hs
  | countFailure k id ty =>
    rw [LockoutStmt.exec, if_neg (by rw [h.not_clash hs]; decide)]
    refine ⟨fun r hr => ?_, KeyedTable.nodup_upsert (fun _ hr => counted_key hr) h.nodup⟩
    rcases KeyedTable.mem_upsert hr with hr | rfl | ⟨r', _, hk, rfl⟩
    · exact h.key r hr
    · exact hs
    · exact hk.trans hs
  | lockIfReached k m d =>
    refine ⟨fun r hr => ?_, KeyedTable.nodup_map (fun r _ => lock_key r) h.nodup⟩
    obtain ⟨r', hr', rfl⟩ := List.mem_map.mp hr
    rw [lock_key, h.key r' hr']
    split <;> rfl
  | cleanup now' staleBefore =>
    exact ⟨fun r hr => h.key r (List.mem_filter.mp hr).1, KeyedTable.nodup_filter h.nodup⟩

/-! ## What a check finds -/

/-- The record that `get_lockout_record` finds. -/
def lockoutOf (identifier : Str) (ty : LockoutType) (t : List AccountLockout) :
    Option AccountLockout :=
  t.find? fun r => r.identifier = identifier && r.lockoutType = ty

/-- A lookup by the identifier is one by the key, if the row under the key
    has this identifier. -/
theorem Keyed.lockoutOf_eq (h : Keyed t) {id : Str} {ty : LockoutType} :
    lockoutOf id ty t = (lockoutAt (lockoutRecordId id ty) t).filter (·.identifier = id) := by
  have hkeys : ∀ r ∈ t, (decide (r.identifier = id) && decide (r.lockoutType = ty)) = true →
      r.key = lockoutRecordId id ty := by
    intro r hr hp
    obtain ⟨hid, hty⟩ := Bool.and_eq_true _ _ ▸ hp
    rw [h.key r hr, of_decide_eq_true hid, of_decide_eq_true hty]
  have hfind := KeyedTable.find?_eq_rowAt h.nodup hkeys
  rw [lockoutOf, hfind]
  cases hrow : lockoutAt (lockoutRecordId id ty) t with
  | none =>
    simp only [lockoutAt] at hrow
    rw [hrow]
    rfl
  | some r =>
    have hkey := KeyedTable.key_of_rowAt hrow
    rw [h.key r (KeyedTable.mem_of_rowAt hrow)] at hkey
    have hty := (lockoutRecordId_inj.mp hkey).1
    simp only [lockoutAt] at hrow
    rw [hrow]
    simp [Option.filter, hty]

end

/-! ## Entries -/

variable [Platform]

/-- The entry executes a statement on the lockout records. -/
structure ExecutesLockout (e : Entry machine) (s : LockoutStmt) : Prop where
  stmt : e.stmt = .db (.lockout s)
  executed : e.ctx.fault = none ∨ e.ctx.fault = some .lostReply

/-- What an entry makes of the lockout records. -/
theorem lockouts_executed (e : Entry machine) :
    (∃ s, ExecutesLockout e s ∧ e.after.db.lockouts = (s.exec (clock e) e.before.db.lockouts).2) ∨
    (∀ s, ¬ ExecutesLockout e s) ∧ e.after.db.lockouts = e.before.db.lockouts := by
  obtain ⟨⟨elapsed, fault⟩, s, w⟩ := e
  cases s with
  | db s =>
    rcases fault with _ | _ | _ | _
    · cases s with
      | lockout s => exact .inl ⟨s, ⟨rfl, .inl rfl⟩, rfl⟩
      | _ => exact .inr ⟨fun _ h => (nomatch h.stmt), rfl⟩
    · refine .inr ⟨fun _ h => ?_, rfl⟩
      rcases h.executed with h | h <;> cases h
    · refine .inr ⟨fun _ h => ?_, rfl⟩
      rcases h.executed with h | h <;> cases h
    · cases s with
      | lockout s => exact .inl ⟨s, ⟨rfl, .inr rfl⟩, rfl⟩
      | _ => exact .inr ⟨fun _ h => (nomatch h.stmt), rfl⟩
  | _ => exact .inr ⟨fun _ h => (nomatch h.stmt), rfl⟩

end SoulAuth
