import SoulAuth.Proofs.CacheRuns
import SoulAuth.Proofs.ConsoleConduct

/-! # Whom the console lets in

A caller is let in by a session that is alive, or by the cache. What the cache
answers under a token was put there by a request that had found the session
alive, less than a lifetime before, and nothing has removed it since.
-/

namespace SoulAuth

open Framework Framework.System

variable [Platform]

/-! ## The calls of the cache in a run -/

/-- The call of the cache that an entry executes. -/
def cacheCall? (x : Nat × Entry consoleTables.machine) : Option CacheCall :=
  match x.2.stmt with
  | .inr (.inr s) => some (x.2.before.1.now, s)
  | _ => none

/-- The calls of the cache in a trace. -/
def cacheCalls (tr : List (Nat × Entry consoleTables.machine)) : List CacheCall :=
  tr.filterMap cacheCall?

section

variable {tr : List (Nat × Entry consoleTables.machine)}

/-- The cache is what these calls leave. -/
theorem cache_after {w w' : consoleTables.machine.State} (h : Steps (S := console) w tr w') :
    w'.2.2 = w.2.2.after (cacheCalls tr) := by
  apply h.accumulates (P := fun tr (w' : consoleTables.machine.State) =>
    w'.2.2 = w.2.2.after (cacheCalls tr)) rfl
  intro tr i e _ hbefore
  have hsnoc : cacheCalls (tr ++ [(i, e)]) = cacheCalls tr ++ cacheCalls [(i, e)] :=
    List.filterMap_append
  rw [hsnoc]
  -- only a call of the cache touches it
  obtain ⟨ctx, s | s | s, w'⟩ := e
  · show w'.2.2 = w.2.2.after (cacheCalls tr ++ [])
    rw [List.append_nil]
    exact hbefore
  · show w'.2.2 = w.2.2.after (cacheCalls tr ++ [])
    rw [List.append_nil]
    exact hbefore
  · show (s.exec w'.1.now w'.2.2).2 = w.2.2.after (cacheCalls tr ++ [(w'.1.now, s)])
    rw [AuthCache.after_snoc]
    exact congrArg (fun cache => (s.exec w'.1.now cache).2) hbefore

/-- Where a call of the cache stands in the trace. -/
theorem cacheCalls_split {before behind : List CacheCall} {call : CacheCall}
    (h : cacheCalls tr = before ++ call :: behind) :
    ∃ tr₁ x tr₂, tr = tr₁ ++ x :: tr₂ ∧ cacheCall? x = some call ∧ cacheCalls tr₂ = behind := by
  obtain ⟨l₁, l₂, rfl, -, hl₂⟩ := List.filterMap_eq_append_iff.mp h
  obtain ⟨l₃, x, l₄, rfl, -, hx, hl₄⟩ := List.filterMap_eq_cons_iff.mp hl₂
  exact ⟨l₁ ++ l₃, x, l₄, by simp, hx, hl₄⟩

theorem stmt_of_cacheCall? {x : Nat × Entry consoleTables.machine} {τ : Timestamp}
    {s : CacheStmt} (h : cacheCall? x = some (τ, s)) :
    x.2.stmt = .inr (.inr s) ∧ x.2.before.1.now = τ := by
  obtain ⟨i, ctx, s' | s' | s', w⟩ := x
  · cases h
  · cases h
  · cases h
    exact ⟨rfl, rfl⟩

end

/-! ## Callers -/

/-- The entry `e₁` of request number `j`, after the trace `tr₁`, vouches for the
    caller whom the entry `e₂` finds in the cache; `tr₂` is between the two. -/
structure Vouches (bearer : Claims) (user : User) (lifetime j : Nat)
    (tr₁ tr₂ : List (Nat × Entry consoleTables.machine))
    (e₁ e₂ : Entry consoleTables.machine) : Prop where
  loaded : Loaded bearer user (baseEntries (entriesOf (S := console) j tr₁))
  inserted : e₁.stmt = .inr (.inr (.insert bearer user.key user))
  kept : ∀ x ∈ tr₂, ∀ s, x.2.stmt = .inr (.inr s) → ¬ s.Ends bearer user.key
  found : e₂.stmt = .inr (.inr (.get bearer))
  fresh : e₂.before.1.now < e₁.before.1.now + lifetime

/-- Request number `i` has let the bearer in as this user: it has found the
    session alive and has loaded the user, or the cache had the user, for whom
    another request vouches, and the gate of the identity root let it pass. -/
def Recognised (ttl : Option Nat) (i : Nat) (tr : List (Nat × Entry consoleTables.machine))
    (bearer : Claims) (user : User) : Prop :=
  Loaded bearer user (baseEntries (entriesOf (S := console) i tr)) ∨
    (∃ a, UserPassed (baseEntries (entriesOf (S := console) i tr)) user.key a) ∧
      ∃ lifetime j tr₁ e₁ tr₂ e₂ tr₃, ttl = some lifetime ∧
        tr = tr₁ ++ (j, e₁) :: (tr₂ ++ (i, e₂) :: tr₃) ∧
        Vouches bearer user lifetime j tr₁ tr₂ e₁ e₂

section

variable {w₀ : consoleTables.machine.State} {c : (console).Conf} {i : Nat} {bearer : Claims}
  {user : User} {tr tr' : List (Nat × Entry consoleTables.machine)}

theorem consoleConduct_holds (hc : Reachable w₀ c) : consoleConduct.Inv c :=
  hc.rule consoleConduct_met fun _ => trivial

/-- What the cache returns, some request vouches for. -/
theorem vouched_of_get (hcache : w₀.2.2.entries = []) (hc : Reachable w₀ c)
    {e : Entry consoleTables.machine} (htr : c.trace = tr ++ (i, e) :: tr')
    (hs : e.stmt = .inr (.inr (.get bearer)))
    (hget : e.before.2.2.get bearer e.before.1.now = some user) :
    ∃ lifetime j tr₁ e₁ tr₂, w₀.2.2.ttl = some lifetime ∧ tr = tr₁ ++ (j, e₁) :: tr₂ ∧
      Vouches bearer user lifetime j tr₁ tr₂ e₁ e := by
  have hsteps := hc.steps
  rw [htr] at hsteps
  have hafter := cache_after hsteps.split_entry.1
  have hon := (AuthCache.get_some hget).1
  rw [hafter, AuthCache.after_ttl] at hon
  obtain ⟨lifetime, hlifetime⟩ := Option.ne_none_iff_exists'.mp hon
  have hempty : w₀.2.2 = ⟨some lifetime, []⟩ := by
    rw [← hlifetime, ← hcache]
  rw [hempty] at hafter
  obtain ⟨x, hx, hkey, rfl, hlive⟩ := AuthCache.get_live hget
  rw [hafter] at hx
  obtain ⟨token, τ, hkey', ⟨before, behind, hcalls, hkept⟩, hexpires⟩ :=
    AuthCache.lastInserted_of_mem lifetime (cacheCalls tr) x hx
  obtain rfl : bearer = token := hashBearer_inj.mp (hkey.symm.trans hkey')
  obtain ⟨tr₁, ⟨j, e₁⟩, tr₂, rfl, hcall, hbehind⟩ := cacheCalls_split hcalls
  obtain ⟨hinsert, hnow⟩ := stmt_of_cacheCall? hcall
  -- whoever inserted it had loaded the user
  have hat : c.trace = tr₁ ++ (j, e₁) :: (tr₂ ++ (i, e) :: tr') := by
    rw [htr]
    simp
  obtain ⟨r, -, hentry⟩ := (consoleConduct_holds hc).entries tr₁ j e₁ _ hat
  obtain ⟨hid, hloaded⟩ := hentry.fills _ _ _ hinsert
  rw [hid] at hinsert hkept
  refine ⟨lifetime, j, tr₁, e₁, tr₂, hlifetime, rfl, hloaded, hinsert, ?_, hs, ?_⟩
  · intro y hy s hys
    have hmem : (y.2.before.1.now, s) ∈ behind := by
      rw [← hbehind]
      exact List.mem_filterMap.mpr ⟨y, hy, by simp [cacheCall?, hys]⟩
    exact hkept _ hmem
  · rw [hnow, ← hexpires]
    exact hlive

/-- **Callers.** Whom a request knows, it has let in by a live session or by
    the cache, which had the user from such a request. -/
theorem authenticated_of_known (hcache : w₀.2.2.entries = []) (hc : Reachable w₀ c)
    (htr : c.trace = tr ++ tr')
    (hk : Known bearer user (seenByCache (entriesOf (S := console) i tr))) :
    Recognised w₀.2.2.ttl i tr bearer user := by
  have hbase : baseEntries (seenByCache (entriesOf (S := console) i tr)) =
      baseEntries (entriesOf (S := console) i tr) := Widening.baseEntries_seen _
  -- the user is the answer of the cache, or was loaded by the request itself
  rcases hk with ⟨⟨e₀, he₀, hs₀, hget⟩, a, hpassed⟩ | hloaded
  · right
    rw [hbase] at hpassed
    obtain ⟨⟨ctx, s | s | s, w⟩, he, hnarrow⟩ := Widening.mem_seen he₀
    · cases hnarrow
      cases hs₀
    · cases hnarrow
    · cases hnarrow
      obtain rfl : s = .get bearer := Sum.inr.inj hs₀
      obtain ⟨tr₁, tr₂, rfl⟩ := List.append_of_mem (mem_entriesOf.mp he)
      have hat : c.trace = tr₁ ++ (i, (⟨ctx, .inr (.inr (.get bearer)), w⟩ :
          Entry consoleTables.machine)) :: (tr₂ ++ tr') := by
        rw [htr]
        simp
      obtain ⟨lifetime, j, tr₃, e₁, tr₄, httl, rfl, hvouches⟩ :=
        vouched_of_get hcache hc hat rfl hget
      refine ⟨⟨a, hpassed⟩, lifetime, j, tr₃, e₁, tr₄, _, tr₂, httl, ?_, hvouches⟩
      simp
  · left
    rw [hbase] at hloaded
    exact hloaded

end

end SoulAuth
