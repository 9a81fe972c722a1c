import Mathlib.Algebra.BigOperators.Group.Finset.Piecewise
import Mathlib.Algebra.GroupWithZero.Nat
import Mathlib.Data.List.Induction
import SoulAuth.Framework.Program

/-! # Interleaved runs of requests

A system starts one program per request and lets the scheduler choose, at
every point, which request issues its next statement and in which context.
The run keeps a *trace* of all executed statements with the state each one
found, so that a property of a run is a property of its trace.

Two facts carry every proof about a run. `threadInv_run` lifts the
thread-local rules of the programs to the trace of any interleaving, and
`invariant_run` is induction over the scheduler's choices.
-/

namespace SoulAuth.Framework

/-- A machine with the program that serves each request. -/
structure System where
  machine : Machine
  Req : Type
  Err : Type
  Res : Type
  program : Req → Prog machine Err Res

namespace System

variable (S : System)

/-- A request in progress or finished. `startedAt` is the length of the
    trace when the request arrived. -/
structure Thread where
  req : S.Req
  prog : Prog S.machine S.Err S.Res
  startedAt : Nat

/-- A configuration: the shared state, the requests in order of arrival,
    and the trace of executed statements tagged with their request. -/
structure Conf where
  state : S.machine.State
  threads : List S.Thread
  trace : List (Nat × Entry S.machine)

/-- The scheduler's choices: a new request arrives, or request number `i`
    issues its next statement in the context `ctx`. -/
inductive Action
  | start (r : S.Req)
  | step (i : Nat) (ctx : S.machine.Ctx)

/-- The configuration in which a run starts. -/
def initial (w : S.machine.State) : S.Conf := ⟨w, [], []⟩

variable {S}

/-- What one choice of the scheduler does. A choice that names no request,
    or one that has returned, changes nothing. -/
def Conf.next (c : S.Conf) : S.Action → S.Conf
  | .start r => { c with threads := c.threads ++ [⟨r, S.program r, c.trace.length⟩] }
  | .step i ctx =>
    match c.threads[i]? with
    | some ⟨r, .step s k, n⟩ =>
      let out := S.machine.exec ctx s c.state
      { state := out.2
        threads := c.threads.set i ⟨r, k out.1, n⟩
        trace := c.trace ++ [(i, ⟨ctx, s, c.state⟩)] }
    | _ => c

/-- A run: the scheduler's choices one after the other. -/
def Conf.run (c : S.Conf) (as : List S.Action) : S.Conf := as.foldl Conf.next c

@[simp] theorem Conf.run_nil (c : S.Conf) : c.run [] = c := rfl

@[simp] theorem Conf.run_cons (c : S.Conf) (a : S.Action) (as : List S.Action) :
    c.run (a :: as) = (c.next a).run as := rfl

theorem Conf.run_append (c : S.Conf) (as bs : List S.Action) :
    c.run (as ++ bs) = (c.run as).run bs := List.foldl_append

/-- A configuration that a run from `w` can reach. -/
def Reachable (w : S.machine.State) (c : S.Conf) : Prop :=
  ∃ as, c = (S.initial w).run as

/-- The entries of request number `i`. -/
def entriesOf (i : Nat) (tr : List (Nat × Entry S.machine)) : List (Entry S.machine) :=
  tr.filterMap fun e => if e.1 = i then some e.2 else none

/-- Request number `i` has returned `r`. -/
def Conf.Returned (c : S.Conf) (i : Nat) (r : Except S.Err S.Res) : Prop :=
  ∃ t, c.threads[i]? = some t ∧ t.prog = .done r

/-- The outcome of request number `i`, if it has returned. -/
def Conf.outcome (c : S.Conf) (i : Nat) : Option (Except S.Err S.Res) :=
  match (c.threads[i]?).map Thread.prog with
  | some (.done r) => some r
  | _ => none

theorem Conf.returned_of_outcome {c : S.Conf} {i : Nat} {r : Except S.Err S.Res}
    (h : c.outcome i = some r) : c.Returned i r := by
  unfold outcome at h
  split at h
  · next x hx =>
    obtain ⟨t, ht, hp⟩ := Option.map_eq_some_iff.mp hx
    cases h
    exact ⟨t, ht, hp⟩
  · cases h

theorem Conf.Returned.outcome {c : S.Conf} {i : Nat} {r : Except S.Err S.Res}
    (h : c.Returned i r) : c.outcome i = some r := by
  obtain ⟨t, ht, hd⟩ := h
  simp [Conf.outcome, ht, hd]

/-- The request served by thread `i`. -/
def Conf.reqOf (c : S.Conf) (i : Nat) : Option S.Req := (c.threads[i]?).map Thread.req

/-! ## Induction over a run -/

/-- A property that holds at first and is kept by every choice of the
    scheduler holds in every configuration of a run. -/
theorem invariant_run {P : S.Conf → Prop} (hs : ∀ c a, P c → P (c.next a)) {c : S.Conf}
    (hc : P c) (as : List S.Action) : P (c.run as) := by
  induction as generalizing c with
  | nil => exact hc
  | cons a as ih => exact ih (hs c a hc)

/-- The same for the choices of a kind. -/
theorem invariant_run_of {P : S.Conf → Prop} {A : S.Action → Prop}
    (hs : ∀ c a, A a → P c → P (c.next a)) {c : S.Conf} (hc : P c) {as : List S.Action}
    (has : ∀ a ∈ as, A a) : P (c.run as) := by
  induction as generalizing c with
  | nil => exact hc
  | cons a as ih =>
    obtain ⟨ha, has⟩ := List.forall_mem_cons.mp has
    exact ih (hs c a ha hc) has

theorem Reachable.induction {w : S.machine.State} {P : S.Conf → Prop}
    (h0 : P (S.initial w)) (hs : ∀ c a, P c → P (c.next a)) {c : S.Conf}
    (hc : Reachable w c) : P c := by
  obtain ⟨as, rfl⟩ := hc
  exact invariant_run hs h0 as

theorem Reachable.next {w : S.machine.State} {c : S.Conf} (hc : Reachable w c)
    (a : S.Action) : Reachable w (c.next a) := by
  obtain ⟨as, rfl⟩ := hc
  exact ⟨as ++ [a], by simp [Conf.run_append]⟩

theorem Reachable.run {w : S.machine.State} {c : S.Conf} (hc : Reachable w c)
    (as : List S.Action) : Reachable w (c.run as) := by
  obtain ⟨bs, rfl⟩ := hc
  exact ⟨bs ++ as, by simp [Conf.run_append]⟩

/-- What one choice can do: start a request, execute one statement of one
    request, or nothing. -/
theorem Conf.next_cases (c : S.Conf) (a : S.Action) :
    (∃ r, a = .start r ∧
      c.next a = { c with threads := c.threads ++ [⟨r, S.program r, c.trace.length⟩] }) ∨
    (∃ i ctx t s k, a = .step i ctx ∧ c.threads[i]? = some t ∧ t.prog = .step s k ∧
      c.next a =
        { state := (S.machine.exec ctx s c.state).2
          threads := c.threads.set i ⟨t.req, k (S.machine.exec ctx s c.state).1, t.startedAt⟩
          trace := c.trace ++ [(i, ⟨ctx, s, c.state⟩)] }) ∨
    c.next a = c := by
  cases a with
  | start r => exact .inl ⟨r, rfl, rfl⟩
  | step i ctx =>
    rcases ht : c.threads[i]? with _ | ⟨r, p, n⟩
    · exact .inr (.inr (by simp [Conf.next, ht]))
    · cases p with
      | done x => exact .inr (.inr (by simp [Conf.next, ht]))
      | step s k =>
        exact .inr (.inl ⟨i, ctx, ⟨r, .step s k, n⟩, s, k, rfl, ht, rfl, by
          simp [Conf.next, ht]⟩)

/-! ## Traces -/

/-- A list, cut at one of its places. -/
theorem split_at {α : Type} {l : List α} {n : Nat} {x : α} (h : l[n]? = some x) :
    l = l.take n ++ x :: l.drop (n + 1) := by
  obtain ⟨hlt, rfl⟩ := List.getElem?_eq_some_iff.mp h
  rw [← List.drop_eq_getElem_cons hlt, List.take_append_drop]

theorem mem_take_iff {α : Type} {l : List α} {n : Nat} {x : α} :
    x ∈ l.take n ↔ ∃ m, m < n ∧ l[m]? = some x := by
  simp [List.mem_iff_getElem?, List.getElem?_take]

/-- An element of a list with one more at its end. -/
theorem getElem?_snoc_cases {α : Type} {l : List α} {x t : α} {i : Nat}
    (h : (l ++ [x])[i]? = some t) : l[i]? = some t ∨ i = l.length ∧ x = t := by
  by_cases hlt : i < l.length
  · exact .inl (by rwa [List.getElem?_append_left hlt] at h)
  · rw [List.getElem?_append_right (Nat.le_of_not_lt hlt)] at h
    obtain ⟨hi, hx⟩ := List.getElem?_eq_some_iff.mp h
    have : i = l.length := by simp at hi; omega
    subst this
    exact .inr ⟨rfl, by simpa using hx⟩

@[simp] theorem entriesOf_nil (i : Nat) : entriesOf (S := S) i [] = [] := rfl

theorem entriesOf_append (i : Nat) (tr₁ tr₂ : List (Nat × Entry S.machine)) :
    entriesOf i (tr₁ ++ tr₂) = entriesOf i tr₁ ++ entriesOf i tr₂ :=
  List.filterMap_append

@[simp] theorem entriesOf_snoc_self (i : Nat) (tr : List (Nat × Entry S.machine))
    (e : Entry S.machine) : entriesOf i (tr ++ [(i, e)]) = entriesOf i tr ++ [e] := by
  simp [entriesOf]

@[simp] theorem entriesOf_snoc_ne {i j : Nat} (tr : List (Nat × Entry S.machine))
    (e : Entry S.machine) (h : j ≠ i) : entriesOf i (tr ++ [(j, e)]) = entriesOf i tr := by
  simp [entriesOf, h]

theorem mem_entriesOf {i : Nat} {tr : List (Nat × Entry S.machine)} {e : Entry S.machine} :
    e ∈ entriesOf i tr ↔ (i, e) ∈ tr := by
  simp only [entriesOf, List.mem_filterMap]
  constructor
  · rintro ⟨⟨j, e'⟩, hmem, h⟩
    split at h
    · next hj => cases h; cases hj; exact hmem
    · cases h
  · intro h
    exact ⟨(i, e), h, by simp⟩

/-- The entries of a request before a place of the trace. -/
theorem mem_entriesOf_take {i n : Nat} {tr : List (Nat × Entry S.machine)} {e : Entry S.machine} :
    e ∈ entriesOf i (tr.take n) ↔ ∃ m, m < n ∧ tr[m]? = some (i, e) :=
  mem_entriesOf.trans mem_take_iff

/-- An entry of a request stands at one place of the trace, with the
    request's earlier entries before it and its later ones after it. -/
theorem entriesOf_split {i : Nat} {tr : List (Nat × Entry S.machine)}
    {l₁ l₂ : List (Entry S.machine)} {e : Entry S.machine} (h : entriesOf i tr = l₁ ++ e :: l₂) :
    ∃ tr₁ tr₂, tr = tr₁ ++ (i, e) :: tr₂ ∧ entriesOf i tr₁ = l₁ ∧ entriesOf i tr₂ = l₂ := by
  obtain ⟨tr₁, tr', rfl, h₁, h'⟩ := List.filterMap_eq_append_iff.mp h
  obtain ⟨trs, ⟨j, e'⟩, tr₂, rfl, hskip, he, h₂⟩ := List.filterMap_eq_cons_iff.mp h'
  have hj : j = i ∧ e' = e := by
    by_cases hij : j = i
    · exact ⟨hij, by simpa [hij] using he⟩
    · simp [hij] at he
  obtain ⟨rfl, rfl⟩ := hj
  refine ⟨tr₁ ++ trs, tr₂, by simp, ?_, h₂⟩
  have hnone : entriesOf j trs = [] := List.filterMap_eq_nil_iff.mpr hskip
  rw [entriesOf_append, hnone, List.append_nil]
  exact h₁

/-- `Steps w tr w'`: executing the entries of `tr` leads from `w` to `w'`,
    and every entry found the state the one before it left. -/
inductive Steps : S.machine.State → List (Nat × Entry S.machine) → S.machine.State → Prop
  | nil (w) : Steps w [] w
  | snoc {w tr w'} (i : Nat) (e : Entry S.machine) (h : Steps w tr w')
      (he : e.before = w') : Steps w (tr ++ [(i, e)]) e.after

theorem Steps.trans {w₁ w₂ w₃ : S.machine.State} {tr₁ tr₂ : List (Nat × Entry S.machine)}
    (h₁ : Steps w₁ tr₁ w₂) (h₂ : Steps w₂ tr₂ w₃) : Steps w₁ (tr₁ ++ tr₂) w₃ := by
  induction h₂ with
  | nil => simpa using h₁
  | snoc i e _ he ih =>
    rw [← List.append_assoc]
    exact Steps.snoc i e ih he

/-- A run can be cut at every entry of its trace. -/
theorem Steps.split {w w' : S.machine.State} {tr tr₁ tr₂ : List (Nat × Entry S.machine)}
    (h : Steps w tr w') (htr : tr = tr₁ ++ tr₂) :
    ∃ w₁, Steps w tr₁ w₁ ∧ Steps w₁ tr₂ w' := by
  induction h generalizing tr₂ with
  | nil =>
    obtain ⟨rfl, rfl⟩ := List.nil_eq_append_iff.mp htr
    exact ⟨_, .nil _, .nil _⟩
  | @snoc tr w'' i e h he ih =>
    rcases List.eq_nil_or_concat tr₂ with rfl | ⟨tr₂', x, rfl⟩
    · rw [List.append_nil] at htr
      exact ⟨_, htr ▸ .snoc i e h he, .nil _⟩
    · rw [List.concat_eq_append, ← List.append_assoc] at htr
      obtain ⟨htr', hx⟩ := List.append_inj' htr rfl
      cases hx
      obtain ⟨w₁, h₁, h₂⟩ := ih htr'
      exact ⟨w₁, h₁, by simpa using Steps.snoc i e h₂ he⟩

/-- The entry at a cut found the state the entries before it lead to. -/
theorem Steps.split_entry {w w' : S.machine.State}
    {tr₁ tr₂ : List (Nat × Entry S.machine)} {i : Nat} {e : Entry S.machine}
    (h : Steps w (tr₁ ++ (i, e) :: tr₂) w') :
    Steps w tr₁ e.before ∧ Steps e.after tr₂ w' := by
  have hsplit : tr₁ ++ (i, e) :: tr₂ = (tr₁ ++ [(i, e)]) ++ tr₂ := by simp
  obtain ⟨w₁, h₁, h₂⟩ := h.split hsplit
  generalize htr : tr₁ ++ [(i, e)] = tr at h₁
  cases h₁ with
  | nil => simp at htr
  | snoc j e' h₁ he =>
    obtain ⟨rfl, hx⟩ := List.append_inj' htr rfl
    cases hx
    exact ⟨he ▸ h₁, h₂⟩

/-- A trace leads to one state. -/
theorem Steps.state_eq {w w₁ w₂ : S.machine.State} {tr : List (Nat × Entry S.machine)}
    (h₁ : Steps w tr w₁) (h₂ : Steps w tr w₂) : w₁ = w₂ := by
  generalize htr : tr = tr' at h₂
  cases h₁ with
  | nil =>
    cases h₂ with
    | nil => rfl
    | snoc i e _ _ => simp at htr
  | snoc i e _ _ =>
    cases h₂ with
    | nil => simp at htr
    | snoc j e' _ _ =>
      obtain ⟨-, hx⟩ := List.append_inj' htr rfl
      cases hx
      rfl

/-- Every entry found the state that the one before it left. -/
theorem Steps.adjacent {w w' : S.machine.State} {tr : List (Nat × Entry S.machine)}
    (h : Steps w tr w') {n i j : Nat} {e e' : Entry S.machine} (hn : tr[n]? = some (i, e))
    (hn' : tr[n + 1]? = some (j, e')) : e'.before = e.after := by
  have hcut := split_at hn
  have hnext : (tr.drop (n + 1))[0]? = some (j, e') := by simpa using hn'
  rw [split_at hnext, List.take_zero, List.nil_append] at hcut
  rw [hcut] at h
  have hsteps : Steps e.after ([] ++ (j, e') :: (tr.drop (n + 1)).drop (0 + 1)) w' :=
    h.split_entry.2
  exact (hsteps.split_entry).1.state_eq (.nil _)

/-- Induction over the entries of a trace, state by state. -/
theorem Steps.preserves {w w' : S.machine.State} {tr : List (Nat × Entry S.machine)}
    (h : Steps w tr w') {P : S.machine.State → Prop} (hw : P w)
    (hs : ∀ i e, (i, e) ∈ tr → P e.before → P e.after) : P w' := by
  induction h with
  | nil => exact hw
  | snoc i e _ he ih =>
    refine hs i e (by simp) (he ▸ ih fun j e' hm => hs j e' ?_)
    simp [hm]

/-- The same for what is said of the state and the entries that led to it. -/
theorem Steps.accumulates {w w' : S.machine.State} {tr : List (Nat × Entry S.machine)}
    (h : Steps w tr w') {P : List (Nat × Entry S.machine) → S.machine.State → Prop}
    (hw : P [] w)
    (hs : ∀ tr i e, Steps w tr e.before → P tr e.before → P (tr ++ [(i, e)]) e.after) :
    P tr w' := by
  induction h with
  | nil => exact hw
  | snoc i e h he ih =>
    subst he
    exact hs _ i e h ih

/-- What holds at one place of a run holds at its end, if nothing after that
    place breaks it. -/
theorem Steps.holds_since {w w' : S.machine.State} {tr : List (Nat × Entry S.machine)}
    (h : Steps w tr w') {P : S.machine.State → Prop} {n i : Nat} {e : Entry S.machine}
    (hn : tr[n]? = some (i, e)) (hP : P e.after)
    (hkeep : ∀ (m j : Nat) (e' : Entry S.machine), n < m → tr[m]? = some (j, e') →
      P e'.before → P e'.after) : P w' := by
  rw [split_at hn] at h
  apply h.split_entry.2.preserves hP
  intro j e' hmem
  obtain ⟨m, hm⟩ := List.mem_iff_getElem?.mp hmem
  rw [List.getElem?_drop] at hm
  exact hkeep (n + 1 + m) j e' (by omega) hm

/-- What holds at the end of a trace held at first, or an entry that leaves
    it so found it otherwise. -/
theorem Steps.origin {w w' : S.machine.State} {tr : List (Nat × Entry S.machine)}
    (h : Steps w tr w') {P : S.machine.State → Prop} (hP : P w') :
    P w ∨ ∃ i e, (i, e) ∈ tr ∧ P e.after ∧ ¬ P e.before := by
  induction h with
  | nil => exact .inl hP
  | snoc i e _ he ih =>
    by_cases hb : P e.before
    · rcases ih (he ▸ hb) with h0 | ⟨j, e', hm, hj⟩
      · exact .inl h0
      · exact .inr ⟨j, e', by simp [hm], hj⟩
    · exact .inr ⟨i, e, by simp, hP, hb⟩

/-- What holds at the end of a trace, and did not hold at first, holds since an
    entry that found it otherwise. -/
theorem Steps.since {w w' : S.machine.State} {tr : List (Nat × Entry S.machine)}
    (h : Steps w tr w') {P : S.machine.State → Prop} (hP : P w') (hw : ¬ P w) :
    ∃ (n i : Nat) (e : Entry S.machine), tr[n]? = some (i, e) ∧ P e.after ∧ ¬ P e.before ∧
      ∀ (m j : Nat) (e' : Entry S.machine), n < m → tr[m]? = some (j, e') → P e'.after := by
  induction h with
  | nil => exact absurd hP hw
  | @snoc tr w'' i e _ he ih =>
    by_cases hb : P e.before
    · obtain ⟨n, j, e', hat, hafter, hbefore, hkept⟩ := ih (he ▸ hb)
      have hlt := (List.getElem?_eq_some_iff.mp hat).1
      refine ⟨n, j, e', by rwa [List.getElem?_append_left hlt], hafter, hbefore, ?_⟩
      intro m k e'' hm hat'
      rcases getElem?_snoc_cases hat' with hat' | ⟨-, heq⟩
      · exact hkept m k e'' hm hat'
      · obtain ⟨-, rfl⟩ := Prod.mk.inj heq
        exact hP
    · refine ⟨tr.length, i, e, by simp, hP, hb, ?_⟩
      intro m k e' hm hat
      have hlt := (List.getElem?_eq_some_iff.mp hat).1
      rw [List.length_append, List.length_singleton] at hlt
      omega

/-- A value at the end of a trace is the one that its last writer left. -/
theorem Steps.settled {w w' : S.machine.State} {tr : List (Nat × Entry S.machine)}
    (h : Steps w tr w') {α : Type} (value : S.machine.State → α) (W : Entry S.machine → Prop)
    (hkeep : ∀ i e, (i, e) ∈ tr → ¬ W e → value e.after = value e.before) :
    (∀ i e, (i, e) ∈ tr → ¬ W e) ∧ value w' = value w ∨
    ∃ (n i : Nat) (e : Entry S.machine), tr[n]? = some (i, e) ∧ W e ∧
      (∀ (m j : Nat) (e' : Entry S.machine), tr[m]? = some (j, e') → W e' → m ≤ n) ∧
      value w' = value e.after := by
  induction h with
  | nil => exact .inl ⟨fun _ _ hx => absurd hx List.not_mem_nil, rfl⟩
  | @snoc tr w'' i e _ he ih =>
    by_cases hw : W e
    · refine .inr ⟨tr.length, i, e, by simp, hw, fun m j e' hy _ => ?_, rfl⟩
      have hlt := (List.getElem?_eq_some_iff.mp hy).1
      rw [List.length_append, List.length_singleton] at hlt
      omega
    · have hlast := hkeep i e (by simp) hw
      rw [he] at hlast
      rcases ih fun j e' hx => hkeep j e' (List.mem_append_left _ hx) with
        ⟨hnone, hsame⟩ | ⟨n, j, e', hx, hwx, hmax, hsame⟩
      · refine .inl ⟨fun j e' hx => ?_, hlast.trans hsame⟩
        rcases List.mem_append.mp hx with hx | hx
        · exact hnone j e' hx
        · obtain ⟨-, rfl⟩ := Prod.mk.inj (List.mem_singleton.mp hx)
          exact hw
      · have hlt := (List.getElem?_eq_some_iff.mp hx).1
        refine .inr ⟨n, j, e', by rwa [List.getElem?_append_left hlt], hwx, ?_, hlast.trans hsame⟩
        intro m k e'' hy hwy
        rcases getElem?_snoc_cases hy with hy | ⟨-, heq⟩
        · exact hmax m k e'' hy hwy
        · obtain ⟨-, rfl⟩ := Prod.mk.inj heq
          exact absurd hwy hw

/-- A quantity that no statement lowers grows along a trace. -/
theorem Steps.monotone {α : Type} [Preorder α] {f : S.machine.State → α}
    (hf : ∀ e : Entry S.machine, f e.before ≤ f e.after) {w w' : S.machine.State}
    {tr : List (Nat × Entry S.machine)} (h : Steps w tr w') :
    f w ≤ f w' ∧ ∀ i e, (i, e) ∈ tr → f e.after ≤ f w' := by
  induction h with
  | nil => exact ⟨le_refl _, fun _ _ h => absurd h List.not_mem_nil⟩
  | snoc i e _ he ih =>
    obtain ⟨hw, hall⟩ := ih
    rw [← he] at hw hall
    refine ⟨hw.trans (hf e), fun j e' hmem => ?_⟩
    rcases List.mem_append.mp hmem with hmem | hmem
    · exact (hall j e' hmem).trans (hf e)
    · obtain ⟨-, rfl⟩ := Prod.mk.inj (List.mem_singleton.mp hmem)
      exact le_refl _

/-- The trace of a reachable configuration leads to its state. -/
theorem Reachable.steps {w : S.machine.State} {c : S.Conf} (hc : Reachable w c) :
    Steps w c.trace c.state := by
  refine hc.induction (P := fun c => Steps w c.trace c.state) (.nil w) fun c a h => ?_
  obtain ⟨r, -, he⟩ | ⟨i, ctx, t, s, k, -, -, -, he⟩ | he := c.next_cases a
  · rw [he]; exact h
  · rw [he]; exact .snoc i ⟨ctx, s, c.state⟩ h rfl
  · rw [he]; exact h

/-! ## What later choices keep -/

/-- A request keeps its identity, and one that has returned stays so. -/
theorem Conf.next_thread {c : S.Conf} (a : S.Action) {i : Nat} {t : S.Thread}
    (ht : c.threads[i]? = some t) :
    ∃ t', (c.next a).threads[i]? = some t' ∧ t'.req = t.req ∧ t'.startedAt = t.startedAt ∧
      ∀ r, t.prog = .done r → t'.prog = .done r := by
  have hlt : i < c.threads.length := (List.getElem?_eq_some_iff.mp ht).1
  obtain ⟨r, -, he⟩ | ⟨j, ctx, u, s, k, -, hu, hs, he⟩ | he := c.next_cases a
  · exact ⟨t, by rw [he]; simpa [List.getElem?_append_left hlt] using ht, rfl, rfl, fun _ h => h⟩
  · by_cases hij : j = i
    · subst hij
      cases hu.symm.trans ht
      refine ⟨⟨t.req, k (S.machine.exec ctx s c.state).1, t.startedAt⟩, ?_, rfl, rfl, ?_⟩
      · rw [he]; exact List.getElem?_set_self hlt
      · intro r hr; simp [hs] at hr
    · exact ⟨t, by rw [he]; simpa [List.getElem?_set_ne hij] using ht, rfl, rfl, fun _ h => h⟩
  · exact ⟨t, by rw [he]; exact ht, rfl, rfl, fun _ h => h⟩

theorem Conf.run_thread {c : S.Conf} (as : List S.Action) {i : Nat} {t : S.Thread}
    (ht : c.threads[i]? = some t) :
    ∃ t', (c.run as).threads[i]? = some t' ∧ t'.req = t.req ∧ t'.startedAt = t.startedAt ∧
      ∀ r, t.prog = .done r → t'.prog = .done r := by
  induction as generalizing c t with
  | nil => exact ⟨t, ht, rfl, rfl, fun _ h => h⟩
  | cons a as ih =>
    obtain ⟨t₁, h₁, hr₁, hn₁, hd₁⟩ := Conf.next_thread a ht
    obtain ⟨t₂, h₂, hr₂, hn₂, hd₂⟩ := ih h₁
    exact ⟨t₂, h₂, hr₂.trans hr₁, hn₂.trans hn₁, fun r hr => hd₂ r (hd₁ r hr)⟩

theorem Conf.Returned.run {c : S.Conf} {i : Nat} {r : Except S.Err S.Res}
    (h : c.Returned i r) (as : List S.Action) : (c.run as).Returned i r := by
  obtain ⟨t, ht, hd⟩ := h
  obtain ⟨t', ht', -, -, hd'⟩ := Conf.run_thread as ht
  exact ⟨t', ht', hd' r hd⟩

theorem Conf.reqOf_run {c : S.Conf} {i : Nat} {r : S.Req} (h : c.reqOf i = some r)
    (as : List S.Action) : (c.run as).reqOf i = some r := by
  obtain ⟨t, ht, rfl⟩ := Option.map_eq_some_iff.mp h
  obtain ⟨t', ht', hr, -, -⟩ := Conf.run_thread as ht
  simp [Conf.reqOf, ht', hr]

/-- The trace only grows, and a request that has returned adds nothing. -/
theorem Conf.run_trace (c : S.Conf) (as : List S.Action) :
    ∃ tr, (c.run as).trace = c.trace ++ tr ∧
      ∀ i r, c.Returned i r → entriesOf i tr = [] := by
  induction as generalizing c with
  | nil => exact ⟨[], by simp⟩
  | cons a as ih =>
    obtain ⟨tr, htr, hret⟩ := ih (c.next a)
    have hkeep : ∀ i r, c.Returned i r → (c.next a).Returned i r := fun i r h => by
      simpa using h.run [a]
    obtain ⟨r, -, he⟩ | ⟨j, ctx, u, s, k, -, hu, hs, he⟩ | he := c.next_cases a
    · exact ⟨tr, by simpa [he] using htr, fun i r h => hret i r (hkeep i r h)⟩
    · refine ⟨(j, ⟨ctx, s, c.state⟩) :: tr, by simpa [he] using htr, fun i r h => ?_⟩
      have hji : j ≠ i := by
        rintro rfl
        obtain ⟨t, ht, hd⟩ := h
        cases hu.symm.trans ht
        simp [hs] at hd
      simpa [entriesOf, hji] using hret i r (hkeep i r h)
    · exact ⟨tr, by simpa [he] using htr, fun i r h => hret i r (hkeep i r h)⟩

/-- Every prefix of the trace of a reachable configuration is the trace of
    an earlier configuration of the same run. -/
theorem Reachable.cut {w : S.machine.State} {c : S.Conf} (hc : Reachable w c)
    {tr₁ tr₂ : List (Nat × Entry S.machine)} (htr : c.trace = tr₁ ++ tr₂) :
    ∃ c₁ as, Reachable w c₁ ∧ c₁.trace = tr₁ ∧ c = c₁.run as := by
  obtain ⟨as, rfl⟩ := hc
  induction as using List.reverseRecOn generalizing tr₂ with
  | nil =>
    obtain ⟨rfl, rfl⟩ := List.nil_eq_append_iff.mp htr
    exact ⟨S.initial w, [], ⟨[], rfl⟩, rfl, rfl⟩
  | append_singleton as a ih =>
    by_cases htr₂ : tr₂ = []
    · exact ⟨_, [], ⟨as ++ [a], rfl⟩, by simpa [htr₂] using htr, rfl⟩
    · have hlt : ∃ tr₃, ((S.initial w).run as).trace = tr₁ ++ tr₃ := by
        rw [Conf.run_append] at htr
        obtain ⟨r, -, he⟩ | ⟨j, ctx, u, s, k, -, -, -, he⟩ | he :=
          ((S.initial w).run as).next_cases a
        · exact ⟨tr₂, by simpa [he] using htr⟩
        · simp only [Conf.run_cons, Conf.run_nil, he] at htr
          obtain ⟨tr₃, x, rfl⟩ := (List.eq_nil_or_concat tr₂).resolve_left htr₂
          rw [List.concat_eq_append, ← List.append_assoc] at htr
          exact ⟨tr₃, (List.append_inj' htr rfl).1⟩
        · exact ⟨tr₂, by simpa [he] using htr⟩
      obtain ⟨tr₃, h₃⟩ := hlt
      obtain ⟨c₁, bs, hc₁, htr₁, hrun⟩ := ih h₃
      exact ⟨c₁, bs ++ [a], hc₁, htr₁, by rw [Conf.run_append, hrun, Conf.run_append]⟩

/-- The state that an entry found is the state of an earlier configuration
    of the same run. -/
theorem Reachable.before {w : S.machine.State} {c : S.Conf} (hc : Reachable w c)
    {tr₁ tr₂ : List (Nat × Entry S.machine)} {i : Nat} {e : Entry S.machine}
    (htr : c.trace = tr₁ ++ (i, e) :: tr₂) :
    ∃ c₁, Reachable w c₁ ∧ c₁.trace = tr₁ ∧ c₁.state = e.before := by
  obtain ⟨c₁, as, hc₁, htr₁, -⟩ := hc.cut htr
  refine ⟨c₁, hc₁, htr₁, ?_⟩
  have hsteps := hc₁.steps
  have hall := hc.steps
  rw [htr] at hall
  rw [htr₁] at hsteps
  exact hsteps.state_eq hall.split_entry.1

/-- The next statement of request number `i`. -/
def Conf.upcoming (c : S.Conf) (i : Nat) : Option S.machine.Stmt :=
  match (c.threads[i]?).map Thread.prog with
  | some (.step s _) => some s
  | _ => none

/-- A request that is given its turn issues its next statement. -/
theorem Conf.trace_upcoming {c : S.Conf} {i : Nat} {s : S.machine.Stmt}
    (h : c.upcoming i = some s) (ctx : S.machine.Ctx) (as : List S.Action) :
    ∃ tr, (c.run (.step i ctx :: as)).trace = c.trace ++ (i, ⟨ctx, s, c.state⟩) :: tr := by
  have hnext : (c.next (.step i ctx)).trace = c.trace ++ [(i, ⟨ctx, s, c.state⟩)] := by
    unfold Conf.upcoming at h
    rcases ht : c.threads[i]? with _ | ⟨r, p, n⟩
    · simp [ht] at h
    · cases p with
      | done x => simp [ht] at h
      | step s' k =>
        obtain rfl : s' = s := by simpa [ht] using h
        simp [Conf.next, ht]
  obtain ⟨tr, htr, -⟩ := (c.next (.step i ctx)).run_trace as
  refine ⟨tr, ?_⟩
  rw [Conf.run_cons, htr, hnext]
  simp

/-! ## A request served with nothing in between -/

/-- The last thread can run to its end alone. -/
theorem Conf.run_last (cs : Nat → S.machine.Ctx) (p : Prog S.machine S.Err S.Res)
    (c : S.Conf) {ts : List S.Thread} {r : S.Req} {n : Nat}
    (hc : c.threads = ts ++ [⟨r, p, n⟩]) :
    ∃ as, c.run as =
      { state := (p.runAlone cs c.state).2.1
        threads := ts ++ [⟨r, .done (p.runAlone cs c.state).1, n⟩]
        trace := c.trace ++ (p.runAlone cs c.state).2.2.map (Prod.mk ts.length) } := by
  induction p generalizing c cs with
  | done x =>
    obtain ⟨w, ths, tr⟩ := c
    exact ⟨[], by simpa [Prog.runAlone] using hc⟩
  | step s k ih =>
    have hnext : c.next (.step ts.length (cs 0)) =
        { state := (S.machine.exec (cs 0) s c.state).2
          threads := ts ++ [⟨r, k (S.machine.exec (cs 0) s c.state).1, n⟩]
          trace := c.trace ++ [(ts.length, ⟨cs 0, s, c.state⟩)] } := by
      simp [Conf.next, hc]
    obtain ⟨as, has⟩ := ih _ (fun m => cs (m + 1)) (c.next (.step ts.length (cs 0)))
      (by rw [hnext])
    refine ⟨.step ts.length (cs 0) :: as, ?_⟩
    rw [Conf.run_cons, has, hnext]
    simp [Prog.runAlone]

/-- Serving a request alone is one of the runs of the system. -/
theorem Conf.run_alone (c : S.Conf) (r : S.Req) (cs : Nat → S.machine.Ctx) :
    ∃ as, c.run as =
      { state := ((S.program r).runAlone cs c.state).2.1
        threads := c.threads ++
          [⟨r, .done ((S.program r).runAlone cs c.state).1, c.trace.length⟩]
        trace := c.trace ++
          ((S.program r).runAlone cs c.state).2.2.map (Prod.mk c.threads.length) } := by
  have hthreads : (c.next (.start r)).threads =
      c.threads ++ [⟨r, S.program r, c.trace.length⟩] := rfl
  obtain ⟨as, has⟩ := (c.next (.start r)).run_last cs (S.program r) hthreads
  exact ⟨.start r :: as, by simpa [Conf.next] using has⟩

/-! ## Thread-local rules of a whole system -/

/-- A thread-local rule for every request of a system: what its statements
    may assume of the state, what each of them satisfies, and what its
    outcome satisfies. -/
structure Rule (S : System) where
  assumes : S.machine.State → Prop
  entry : S.Req → List (Entry S.machine) → Entry S.machine → Prop
  outcome : S.Req → List (Entry S.machine) → Except S.Err S.Res → Prop

/-- The programs of the system meet the rule. -/
def Rule.Met (R : Rule S) : Prop :=
  ∀ r, (S.program r).Meets R.assumes (R.entry r) (R.outcome r) []

/-- The rule, read off a configuration of a run. -/
structure Rule.Inv (R : Rule S) (c : S.Conf) : Prop where
  known : ∀ e ∈ c.trace, e.1 < c.threads.length
  started : ∀ i (t : S.Thread), c.threads[i]? = some t →
    t.startedAt ≤ c.trace.length ∧ entriesOf i (c.trace.take t.startedAt) = []
  meets : ∀ i (t : S.Thread), c.threads[i]? = some t →
    t.prog.Meets R.assumes (R.entry t.req) (R.outcome t.req) (entriesOf i c.trace)
  entries : ∀ tr₁ i e tr₂, c.trace = tr₁ ++ (i, e) :: tr₂ →
    ∃ r, c.reqOf i = some r ∧ R.entry r (entriesOf i tr₁) e

/-- The outcome of a request satisfies what the rule says of it. -/
theorem Rule.Inv.returned {R : Rule S} {c : S.Conf} (h : R.Inv c) {i : Nat}
    {r : Except S.Err S.Res} (hr : c.Returned i r) :
    ∃ q, c.reqOf i = some q ∧ R.outcome q (entriesOf i c.trace) r := by
  obtain ⟨t, ht, hd⟩ := hr
  exact ⟨t.req, by simp [Conf.reqOf, ht], by simpa [hd] using h.meets i t ht⟩

/-- The rule, at a place of the trace. -/
theorem Rule.Inv.entries_at {R : Rule S} {c : S.Conf} (h : R.Inv c) {n i : Nat}
    {e : Entry S.machine} (hn : c.trace[n]? = some (i, e)) :
    ∃ r, c.reqOf i = some r ∧ R.entry r (entriesOf i (c.trace.take n)) e :=
  h.entries _ i e _ (split_at hn)

/-- A request has no entries before its start. -/
theorem Rule.Inv.not_mem_before {R : Rule S} {c : S.Conf} (h : R.Inv c) {i : Nat} {t : S.Thread}
    (ht : c.threads[i]? = some t) {tr₁ tr₂ : List (Nat × Entry S.machine)}
    (htr : c.trace = tr₁ ++ tr₂) (hlen : tr₁.length ≤ t.startedAt) {e : Entry S.machine} :
    (i, e) ∉ tr₁ := by
  intro hmem
  have hnil := (h.started i t ht).2
  have htake : c.trace.take t.startedAt = tr₁ ++ tr₂.take (t.startedAt - tr₁.length) := by
    rw [htr, List.take_append, List.take_of_length_le hlen]
  have hin : e ∈ entriesOf i (c.trace.take t.startedAt) := by
    rw [htake]
    exact mem_entriesOf.mpr (List.mem_append_left _ hmem)
  rw [hnil] at hin
  exact absurd hin List.not_mem_nil

theorem Rule.Inv.initial (R : Rule S) (w : S.machine.State) : R.Inv (S.initial w) where
  known := by simp [System.initial]
  started := by simp [System.initial]
  meets := by simp [System.initial]
  entries := by simp [System.initial]

/-- One choice of the scheduler keeps the rule, if the statement it
    executes found a state the rule may assume. -/
theorem Rule.Inv.next {R : Rule S} (hR : R.Met) {c : S.Conf} (h : R.Inv c)
    (hI : R.assumes c.state) (a : S.Action) : R.Inv (c.next a) := by
  obtain ⟨r, -, he⟩ | ⟨j, ctx, u, s, k, -, hu, hs, he⟩ | he := c.next_cases a
  · -- a new request: nothing in the trace is its own
    have hnil : entriesOf c.threads.length c.trace = [] := by
      refine List.eq_nil_iff_forall_not_mem.mpr fun e hm => ?_
      exact absurd (h.known _ (mem_entriesOf.mp hm)) (Nat.lt_irrefl _)
    rw [he]
    refine ⟨fun e hm => ?_, fun i t ht => ?_, fun i t ht => ?_, fun tr₁ i e tr₂ htr => ?_⟩
    · have := h.known e hm
      simpa using Nat.lt_succ_of_lt this
    · rcases getElem?_snoc_cases ht with ht | ht
      · exact h.started i t ht
      · obtain ⟨rfl, rfl⟩ := ht
        simpa using hnil
    · rcases getElem?_snoc_cases ht with ht | ht
      · exact h.meets i t ht
      · obtain ⟨rfl, rfl⟩ := ht
        simpa [hnil] using hR r
    · obtain ⟨q, hq, hE⟩ := h.entries tr₁ i e tr₂ htr
      obtain ⟨t, ht, rfl⟩ := Option.map_eq_some_iff.mp hq
      have hlt : i < c.threads.length := (List.getElem?_eq_some_iff.mp ht).1
      exact ⟨t.req, by simp [Conf.reqOf, List.getElem?_append_left hlt, ht], hE⟩
  · have hmeets := h.meets j u hu
    rw [hs] at hmeets
    obtain ⟨hE, hk⟩ := hmeets ctx c.state hI
    have hlt : j < c.threads.length := (List.getElem?_eq_some_iff.mp hu).1
    rw [he]
    refine ⟨fun e hm => ?_, fun i t ht => ?_, fun i t ht => ?_, fun tr₁ i e tr₂ htr => ?_⟩
    · rcases List.mem_append.mp hm with hm | hm
      · simpa using h.known e hm
      · simpa [List.mem_singleton.mp hm] using hlt
    · have hold : ∃ t₀, c.threads[i]? = some t₀ ∧ t₀.startedAt = t.startedAt := by
        by_cases hij : j = i
        · subst hij
          rw [List.getElem?_set_self hlt] at ht
          cases ht
          exact ⟨u, hu, rfl⟩
        · exact ⟨t, by simpa [List.getElem?_set_ne hij] using ht, rfl⟩
      obtain ⟨t₀, ht₀, hn⟩ := hold
      obtain ⟨hle, hnil⟩ := h.started i t₀ ht₀
      rw [hn] at hle hnil
      refine ⟨by simpa using Nat.le_succ_of_le hle, ?_⟩
      rwa [List.take_append_of_le_length hle]
    · by_cases hij : j = i
      · subst hij
        rw [List.getElem?_set_self hlt] at ht
        cases ht
        simpa using hk
      · rw [List.getElem?_set_ne hij] at ht
        simpa [entriesOf_snoc_ne _ _ hij] using h.meets i t ht
    · have hreq : ∀ q, c.reqOf i = some q →
          Conf.reqOf (S := S) ⟨(S.machine.exec ctx s c.state).2,
            c.threads.set j ⟨u.req, k (S.machine.exec ctx s c.state).1, u.startedAt⟩,
            c.trace ++ [(j, ⟨ctx, s, c.state⟩)]⟩ i = some q := by
        intro q hq
        have := Conf.reqOf_run hq [a]
        rwa [Conf.run_cons, Conf.run_nil, he] at this
      rcases List.eq_nil_or_concat tr₂ with rfl | ⟨tr₃, x, rfl⟩
      · obtain ⟨rfl, hx⟩ := List.append_inj' htr rfl
        cases hx
        exact ⟨u.req, hreq _ (by simp [Conf.reqOf, hu]), hE⟩
      · rw [List.concat_eq_append, ← List.cons_append, ← List.append_assoc] at htr
        obtain ⟨q, hq, hE'⟩ := h.entries tr₁ i e tr₃ (List.append_inj' htr rfl).1
        exact ⟨q, hreq q hq, hE'⟩
  · rw [he]; exact h

/-- **The lifting theorem.** If every program meets the rule and the trace
    invariant `P`, which provides what the rule assumes, is kept by every
    entry that satisfies the rule, then both hold in every reachable
    configuration, under every interleaving. -/
theorem Reachable.lift {w : S.machine.State} {R : Rule S} (hR : R.Met)
    {P : List (Nat × Entry S.machine) → S.machine.State → Prop} (h0 : P [] w)
    (hP : ∀ c i r e, Reachable w c → R.Inv c → P c.trace c.state → e.before = c.state →
      c.reqOf i = some r → R.entry r (entriesOf i c.trace) e →
      P (c.trace ++ [(i, e)]) e.after)
    (hI : ∀ tr w', P tr w' → R.assumes w') {c : S.Conf} (hc : Reachable w c) :
    R.Inv c ∧ P c.trace c.state := by
  have key : Reachable w c ∧ R.Inv c ∧ P c.trace c.state := by
    refine hc.induction (P := fun c => Reachable w c ∧ R.Inv c ∧ P c.trace c.state)
      ⟨⟨[], rfl⟩, .initial R w, h0⟩ ?_
    rintro c a ⟨hc, hinv, hp⟩
    have hinv' := hinv.next hR (hI _ _ hp) a
    refine ⟨hc.next a, hinv', ?_⟩
    obtain ⟨r, -, he⟩ | ⟨i, ctx, t, s, k, -, ht, hs, he⟩ | he := c.next_cases a
    · rw [he]; exact hp
    · rw [he] at hinv' ⊢
      have hmeets := hinv.meets i t ht
      rw [hs] at hmeets
      obtain ⟨hE, -⟩ := hmeets ctx c.state (hI _ _ hp)
      exact hP c i t.req ⟨ctx, s, c.state⟩ hc hinv hp rfl (by simp [Conf.reqOf, ht]) hE
    · rw [he]; exact hp
  exact key.2

/-- The rule of a system whose statements assume what holds of every state
    that a run reaches. -/
theorem Reachable.rule_of {w : S.machine.State} {R : Rule S} (hR : R.Met)
    (hI : ∀ c : S.Conf, Reachable w c → R.assumes c.state) {c : S.Conf} (hc : Reachable w c) :
    R.Inv c := by
  have key : Reachable w c ∧ R.Inv c := by
    refine hc.induction (P := fun c => Reachable w c ∧ R.Inv c) ⟨⟨[], rfl⟩, .initial R w⟩ ?_
    rintro c a ⟨hc, hinv⟩
    exact ⟨hc.next a, hinv.next hR (hI c hc) a⟩
  exact key.2

/-- The rule of a system whose statements assume nothing of the state. -/
theorem Reachable.rule {w : S.machine.State} {R : Rule S} (hR : R.Met)
    (hI : ∀ w', R.assumes w') {c : S.Conf} (hc : Reachable w c) : R.Inv c :=
  hc.rule_of hR fun c _ => hI c.state

/-- A trace invariant that every entry of the rule keeps, from some
    configuration of a run on. -/
theorem Reachable.persist {w : S.machine.State} {R : Rule S} (hR : R.Met)
    (hI : ∀ w', R.assumes w') {P : List (Nat × Entry S.machine) → S.machine.State → Prop}
    (hP : ∀ c i r e, Reachable w c → P c.trace c.state → e.before = c.state →
      c.reqOf i = some r → R.entry r (entriesOf i c.trace) e →
      P (c.trace ++ [(i, e)]) e.after)
    {c : S.Conf} (hc : Reachable w c) (h0 : P c.trace c.state) (as : List S.Action) :
    P (c.run as).trace (c.run as).state := by
  have key : Reachable w (c.run as) ∧ P (c.run as).trace (c.run as).state := by
    apply invariant_run (P := fun c => Reachable w c ∧ P c.trace c.state) _ ⟨hc, h0⟩
    intro c a hc
    obtain ⟨hc, hp⟩ := hc
    refine ⟨hc.next a, ?_⟩
    obtain ⟨r, -, he⟩ | ⟨i, ctx, t, s, k, -, ht, hs, he⟩ | he := c.next_cases a
    · rw [he]
      exact hp
    · have hmeets := (hc.rule hR hI).meets i t ht
      rw [hs] at hmeets
      obtain ⟨hE, -⟩ := hmeets ctx c.state (hI _)
      rw [he]
      exact hP c i t.req ⟨ctx, s, c.state⟩ hc hp rfl (by simp [Conf.reqOf, ht]) hE
    · rw [he]
      exact hp
  exact key.2

/-- If fewer than `m` occurrences stand before each one, there are at most
    `m`. -/
theorem countP_le_of_before {α : Type} {p : α → Bool} {m : Nat} {l : List α}
    (h : ∀ a x b, l = a ++ x :: b → p x = true → a.countP p < m) : l.countP p ≤ m := by
  induction l using List.reverseRecOn with
  | nil => exact Nat.zero_le m
  | append_singleton l x ih =>
    rw [List.countP_append, List.countP_singleton]
    cases hx : p x with
    | true => exact h l x [] rfl hx
    | false => exact ih fun a y b hl hy => h a y (b ++ [x]) (by simp [hl]) hy

/-- The entries that satisfy a predicate, counted request by request. -/
theorem countP_trace {p : Nat → Entry S.machine → Bool} {n : Nat}
    {tr : List (Nat × Entry S.machine)} (htr : ∀ x ∈ tr, x.1 < n) :
    tr.countP (fun x => p x.1 x.2) =
      (Finset.range n).sum fun i => (entriesOf i tr).countP (p i) := by
  induction tr using List.reverseRecOn with
  | nil => simp
  | append_singleton tr x ih =>
    have hx : x.1 ∈ Finset.range n := Finset.mem_range.mpr (htr x (by simp))
    have hsnoc : ∀ i, (entriesOf i (tr ++ [x])).countP (p i) =
        (entriesOf i tr).countP (p i) + if i = x.1 then (if p x.1 x.2 then 1 else 0) else 0 := by
      intro i
      by_cases hi : i = x.1
      · subst hi
        rw [entriesOf_snoc_self, List.countP_append, List.countP_singleton, if_pos rfl]
      · rw [entriesOf_snoc_ne _ _ (Ne.symm hi), if_neg hi, Nat.add_zero]
    rw [List.countP_append, ih fun y hy => htr y (by simp [hy]), List.countP_singleton]
    simp only [hsnoc]
    rw [Finset.sum_add_distrib, Finset.sum_ite_eq' , if_pos hx]

end System

end SoulAuth.Framework
