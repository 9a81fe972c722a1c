import SoulAuth.Framework.Alone
import SoulAuth.Framework.Interleaving

/-! # A machine with state of its own beside it

A program may use more than the statements of a machine: a table that no
other program touches, or a cache in the memory of the process. Such
statements read the state of the machine and write a state of their own.

A program of the extended machine *shadows* requests of a system when, apart
from its own statements, it issues what these requests issue. Every run of
such programs is then a run of the system with something in between, and what
holds of all runs of the system holds of the part that they see.
-/

namespace SoulAuth.Framework

/-- Statements on a state of their own, beside the machine. -/
structure Extension (M : Machine) where
  State : Type
  Stmt : Type
  Resp : Stmt → Type
  exec : M.Ctx → (s : Stmt) → M.State → State → Resp s × State

/-- The machine with the statements of both. -/
@[reducible] def Extension.machine {M : Machine} (X : Extension M) : Machine where
  State := M.State × X.State
  Stmt := M.Stmt ⊕ X.Stmt
  Resp := Sum.elim M.Resp X.Resp
  Ctx := M.Ctx
  exec
    | ctx, .inl s, w => let out := M.exec ctx s w.1; (out.1, (out.2, w.2))
    | ctx, .inr s, w => let out := X.exec ctx s w.1 w.2; (out.1, (w.1, out.2))

/-! ## Programs of the machine on the extended one -/

namespace Prog

variable {M : Machine} {ε ε' α β : Type}

/-- A program of the machine. -/
def lift (X : Extension M) : Prog M ε α → Prog X.machine ε α
  | done r => done r
  | step s k => step (M := X.machine) (.inl s) fun r => (k r).lift X

/-- Issue a statement of the extension. -/
def own (X : Extension M) (s : X.Stmt) : Prog X.machine ε (X.Resp s) :=
  step (M := X.machine) (.inr s) fun r => done (.ok r)

@[simp] theorem lift_done (X : Extension M) (r : Except ε α) :
    (done r : Prog M ε α).lift X = done r := rfl

theorem lift_bind (X : Extension M) (p : Prog M ε α) (f : α → Prog M ε β) :
    (p >>= f).lift X = p.lift X >>= fun a => (f a).lift X := by
  induction p with
  | done r => cases r <;> rfl
  | step s k ih =>
    show step _ _ = step _ _
    congr 1
    funext r
    exact ih r

end Prog

namespace Prog

variable {M : Machine} {ε α : Type}

theorem only_lift {X : Extension M} {S : X.machine.Stmt → Prop} {p : Prog M ε α}
    (h : ∀ s : M.Stmt, S (.inl s)) : Only S (p.lift X) := by
  induction p with
  | done r => trivial
  | step s k ih => exact ⟨h s, ih⟩

/-- On the extended machine a program does what it does on its own, and
    leaves the other state as it is. -/
theorem Alone.lift {X : Extension M} {p : Prog M ε α} {w : M.State} {x : X.State}
    {P : Except ε α → M.State → Prop} (hp : Alone p w fun r w' _ => P r w') :
    Alone (p.lift X) ((w, x) : X.machine.State) fun r w' _ => P r w'.1 ∧ w'.2 = x := by
  induction p generalizing w with
  | done r =>
    intro cs
    exact ⟨hp (fun n => cs n), rfl⟩
  | step s k ih =>
    apply alone_step
    intro ctx
    apply ih
    intro cs
    exact hp fun n => match n with
      | 0 => ctx
      | n + 1 => cs n

end Prog

/-! ## Entries of the machine -/

section

variable {M : Machine} {X : Extension M}

/-- The entry of the machine, if a statement of the machine was executed. -/
def Entry.base? (e : Entry X.machine) : Option (Entry M) :=
  match e with
  | ⟨ctx, .inl s, w⟩ => some ⟨ctx, s, w.1⟩
  | ⟨_, .inr _, _⟩ => none

/-- The statements of the machine that a request has executed. -/
def baseEntries (h : List (Entry X.machine)) : List (Entry M) := h.filterMap Entry.base?

theorem baseEntries_append (h h' : List (Entry X.machine)) :
    baseEntries (h ++ h') = baseEntries h ++ baseEntries h' :=
  List.filterMap_append

/-- A statement of the machine was executed. -/
def Entry.IsBase (e : Entry X.machine) : Prop := e.stmt.isLeft = true

variable {ε α : Type}

theorem Entry.IsBase.of_base? {e : Entry X.machine} {e₀ : Entry M} (h : e.base? = some e₀) :
    e.IsBase := by
  obtain ⟨ctx, s | s, w⟩ := e
  · rfl
  · cases h

/-- What a program guarantees on the machine, it guarantees on the extended
    one, of the part that it sees; and all its entries are of the machine. -/
theorem Prog.Meets.lift {E₀ : List (Entry M) → Entry M → Prop}
    {Q₀ : List (Entry M) → Except ε α → Prop} {I : X.machine.State → Prop}
    {E : List (Entry X.machine) → Entry X.machine → Prop}
    {Q : List (Entry X.machine) → Except ε α → Prop} {h : List (Entry X.machine)}
    {p : Prog M ε α} (hp : p.Meets (fun _ => True) E₀ Q₀ (baseEntries h))
    (hE : ∀ t e e₀, (∀ e' ∈ t, Entry.IsBase e') → e.base? = some e₀ →
      E₀ (baseEntries (h ++ t)) e₀ → E (h ++ t) e)
    (hQ : ∀ t r, (∀ e' ∈ t, Entry.IsBase e') → Q₀ (baseEntries (h ++ t)) r → Q (h ++ t) r) :
    (p.lift X).Meets I E Q h := by
  induction p generalizing h with
  | done r => simpa using hQ [] r (by simp) (by simpa using hp)
  | step s k ih =>
    intro ctx w hw
    have hhead : Entry.IsBase (X := X) ⟨ctx, .inl s, w⟩ := rfl
    obtain ⟨he, hk⟩ := hp ctx w.1 trivial
    have hnext : baseEntries (h ++ [(⟨ctx, .inl s, w⟩ : Entry X.machine)]) =
        baseEntries h ++ [⟨ctx, s, w.1⟩] := baseEntries_append _ _
    constructor
    · simpa using hE [] ⟨ctx, .inl s, w⟩ ⟨ctx, s, w.1⟩ (by simp) rfl (by simpa using he)
    · apply ih
      · rw [hnext]
        exact hk
      · intro t e e₀ ht hbase he₀
        have he₀' : E₀ (baseEntries (h ++ ⟨ctx, .inl s, w⟩ :: t)) e₀ := by simpa using he₀
        simpa using hE (⟨ctx, .inl s, w⟩ :: t) e e₀ (by simpa using ⟨hhead, ht⟩) hbase he₀'
      · intro t r ht hr
        have hr' : Q₀ (baseEntries (h ++ ⟨ctx, .inl s, w⟩ :: t)) r := by simpa using hr
        simpa using hQ (⟨ctx, .inl s, w⟩ :: t) r (by simpa using ⟨hhead, ht⟩) hr'

end

namespace System

variable {S : System} {X : Extension S.machine} {ε ε' α β γ : Type}

/-- A system of programs on the extended machine. -/
@[reducible] def extended (X : Extension S.machine) {R E A : Type}
    (program : R → Prog X.machine E A) : System :=
  ⟨X.machine, R, E, A, program⟩

/-- `Shadows q p`: apart from its own statements, `p` issues what is left of
    the request `q`, and then what further requests issue from their start. -/
inductive Shadows (X : Extension S.machine) {ε α : Type} :
    Option (Prog S.machine S.Err S.Res) → Prog X.machine ε α → Prop
  | done (q : Option (Prog S.machine S.Err S.Res)) (r : Except ε α) : Shadows X q (.done r)
  | own {q : Option (Prog S.machine S.Err S.Res)} {s : X.Stmt}
    {k : X.machine.Resp (.inr s) → Prog X.machine ε α} (h : ∀ r, Shadows X q (k r)) :
    Shadows X q (.step (.inr s) k)
  | issue {s : S.machine.Stmt} {k : X.machine.Resp (.inl s) → Prog X.machine ε α}
    {k' : S.machine.Resp s → Prog S.machine S.Err S.Res}
    (h : ∀ r, Shadows X (some (k' r)) (k r)) : Shadows X (some (.step s k')) (.step (.inl s) k)
  | call {q : Option (Prog S.machine S.Err S.Res)} {p : Prog X.machine ε α} (req : S.Req)
    (h : Shadows X (some (S.program req)) p) : Shadows X q p

namespace Shadows

/-- What needs no request in progress may leave one where it is. -/
theorem of_none {p : Prog X.machine ε α} (h : Shadows X none p)
    (q : Option (Prog S.machine S.Err S.Res)) : Shadows X q p := by
  generalize hn : (none : Option (Prog S.machine S.Err S.Res)) = n at h
  induction h generalizing q with
  | done _ r => exact .done q r
  | own _ ih => exact .own fun r => ih r q hn
  | issue => cases hn
  | call req h => exact .call req h

/-- What follows a program may begin new requests only. -/
theorem bind {q : Option (Prog S.machine S.Err S.Res)} {p : Prog X.machine ε α}
    {f : α → Prog X.machine ε β} (h : Shadows X q p) (hf : ∀ a, Shadows X none (f a)) :
    Shadows X q (p >>= f) := by
  induction h with
  | done q r =>
    cases r with
    | ok a => exact (hf a).of_none q
    | error e => exact .done q _
  | own _ ih => exact .own ih
  | issue _ ih => exact .issue ih
  | call req _ ih => exact .call req ih

theorem mapError {q : Option (Prog S.machine S.Err S.Res)} {p : Prog X.machine ε α}
    {f : ε → ε'} (h : Shadows X q p) : Shadows X q (p.mapError f) := by
  induction h with
  | done q r =>
    cases r with
    | ok a => exact .done q _
    | error e => exact .done q _
  | own _ ih => exact .own ih
  | issue _ ih => exact .issue ih
  | call req _ ih => exact .call req ih

theorem attempt {q : Option (Prog S.machine S.Err S.Res)} {p : Prog X.machine ε α}
    (h : Shadows X q p) : Shadows X q (p.attempt : Prog X.machine ε' _) := by
  induction h with
  | done q r => exact .done q _
  | own _ ih => exact .own ih
  | issue _ ih => exact .issue ih
  | call req _ ih => exact .call req ih

theorem swallow {q : Option (Prog S.machine S.Err S.Res)} {p : Prog X.machine ε α}
    (h : Shadows X q p) : Shadows X q (p.swallow : Prog X.machine ε' _) := by
  induction h with
  | done q r => exact .done q _
  | own _ ih => exact .own ih
  | issue _ ih => exact .issue ih
  | call req _ ih => exact .call req ih

/-- A program of the machine and what follows it shadow a request that is
    the same program and what follows it. -/
theorem lift_bind {p : Prog S.machine ε β} {f : β → Prog X.machine ε α} {e : ε → S.Err}
    {g : β → Prog S.machine S.Err S.Res} (h : ∀ b, Shadows X (some (g b)) (f b)) :
    Shadows X (some (p.mapError e >>= g)) (p.lift X >>= f) := by
  induction p with
  | done r =>
    cases r with
    | ok b => exact h b
    | error e => exact .done _ _
  | step s k ih => exact .issue fun r => ih r

/-- The same, where the program translates its errors too. -/
theorem lift_mapError_bind {p : Prog S.machine ε β} {f : β → Prog X.machine ε' α} {e : ε → S.Err}
    {e' : ε → ε'} {g : β → Prog S.machine S.Err S.Res}
    (h : ∀ b, Shadows X (some (g b)) (f b)) :
    Shadows X (some (p.mapError e >>= g)) ((p.lift X).mapError e' >>= f) := by
  induction p with
  | done r =>
    cases r with
    | ok b => exact h b
    | error e => exact .done _ _
  | step s k ih => exact .issue fun r => ih r

/-- A program of the machine shadows a request that begins like it. -/
theorem lift_prefix {p : Prog S.machine ε β} {e : ε → S.Err} {g : β → Prog S.machine S.Err S.Res} :
    Shadows X (some (p.mapError e >>= g)) (p.lift X) := by
  induction p with
  | done r => exact .done _ r
  | step s k ih => exact .issue fun r => ih r

/-- The same for an attempt, whose error ends the request but not the
    program. -/
theorem attempt_bind {p : Prog S.machine ε β} {f : Except ε β → Prog X.machine ε' α}
    {e : ε → S.Err} {g : β → Prog S.machine S.Err S.Res}
    (hok : ∀ b, Shadows X (some (g b)) (f (.ok b))) (herr : ∀ x, Shadows X none (f (.error x))) :
    Shadows X (some (p.mapError e >>= g)) ((p.attempt : Prog S.machine ε' _).lift X >>= f) := by
  induction p with
  | done r =>
    cases r with
    | ok b => exact hok b
    | error x => exact (herr x).of_none _
  | step s k ih => exact .issue fun r => ih r

/-- A request of the system, unchanged. -/
theorem request (r : S.Req) : Shadows X none ((S.program r).lift X) := by
  have h : ∀ p : Prog S.machine S.Err S.Res, Shadows X (some p) (p.lift X) := by
    intro p
    induction p with
    | done r => exact .done _ r
    | step s k ih => exact .issue fun r => ih r
  exact .call r (h _)

theorem own_step {q : Option (Prog S.machine S.Err S.Res)} {s : X.Stmt}
    {k : X.machine.Resp (.inr s) → Prog X.machine ε α} (h : Shadows X q (.step (.inr s) k))
    (r : X.Resp s) : Shadows X q (k r) := by
  generalize hp : Prog.step (M := X.machine) (.inr s) k = p at h
  induction h with
  | done => cases hp
  | own h =>
    cases hp
    exact h r
  | issue => cases hp
  | call req _ ih => exact .call req (ih hp)

/-- A statement of the machine is the next one of the request in progress, or
    the first one of a new request. -/
theorem issue_step {q : Option (Prog S.machine S.Err S.Res)} {s : S.machine.Stmt}
    {k : X.machine.Resp (.inl s) → Prog X.machine ε α} (h : Shadows X q (.step (.inl s) k)) :
    (∃ k', q = some (.step s k') ∧ ∀ r, Shadows X (some (k' r)) (k r)) ∨
      ∃ req k', S.program req = .step s k' ∧ ∀ r, Shadows X (some (k' r)) (k r) := by
  generalize hp : Prog.step (M := X.machine) (.inl s) k = p at h
  induction h with
  | done => cases hp
  | own => cases hp
  | @issue _ _ k' h =>
    cases hp
    exact .inl ⟨k', rfl, h⟩
  | call req _ ih =>
    rcases ih hp with ⟨k', hq, h⟩ | hnew
    · exact .inr ⟨req, k', Option.some.inj hq, h⟩
    · exact .inr hnew

end Shadows

/-! ## Runs -/

/-- The statements of the machine in a trace. -/
def baseTrace (tr : List (Nat × Entry X.machine)) : List (Entry S.machine) :=
  baseEntries (tr.map Prod.snd)

theorem baseTrace_append (tr tr' : List (Nat × Entry X.machine)) :
    baseTrace (tr ++ tr') = baseTrace (S := S) tr ++ baseTrace tr' := by
  simp [baseTrace, baseEntries]

section

variable {R : Type} {program : R → Prog X.machine ε α}

/-- Every request in progress that has used the machine has a request of the
    system that it shadows, and no two have the same one. -/
structure Tracks (c : (extended X program).Conf) (c' : S.Conf) (σ : Nat → Option Nat) :
    Prop where
  idle : ∀ i, ∀ t : (extended X program).Thread, c.threads[i]? = some t → σ i = none →
    Shadows X none t.prog
  busy : ∀ i j, ∀ t : (extended X program).Thread, c.threads[i]? = some t → σ i = some j →
    ∃ t' : S.Thread, c'.threads[j]? = some t' ∧ Shadows X (some t'.prog) t.prog
  injective : ∀ i i' j, σ i = some j → σ i' = some j → i = i'
  known : ∀ i, c.threads.length ≤ i → σ i = none

theorem Conf.next_step {c : S.Conf} {i : Nat} {t : S.Thread} {s : S.machine.Stmt}
    {k : S.machine.Resp s → Prog S.machine S.Err S.Res} (ht : c.threads[i]? = some t)
    (hp : t.prog = .step s k) (ctx : S.machine.Ctx) :
    c.next (.step i ctx) =
      { state := (S.machine.exec ctx s c.state).2
        threads := c.threads.set i ⟨t.req, k (S.machine.exec ctx s c.state).1, t.startedAt⟩
        trace := c.trace ++ [(i, ⟨ctx, s, c.state⟩)] } := by
  obtain ⟨r, p, n⟩ := t
  obtain rfl : p = .step s k := hp
  simp [Conf.next, ht]

/-- A run of the system with the same statements and the same state. -/
structure ShadowedBy (w : S.machine.State) (c : (extended X program).Conf) (c' : S.Conf)
    (σ : Nat → Option Nat) : Prop where
  reachable : Reachable w c'
  state : c'.state = c.state.1
  trace : c'.trace.map Prod.snd = baseTrace c.trace
  tracks : Tracks c c' σ

variable {w : S.machine.State} {c : (extended X program).Conf} {c' : S.Conf}
  {σ : Nat → Option Nat}

theorem ShadowedBy.initial (w : X.machine.State) :
    ShadowedBy w.1 ((extended X program).initial w) (S.initial w.1) fun _ => none where
  reachable := ⟨[], rfl⟩
  state := rfl
  trace := rfl
  tracks :=
    { idle := by simp [System.initial]
      busy := by simp [System.initial]
      injective := by simp
      known := by simp }

/-- A new request shadows nothing yet. -/
theorem ShadowedBy.start (hX : ∀ r, Shadows X none (program r)) (h : ShadowedBy w c c' σ) (r : R) :
    ShadowedBy w (c.next (.start r)) c' σ where
  reachable := h.reachable
  state := h.state
  trace := h.trace
  tracks := by
    refine ⟨fun i t ht hi => ?_, fun i j t ht hi => ?_, h.tracks.injective, fun i hi => ?_⟩
    · rcases getElem?_snoc_cases ht with ht | ⟨-, rfl⟩
      · exact h.tracks.idle i t ht hi
      · exact hX r
    · rcases getElem?_snoc_cases ht with ht | ⟨rfl, -⟩
      · exact h.tracks.busy i j t ht hi
      · rw [h.tracks.known _ (Nat.le_refl _)] at hi
        cases hi
    · apply h.tracks.known
      have hlen : (c.next (.start r)).threads.length = c.threads.length + 1 := by
        simp [Conf.next]
      omega

/-- A statement of the extension changes nothing that the system sees. -/
theorem ShadowedBy.own {i : Nat} {t : (extended X program).Thread} {s : X.Stmt}
    {k : X.machine.Resp (.inr s) → Prog X.machine ε α} (h : ShadowedBy w c c' σ)
    (ht : c.threads[i]? = some t) (hp : t.prog = .step (.inr s) k) (ctx : S.machine.Ctx) :
    ShadowedBy w (c.next (.step i ctx)) c' σ := by
  have hlt : i < c.threads.length := (List.getElem?_eq_some_iff.mp ht).1
  rw [Conf.next_step ht hp]
  refine ⟨h.reachable, h.state, ?_, ?_, ?_, h.tracks.injective, ?_⟩
  · rw [baseTrace_append, h.trace]
    simp [baseTrace, baseEntries, Entry.base?]
  · intro i' t' ht' hi'
    by_cases heq : i = i'
    · subst heq
      rw [List.getElem?_set_self hlt] at ht'
      cases ht'
      have hshadow := h.tracks.idle i t ht hi'
      rw [hp] at hshadow
      exact hshadow.own_step _
    · rw [List.getElem?_set_ne heq] at ht'
      exact h.tracks.idle i' t' ht' hi'
  · intro i' j t' ht' hi'
    by_cases heq : i = i'
    · subst heq
      rw [List.getElem?_set_self hlt] at ht'
      cases ht'
      obtain ⟨u, hu, hshadow⟩ := h.tracks.busy i j t ht hi'
      rw [hp] at hshadow
      exact ⟨u, hu, hshadow.own_step _⟩
    · rw [List.getElem?_set_ne heq] at ht'
      exact h.tracks.busy i' j t' ht' hi'
  · intro i' hi'
    apply h.tracks.known
    simpa using hi'

/-- A statement of the machine is one of the request in progress. -/
theorem ShadowedBy.issue {i j : Nat} {t : (extended X program).Thread} {t' : S.Thread}
    {s : S.machine.Stmt} {k : X.machine.Resp (.inl s) → Prog X.machine ε α}
    {k' : S.machine.Resp s → Prog S.machine S.Err S.Res} (h : ShadowedBy w c c' σ)
    (ht : c.threads[i]? = some t) (hp : t.prog = .step (.inl s) k) (hi : σ i = some j)
    (ht' : c'.threads[j]? = some t') (hp' : t'.prog = .step s k')
    (hk : ∀ r, Shadows X (some (k' r)) (k r)) (ctx : S.machine.Ctx) :
    ShadowedBy w (c.next (.step i ctx)) (c'.next (.step j ctx)) σ := by
  have hlt : i < c.threads.length := (List.getElem?_eq_some_iff.mp ht).1
  have hlt' : j < c'.threads.length := (List.getElem?_eq_some_iff.mp ht').1
  refine ⟨h.reachable.next _, ?_, ?_, ?_⟩
  · rw [Conf.next_step ht hp, Conf.next_step ht' hp', h.state]
  · rw [Conf.next_step ht hp, Conf.next_step ht' hp', baseTrace_append, List.map_append, h.trace,
      h.state]
    rfl
  · rw [Conf.next_step ht hp, Conf.next_step ht' hp', h.state]
    refine ⟨?_, ?_, h.tracks.injective, ?_⟩
    · intro i' u hu hi'
      by_cases heq : i = i'
      · subst heq
        rw [hi] at hi'
        cases hi'
      · rw [List.getElem?_set_ne heq] at hu
        exact h.tracks.idle i' u hu hi'
    · intro i' j' u hu hi'
      by_cases heq : i = i'
      · subst heq
        obtain rfl : j = j' := Option.some.inj (hi.symm.trans hi')
        rw [List.getElem?_set_self hlt] at hu
        cases hu
        exact ⟨_, List.getElem?_set_self hlt', hk _⟩
      · rw [List.getElem?_set_ne heq] at hu
        obtain ⟨u', hu', hshadow⟩ := h.tracks.busy i' j' u hu hi'
        have hne : j ≠ j' := by
          intro hj
          exact heq (h.tracks.injective i i' j hi (hj ▸ hi'))
        exact ⟨u', by rwa [List.getElem?_set_ne hne], hshadow⟩
    · intro i' hi'
      apply h.tracks.known
      simpa using hi'

/-- A request may shadow a new request of the system from now on. -/
theorem ShadowedBy.call {i : Nat} {t : (extended X program).Thread} (req : S.Req)
    (h : ShadowedBy w c c' σ) (ht : c.threads[i]? = some t)
    (hshadow : Shadows X (some (S.program req)) t.prog) :
    ShadowedBy w c (c'.next (.start req))
      (Function.update σ i (some c'.threads.length)) := by
  have hlt : i < c.threads.length := (List.getElem?_eq_some_iff.mp ht).1
  have hfresh : ∀ i', σ i' ≠ some c'.threads.length := by
    intro i' hi'
    rcases hu : c.threads[i']? with _ | u
    · have hnone := h.tracks.known i' (List.getElem?_eq_none_iff.mp hu)
      rw [hnone] at hi'
      cases hi'
    · obtain ⟨u', hu', -⟩ := h.tracks.busy i' _ u hu hi'
      exact absurd (List.getElem?_eq_some_iff.mp hu').1 (Nat.lt_irrefl _)
  have hkeep : ∀ (j : Nat) (u : S.Thread), c'.threads[j]? = some u → (c'.next (.start req)).threads[j]? = some u := by
    intro j u hu
    have hj : j < c'.threads.length := (List.getElem?_eq_some_iff.mp hu).1
    simpa [Conf.next, List.getElem?_append_left hj] using hu
  refine ⟨h.reachable.next _, h.state, h.trace, ?_, ?_, ?_, ?_⟩
  · intro i' u hu hi'
    by_cases heq : i' = i
    · rw [heq, Function.update_self] at hi'
      cases hi'
    · rw [Function.update_of_ne heq] at hi'
      exact h.tracks.idle i' u hu hi'
  · intro i' j u hu hi'
    by_cases heq : i' = i
    · subst heq
      rw [Function.update_self] at hi'
      cases hi'
      obtain rfl : t = u := Option.some.inj (ht.symm.trans hu)
      exact ⟨⟨req, S.program req, c'.trace.length⟩, by simp [Conf.next], hshadow⟩
    · rw [Function.update_of_ne heq] at hi'
      obtain ⟨u', hu', hs⟩ := h.tracks.busy i' j u hu hi'
      exact ⟨u', hkeep j u' hu', hs⟩
  · intro i₁ i₂ j h₁ h₂
    by_cases heq₁ : i₁ = i
    · by_cases heq₂ : i₂ = i
      · rw [heq₁, heq₂]
      · rw [heq₁, Function.update_self] at h₁
        rw [Function.update_of_ne heq₂] at h₂
        exact absurd (h₂.trans h₁.symm) (hfresh i₂)
    · rw [Function.update_of_ne heq₁] at h₁
      by_cases heq₂ : i₂ = i
      · rw [heq₂, Function.update_self] at h₂
        exact absurd (h₁.trans h₂.symm) (hfresh i₁)
      · rw [Function.update_of_ne heq₂] at h₂
        exact h.tracks.injective i₁ i₂ j h₁ h₂
  · intro i' hi'
    have hne : i' ≠ i := by omega
    rw [Function.update_of_ne hne]
    exact h.tracks.known i' hi'

/-- A first statement on the machine: a new request of the system begins. -/
theorem ShadowedBy.begin {i : Nat} {t : (extended X program).Thread} {req : S.Req}
    {s : S.machine.Stmt} {k : X.machine.Resp (.inl s) → Prog X.machine ε α}
    {k' : S.machine.Resp s → Prog S.machine S.Err S.Res} (h : ShadowedBy w c c' σ)
    (ht : c.threads[i]? = some t) (hp : t.prog = .step (.inl s) k)
    (hreq : S.program req = .step s k') (hk : ∀ r, Shadows X (some (k' r)) (k r))
    (ctx : S.machine.Ctx) :
    ShadowedBy w (c.next (.step i ctx))
      ((c'.next (.start req)).next (.step c'.threads.length ctx))
      (Function.update σ i (some c'.threads.length)) := by
  have hshadow : Shadows X (some (S.program req)) t.prog := by
    rw [hreq, hp]
    exact .issue hk
  have hcall := h.call req ht hshadow
  have hnew : (c'.next (.start req)).threads[c'.threads.length]? =
      some ⟨req, S.program req, c'.trace.length⟩ := by
    simp [Conf.next]
  exact hcall.issue ht hp (Function.update_self ..) hnew hreq hk ctx

/-- One choice of the scheduler. -/
theorem ShadowedBy.next (hX : ∀ r, Shadows X none (program r)) (h : ShadowedBy w c c' σ)
    (a : (extended X program).Action) :
    ∃ c'' σ', ShadowedBy w (c.next a) c'' σ' := by
  obtain ⟨r, rfl, -⟩ | ⟨i, ctx, t, s, k, rfl, ht, hp, -⟩ | he := c.next_cases a
  · exact ⟨c', σ, h.start hX r⟩
  · cases s with
    | inr s => exact ⟨c', σ, h.own ht hp ctx⟩
    | inl s =>
      rcases hi : σ i with _ | j
      · have hshadow := h.tracks.idle i t ht hi
        rw [hp] at hshadow
        rcases hshadow.issue_step with ⟨k', hq, -⟩ | ⟨req, k', hreq, hk⟩
        · cases hq
        · exact ⟨_, _, h.begin ht hp hreq hk ctx⟩
      · obtain ⟨t', ht', hshadow⟩ := h.tracks.busy i j t ht hi
        rw [hp] at hshadow
        rcases hshadow.issue_step with ⟨k', hq, hk⟩ | ⟨req, k', hreq, hk⟩
        · exact ⟨_, σ, h.issue ht hp hi ht' (Option.some.inj hq) hk ctx⟩
        · exact ⟨_, _, h.begin ht hp hreq hk ctx⟩
  · rw [he]
    exact ⟨c', σ, h⟩

/-- **Runs of an extended system.** If every program shadows requests of a
    system, every run has a run of the system that executes the same
    statements and reaches the same state. -/
theorem Reachable.shadow (hX : ∀ r, Shadows X none (program r)) {w : X.machine.State}
    {c : (extended X program).Conf} (hc : Reachable w c) :
    ∃ c' : S.Conf, Reachable w.1 c' ∧ c'.state = c.state.1 ∧
      c'.trace.map Prod.snd = baseTrace c.trace := by
  obtain ⟨as, rfl⟩ := hc
  have hrun : ∃ c' σ, ShadowedBy w.1 (((extended X program).initial w).run as) c' σ := by
    apply invariant_run (P := fun c => ∃ c' σ, ShadowedBy w.1 c c' σ)
    · intro c a h
      obtain ⟨c', σ, h⟩ := h
      exact h.next hX a
    · exact ⟨_, _, ShadowedBy.initial w⟩
  obtain ⟨c', σ, h⟩ := hrun
  exact ⟨c', h.reachable, h.state, h.trace⟩

end

end System

end SoulAuth.Framework
