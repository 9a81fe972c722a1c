import SoulAuth.Framework.Extension
import SoulAuth.Framework.Runs

/-! # A wider extension of the same machine

The statements of one extension may be among those of another, which reads and
writes more. A program that was written for the narrow extension is then a
program of the wide one, and it does there what it does on its own: it ends as
it ends there, and what it guarantees of its own statements it guarantees of
those entries of the wide machine that the narrow one sees. Two extensions
side by side are both among the pair of them.
-/

namespace SoulAuth.Framework

variable {M : Machine}

/-- The statements of `X` among those of `Y`, whose state holds that of `X`;
    `part` finds them again. -/
structure Widening (X Y : Extension M) where
  stmt : X.Stmt → Y.Stmt
  part : Y.Stmt → Option X.Stmt
  part_stmt : ∀ s, part (stmt s) = some s
  resp : ∀ s, Y.Resp (stmt s) → X.Resp s
  view : Y.State → X.State
  answers : ∀ ctx s w y, resp s (Y.exec ctx (stmt s) w y).1 = (X.exec ctx s w (view y)).1
  writes : ∀ ctx s w y, view (Y.exec ctx (stmt s) w y).2 = (X.exec ctx s w (view y)).2

/-- A statement of the narrow machine on the wide one. -/
def Widening.embed {X Y : Extension M} (φ : Widening X Y) : X.machine.Stmt → Y.machine.Stmt
  | .inl s => .inl s
  | .inr s => .inr (φ.stmt s)

/-- What the narrow machine sees of an entry of the wide one. -/
def Entry.narrow {X Y : Extension M} (φ : Widening X Y) :
    Entry Y.machine → Option (Entry X.machine)
  | ⟨ctx, .inl s, w⟩ => some ⟨ctx, .inl s, (w.1, φ.view w.2)⟩
  | ⟨ctx, .inr s, w⟩ => (φ.part s).map fun s => ⟨ctx, .inr s, (w.1, φ.view w.2)⟩

/-- What the narrow machine sees of the entries of a request. -/
def Widening.seen {X Y : Extension M} (φ : Widening X Y) (h : List (Entry Y.machine)) :
    List (Entry X.machine) :=
  h.filterMap (Entry.narrow φ)

namespace Widening

variable {X Y : Extension M} {φ : Widening X Y}

@[simp] theorem seen_append (h h' : List (Entry Y.machine)) :
    φ.seen (h ++ h') = φ.seen h ++ φ.seen h' :=
  List.filterMap_append

theorem mem_seen {e₀ : Entry X.machine} {h : List (Entry Y.machine)} (he : e₀ ∈ φ.seen h) :
    ∃ e ∈ h, e.narrow φ = some e₀ :=
  List.mem_filterMap.mp he

/-- The narrow machine sees all statements of the machine. -/
theorem baseEntries_seen (h : List (Entry Y.machine)) :
    baseEntries (φ.seen h) = baseEntries h := by
  unfold baseEntries seen
  rw [List.filterMap_filterMap]
  apply List.filterMap_congr
  intro e _
  obtain ⟨ctx, s | s, w⟩ := e
  · rfl
  · show ((φ.part s).map fun s => (⟨ctx, .inr s, (w.1, φ.view w.2)⟩ : Entry X.machine)).bind
      Entry.base? = none
    cases φ.part s with
    | none => rfl
    | some s => rfl

/-- An entry that the narrow machine sees is of one of its statements. -/
theorem before_of_narrow {e : Entry Y.machine} {e₀ : Entry X.machine}
    (he : e.narrow φ = some e₀) : e₀.before = (e.before.1, φ.view e.before.2) := by
  obtain ⟨ctx, s | s, w⟩ := e
  · cases he
    rfl
  · obtain ⟨s₀, -, rfl⟩ := Option.map_eq_some_iff.mp he
    rfl

end Widening

/-! ## Two extensions side by side -/

/-- The statements of either extension, on a state of its own. -/
@[reducible] def Extension.both (X Y : Extension M) : Extension M where
  State := X.State × Y.State
  Stmt := X.Stmt ⊕ Y.Stmt
  Resp := Sum.elim X.Resp Y.Resp
  exec
    | ctx, .inl s, w, z => let out := X.exec ctx s w z.1; (out.1, (out.2, z.2))
    | ctx, .inr s, w, z => let out := Y.exec ctx s w z.2; (out.1, (z.1, out.2))

/-- The first of the two. -/
def Widening.left {X Y : Extension M} : Widening X (X.both Y) where
  stmt := .inl
  part := Sum.getLeft?
  part_stmt _ := rfl
  resp _ r := r
  view := Prod.fst
  answers _ _ _ _ := rfl
  writes _ _ _ _ := rfl

/-- The second of the two. -/
def Widening.right {X Y : Extension M} : Widening Y (X.both Y) where
  stmt := .inr
  part := Sum.getRight?
  part_stmt _ := rfl
  resp _ r := r
  view := Prod.snd
  answers _ _ _ _ := rfl
  writes _ _ _ _ := rfl

/-! ## Programs of the narrow machine on the wide one -/

namespace Prog

variable {X Y : Extension M} {ε α β : Type}

/-- A program of the narrow extension on the wide one. -/
def widen (φ : Widening X Y) : Prog X.machine ε α → Prog Y.machine ε α
  | done r => done r
  | step (.inl s) k => step (M := Y.machine) (.inl s) fun r => (k r).widen φ
  | step (.inr s) k =>
    step (M := Y.machine) (.inr (φ.stmt s)) fun r => (k (φ.resp s r)).widen φ

variable {φ : Widening X Y}

/-- The statements of a widened program are those that it has on its own. -/
theorem only_widen {S : Y.machine.Stmt → Prop} {p : Prog X.machine ε α}
    (hp : p.Only fun s => S (φ.embed s)) : (p.widen φ).Only S := by
  induction p with
  | done r => trivial
  | step s k ih =>
    obtain ⟨hs, hk⟩ := hp
    cases s with
    | inl s => exact ⟨hs, fun r => ih r (hk r)⟩
    | inr s => exact ⟨hs, fun r => ih _ (hk _)⟩

theorem only_widen_of_all {S : Y.machine.Stmt → Prop} {p : Prog X.machine ε α}
    (h : ∀ s, S (φ.embed s)) : (p.widen φ).Only S := by
  apply only_widen
  induction p with
  | done r => trivial
  | step s k ih => exact ⟨h s, ih⟩

/-- The statements of a lifted program are those that it has on its own. -/
theorem Only.lift {S₀ : M.Stmt → Prop} {S : X.machine.Stmt → Prop} {p : Prog M ε α}
    (hp : p.Only S₀) (hS : ∀ s, S₀ s → S (.inl s)) : (p.lift X).Only S := by
  induction p with
  | done r => trivial
  | step s k ih => exact ⟨hS s hp.1, fun r => ih r (hp.2 r)⟩

/-- What a program guarantees on the narrow machine, it guarantees on the wide
    one, of the entries that the narrow one sees. -/
theorem Meets.widen {E₀ : List (Entry X.machine) → Entry X.machine → Prop}
    {Q₀ : List (Entry X.machine) → Except ε α → Prop} {I : Y.machine.State → Prop}
    {E : List (Entry Y.machine) → Entry Y.machine → Prop}
    {Q : List (Entry Y.machine) → Except ε α → Prop} {h : List (Entry Y.machine)}
    {p : Prog X.machine ε α} (hp : p.Meets (fun _ => True) E₀ Q₀ (φ.seen h))
    (hE : ∀ t e e₀, e.narrow φ = some e₀ → E₀ (φ.seen (h ++ t)) e₀ → E (h ++ t) e)
    (hQ : ∀ t r, Q₀ (φ.seen (h ++ t)) r → Q (h ++ t) r) : (p.widen φ).Meets I E Q h := by
  induction p generalizing h with
  | done r =>
    have hr : Q₀ (φ.seen (h ++ [])) r := by simpa using hp
    show Q h r
    simpa using hQ [] r hr
  | step s k ih =>
    -- one more entry, of which the narrow machine sees `e₀`
    have hnext : ∀ (e : Entry Y.machine) (e₀ : Entry X.machine) (r : X.machine.Resp s),
        e.narrow φ = some e₀ → E₀ (φ.seen h) e₀ →
        (k r).Meets (fun _ => True) E₀ Q₀ (φ.seen h ++ [e₀]) →
        E h e ∧ ((k r).widen φ).Meets I E Q (h ++ [e]) := by
      intro e e₀ r hnarrow he hk
      have hseen : φ.seen (h ++ [e]) = φ.seen h ++ [e₀] := by
        rw [Widening.seen_append]
        exact congrArg _ (List.filterMap_cons_some hnarrow)
      constructor
      · simpa using hE [] e e₀ hnarrow (by simpa using he)
      · apply ih
        · rw [hseen]
          exact hk
        · intro t e' e₀' hnarrow' he'
          have hext := hE (e :: t) e' e₀' hnarrow' (by simpa using he')
          simpa using hext
        · intro t r' hr
          have hext := hQ (e :: t) r' (by simpa using hr)
          simpa using hext
    cases s with
    | inl s =>
      intro ctx w _
      obtain ⟨he, hk⟩ := hp ctx (w.1, φ.view w.2) trivial
      exact hnext ⟨ctx, .inl s, w⟩ ⟨ctx, .inl s, (w.1, φ.view w.2)⟩ _ rfl he hk
    | inr s =>
      intro ctx w _
      obtain ⟨he, hk⟩ := hp ctx (w.1, φ.view w.2) trivial
      have hnarrow : Entry.narrow φ ⟨ctx, .inr (φ.stmt s), w⟩ =
          some ⟨ctx, .inr s, (w.1, φ.view w.2)⟩ := by
        show ((φ.part (φ.stmt s)).map fun s => _) = _
        rw [φ.part_stmt]
        rfl
      -- the reply that the program gets is that of the narrow statement
      have hk' : (k (φ.resp s (Y.exec ctx (φ.stmt s) w.1 w.2).1)).Meets (fun _ => True) E₀ Q₀
          (φ.seen h ++ [⟨ctx, .inr s, (w.1, φ.view w.2)⟩]) := by
        rw [φ.answers]
        exact hk
      exact hnext ⟨ctx, .inr (φ.stmt s), w⟩ _ _ hnarrow he hk'

/-- A widened program ends as it ends on its own, on what it sees of the
    state. -/
theorem Runs.widen {p : Prog X.machine ε α} {cs : Nat → M.Ctx} {w : M.State} {y : Y.State}
    {Q : Except ε α → X.machine.State → (Nat → M.Ctx) → Prop}
    (hp : Runs p cs (w, φ.view y) Q) :
    Runs (p.widen φ) cs ((w, y) : Y.machine.State)
      fun r w' cs' => Q r (w'.1, φ.view w'.2) cs' := by
  induction p generalizing cs w y with
  | done r => exact hp
  | step s k ih =>
    cases s with
    | inl s => exact ih _ hp
    | inr s =>
      -- the reply and the state that is left are those of the narrow statement
      have hstep := runs_step.mp hp
      apply runs_step.mpr
      apply ih
      show Runs (k (φ.resp s (Y.exec (cs 0) (φ.stmt s) w y).1)) (later 1 cs)
        (w, φ.view (Y.exec (cs 0) (φ.stmt s) w y).2) Q
      rw [φ.answers, φ.writes]
      exact hstep

end Prog

end SoulAuth.Framework
