import SoulAuth.Proofs.AuditChains
import SoulAuth.Proofs.AuditScan

/-! # The head that a writer remembers

As long as the writer is told of every row that it has stored, the head it
remembers is the last row of its chain. When the reply to a write is lost,
the head stays behind for good: every later attempt sends the number of a
row that is stored already.
-/

namespace SoulAuth

open Framework Framework.System Framework.Prog

/-- A write whose writer is told of a failure although it was executed. -/
def LosesReply (e : Entry auditMachine) : Prop :=
  (∃ row, e.stmt = .db (.writeEvent row)) ∧ e.ctx.fault = some .lostReply

/-! ## What a writer is told -/

/-- The head that an entry tells the writer of the chain `c`. -/
def taught (c : Str) : Entry auditMachine → Option ChainHead
  | ⟨ctx, .db (.chainHead d), w⟩ =>
    if d = c ∧ ctx.fault = none then some (w.tail c) else none
  | ⟨ctx, .db (.writeEvent row), w⟩ =>
    match (AuditStmt.exec ctx (.db (.writeEvent row)) w).1 with
    | .ok _ => (row.link c).map fun link => headOf (some link)
    | .error _ => none
  | _ => none

/-- The last head that the writer has been told. -/
def known (c : Str) (h : List (Entry auditMachine)) : Option ChainHead :=
  h.foldl (fun head e => (taught c e).or head) none

@[simp] theorem known_nil (c : Str) : known c [] = none := rfl

theorem known_snoc (c : Str) (h : List (Entry auditMachine)) (e : Entry auditMachine) :
    known c (h ++ [e]) = (taught c e).or (known c h) := by
  rw [known, List.foldl_append]
  rfl

theorem known_snoc_none {c : Str} {h : List (Entry auditMachine)} {e : Entry auditMachine}
    (he : taught c e = none) : known c (h ++ [e]) = known c h := by
  rw [known_snoc, he, Option.none_or]

theorem taught_refused {ctx : AuditCtx} {row : ActivityRow} {w : AuditStore} {c : Str}
    {f : DbFailure} (hr : (AuditStmt.exec ctx (.db (.writeEvent row)) w).1 = .error f) :
    taught c ⟨ctx, .db (.writeEvent row), w⟩ = none := by
  simp only [taught, hr]

section

variable [Platform] {ε : Type} {c : Str} {h : List (Entry auditMachine)}

omit [Platform] in
theorem taught_row {ctx : AuditCtx} {row : ActivityRow} {w : AuditStore} {n : Int} {a : Str}
    (hr : (AuditStmt.exec ctx (.db (.writeEvent row)) w).1 = .ok ()) (hc : row.chainId = some c)
    (hseq : row.seq = some (.int n)) (hhash : row.eventHash = some a) :
    taught c ⟨ctx, .db (.writeEvent row), w⟩ = some ⟨n, a⟩ := by
  simp only [taught, hr]
  simp only [ActivityRow.link, hc, hseq, hhash, if_true, Option.map_some]
  rfl

/-- A writer waits with the head it has been told last, asks for the head
    of its chain only when it knows none, and attaches rows to the head it
    knows. -/
structure HeadRule (c : Str) (h : List (Entry auditMachine)) (e : Entry auditMachine) : Prop where
  waits : ∀ head, e.stmt = .receive head → head = known c h
  asks : ∀ d, e.stmt = .db (.chainHead d) → known c h = none
  writes : ∀ row, e.stmt = .db (.writeEvent row) →
    ∃ (head : ChainHead) (event : AuditEvent) (timestamp : Int) (key : Str),
      known c h = some head ∧ row = event.row (event.link c head timestamp key) c

/-- The programs that keep to the rule. -/
abbrev Heeds {α : Type} (c : Str) (Q : List (Entry auditMachine) → Except ε α → Prop)
    (h : List (Entry auditMachine)) (p : AuditTask ε α) : Prop :=
  p.Meets (fun _ => True) (HeadRule c) Q h

theorem knownHead_heeds {head : Option ChainHead} (hhead : head = known c h) :
    Heeds (ε := ε) c (fun h' r => r = .ok (known c h')) h (knownHead c head) := by
  cases head with
  | some head => exact congrArg Except.ok hhead
  | none =>
    refine fun ctx w _ => ⟨⟨nofun, fun _ _ => hhead.symm, nofun⟩, ?_⟩
    have hsnoc := known_snoc c h ⟨ctx, .db (.chainHead c), w⟩
    rw [← hhead, Option.or_none] at hsnoc
    show Except.ok _ = Except.ok (known c (h ++ [⟨ctx, .db (.chainHead c), w⟩]))
    rw [hsnoc]
    obtain ⟨elapsed, fault, ρ, subject⟩ := ctx
    rcases fault with _ | _ | _ | _
    · simp [taught, AuditStmt.exec, AuditDbStmt.exec, AuditStore.tail, AuditStore.advance]
    · simp [taught, AuditStmt.exec]
    · simp [taught, AuditStmt.exec]
    · simp [taught, AuditStmt.exec]

theorem actorKeyOf_heeds (event : AuditEvent) :
    Heeds (ε := ε) c (fun h' r => (∃ key, r = .ok key) ∧ known c h' = known c h) h
      (actorKeyOf event) := by
  unfold actorKeyOf
  split
  · exact ⟨⟨_, rfl⟩, rfl⟩
  · cases event.userId with
    | none => exact ⟨⟨_, rfl⟩, rfl⟩
    | some raw =>
      simp only [resolveActorKey]
      split
      · exact ⟨⟨_, rfl⟩, rfl⟩
      · intro ctx w _
        refine ⟨?_, ⟨_, rfl⟩, known_snoc_none rfl⟩
        constructor <;> simp

omit [Platform] in
theorem attemptWrite_succ {event : AuditEvent} {link : ChainLink} {n : Nat} :
    (attemptWrite event link c (n + 1) : AuditTask ε Bool) =
      .step (AuditStmt.db (.writeEvent (event.row link c))) fun sent =>
        match sent with
        | .ok () => .done (.ok true)
        | .error _ => attemptWrite event link c n := by
  show step _ _ = step _ _
  congr 1
  funext sent
  cases sent with
  | ok u => rfl
  | error f => rfl

/-- The attempts tell the writer of a row only if they succeed. -/
theorem attemptWrite_heeds {event : AuditEvent} {head : ChainHead} {timestamp : Int} {key : Str}
    (n : Nat) (hhead : known c h = some head) :
    Heeds (ε := ε) c
      (fun h' r => ∃ written, r = .ok written ∧ known c h' = some
        (if written then ⟨head.seq + 1, (event.link c head timestamp key).hash⟩ else head))
      h (attemptWrite event (event.link c head timestamp key) c n) := by
  induction n generalizing h with
  | zero => exact ⟨false, rfl, hhead⟩
  | succ n ih =>
    rw [attemptWrite_succ]
    refine meets_step.mpr fun ctx w _ => ⟨⟨nofun, nofun, fun row hs => ?_⟩, ?_⟩
    · cases hs
      exact ⟨head, event, timestamp, key, hhead, rfl⟩
    · cases hr : (auditMachine.exec ctx (AuditStmt.db (.writeEvent
          (event.row (event.link c head timestamp key) c))) w).1 with
      | ok u =>
        dsimp only
        refine ⟨true, rfl, ?_⟩
        rw [known_snoc, taught_row hr rfl rfl rfl]
        rfl
      | error f =>
        dsimp only
        refine ih ?_
        rw [known_snoc_none (taught_refused hr), hhead]

theorem writeWithRetry_heeds {event : AuditEvent} {head : ChainHead}
    (hhead : known c h = some head) :
    Heeds (ε := ε) c (fun h' r => ∃ out, r = .ok out ∧ known c h' = some out.1) h
      (writeWithRetry event head c) := by
  unfold writeWithRetry
  refine Meets.bind (P := fun h' r => (∃ timestamp, r = .ok timestamp) ∧ known c h' = some head)
    (fun ctx w _ => ⟨⟨nofun, nofun, nofun⟩, ⟨_, rfl⟩, ?_⟩) (fun t timestamp ht => ?_)
    fun t e ht => ?_
  · rw [known_snoc_none rfl, hhead]
  · refine Meets.bind (actorKeyOf_heeds event) (fun t' key hkey => ?_) fun t' e he => ?_
    · refine Meets.bind (attemptWrite_heeds auditWriteAttempts (hkey.2.trans ht.2))
        (fun t'' written hwritten => ?_) fun t'' e he => ?_
      · obtain ⟨_, heq, hknown⟩ := hwritten
        cases heq
        cases written with
        | true => exact ⟨_, rfl, hknown⟩
        | false => exact ⟨_, rfl, hknown⟩
      · obtain ⟨_, heq, -⟩ := he
        cases heq
    · obtain ⟨⟨_, heq⟩, -⟩ := he
      cases heq
  · obtain ⟨⟨_, heq⟩, -⟩ := ht
    cases heq

theorem serveAudit_heeds {head : Option ChainHead} {dropped : Nat} {messages : List AuditMsg}
    (hhead : head = known c h) :
    Heeds (ε := ε) c (fun _ _ => True) h (serveAudit c head dropped messages) := by
  induction messages generalizing h head dropped with
  | nil => exact fun ctx w _ => ⟨⟨fun _ hs => by cases hs; exact hhead, nofun, nofun⟩, trivial⟩
  | cons message messages ih =>
    -- waiting for the message teaches nothing
    have hkeep : ∀ ctx w, head = known c (h ++ [⟨ctx, .receive head, w⟩]) := fun ctx w => by
      rw [known_snoc_none rfl, hhead]
    have hwait : ∀ ctx w, HeadRule c h ⟨ctx, .receive head, w⟩ := fun ctx w =>
      ⟨fun _ hs => by cases hs; exact hhead, nofun, nofun⟩
    cases message with
    | flush =>
      unfold serveAudit
      exact fun ctx w _ => ⟨hwait ctx w, ih (hkeep ctx w)⟩
    | event event =>
      unfold serveAudit
      refine Meets.bind (P := fun h' _ => head = known c h')
        (fun ctx w _ => ⟨hwait ctx w, hkeep ctx w⟩) (fun t _ ht => ?_) fun t e _ => trivial
      refine Meets.bind (knownHead_heeds ht) (fun t' head' hk => ?_) fun t' e _ => trivial
      obtain rfl := Except.ok.inj hk
      cases hknown : known c (h ++ t ++ t') with
      | none =>
        refine ih ?_
        exact hknown.symm
      | some head' =>
        refine Meets.bind (writeWithRetry_heeds hknown) (fun t'' out hout => ?_)
          fun t'' e _ => trivial
        obtain ⟨_, heq, hnext⟩ := hout
        cases heq
        exact ih hnext.symm

variable [CheckpointKeys]

/-- The rule of the writers. -/
def headRule : Rule auditors where
  assumes _ := True
  entry
    | .write c _ => HeadRule c
    | _ => fun _ _ => True
  outcome _ _ _ := True

theorem headRule_met : headRule.Met := by
  intro r
  cases r with
  | write c messages =>
    exact Meets.bind (serveAudit_heeds (c := c) rfl) (fun _ _ _ => trivial) fun _ _ _ => trivial
  | checkpoint signer c => exact Prog.meets_trivial
  | verify key => exact Prog.meets_trivial

/-! ## The head and the chain -/

variable {w : AuditStore}

omit [Platform] [CheckpointKeys] in
theorem chainHeadRow_congr {activity activity' : List ActivityRow}
    (hrows : rowsIn c activity' = rowsIn c activity) :
    chainHeadRow c activity' = chainHeadRow c activity := by
  rw [chainHeadRow, chainHeadRow, filterMap_link, filterMap_link, hrows]

omit [Platform] [CheckpointKeys] in
theorem AuditStore.tail_congr {w' : AuditStore}
    (hrows : rowsIn c w'.activity = rowsIn c w.activity) : w'.tail c = w.tail c := by
  rw [AuditStore.tail, AuditStore.tail, chainHeadRow_congr hrows]

/-- The numbers that are taken are those up to the last row. -/
theorem AuditStore.Sound.hasPosition_iff (h : w.Sound) {row : ActivityRow}
    (hc : row.chainId = some c) {n : Int} (hseq : row.seq = some (.int n)) :
    w.hasPosition row = true ↔ 1 ≤ n ∧ n ≤ (w.tail c).seq := by
  have hlinked := h.linked c
  rw [h.tail_eq, AuditStore.hasPosition, List.any_eq_true]
  constructor
  · rintro ⟨r, hr, hpos⟩
    obtain ⟨hrc, hrs⟩ := Bool.and_eq_true _ _ ▸ hpos
    have hrc' : r.chainId = some c := (of_decide_eq_true hrc).trans hc
    have hrs' : r.seq = some (.int n) := (of_decide_eq_true hrs).trans hseq
    have hmem : r ∈ rowsIn c w.activity := mem_rowsIn.mpr ⟨hr, hrc', by simp [hrs']⟩
    have hnum : storedChain.number r = n := by
      show (r.seq.bind DbNumber.asI64).getD 0 = n
      rw [hrs']
      rfl
    obtain ⟨hlow, hhigh⟩ := hlinked.number_bounds hmem
    show 1 ≤ n ∧ n ≤ ((rowsIn c w.activity).length : Int)
    omega
  · rintro ⟨hlow, hhigh⟩
    have hhigh' : n ≤ ((rowsIn c w.activity).length : Int) := hhigh
    obtain ⟨r, hr, hnum⟩ := hlinked.exists_number (k := n) hlow (by omega)
    obtain ⟨hmem, hrc, hne⟩ := mem_rowsIn.mp hr
    have hrs := (h.kept r hmem hne).number hnum
    exact ⟨r, hmem, by simp [hrc, hrs, hc, hseq]⟩

/-- A row that is stored behind the last row of a chain is its last row. -/
theorem AuditStore.Sound.tail_append {w' : AuditStore} (h' : w'.Sound) {row : ActivityRow}
    (ha : w'.activity = w.activity ++ [row]) {n : Int} {a : Str} (hc : row.chainId = some c)
    (hseq : row.seq = some (.int n)) (hhash : row.eventHash = some a) : w'.tail c = ⟨n, a⟩ := by
  have hrows : rowsIn c w'.activity = rowsIn c w.activity ++ [row] := by
    rw [ha, rowsIn_append, if_pos ⟨hc, by simp [hseq]⟩]
  rw [AuditStore.tail, h'.chainHeadRow_eq, hrows, List.getLast?_concat]
  show (⟨storedChain.number row, storedChain.stored row⟩ : ChainHead) = ⟨n, a⟩
  congr 1
  · show (row.seq.bind DbNumber.asI64).getD 0 = n
    rw [hseq]
    rfl
  · show row.eventHash.getD [] = a
    rw [hhash]
    rfl

/-- The head of a writer that has lost a reply: it is behind the last row. -/
def Behind (w : AuditStore) (c : Str) (head : ChainHead) : Prop :=
  0 ≤ head.seq ∧ head.seq < (w.tail c).seq

/-- From the first statement of task `i` on, no other task stores rows of
    the chain `c`. -/
def SoleWriter (i : Nat) (c : Str) (tr : List (Nat × Entry auditMachine)) : Prop :=
  ∀ tr₁ j e tr₂ row, tr = tr₁ ++ (j, e) :: tr₂ → entriesOf (S := auditors) i tr₁ ≠ [] →
    Appends e row → row.chainId = some c → j = i

/-- What task `i` remembers of the chain `c`. -/
structure Remembers (i : Nat) (c : Str) (tr : List (Nat × Entry auditMachine)) (w : AuditStore) :
    Prop where
  tail : (∀ e ∈ entriesOf (S := auditors) i tr, ¬ LosesReply e) →
    ∀ head, known c (entriesOf (S := auditors) i tr) = some head → head = w.tail c
  behind : (∃ e ∈ entriesOf (S := auditors) i tr, LosesReply e) →
    ∃ head, known c (entriesOf (S := auditors) i tr) = some head ∧ Behind w c head

omit [Platform] [CheckpointKeys] in
/-- What a write does: it stores the row and says so, it stores the row and
    its reply is lost, or it stores nothing and fails. -/
theorem write_cases (ctx : AuditCtx) (row : ActivityRow) (w : AuditStore) :
    (Appends ⟨ctx, .db (.writeEvent row), w⟩ row ∧ ctx.fault = none ∧
      (AuditStmt.exec ctx (.db (.writeEvent row)) w).1 = .ok ()) ∨
    (Appends ⟨ctx, .db (.writeEvent row), w⟩ row ∧ ctx.fault = some .lostReply ∧
      ∃ f, (AuditStmt.exec ctx (.db (.writeEvent row)) w).1 = .error f) ∨
    ((AuditStmt.exec ctx (.db (.writeEvent row)) w).2.activity = w.activity ∧
      (w.hasPosition row = false → ctx.fault ≠ some .lostReply) ∧
      ∃ f, (AuditStmt.exec ctx (.db (.writeEvent row)) w).1 = .error f) := by
  have hadv : (w.advance ctx.elapsed).hasPosition row = w.hasPosition row := rfl
  cases hpos : w.hasPosition row with
  | true =>
    have hexec : AuditDbStmt.exec ctx (.writeEvent row) (w.advance ctx.elapsed) =
        (.error (.alreadyContains "user_activity_chain_seq_idx".toList []),
          w.advance ctx.elapsed) := if_pos (hadv.trans hpos)
    obtain ⟨elapsed, fault, ρ, subject⟩ := ctx
    rcases fault with _ | _ | _ | _
    · exact .inr (.inr ⟨congrArg (·.2.activity) hexec, nofun, _, congrArg (·.1) hexec⟩)
    · exact .inr (.inr ⟨rfl, nofun, _, rfl⟩)
    · exact .inr (.inr ⟨rfl, nofun, _, rfl⟩)
    · exact .inr (.inr ⟨congrArg (·.2.activity) hexec, nofun, _, rfl⟩)
  | false =>
    have hexec : AuditDbStmt.exec ctx (.writeEvent row) (w.advance ctx.elapsed) =
        (.ok (), { w.advance ctx.elapsed with activity := w.activity ++ [row] }) :=
      if_neg (by rw [hadv, hpos]; decide)
    obtain ⟨elapsed, fault, ρ, subject⟩ := ctx
    rcases fault with _ | _ | _ | _
    · exact .inl ⟨⟨rfl, .inl rfl, hpos, congrArg (·.2.activity) hexec⟩, rfl,
        congrArg (·.1) hexec⟩
    · exact .inr (.inr ⟨rfl, fun _ => nofun, _, rfl⟩)
    · exact .inr (.inr ⟨rfl, fun _ => nofun, _, rfl⟩)
    · exact .inr (.inl ⟨⟨rfl, .inr rfl, hpos, congrArg (·.2.activity) hexec⟩, rfl, _, rfl⟩)

variable {i : Nat} {tr : List (Nat × Entry auditMachine)} {e : Entry auditMachine}

/-- What the writer remembers after a statement that stores nothing. -/
theorem Remembers.quiet {w' : AuditStore} (h : Remembers i c tr w)
    (htail : w'.tail c = w.tail c) {t : List (Nat × Entry auditMachine)}
    (hknown : known c (entriesOf (S := auditors) i t) = known c (entriesOf (S := auditors) i tr))
    (hlost : (∃ e ∈ entriesOf (S := auditors) i t, LosesReply e) ↔
      ∃ e ∈ entriesOf (S := auditors) i tr, LosesReply e) : Remembers i c t w' := by
  refine ⟨fun hno head hk => ?_, fun hl => ?_⟩
  · rw [htail]
    refine h.tail (fun e he hloses => ?_) head (hknown.symm.trans hk)
    obtain ⟨e', he', hloses'⟩ := hlost.mpr ⟨e, he, hloses⟩
    exact hno e' he' hloses'
  · obtain ⟨head, hk, hbehind⟩ := h.behind (hlost.mp hl)
    refine ⟨head, hknown.trans hk, ?_⟩
    rw [Behind, htail]
    exact hbehind

/-- What the writer remembers after a write. -/
theorem Remembers.write (h : Remembers i c tr w) (hw : w.Sound) {ctx : AuditCtx}
    {head : ChainHead} {row : ActivityRow} {a : Str}
    (hhead : known c (entriesOf (S := auditors) i tr) = some head) (hc : row.chainId = some c)
    (hseq : row.seq = some (.int (head.seq + 1))) (hhash : row.eventHash = some a)
    {e : Entry auditMachine} (he : e = ⟨ctx, .db (.writeEvent row), w⟩)
    (hafter : e.after.Sound) : Remembers i c (tr ++ [(i, e)]) e.after := by
  have hentries := entriesOf_snoc_self (S := auditors) i tr e
  have hposition := hw.hasPosition_iff hc hseq
  have hlen : 0 ≤ (w.tail c).seq := by
    rw [hw.tail_eq]
    exact Int.natCast_nonneg _
  -- a writer that has lost a reply sends a number that is taken
  have htaken : ∀ e' ∈ entriesOf (S := auditors) i tr, LosesReply e' → w.hasPosition row = true := by
    intro e' he' hlost
    obtain ⟨head', hk, hlow, hhigh⟩ := h.behind ⟨e', he', hlost⟩
    obtain rfl : head' = head := Option.some.inj (hk.symm.trans hhead)
    exact hposition.mpr ⟨by omega, by omega⟩
  -- the others send one that is free
  have hgood : (∀ e' ∈ entriesOf (S := auditors) i tr, ¬ LosesReply e') →
      head = w.tail c ∧ w.hasPosition row = false := by
    intro hno
    have hlast := h.tail hno head hhead
    refine ⟨hlast, ?_⟩
    rw [← Bool.not_eq_true, hposition, hlast]
    omega
  subst he
  rcases write_cases ctx row w with ⟨ha, hf, hok⟩ | ⟨ha, hf, f, herr⟩ | ⟨hsame, hpos, f, herr⟩
  · have hnew : w.hasPosition row = false := ha.new
    refine ⟨fun _ head' hk => ?_, fun ⟨e', he', hlost⟩ => ?_⟩
    · rw [hentries, known_snoc, taught_row hok hc hseq hhash] at hk
      obtain rfl := Option.some.inj hk
      exact (hafter.tail_append ha.after hc hseq hhash).symm
    · rw [hentries, List.mem_append, List.mem_singleton] at he'
      rcases he' with he' | rfl
      · rw [htaken e' he' hlost] at hnew
        cases hnew
      · have hf' : ctx.fault = some .lostReply := hlost.2
        rw [hf] at hf'
        cases hf'
  · have hnew : w.hasPosition row = false := ha.new
    have hloses : LosesReply ⟨ctx, .db (.writeEvent row), w⟩ := ⟨⟨row, rfl⟩, hf⟩
    refine ⟨fun hno => absurd hloses (hno _ ?_), fun _ => ⟨head, ?_, ?_⟩⟩
    · rw [hentries]
      simp
    · rw [hentries, known_snoc_none (taught_refused herr), hhead]
    · obtain ⟨hlast, -⟩ := hgood fun e' he' hlost => by
        rw [htaken e' he' hlost] at hnew
        cases hnew
      rw [Behind, hafter.tail_append ha.after hc hseq hhash, hlast]
      show 0 ≤ (w.tail c).seq ∧ (w.tail c).seq < (w.tail c).seq + 1
      omega
  · have hrows : (Entry.after (M := auditMachine) ⟨ctx, .db (.writeEvent row), w⟩).tail c =
        w.tail c := AuditStore.tail_congr (congrArg (rowsIn c) hsame)
    refine h.quiet hrows ?_ ⟨fun ⟨e', he', hlost⟩ => ?_, fun ⟨e', he', hlost⟩ => ⟨e', ?_, hlost⟩⟩
    · rw [hentries, known_snoc_none (taught_refused herr)]
    · rw [hentries, List.mem_append, List.mem_singleton] at he'
      rcases he' with he' | rfl
      · exact ⟨e', he', hlost⟩
      · -- the reply of a write that has stored nothing
        by_contra hno
        obtain ⟨-, hfree⟩ := hgood fun e' he' hl => hno ⟨e', he', hl⟩
        exact hpos hfree hlost.2
    · rw [hentries, List.mem_append]
      exact .inl he'

omit [Platform] [CheckpointKeys] in
theorem taught_cases {head : ChainHead} (h : taught c e = some head) :
    (∃ row, e.stmt = .db (.writeEvent row)) ∨
      (∃ d, e.stmt = .db (.chainHead d)) ∧ head = e.before.tail c := by
  unfold taught at h
  split at h
  · next ctx d w =>
    split at h
    · exact .inr ⟨⟨d, rfl⟩, (Option.some.inj h).symm⟩
    · cases h
  · next ctx row w => exact .inl ⟨row, rfl⟩
  · cases h

/-- A statement of the writer keeps what it remembers. -/
theorem Remembers.own (h : Remembers i c tr e.before) (hw : e.before.Sound)
    (hafter : e.after.Sound) (hrule : HeadRule c (entriesOf (S := auditors) i tr) e) :
    Remembers i c (tr ++ [(i, e)]) e.after := by
  by_cases hwrite : ∃ row, e.stmt = .db (.writeEvent row)
  · obtain ⟨row, hs⟩ := hwrite
    obtain ⟨head, event, timestamp, key, hhead, hrow⟩ := hrule.writes row hs
    obtain ⟨hc, hseq, a, hhash⟩ : row.chainId = some c ∧ row.seq = some (.int (head.seq + 1)) ∧
        ∃ a, row.eventHash = some a := by
      rw [hrow]
      exact ⟨rfl, rfl, _, rfl⟩
    have he : e = ⟨e.ctx, .db (.writeEvent row), e.before⟩ := by rw [← hs]
    exact h.write hw hhead hc hseq hhash he hafter
  · have hsame : e.after.activity = e.before.activity := by
      rcases activity_after e with hsame | ⟨row, ha⟩
      · exact hsame
      · exact absurd ⟨row, ha.stmt⟩ hwrite
    have htail : e.after.tail c = e.before.tail c :=
      AuditStore.tail_congr (congrArg (rowsIn c) hsame)
    have hentries := entriesOf_snoc_self (S := auditors) i tr e
    have hlost : (∃ e' ∈ entriesOf (S := auditors) i (tr ++ [(i, e)]), LosesReply e') ↔
        ∃ e' ∈ entriesOf (S := auditors) i tr, LosesReply e' := by
      rw [hentries]
      refine ⟨fun ⟨e', he', hl⟩ => ?_, fun ⟨e', he', hl⟩ => ⟨e', by simp [he'], hl⟩⟩
      rcases List.mem_append.mp he' with he' | he'
      · exact ⟨e', he', hl⟩
      · rw [List.mem_singleton.mp he'] at hl
        exact absurd hl.1 hwrite
    cases htaught : taught c e with
    | none =>
      refine h.quiet htail ?_ hlost
      rw [hentries, known_snoc_none htaught]
    | some head =>
      -- only a writer that knows no head asks for it
      rcases taught_cases htaught with hw' | ⟨⟨d, hs⟩, rfl⟩
      · exact absurd hw' hwrite
      · have hnone := hrule.asks d hs
        refine ⟨fun _ head hk => ?_, fun hl => ?_⟩
        · rw [hentries, known_snoc, htaught] at hk
          rw [htail]
          exact (Option.some.inj hk).symm
        · obtain ⟨head, hk, -⟩ := h.behind (hlost.mp hl)
          rw [hnone] at hk
          cases hk

/-- So does a statement of another task. -/
theorem Remembers.other (h : Remembers i c tr e.before) {j : Nat} (hj : j ≠ i)
    (hsole : SoleWriter i c (tr ++ [(j, e)])) : Remembers i c (tr ++ [(j, e)]) e.after := by
  have hentries := entriesOf_snoc_ne (S := auditors) tr e hj
  by_cases hnil : entriesOf (S := auditors) i tr = []
  · refine ⟨fun _ head hk => ?_, fun ⟨e', he', _⟩ => ?_⟩
    · rw [hentries, hnil] at hk
      cases hk
    · rw [hentries, hnil] at he'
      cases he'
  · have htail : e.after.tail c = e.before.tail c := by
      refine AuditStore.tail_congr ?_
      rcases activity_after e with hsame | ⟨row, ha⟩
      · rw [hsame]
      · rw [ha.after, rowsIn_append, if_neg fun hrow => ?_]
        exact hj (hsole tr j e [] row rfl hnil ha hrow.1)
    refine h.quiet htail ?_ ?_
    · rw [hentries]
    · rw [hentries]

/-- **The head of the writer.** Whenever a writer waits for a message with
    a head in memory, that head is the last stored row of its chain exactly
    if none of its writes so far was executed without its being told. -/
theorem head_is_tail {conf : auditors.Conf} (hw : w.IsUnchained) (hc : Reachable w conf)
    {messages : List AuditMsg} (hreq : conf.reqOf i = some (.write c messages))
    {tr₁ tr₂ : List (Nat × Entry auditMachine)} (htr : conf.trace = tr₁ ++ (i, e) :: tr₂)
    (hsole : SoleWriter i c tr₁) {head : ChainHead} (hidle : e.stmt = .receive (some head)) :
    head = e.before.tail c ↔ ∀ e' ∈ entriesOf (S := auditors) i tr₁, ¬ LosesReply e' := by
  have hinv := hc.rule headRule_met fun _ => trivial
  have hrule : ∀ tr e' tr', conf.trace = tr ++ (i, e') :: tr' →
      HeadRule c (entriesOf (S := auditors) i tr) e' := fun tr e' tr' h => by
    obtain ⟨r, hr, hentry⟩ := hinv.entries tr i e' tr' h
    cases hr.symm.trans hreq
    exact hentry
  -- the invariant, entry by entry
  have hremembers : ∀ tr w', Steps (S := auditors) w tr w' → (∃ tr', conf.trace = tr ++ tr') →
      SoleWriter i c tr → Remembers i c tr w' := by
    intro tr w' hsteps
    induction hsteps with
    | nil => exact fun _ _ => ⟨nofun, fun ⟨_, he', _⟩ => absurd he' List.not_mem_nil⟩
    | @snoc tr w' j e' hsteps he' ih =>
      rintro ⟨tr', htr'⟩ hsole'
      rw [List.append_assoc] at htr'
      have hprev := ih ⟨_, htr'⟩ fun tr₁ k e tr₂ row h => by
        refine hsole' tr₁ k e (tr₂ ++ [(j, e')]) row ?_
        rw [h, List.append_assoc, List.cons_append]
      rw [← he'] at hprev
      obtain ⟨conf₁, hc₁, htrace, hstate⟩ := hc.before htr'
      have haudit := (audit_run hw hc₁).2
      obtain ⟨r, -, hentry⟩ := (audit_run hw hc).1.entries tr j e' tr' htr'
      rw [htrace, hstate] at haudit
      by_cases hj : j = i
      · subst hj
        exact hprev.own haudit.sound (haudit.next hentry).sound (hrule tr e' tr' htr')
      · exact hprev.other hj hsole'
  have hsteps := hc.steps
  rw [htr] at hsteps
  have h := hremembers tr₁ e.before hsteps.split_entry.1 ⟨_, htr⟩ hsole
  have hknown := (hrule tr₁ e tr₂ htr).waits (some head) hidle
  constructor
  · rintro rfl e' he' hlost
    obtain ⟨head, hk, -, hlt⟩ := h.behind ⟨e', he', hlost⟩
    obtain rfl := Option.some.inj (hknown.trans hk)
    exact lt_irrefl _ hlt
  · intro hno
    exact h.tail hno head hknown.symm

end

namespace Sample

/-- A writer of two events, whose first write is executed although its
    reply is lost. -/
def unanswered : List auditors.Action :=
  .start (.write "a".toList [.event (auditEvent "login"), .event (auditEvent "logout")]) ::
    (auditSteps 0 3 ++ [.step 0 { AuditCtx.calm with fault := some .lostReply }] ++ auditSteps 0 2)

/-- It waits for the second event with the head of an empty chain. -/
def waiting : Entry auditMachine :=
  ⟨.calm, .receive (some ⟨0, genesisHash⟩), (auditAfter unanswered).state⟩

theorem trace_waiting : (auditAfter (unanswered ++ [.step 0 .calm])).trace =
    (auditAfter unanswered).trace ++ (0, waiting) :: [] := rfl

theorem soleWriter_unanswered : SoleWriter 0 "a".toList (auditAfter unanswered).trace := by
  have hall : (auditAfter unanswered).trace.all (fun e => e.1 = 0) = true := by decide +kernel
  intro tr₁ j e tr₂ row htr _ _ _
  have hmem : (j, e) ∈ (auditAfter unanswered).trace := by
    rw [htr]
    simp
  exact of_decide_eq_true (List.all_eq_true.mp hall _ hmem)

theorem tail_waiting : (waiting.before.tail "a".toList).seq = 1 := by decide +kernel

/-- The head of the writer is not the last row of its chain. -/
theorem head_not_tail :
    ¬ ∀ (w : AuditStore) (conf : auditors.Conf) (i : Nat) (c : Str) (messages : List AuditMsg)
      (tr₁ tr₂ : List (Nat × Entry auditMachine)) (e : Entry auditMachine) (head : ChainHead),
        w.IsUnchained → Reachable w conf → conf.reqOf i = some (.write c messages) →
        conf.trace = tr₁ ++ (i, e) :: tr₂ → SoleWriter i c tr₁ →
        e.stmt = .receive (some head) → head = e.before.tail c := by
  intro h
  have heq := h _ _ 0 "a".toList _ _ [] waiting _ AuditStore.isUnchained_empty
    (auditAfter_reachable (unanswered ++ [.step 0 .calm])) rfl trace_waiting
    soleWriter_unanswered rfl
  have hseq := congrArg ChainHead.seq heq
  rw [tail_waiting] at hseq
  cases hseq

theorem head_is_tail_unanswered :
    (⟨0, genesisHash⟩ : ChainHead) = waiting.before.tail "a".toList ↔
      ∀ e ∈ entriesOf (S := auditors) 0 (auditAfter unanswered).trace, ¬ LosesReply e :=
  head_is_tail AuditStore.isUnchained_empty (auditAfter_reachable (unanswered ++ [.step 0 .calm])) rfl
    trace_waiting soleWriter_unanswered rfl

end Sample

end SoulAuth
