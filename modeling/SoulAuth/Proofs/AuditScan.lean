import SoulAuth.Framework.HashChain
import SoulAuth.Proofs.Tables
import SoulAuth.Routes.Audit

/-! # What the verification establishes

The loop over the rows ends without a broken row exactly when the rows of
every chain are linked from the genesis hash; the loop over the checkpoints
adds that every checkpoint of this instance names the hash of a row.
-/

namespace SoulAuth

open Framework Framework.System

variable [Platform]

/-- Rows as the links of a hash chain. -/
def rowChain : ChainView ScannedRow DigestInput Str where
  number := ScannedRow.number
  previous := ScannedRow.previous
  stored := ScannedRow.stored
  content row := row.digest row.previous
  hash := eventHash

/-- The rows of one chain, in the order of the scan. -/
def rowsOf (c : Str) (rows : List ScannedRow) : List ScannedRow :=
  rows.filter fun row => row.chain = c

omit [Platform] in
theorem mem_rowsOf {c : Str} {rows : List ScannedRow} {row : ScannedRow} :
    row ∈ rowsOf c rows ↔ row ∈ rows ∧ row.chain = c := by
  simp [rowsOf]

omit [Platform] in
theorem rowsOf_cons_self {row : ScannedRow} {rows : List ScannedRow} :
    rowsOf row.chain (row :: rows) = row :: rowsOf row.chain rows := by
  simp [rowsOf]

omit [Platform] in
theorem rowsOf_cons_ne {c : Str} {row : ScannedRow} {rows : List ScannedRow} (h : row.chain ≠ c) :
    rowsOf c (row :: rows) = rowsOf c rows := by
  simp [rowsOf, h]

/-! ## One row -/

namespace ChainScan

variable {s : ChainScan} {row : ScannedRow}

omit [Platform] in
@[simp] theorem enter_currentChain : (s.enter row).currentChain = row.chain := by
  unfold enter
  split
  · rfl
  · next h => exact (not_not.mp h).symm

omit [Platform] in
@[simp] theorem enter_broken : (s.enter row).broken = s.broken := by
  unfold enter
  split <;> rfl

omit [Platform] in
@[simp] theorem enter_checked : (s.enter row).checked = s.checked := by
  unfold enter
  split <;> rfl

omit [Platform] in
@[simp] theorem enter_anchors : (s.enter row).anchors = s.anchors := by
  unfold enter
  split <;> rfl

omit [Platform] in
theorem enter_same (h : row.chain = s.currentChain) : s.enter row = s := by
  simp [enter, h]

omit [Platform] in
theorem enter_other (h : row.chain ≠ s.currentChain) :
    (s.enter row).previousHash = genesisHash ∧ (s.enter row).expectedSeq = 1 := by
  simp [enter, h]

/-- A row is in order when it is the next link. -/
theorem reason_eq_none :
    s.reason row = none ↔ row.number = s.expectedSeq ∧ row.previous = s.previousHash ∧
      eventHash (row.digest row.previous) = row.stored := by
  unfold reason
  by_cases h₁ : row.number = s.expectedSeq
  · by_cases h₂ : row.previous = s.previousHash
    · by_cases h₃ : eventHash (row.digest s.previousHash) = row.stored
      · simp [h₁, h₂, h₃]
      · simp [h₁, h₂, h₃]
    · simp [h₁, h₂]
  · simp [h₁]

omit [Platform] in
theorem enter_with_checked (n : Nat) :
    ({ s with checked := n } : ChainScan).enter row = { s.enter row with checked := n } := by
  unfold enter
  split <;> rfl

theorem next_eq : s.next row =
    match (s.enter row).reason row with
    | some reason =>
      { s.enter row with
        checked := s.checked + 1, broken := some ⟨row.chain, row.number, reason⟩ }
    | none =>
      { s.enter row with
        checked := s.checked + 1
        anchors := Function.update s.anchors (row.chain, row.number) (some row.stored)
        previousHash := row.stored
        expectedSeq := row.number + 1 } := by
  simp only [next, enter_with_checked, enter_anchors]
  rfl

/-- What the loop has after a row that is in order. -/
theorem next_of_ordered (h : (s.enter row).reason row = none) :
    s.next row =
      { s.enter row with
        checked := s.checked + 1
        anchors := Function.update s.anchors (row.chain, row.number) (some row.stored)
        previousHash := row.stored
        expectedSeq := row.number + 1 } := by
  rw [next_eq, h]

/-- A row that is not in order ends the loop. -/
theorem next_of_disordered (h : (s.enter row).reason row ≠ none) :
    (s.next row).broken.isSome = true := by
  obtain ⟨r, hr⟩ := Option.ne_none_iff_exists'.mp h
  rw [next_eq, hr]
  rfl

/-! ## All rows -/

@[simp] theorem loop_nil : s.loop [] = s := rfl

/-- The loop goes on after a row that is in order. -/
theorem loop_of_ordered {rows : List ScannedRow} (hs : s.broken = none)
    (h : (s.enter row).reason row = none) : s.loop (row :: rows) = (s.next row).loop rows := by
  have hb : (s.next row).broken.isSome = false := by
    rw [next_of_ordered h]
    simp [hs]
  simp only [loop, hb, Bool.false_eq_true, if_false]

theorem loop_of_disordered {rows : List ScannedRow} (h : (s.enter row).reason row ≠ none) :
    (s.loop (row :: rows)).broken ≠ none := by
  have hb := next_of_disordered h
  simp only [loop, hb, if_true]
  intro hn
  simp [hn] at hb

/-- **The loop over the rows.** When the rows of a chain stand together, no
    row is reported broken exactly when every chain is linked. -/
theorem loop_broken_iff {rows : List ScannedRow} (hs : s.broken = none)
    (hsorted : (s.currentChain :: rows.map ScannedRow.chain).Pairwise (· ≤ ·)) :
    (s.loop rows).broken = none ↔
      rowChain.Linked s.previousHash s.expectedSeq (rowsOf s.currentChain rows) ∧
        ∀ c, c ≠ s.currentChain → rowChain.Linked genesisHash 1 (rowsOf c rows) := by
  induction rows generalizing s with
  | nil => simp [hs, rowsOf]
  | cons row rows ih =>
    obtain ⟨hle, hsorted'⟩ := List.pairwise_cons.mp hsorted
    have hrow : s.currentChain ≤ row.chain := hle row.chain (by simp)
    by_cases hr : (s.enter row).reason row = none
    · rw [loop_of_ordered hs hr]
      have hnext := next_of_ordered hr
      have hs' : (s.next row).broken = none := by rw [hnext]; simpa using hs
      have hchain : (s.next row).currentChain = row.chain := by rw [hnext]; simp
      have hprev : (s.next row).previousHash = row.stored := by rw [hnext]
      have hseq : (s.next row).expectedSeq = row.number + 1 := by rw [hnext]
      rw [ih hs' (by rw [hchain]; exact hsorted'), hchain, hprev, hseq]
      obtain ⟨h₁, h₂, h₃⟩ := reason_eq_none.mp hr
      have hlink : ∀ p n, (s.enter row).previousHash = p → (s.enter row).expectedSeq = n →
          (rowChain.Linked p n (rowsOf row.chain (row :: rows)) ↔
            rowChain.Linked row.stored (row.number + 1) (rowsOf row.chain rows)) := by
        rintro p n rfl rfl
        rw [rowsOf_cons_self, ChainView.linked_cons, ← h₁, ← h₂]
        exact ⟨fun h => h.2.2.2, fun h => ⟨rfl, rfl, h₃, h⟩⟩
      by_cases hc : row.chain = s.currentChain
      · -- the row continues the current chain
        rw [enter_same hc] at hlink
        rw [← hc, hlink _ _ rfl rfl]
        refine and_congr_right fun _ => forall_congr' fun c => imp_congr_right fun hne => ?_
        rw [rowsOf_cons_ne (Ne.symm hne)]
      · -- the row begins another chain, and the current one has ended
        obtain ⟨hp, hn⟩ := enter_other hc
        have hend : rowsOf s.currentChain (row :: rows) = [] := by
          refine List.filter_eq_nil_iff.mpr fun r hr => ?_
          have hlt : s.currentChain < row.chain := lt_of_le_of_ne hrow (Ne.symm hc)
          have hge : row.chain ≤ r.chain := by
            rcases List.mem_cons.mp hr with rfl | hr
            · exact le_refl _
            · exact (List.pairwise_cons.mp hsorted').1 _ (List.mem_map_of_mem hr)
          simpa using (lt_of_lt_of_le hlt hge).ne'
        have hend' : rowsOf s.currentChain rows = [] := by
          rwa [rowsOf_cons_ne hc] at hend
        rw [hend]
        constructor
        · rintro ⟨h, hothers⟩
          refine ⟨trivial, fun c hne => ?_⟩
          by_cases hcr : row.chain = c
          · subst hcr
            exact (hlink _ _ hp hn).mpr h
          · rw [rowsOf_cons_ne hcr]
            exact hothers c (Ne.symm hcr)
        · rintro ⟨-, hothers⟩
          refine ⟨(hlink _ _ hp hn).mp (hothers _ hc), fun c hne => ?_⟩
          by_cases hcs : c = s.currentChain
          · rw [hcs, hend']
            trivial
          · have := hothers c hcs
            rwa [rowsOf_cons_ne (Ne.symm hne)] at this
    · -- the row is out of order
      refine iff_of_false (loop_of_disordered hr) fun ⟨hcur, hothers⟩ => hr ?_
      rw [reason_eq_none]
      by_cases hc : row.chain = s.currentChain
      · rw [← hc, rowsOf_cons_self] at hcur
        rw [enter_same hc]
        exact ⟨hcur.1, hcur.2.1, hcur.2.2.1⟩
      · obtain ⟨hp, hn⟩ := enter_other hc
        have hlinked := hothers _ hc
        rw [rowsOf_cons_self] at hlinked
        rw [hp, hn]
        exact ⟨hlinked.1, hlinked.2.1, hlinked.2.2.1⟩

/-- All rows are counted, when none is broken. -/
theorem loop_checked {rows : List ScannedRow} (hs : s.broken = none)
    (h : (s.loop rows).broken = none) : (s.loop rows).checked = s.checked + rows.length := by
  induction rows generalizing s with
  | nil => rfl
  | cons row rows ih =>
    by_cases hr : (s.enter row).reason row = none
    · rw [loop_of_ordered hs hr] at h ⊢
      have hs' : (s.next row).broken = none := by rw [next_of_ordered hr]; simpa using hs
      rw [ih hs' h, next_of_ordered hr, List.length_cons]
      show s.checked + 1 + rows.length = s.checked + (rows.length + 1)
      omega
    · exact absurd h (loop_of_disordered hr)

/-- An anchor is the position of a row. -/
theorem anchors_some {rows : List ScannedRow} (hs : s.broken = none)
    (h : (s.loop rows).broken = none) {c : Str} {n : Int} {a : Str}
    (ha : (s.loop rows).anchors (c, n) = some a) :
    s.anchors (c, n) = some a ∨ ∃ row ∈ rowsOf c rows, row.number = n ∧ row.stored = a := by
  induction rows generalizing s with
  | nil => exact .inl ha
  | cons row rows ih =>
    by_cases hr : (s.enter row).reason row = none
    · rw [loop_of_ordered hs hr] at h ha
      have hnext := next_of_ordered hr
      have hs' : (s.next row).broken = none := by rw [hnext]; simpa using hs
      rcases ih hs' h ha with h₀ | ⟨r, hmem, hpos⟩
      · rw [hnext] at h₀
        by_cases hpos : (row.chain, row.number) = (c, n)
        · obtain ⟨rfl, rfl⟩ := Prod.mk.inj hpos
          refine .inr ⟨row, mem_rowsOf.mpr ⟨by simp, rfl⟩, rfl, ?_⟩
          simpa using h₀
        · exact .inl (by simpa [Function.update_of_ne (Ne.symm hpos)] using h₀)
      · obtain ⟨hr', hc⟩ := mem_rowsOf.mp hmem
        exact .inr ⟨r, mem_rowsOf.mpr ⟨List.mem_cons_of_mem _ hr', hc⟩, hpos⟩
    · exact absurd h (loop_of_disordered hr)

/-- Every row leaves an anchor at its position, its own or a later one's. -/
theorem anchors_of_mem {rows : List ScannedRow} (hs : s.broken = none)
    (h : (s.loop rows).broken = none) {c : Str} {n : Int}
    (hrow : (∃ a, s.anchors (c, n) = some a) ∨ ∃ row ∈ rowsOf c rows, row.number = n) :
    ∃ a, (s.loop rows).anchors (c, n) = some a := by
  induction rows generalizing s with
  | nil =>
    rcases hrow with ha | ⟨row, hmem, -⟩
    · exact ha
    · simp [rowsOf] at hmem
  | cons row rows ih =>
    by_cases hr : (s.enter row).reason row = none
    · rw [loop_of_ordered hs hr] at h ⊢
      have hnext := next_of_ordered hr
      refine ih (by rw [hnext]; simpa using hs) h ?_
      by_cases hpos : (row.chain, row.number) = (c, n)
      · refine .inl ⟨row.stored, ?_⟩
        rw [hnext, ← hpos]
        exact Function.update_self _ _ _
      · rcases hrow with ⟨a, ha⟩ | ⟨r, hmem, hn⟩
        · refine .inl ⟨a, ?_⟩
          rw [hnext]
          show Function.update s.anchors _ _ (c, n) = some a
          rw [Function.update_of_ne (Ne.symm hpos), ha]
        · obtain ⟨hr', hc⟩ := mem_rowsOf.mp hmem
          rcases List.mem_cons.mp hr' with rfl | hr'
          · exact absurd (by rw [hc, hn]) hpos
          · exact .inr ⟨r, mem_rowsOf.mpr ⟨hr', hc⟩, hn⟩
    · exact absurd h (loop_of_disordered hr)

end ChainScan

/-! ## The order of the scan -/

omit [Platform] in
theorem chainLt_trans {a b c : Option Str} (h₁ : chainLt a b = true) (h₂ : chainLt b c = true) :
    chainLt a c = true := by
  rcases a with _ | a <;> rcases b with _ | b <;> rcases c with _ | c <;>
    simp only [chainLt, decide_eq_true_eq, Bool.false_eq_true] at h₁ h₂ ⊢
  exact h₁.trans h₂

omit [Platform] in
theorem chainLt_total (a b : Option Str) : chainLt a b = true ∨ a = b ∨ chainLt b a = true := by
  rcases a with _ | a <;> rcases b with _ | b
  · exact .inr (.inl rfl)
  · exact .inl rfl
  · exact .inr (.inr rfl)
  · rcases lt_trichotomy a b with h | rfl | h
    · exact .inl (by simpa [chainLt] using h)
    · exact .inr (.inl rfl)
    · exact .inr (.inr (by simpa [chainLt] using h))

instance : IsTrans ScannedRow ScannedRow.Le where
  trans a b c h₁ h₂ := by
    rcases h₁ with h₁ | ⟨he₁, hs₁⟩
    · rcases h₂ with h₂ | ⟨he₂, -⟩
      · exact .inl (chainLt_trans h₁ h₂)
      · exact .inl (he₂ ▸ h₁)
    · rcases h₂ with h₂ | ⟨he₂, hs₂⟩
      · exact .inl (he₁ ▸ h₂)
      · rw [DbNumber.le_iff] at hs₁ hs₂
        exact .inr ⟨he₁.trans he₂, DbNumber.le_iff.mpr (hs₁.trans hs₂)⟩

instance : Std.Total ScannedRow.Le where
  total a b := by
    rcases chainLt_total a.chainId b.chainId with h | h | h
    · exact .inl (.inl h)
    · rcases le_total a.seq.value b.seq.value with hs | hs
      · exact .inl (.inr ⟨h, DbNumber.le_iff.mpr hs⟩)
      · exact .inr (.inr ⟨h.symm, DbNumber.le_iff.mpr hs⟩)
    · exact .inr (.inl h)

omit [Platform] in
theorem Str.nil_le (c : Str) : ([] : Str) ≤ c := by
  have h : ¬ List.Lex (· < ·) c [] := fun h => nomatch h
  exact not_lt.mp h

omit [Platform] in
theorem ScannedRow.Le.chain_le {a b : ScannedRow} (h : a.Le b) : a.chain ≤ b.chain := by
  rcases h with h | ⟨h, -⟩
  · rcases hb : b.chainId with _ | d
    · rcases ha : a.chainId with _ | c <;> simp [ha, hb, chainLt] at h
    · rcases ha : a.chainId with _ | c
      · rw [ScannedRow.chain, ha]
        exact Str.nil_le _
      · have hlt : c < d := by simpa [ha, hb, chainLt] using h
        simpa [ScannedRow.chain, ha, hb] using hlt.le
  · simp [ScannedRow.chain, h]

omit [Platform] in
/-- The rows of a chain stand together in the scan. -/
theorem scanRows_sorted (ρ : Rendering) (activity : List ActivityRow) :
    (ChainScan.init.currentChain :: (scanRows ρ activity).map ScannedRow.chain).Pairwise
      (· ≤ ·) := by
  refine List.pairwise_cons.mpr ⟨fun c _ => Str.nil_le c, ?_⟩
  refine (List.pairwise_insertionSort ScannedRow.Le _).map _ fun a b h => ?_
  exact h.chain_le

/-- The loop over the scan reports no broken row exactly when every chain is
    linked from the genesis hash. -/
theorem scan_broken_iff {ρ : Rendering} {activity : List ActivityRow} :
    (ChainScan.init.loop (scanRows ρ activity)).broken = none ↔
      ∀ c, rowChain.Linked genesisHash 1 (rowsOf c (scanRows ρ activity)) := by
  rw [ChainScan.loop_broken_iff rfl (scanRows_sorted ρ activity)]
  constructor
  · rintro ⟨hcur, hothers⟩ c
    by_cases hc : c = ChainScan.init.currentChain
    · rw [hc]
      exact hcur
    · exact hothers c hc
  · intro h
    exact ⟨h _, fun c _ => h c⟩

/-- The anchors are the hashes of the rows, at their positions. -/
theorem anchors_iff {ρ : Rendering} {activity : List ActivityRow}
    (h : (ChainScan.init.loop (scanRows ρ activity)).broken = none) {c : Str} {n : Int} {a : Str} :
    (ChainScan.init.loop (scanRows ρ activity)).anchors (c, n) = some a ↔
      ∃ row ∈ rowsOf c (scanRows ρ activity), row.number = n ∧ row.stored = a := by
  have hsome : ∀ b, (ChainScan.init.loop (scanRows ρ activity)).anchors (c, n) = some b →
      ∃ row ∈ rowsOf c (scanRows ρ activity), row.number = n ∧ row.stored = b := fun b hb => by
    rcases ChainScan.anchors_some rfl h hb with h₀ | hrow
    · cases h₀
    · exact hrow
  refine ⟨hsome a, ?_⟩
  rintro ⟨row, hmem, hn, rfl⟩
  obtain ⟨b, hb⟩ := ChainScan.anchors_of_mem rfl h (.inr ⟨row, hmem, hn⟩)
  obtain ⟨row', hmem', hn', hs⟩ := hsome b hb
  have hlinked := scan_broken_iff.mp h c
  have heq : row' = row := hlinked.number_inj hmem' hmem (hn'.trans hn.symm)
  rw [hb, ← hs, heq]

/-! ## The checkpoints -/

section

variable [CheckpointKeys] {own : Option Str} {anchors : Str × Int → Option Str}
  {cps : List Checkpoint} {s : CheckpointScan}

omit [Platform] in
/-- The loop over the checkpoints reports nothing exactly when nothing was
    reported before and all checkpoints of this instance are anchored. -/
theorem checkpoints_broken_iff :
    (cps.foldl (CheckpointScan.next own anchors) s).broken = none ↔
      s.broken = none ∧
        ∀ cp ∈ cps, cp.isOwn own = true → anchors (cp.chainId, cp.number) = some cp.headHash := by
  induction cps generalizing s with
  | nil => simp
  | cons cp cps ih =>
    rw [List.foldl_cons, ih, List.forall_mem_cons]
    unfold CheckpointScan.next
    by_cases hown : cp.isOwn own = true
    · by_cases hanchor : anchors (cp.chainId, cp.number) = some cp.headHash
      · simp [hown, hanchor]
      · simp [hown, hanchor]
    · simp [hown]

omit [Platform] in
/-- The checkpoints of this instance are counted, when all are anchored. -/
theorem checkpoints_verified
    (h : ∀ cp ∈ cps, cp.isOwn own = true → anchors (cp.chainId, cp.number) = some cp.headHash) :
    (cps.foldl (CheckpointScan.next own anchors) s).verified =
      s.verified + (cps.filter (·.isOwn own)).length := by
  induction cps generalizing s with
  | nil => rfl
  | cons cp cps ih =>
    obtain ⟨hcp, hcps⟩ := List.forall_mem_cons.mp h
    rw [List.foldl_cons, ih hcps]
    unfold CheckpointScan.next
    by_cases hown : cp.isOwn own = true
    · simp only [hown, hcp hown, if_true, List.filter_cons_of_pos, List.length_cons]
      omega
    · simp [hown]

/-! ## The report -/

/-- Checkpoints of the key `own` in the store, for a position and a hash. -/
def AuditStore.HasCheckpoint (store : AuditStore) (own : Option Str) (c : Str) (n : Int)
    (a : Str) : Prop :=
  ∃ cp ∈ store.checkpoints,
    cp.isOwn own = true ∧ cp.chainId = c ∧ cp.number = n ∧ cp.headHash = a

/-- The three statements of a verification that answered. -/
structure Verified (key : Option Str) (h : List (Entry auditMachine)) (r : AuditIntegrityReport)
    (scan total cps : Entry auditMachine) : Prop where
  entries : h = [scan, total, cps]
  isScan : scan.stmt = .db .scan
  isTotal : total.stmt = .db .countUnchained
  isCheckpoints : cps.stmt = .db .checkpoints
  report : r = integrityReport (ownPublicKey key)
    (scanRows scan.ctx.rendering scan.before.activity)
    (total.before.activity.filter (·.seq = none)).length
    (cps.before.checkpoints.insertionSort Checkpoint.Le)

/-- What is known of a verification by its outcome. -/
def VerifyOutcome (key : Option Str) (h : List (Entry auditMachine)) :
    Except AuditError AuditIntegrityReport → Prop
  | .ok r => ∃ scan total cps, Verified key h r scan total cps
  | .error _ => True

/-- A statement of a verification. -/
def IsRead (e : Entry auditMachine) : Prop :=
  e.stmt = .db .scan ∨ e.stmt = .db .countUnchained ∨ e.stmt = .db .checkpoints

theorem verifyIntegrity_meets (key : Option Str) :
    (verifyIntegrity key).Meets (fun _ => True) (fun _ e => IsRead e) (VerifyOutcome key) [] := by
  simp only [verifyIntegrity, auditQuery, Prog.mapError, Prog.step_bind, Prog.meets_step]
  intro ctx₁ w₁ _
  refine ⟨.inl rfl, ?_⟩
  rcases h₁ : (AuditStmt.exec ctx₁ (.db .scan) w₁).1 with e | rows
  · trivial
  · simp only [Prog.mapError, Prog.done_ok_bind, Prog.meets_step]
    intro ctx₂ w₂ _
    refine ⟨.inr (.inl rfl), ?_⟩
    rcases h₂ : (AuditStmt.exec ctx₂ (.db .countUnchained) w₂).1 with e | n
    · trivial
    · simp only [Prog.mapError, Prog.done_ok_bind, Prog.meets_step]
      intro ctx₃ w₃ _
      refine ⟨.inr (.inr rfl), ?_⟩
      rcases h₃ : (AuditStmt.exec ctx₃ (.db .checkpoints) w₃).1 with e | cps
      · trivial
      · -- the three answers are what the entries found
        obtain ⟨-, h₁⟩ := audit_resp_ok h₁
        obtain ⟨-, h₂⟩ := audit_resp_ok h₂
        obtain ⟨-, h₃⟩ := audit_resp_ok h₃
        obtain rfl := Except.ok.inj h₁
        obtain rfl := Except.ok.inj h₂
        obtain rfl := Except.ok.inj h₃
        exact ⟨_, _, _, rfl, rfl, rfl, rfl, rfl⟩

omit [Platform] [CheckpointKeys] in
/-- The statements of a verification do not write. -/
theorem tables_after_read {e : Entry auditMachine} (h : IsRead e) :
    e.after.activity = e.before.activity ∧ e.after.checkpoints = e.before.checkpoints := by
  constructor
  · rcases activity_after e with hsame | ⟨row, hrow⟩
    · exact hsame
    · simp [IsRead, hrow.stmt] at h
  · rcases checkpoints_after e with hsame | ⟨cp, hcp⟩
    · exact hsame
    · simp [IsRead, hcp.stmt] at h

/-- A verification that runs alone reports on the store as it is. -/
theorem report_of_alone {key : Option Str} {cs : Nat → AuditCtx} {store : AuditStore}
    {r : AuditIntegrityReport} (h : ((verifyIntegrity key).runAlone cs store).1 = .ok r) :
    r = integrityReport (ownPublicKey key) (scanRows (cs 0).rendering store.activity)
      (store.activity.filter (·.seq = none)).length
      (store.checkpoints.insertionSort Checkpoint.Le) := by
  have hout := (verifyIntegrity_meets key).runAlone cs store
  rw [h, List.nil_append] at hout
  obtain ⟨scan, total, cps, hv⟩ := hout
  have hctx : scan.ctx = cs 0 := Prog.runAlone_ctx (i := 0) (by rw [hv.entries]; rfl)
  have hbefore : ∀ e ∈ [scan, total, cps],
      e.before.activity = store.activity ∧ e.before.checkpoints = store.checkpoints := by
    rw [← hv.entries]
    refine Prog.runAlone_before (p := verifyIntegrity key)
      (P := fun w : AuditStore => w.activity = store.activity ∧ w.checkpoints = store.checkpoints)
      ⟨rfl, rfl⟩
      fun e he hw => ?_
    have hread : IsRead e := by
      rw [hv.entries] at he
      simp only [List.mem_cons, List.not_mem_nil, or_false] at he
      rcases he with rfl | rfl | rfl
      · exact .inl hv.isScan
      · exact .inr (.inl hv.isTotal)
      · exact .inr (.inr hv.isCheckpoints)
    obtain ⟨ha, hc⟩ := tables_after_read hread
    exact ⟨ha.trans hw.1, hc.trans hw.2⟩
  rw [hv.report, hctx, (hbefore scan (by simp)).1, (hbefore total (by simp)).1,
    (hbefore cps (by simp)).2]

/-- **An intact report.** Every chain is linked, every checkpoint of this
    instance names the hash of a row, and there is one. -/
theorem intact_of_report {key : Option Str} {cs : Nat → AuditCtx} {store : AuditStore}
    {r : AuditIntegrityReport} (h : ((verifyIntegrity key).runAlone cs store).1 = .ok r)
    (hi : r.intact = true) :
    (∀ c, rowChain.Linked genesisHash 1 (rowsOf c (scanRows (cs 0).rendering store.activity))) ∧
      (∀ cp ∈ store.checkpoints, cp.isOwn (ownPublicKey key) = true →
        ∃ row ∈ rowsOf cp.chainId (scanRows (cs 0).rendering store.activity),
          row.number = cp.number ∧ row.stored = cp.headHash) ∧
      ∃ cp ∈ store.checkpoints, cp.isOwn (ownPublicKey key) = true := by
  rw [report_of_alone h] at hi
  simp only [integrityReport, Bool.and_eq_true, Option.isNone_iff_eq_none, decide_eq_true_eq] at hi
  obtain ⟨⟨hbroken, -⟩, hverified⟩ := hi
  obtain ⟨hrows, hcps⟩ := checkpoints_broken_iff.mp hbroken
  have hmem : ∀ cp, cp ∈ store.checkpoints.insertionSort Checkpoint.Le ↔ cp ∈ store.checkpoints :=
    fun cp => List.mem_insertionSort _
  refine ⟨scan_broken_iff.mp hrows, fun cp hcp hown => ?_, ?_⟩
  · exact (anchors_iff hrows).mp (hcps cp ((hmem cp).mpr hcp) hown)
  · rw [checkpoints_verified hcps, Nat.zero_add] at hverified
    obtain ⟨cp, hcp⟩ := List.length_pos_iff_exists_mem.mp hverified
    obtain ⟨hcp, hown⟩ := List.mem_filter.mp hcp
    exact ⟨cp, (hmem cp).mp hcp, hown⟩

end

end SoulAuth

/-! ## Sample audit tasks -/

namespace SoulAuth.Sample

open Framework Framework.System

/-- A signature that consists of the key and the message. -/
scoped instance keys : CheckpointKeys where
  Signer := Str
  fromSeedB64 seed := some seed
  publicKeyB64 signer := signer
  sign signer message := signer ++ message
  verifies publicKey signature message := signature = publicKey ++ message
  verifies_sign signer message := by simp

/-- The seed of the instance that verifies. -/
def seed : Str := "seed".toList

/-- An event without attribution. -/
def auditEvent (action : String) : AuditEvent where
  action := action.toList
  category := .authentication
  status := .success
  userId := none
  actorIdentityId := none
  ipAddress := "203.0.113.7".toList
  userAgent := []
  details := ⟨[], Json.keysDistinct_empty⟩

/-- The choices of the scheduler, over empty audit tables at time zero. -/
def auditAfter (as : List auditors.Action) : auditors.Conf :=
  (auditors.initial ⟨[], [], 0⟩).run as

theorem auditAfter_reachable (as : List auditors.Action) :
    Reachable (S := auditors) ⟨[], [], 0⟩ (auditAfter as) :=
  ⟨as, rfl⟩

/-- `n` undisturbed statements of task `i`. -/
def auditSteps (i n : Nat) : List auditors.Action := List.replicate n (.step i .calm)

/-- A writer starts on a chain and writes one event. -/
def written (i : Nat) (chain action : String) : List auditors.Action :=
  .start (.write chain.toList [.event (auditEvent action)]) :: auditSteps i 5

/-- A checkpoint of a chain. -/
def signed (i : Nat) (chain : String) : List auditors.Action :=
  .start (.checkpoint seed chain.toList) :: auditSteps i 4

end SoulAuth.Sample
