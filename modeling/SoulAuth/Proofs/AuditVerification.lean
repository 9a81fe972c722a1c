import SoulAuth.Proofs.AuditChains
import SoulAuth.Proofs.AuditScan

/-! # Verification of untouched chains

In a database that only the audit tasks have written, a verification with
nothing in between reports no broken chain. One that runs beside the writers
may: a checkpoint can be newer than the rows that were scanned.
-/

namespace SoulAuth

open Framework Framework.System

section

variable [Platform] [CheckpointKeys] {w : AuditStore} {ρ : Rendering} {c : Str}

/-- The row of the scan for a stored row. -/
def ActivityRow.seen (ρ : Rendering) (row : ActivityRow) : ScannedRow :=
  row.scanned ρ (row.seq.getD (.int 0))

omit [CheckpointKeys] in
/-- The scan shows a kept row as the link that it is. -/
theorem ActivityRow.Kept.seen {row : ActivityRow} (h : row.Kept) :
    rowChain.number (row.seen ρ) = storedChain.number row ∧
      rowChain.previous (row.seen ρ) = storedChain.previous row ∧
      rowChain.stored (row.seen ρ) = storedChain.stored row ∧
      rowChain.content (row.seen ρ) = storedChain.content row := by
  obtain ⟨n, hn⟩ := h.seq
  have hseen : row.seen ρ = row.scanned ρ (.int n) := by rw [ActivityRow.seen, hn]; rfl
  rw [hseen]
  refine ⟨?_, rfl, rfl, digest_scanned h hn⟩
  show n = (row.seq.bind DbNumber.asI64).getD 0
  rw [hn]
  rfl

/-- The rows of a chain in the scan are its stored rows, in their order. -/
theorem AuditStore.Sound.rowsOf_scan (h : w.Sound) :
    rowsOf c (scanRows ρ w.activity) = (rowsIn c w.activity).map (·.seen ρ) := by
  have hunsorted : ∀ activity : List ActivityRow,
      (∀ row ∈ activity, row.seq ≠ none → row.Kept) →
      rowsOf c (activity.filterMap fun row => row.seq.map (row.scanned ρ)) =
        (rowsIn c activity).map (·.seen ρ) := by
    intro activity hkept
    induction activity with
    | nil => rfl
    | cons row activity ih =>
      obtain ⟨hrow, hrest⟩ := List.forall_mem_cons.mp hkept
      cases hseq : row.seq with
      | none => simpa [rowsIn, rowsOf, hseq] using ih hrest
      | some seq =>
        obtain ⟨d, hd⟩ := (hrow (by simp [hseq])).chain
        have hchain : (row.scanned ρ seq).chain = d := by
          show row.chainId.getD [] = d
          rw [hd]
          rfl
        have hseen : row.seen ρ = row.scanned ρ seq := by rw [ActivityRow.seen, hseq]; rfl
        by_cases hdc : d = c
        · simpa [rowsIn, rowsOf, hseq, hd, hchain, hdc, hseen] using ih hrest
        · simpa [rowsIn, rowsOf, hseq, hd, hchain, hdc] using ih hrest
  have hperm : (rowsOf c (scanRows ρ w.activity)).Perm ((rowsIn c w.activity).map (·.seen ρ)) := by
    rw [← hunsorted w.activity h.kept]
    exact (List.perm_insertionSort ScannedRow.Le _).filter _
  -- both stand in the order of the scan, and no two rows have the same place in it
  have hsorted : (rowsOf c (scanRows ρ w.activity)).Pairwise ScannedRow.Le :=
    (List.pairwise_insertionSort ScannedRow.Le _).filter _
  have hkept : ∀ row ∈ rowsIn c w.activity, row.Kept ∧ row.chainId = some c := fun row hrow => by
    obtain ⟨hmem, hc, hne⟩ := mem_rowsIn.mp hrow
    exact ⟨h.kept row hmem hne, hc⟩
  have hseq : ∀ row ∈ rowsIn c w.activity,
      (row.seen ρ).chainId = some c ∧ (row.seen ρ).seq = .int (storedChain.number row) :=
    fun row hrow => by
      obtain ⟨hk, hc⟩ := hkept row hrow
      refine ⟨hc, ?_⟩
      show row.seq.getD (.int 0) = _
      rw [hk.number rfl]
      rfl
  have hstored : ((rowsIn c w.activity).map (·.seen ρ)).Pairwise ScannedRow.Le := by
    rw [List.pairwise_map]
    refine ((h.linked c).pairwise_lt).imp_of_mem fun {a b} ha hb hlt => ?_
    obtain ⟨hca, hsa⟩ := hseq a ha
    obtain ⟨hcb, hsb⟩ := hseq b hb
    refine .inr ⟨hca.trans hcb.symm, ?_⟩
    rw [hsa, hsb]
    exact DbNumber.int_le_int.mpr (le_of_lt hlt)
  refine hperm.eq_of_pairwise (fun x y hx hy hxy hyx => ?_) hsorted hstored
  obtain ⟨row, hrow, rfl⟩ := List.mem_map.mp (hperm.subset hx)
  obtain ⟨row', hrow', rfl⟩ := List.mem_map.mp hy
  obtain ⟨hca, hsa⟩ := hseq row hrow
  obtain ⟨hcb, hsb⟩ := hseq row' hrow'
  have hle : ∀ {r r' : ActivityRow}, r ∈ rowsIn c w.activity → r' ∈ rowsIn c w.activity →
      (r.seen ρ).Le (r'.seen ρ) → storedChain.number r ≤ storedChain.number r' := by
    intro r r' hr hr' hl
    obtain ⟨hcr, hsr⟩ := hseq r hr
    obtain ⟨hcr', hsr'⟩ := hseq r' hr'
    rcases hl with hl | ⟨-, hl⟩
    · rw [hcr, hcr'] at hl
      simp [chainLt] at hl
    · rw [hsr, hsr'] at hl
      exact DbNumber.int_le_int.mp hl
  rw [(h.linked c).number_inj hrow hrow' (le_antisymm (hle hrow hrow' hxy) (hle hrow' hrow hyx))]

/-- The scan of sound tables shows linked chains. -/
theorem AuditStore.Sound.linked_scan (h : w.Sound) :
    rowChain.Linked genesisHash 1 (rowsOf c (scanRows ρ w.activity)) := by
  rw [h.rowsOf_scan]
  have hview : rowChain.Linked genesisHash 1 ((rowsIn c w.activity).map (·.seen ρ)) ↔
      storedChain.Linked genesisHash 1 (rowsIn c w.activity) := by
    refine ChainView.linked_map rfl fun row hrow => ?_
    obtain ⟨hmem, -, hne⟩ := mem_rowsIn.mp hrow
    exact (h.kept row hmem hne).seen
  exact hview.mpr (h.linked c)

theorem AuditStore.Sound.scan_broken (h : w.Sound) :
    (ChainScan.init.loop (scanRows ρ w.activity)).broken = none :=
  scan_broken_iff.mpr fun _ => h.linked_scan

/-- A checkpoint that a task has signed counts for the key it names. -/
theorem AuditStore.Sound.isOwn_iff (h : w.Sound) {own : Option Str} {cp : Checkpoint}
    (hcp : cp ∈ w.checkpoints) : cp.isOwn own = true ↔ own = some cp.publicKey := by
  obtain ⟨signer, n, createdAt, a, heq, -⟩ := h.signed cp hcp
  have hverify : verifyCheckpoint cp.publicKey cp.signature cp.chainId cp.number cp.headHash
      (cp.createdAt.asI64.getD 0) = true := by
    rw [heq]
    exact CheckpointKeys.verifies_sign _ _
  simp [Checkpoint.isOwn, hverify]

/-- The anchor of a checkpoint is there, if the row it covers was scanned. -/
theorem AuditStore.Sound.anchored_iff (h : w.Sound) {w' : AuditStore} (h' : w'.Sound)
    (hsub : ∀ row ∈ w.activity, row ∈ w'.activity) {cp : Checkpoint} (hcp : cp ∈ w'.checkpoints) :
    (ChainScan.init.loop (scanRows ρ w.activity)).anchors (cp.chainId, cp.number) =
        some cp.headHash ↔
      ∃ row ∈ w.activity, row.chainId = some cp.chainId ∧ row.seq = some cp.seqTo := by
  obtain ⟨signer, n, createdAt, a, heq, hl⟩ := h'.signed cp hcp
  have hnum : cp.number = n := by rw [heq]; rfl
  have hseqTo : cp.seqTo = .int n := by rw [heq]
  have hhash : cp.headHash = a := by rw [heq]
  rw [anchors_iff h.scan_broken, hnum, hseqTo, hhash, h.rowsOf_scan]
  constructor
  · rintro ⟨r, hr, hrn, -⟩
    obtain ⟨row, hrow, rfl⟩ := List.mem_map.mp hr
    obtain ⟨hmem, hc, hne⟩ := mem_rowsIn.mp hrow
    have hkept := h.kept row hmem hne
    exact ⟨row, hmem, hc, hkept.number ((hkept.seen (ρ := ρ)).1.symm.trans hrn)⟩
  · rintro ⟨row, hrow, hc, hseq⟩
    have hkept := h.kept row hrow (by simp [hseq])
    have hnumber : storedChain.number row = n := by
      show (row.seq.bind DbNumber.asI64).getD 0 = n
      rw [hseq]
      rfl
    -- the row at this place is the one that was signed
    obtain ⟨row', hrow', hnumber', hstored'⟩ := hl.exists_row
    have hrow₁ : row ∈ rowsIn cp.chainId w'.activity :=
      mem_rowsIn.mpr ⟨hsub row hrow, hc, by simp [hseq]⟩
    obtain rfl : row = row' :=
      (h'.linked cp.chainId).number_inj hrow₁ hrow' (hnumber.trans hnumber'.symm)
    have hseen := hkept.seen (ρ := ρ)
    refine ⟨row.seen ρ, List.mem_map_of_mem (mem_rowsIn.mpr ⟨hrow, hc, by simp [hseq]⟩), ?_, ?_⟩
    · exact hseen.1.trans hnumber
    · exact hseen.2.2.1.trans hstored'

omit [Platform] [CheckpointKeys] in
theorem length_scanRows (ρ : Rendering) (activity : List ActivityRow) :
    (scanRows ρ activity).length = (activity.filter (·.seq ≠ none)).length := by
  rw [scanRows, List.length_insertionSort]
  induction activity with
  | nil => rfl
  | cons row activity ih =>
    cases hseq : row.seq with
    | none => simpa [hseq] using ih
    | some seq => simpa [hseq] using ih

omit [Platform] [CheckpointKeys] in
theorem length_filter_insertionSort (p : Checkpoint → Bool) (cps : List Checkpoint) :
    ((cps.insertionSort Checkpoint.Le).filter p).length = (cps.filter p).length :=
  ((List.perm_insertionSort Checkpoint.Le cps).filter p).length_eq

/-- The report on rows and checkpoints that were read one after the other. -/
theorem AuditStore.Sound.report (h : w.Sound) {w' : AuditStore} (h' : w'.Sound)
    (hsub : ∀ row ∈ w.activity, row ∈ w'.activity) {own : Option Str} {unchained : Nat} :
    (integrityReport own (scanRows ρ w.activity) unchained
        (w'.checkpoints.insertionSort Checkpoint.Le)).brokenChain = none ↔
      ∀ cp ∈ w'.checkpoints, own = some cp.publicKey →
        ∃ row ∈ w.activity, row.chainId = some cp.chainId ∧ row.seq = some cp.seqTo := by
  have hmem : ∀ cp, cp ∈ w'.checkpoints.insertionSort Checkpoint.Le ↔ cp ∈ w'.checkpoints :=
    fun cp => List.mem_insertionSort _
  simp only [integrityReport, Option.map_eq_none_iff]
  rw [checkpoints_broken_iff]
  simp only [h.scan_broken, true_and]
  constructor
  · intro hall cp hcp hown
    have hanchor := hall cp ((hmem cp).mpr hcp) ((h'.isOwn_iff hcp).mpr hown)
    exact (h.anchored_iff h' hsub hcp).mp hanchor
  · intro hall cp hcp hown
    have hcp' := (hmem cp).mp hcp
    exact (h.anchored_iff h' hsub hcp').mpr (hall cp hcp' ((h'.isOwn_iff hcp').mp hown))

/-- A verification whose statements do not fail answers. -/
theorem verifyIntegrity_answers {key : Option Str} {cs : Nat → AuditCtx}
    (hcalm : ∀ n, (cs n).fault = none) (w : AuditStore) :
    ∃ r, ((verifyIntegrity key).runAlone cs w).1 = .ok r := by
  simp only [verifyIntegrity, auditQuery, Prog.mapError, Prog.step_bind, Prog.runAlone,
    audit_exec_of_none (hcalm 0), audit_exec_of_none (hcalm (0 + 1)),
    audit_exec_of_none (hcalm (0 + 1 + 1)), AuditDbStmt.exec, Prog.done_ok_bind]
  exact ⟨_, rfl⟩

/-- **No false alarm at rest.** After any run of the audit tasks, a
    verification with nothing in between finds every row linked and hashed
    as it is stored, and every checkpoint of this instance anchored. -/
theorem no_false_alarm {c : auditors.Conf} (hw : w.IsUnchained) (hc : Reachable w c)
    {key : Option Str} {cs : Nat → AuditCtx} (hcalm : ∀ n, (cs n).fault = none) :
    ∃ r, ((verifyIntegrity key).runAlone cs c.state).1 = .ok r ∧
      r.brokenChain = none ∧
      (∀ d, rowChain.Linked genesisHash 1 (rowsOf d (scanRows (cs 0).rendering c.state.activity))) ∧
      r.checked = (c.state.activity.filter (·.seq ≠ none)).length ∧
      r.checkpointsVerified =
        (c.state.checkpoints.filter (ownPublicKey key = some ·.publicKey)).length := by
  have hsound := (audit_run hw hc).2.sound
  obtain ⟨r, hr⟩ := verifyIntegrity_answers hcalm c.state
  have hreport := report_of_alone hr
  have hself : ∀ row ∈ c.state.activity, row ∈ c.state.activity := fun _ h => h
  have hpresent : ∀ cp ∈ c.state.checkpoints,
      ∃ row ∈ c.state.activity, row.chainId = some cp.chainId ∧ row.seq = some cp.seqTo :=
    fun cp hcp => by
      obtain ⟨signer, n, createdAt, a, heq, row, hrow, hchain, hseq, -⟩ := hsound.signed cp hcp
      exact ⟨row, hrow, hchain, by rw [hseq, heq]⟩
  refine ⟨r, hr, ?_, fun d => hsound.linked_scan, ?_, ?_⟩
  · rw [hreport]
    exact (hsound.report hsound hself).mpr fun cp hcp _ => hpresent cp hcp
  · rw [hreport]
    show (ChainScan.init.loop _).checked = _
    rw [ChainScan.loop_checked rfl hsound.scan_broken, length_scanRows]
    exact Nat.zero_add _
  · rw [hreport]
    show (List.foldl _ _ _ : CheckpointScan).verified = _
    rw [checkpoints_verified fun cp hcp hown => ?_, Nat.zero_add, length_filter_insertionSort]
    · congr 1
      refine List.filter_congr fun cp hcp => ?_
      rw [Bool.eq_iff_iff, hsound.isOwn_iff hcp, decide_eq_true_eq]
    · have hcp' : cp ∈ c.state.checkpoints := (List.mem_insertionSort _).mp hcp
      exact (hsound.anchored_iff hsound hself hcp').mpr (hpresent cp hcp')

/-- **Beside the writers.** A verification reports no broken chain exactly
    when the rows covered by the checkpoints of this instance that it finds
    were stored before it scanned the rows. -/
theorem verified_beside_writers {c : auditors.Conf} (hw : w.IsUnchained) (hc : Reachable w c)
    {i : Nat} {key : Option Str} {r : AuditIntegrityReport} (hreq : c.reqOf i = some (.verify key))
    (hret : c.Returned i (.ok (.report r))) :
    ∃ scan total cps, entriesOf i c.trace = [scan, total, cps] ∧ scan.stmt = .db .scan ∧
      cps.stmt = .db .checkpoints ∧
      (r.brokenChain = none ↔
        ∀ cp ∈ cps.before.checkpoints, ownPublicKey key = some cp.publicKey →
          ∃ row ∈ scan.before.activity,
            row.chainId = some cp.chainId ∧ row.seq = some cp.seqTo) := by
  obtain ⟨q, hq, hout⟩ := (audit_run hw hc).1.returned hret
  cases hq.symm.trans hreq
  obtain ⟨scan, total, cps, hv⟩ := hout
  -- the tables at the two statements
  have hfirst : entriesOf i c.trace = [] ++ scan :: [total, cps] := hv.entries
  obtain ⟨tr₁, tr₂, htr, -, hrest⟩ := entriesOf_split hfirst
  have hlast : entriesOf i tr₂ = [total] ++ cps :: [] := hrest
  obtain ⟨tr₃, tr₄, htr₂, -, -⟩ := entriesOf_split hlast
  obtain ⟨c₁, hc₁, -, hstate₁⟩ := hc.before htr
  have htr' : c.trace = (tr₁ ++ (i, scan) :: tr₃) ++ (i, cps) :: tr₄ := by
    rw [htr, htr₂, List.append_assoc, List.cons_append]
  obtain ⟨c₂, hc₂, -, hstate₂⟩ := hc.before htr'
  have hsound₁ : AuditStore.Sound scan.before := hstate₁ ▸ (audit_run hw hc₁).2.sound
  have hsound₂ : AuditStore.Sound cps.before := hstate₂ ▸ (audit_run hw hc₂).2.sound
  have hsub : ∀ row ∈ scan.before.activity, row ∈ cps.before.activity := by
    have hsteps := hc.steps
    rw [htr'] at hsteps
    have hmid := hsteps.split_entry.1.split_entry.2
    intro row hrow
    exact hmid.preserves (P := fun w : AuditStore => row ∈ w.activity)
      (activity_mono scan row hrow) fun j e _ he => activity_mono e row he
  refine ⟨scan, total, cps, hv.entries, hv.isScan, hv.isCheckpoints, ?_⟩
  rw [hv.report]
  exact hsound₁.report hsound₂ hsub

end

/-! ## Samples -/

namespace Sample

/-- Two replicas and a checkpoint, verified at rest. -/
theorem no_false_alarm_two_replicas :
    ∃ r, ((verifyIntegrity (some seed)).runAlone (fun _ => AuditCtx.calm)
        (auditAfter (written 0 "a" "login" ++ signed 1 "a" ++ written 2 "b" "logout")).state).1 =
      .ok r ∧ r.brokenChain = none := by
  obtain ⟨r, hr, hbroken, -⟩ := @no_false_alarm _ _ _ _ AuditStore.isUnchained_empty
    (auditAfter_reachable (written 0 "a" "login" ++ signed 1 "a" ++ written 2 "b" "logout"))
    (some seed) (fun _ => AuditCtx.calm) fun _ => rfl
  exact ⟨r, hr, hbroken⟩

/-- A verification scans the first row of a chain; before it reads the
    checkpoints, the second row is written and signed. -/
def overtaken : List auditors.Action :=
  .start (.write "a".toList [.event (auditEvent "login"), .event (auditEvent "logout")]) ::
    (auditSteps 0 4 ++ .start (.verify (some seed)) :: (auditSteps 1 2 ++ auditSteps 0 4 ++
      signed 2 "a" ++ auditSteps 1 1))

/-- What the overtaken verification reports. -/
def overtakenReport : AuditIntegrityReport :=
  ⟨false, 1, 0, 1, some "a".toList, some 2, some "checkpoint_anchor".toList, 1, 0⟩

theorem returned_overtaken : (auditAfter overtaken).Returned 1 (.ok (.report overtakenReport)) :=
  Conf.returned_of_outcome (by decide +kernel)

theorem reqOf_overtaken : (auditAfter overtaken).reqOf 1 = some (.verify (some seed)) := rfl

/-- The overtaken verification names a chain that nobody has touched. -/
theorem verified_overtaken :
    ¬ ∀ (w : AuditStore) (c : auditors.Conf) (i : Nat) (key : Option Str)
      (r : AuditIntegrityReport), w.IsUnchained → Reachable w c →
        c.reqOf i = some (.verify key) → c.Returned i (.ok (.report r)) → r.brokenChain = none := by
  intro h
  have hnone : overtakenReport.brokenChain = none :=
    h _ _ 1 _ _ AuditStore.isUnchained_empty (auditAfter_reachable overtaken) reqOf_overtaken
      returned_overtaken
  cases hnone

/-- It has scanned the rows before the row of a checkpoint was stored. -/
theorem verified_beside_writers_overtaken :
    ∃ scan total cps, entriesOf (S := auditors) 1 (auditAfter overtaken).trace = [scan, total, cps] ∧
      scan.stmt = .db .scan ∧ cps.stmt = .db .checkpoints ∧
      (overtakenReport.brokenChain = none ↔
        ∀ cp ∈ cps.before.checkpoints, ownPublicKey (some seed) = some cp.publicKey →
          ∃ row ∈ scan.before.activity,
            row.chainId = some cp.chainId ∧ row.seq = some cp.seqTo) :=
  verified_beside_writers AuditStore.isUnchained_empty (auditAfter_reachable overtaken) reqOf_overtaken
    returned_overtaken

end Sample

end SoulAuth
