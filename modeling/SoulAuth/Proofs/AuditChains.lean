import SoulAuth.Proofs.AuditWriters

/-! # The chains of a run

From a database without audit chains, every run of the audit tasks leads to
tables whose rows are linked chain by chain, and whose checkpoints name
rows that are stored.
-/

namespace SoulAuth

open Framework Framework.System

/-- The chain `c` has a row with the number `n` and the hash `a`. -/
def AuditStore.HasLink (w : AuditStore) (c : Str) (n : Int) (a : Str) : Prop :=
  ∃ row ∈ w.activity, row.chainId = some c ∧ row.seq = some (.int n) ∧ row.eventHash = some a

/-- The head is a place in the chain `c`: the genesis or a stored row. -/
def AuditStore.IsPosition (w : AuditStore) (c : Str) (head : ChainHead) : Prop :=
  head = ⟨0, genesisHash⟩ ∨ w.HasLink c head.seq head.hash

/-- Where the next row of the chain `c` belongs: behind the last stored row. -/
def AuditStore.tail (w : AuditStore) (c : Str) : ChainHead := headOf (chainHeadRow c w.activity)

/-- A database in which there is no audit chain yet. -/
def AuditStore.IsUnchained (w : AuditStore) : Prop :=
  (∀ row ∈ w.activity, row.seq = none) ∧ w.checkpoints = []

theorem AuditStore.isUnchained_empty {now : Int} : AuditStore.IsUnchained ⟨[], [], now⟩ :=
  ⟨fun _ h => absurd h List.not_mem_nil, rfl⟩

theorem AuditStore.HasLink.mono {w w' : AuditStore} {c : Str} {n : Int} {a : Str}
    (h : w.HasLink c n a) (hsub : ∀ row ∈ w.activity, row ∈ w'.activity) : w'.HasLink c n a := by
  obtain ⟨row, hrow, hc, hseq, hhash⟩ := h
  exact ⟨row, hsub row hrow, hc, hseq, hhash⟩

theorem AuditStore.IsPosition.mono {w w' : AuditStore} {c : Str} {head : ChainHead}
    (h : w.IsPosition c head) (hsub : ∀ row ∈ w.activity, row ∈ w'.activity) :
    w'.IsPosition c head := by
  rcases h with h | h
  · exact .inl h
  · exact .inr (h.mono hsub)

/-- Rows are never removed or changed. -/
theorem activity_mono (e : Entry auditMachine) :
    ∀ row ∈ e.before.activity, row ∈ e.after.activity := by
  intro row hrow
  rcases activity_after e with h | ⟨row', h⟩
  · rwa [h]
  · rw [h.after]
    simp [hrow]

theorem ActivityRow.Kept.number [Platform] {row : ActivityRow} (h : row.Kept) {n : Int}
    (hn : storedChain.number row = n) : row.seq = some (.int n) := by
  obtain ⟨m, hm⟩ := h.seq
  have hnum : storedChain.number row = m := by
    show (row.seq.bind DbNumber.asI64).getD 0 = m
    rw [hm]
    rfl
  rw [hm, ← hn, hnum]

section

variable [Platform] [CheckpointKeys]

/-- The invariant of the audit tables. -/
structure AuditStore.Sound (w : AuditStore) : Prop where
  kept : ∀ row ∈ w.activity, row.seq ≠ none → row.Kept
  linked : ∀ c, storedChain.Linked genesisHash 1 (rowsIn c w.activity)
  signed : ∀ cp ∈ w.checkpoints, ∃ (signer : CheckpointKeys.Signer) (n createdAt : Int) (a : Str),
    cp = { chainId := cp.chainId, seqTo := .int n, headHash := a, createdAt := .int createdAt,
           publicKey := CheckpointKeys.publicKeyB64 signer,
           signature := signCheckpoint signer cp.chainId n a createdAt } ∧
      w.HasLink cp.chainId n a

variable {w : AuditStore} {c : Str}

theorem AuditStore.IsUnchained.sound (h : w.IsUnchained) : w.Sound where
  kept row hrow hseq := absurd (h.1 row hrow) hseq
  linked c := by
    have hnil : rowsIn c w.activity = [] := by
      refine List.filter_eq_nil_iff.mpr fun row hrow => ?_
      simp [h.1 row hrow]
    rw [hnil]
    trivial
  signed cp hcp := by
    rw [h.2] at hcp
    cases hcp

omit [CheckpointKeys] in
/-- A row of a chain is where its number says. -/
theorem AuditStore.HasLink.exists_row {n : Int} {a : Str} (hl : w.HasLink c n a) :
    ∃ row ∈ rowsIn c w.activity, storedChain.number row = n ∧ storedChain.stored row = a := by
  obtain ⟨row, hrow, hc, hseq, hhash⟩ := hl
  refine ⟨row, mem_rowsIn.mpr ⟨hrow, hc, by simp [hseq]⟩, ?_, ?_⟩
  · show (row.seq.bind DbNumber.asI64).getD 0 = n
    rw [hseq]
    rfl
  · show row.eventHash.getD [] = a
    rw [hhash]
    rfl

/-- When the unique index admits the next number, the head is the last row. -/
theorem AuditStore.Sound.position_last (h : w.Sound) {head : ChainHead}
    (hpos : w.IsPosition c head)
    (hnew : ∀ row ∈ w.activity, row.chainId = some c → row.seq ≠ some (.int (head.seq + 1))) :
    head.seq = (rowsIn c w.activity).length ∧
      storedChain.head genesisHash (rowsIn c w.activity) = head.hash := by
  have hlinked := h.linked c
  have hbound : (rowsIn c w.activity).length ≤ head.seq ∨ head.seq < 0 := by
    by_contra hcon
    have hlt : head.seq + 1 < 1 + ((rowsIn c w.activity).length : Int) := by omega
    obtain ⟨row, hrow, hnum⟩ := hlinked.exists_number (k := head.seq + 1) (by omega) hlt
    obtain ⟨hmem, hc, hseq⟩ := mem_rowsIn.mp hrow
    exact hnew row hmem hc ((h.kept row hmem hseq).number hnum)
  rcases hpos with rfl | hl
  · have hnil : (rowsIn c w.activity).length = 0 := by
      rcases hbound with hb | hb
      · have hb' : ((rowsIn c w.activity).length : Int) ≤ 0 := hb
        omega
      · exact absurd hb (by decide)
    rw [List.eq_nil_of_length_eq_zero hnil]
    exact ⟨rfl, rfl⟩
  · obtain ⟨row, hrow, hnum, hstored⟩ := hl.exists_row
    obtain ⟨hlow, hhigh⟩ := hlinked.number_bounds hrow
    have hlen : head.seq = (rowsIn c w.activity).length := by omega
    refine ⟨hlen, ?_⟩
    rw [hlinked.head_eq hrow (by omega), hstored]

/-! ## The last row -/

omit [Platform] [CheckpointKeys] in
theorem filterMap_link (c : Str) (activity : List ActivityRow) :
    activity.filterMap (·.link c) =
      (rowsIn c activity).filterMap fun row => row.seq.map fun seq => (seq, row.eventHash) := by
  induction activity with
  | nil => rfl
  | cons row activity ih =>
    rw [rowsIn, List.filter_cons]
    by_cases hc : row.chainId = some c
    · cases hseq : row.seq with
      | none => simpa [ActivityRow.link, hc, hseq, rowsIn] using ih
      | some seq => simpa [ActivityRow.link, hc, hseq, rowsIn] using ih
    · simpa [ActivityRow.link, hc, rowsIn] using ih

/-- The rows of a chain, as a query of its head sees them. -/
theorem AuditStore.Sound.links (h : w.Sound) :
    w.activity.filterMap (·.link c) = (rowsIn c w.activity).map fun row =>
      (DbNumber.int (storedChain.number row), some (storedChain.stored row)) := by
  rw [filterMap_link, ← List.filterMap_eq_map]
  refine List.filterMap_congr fun row hrow => ?_
  obtain ⟨hmem, -, hne⟩ := mem_rowsIn.mp hrow
  obtain ⟨a, ha⟩ := (h.kept row hmem hne).hash
  have hseq := (h.kept row hmem hne).number rfl
  rw [hseq, ha]
  show some (DbNumber.int (storedChain.number row), some a) =
    some (DbNumber.int (storedChain.number row), some (row.eventHash.getD []))
  rw [ha]
  rfl

instance : IsTrans (DbNumber × Option Str) LinkGe where
  trans a b c h₁ h₂ := by
    unfold LinkGe at *
    rw [DbNumber.le_iff] at *
    exact h₂.trans h₁

instance : Std.Total LinkGe where
  total a b := by
    unfold LinkGe
    rw [DbNumber.le_iff, DbNumber.le_iff]
    exact le_total _ _

/-- The head query answers the last row of the chain. -/
theorem AuditStore.Sound.chainHeadRow_eq (h : w.Sound) :
    chainHeadRow c w.activity = (rowsIn c w.activity).getLast?.map fun row =>
      (DbNumber.int (storedChain.number row), some (storedChain.stored row)) := by
  rw [chainHeadRow, h.links, ← List.getLast?_map, ← List.head?_reverse]
  congr 1
  -- the rows stand in the order of their numbers, so the answer is in reverse
  have hasc : ((rowsIn c w.activity).map fun row =>
      (DbNumber.int (storedChain.number row), some (storedChain.stored row))).Pairwise
        (fun a b => LinkGe b a) := by
    refine List.Pairwise.map _ (fun row row' hrow => ?_) (h.linked c).pairwise_lt
    exact DbNumber.int_le_int.mpr (le_of_lt hrow)
  refine ((List.perm_insertionSort LinkGe _).trans (List.reverse_perm _).symm).eq_of_pairwise
    (fun x y hx hy hxy hyx => ?_) (List.pairwise_insertionSort LinkGe _)
    (List.pairwise_reverse.mpr hasc)
  obtain ⟨row, hrow, rfl⟩ := List.mem_map.mp ((List.mem_insertionSort LinkGe).mp hx)
  obtain ⟨row', hrow', rfl⟩ := List.mem_map.mp (List.mem_reverse.mp hy)
  have hle : storedChain.number row' ≤ storedChain.number row := DbNumber.int_le_int.mp hxy
  have hge : storedChain.number row ≤ storedChain.number row' := DbNumber.int_le_int.mp hyx
  rw [(h.linked c).number_inj hrow hrow' (le_antisymm hge hle)]

/-- The tail of a chain, by its rows. -/
theorem AuditStore.Sound.tail_eq (h : w.Sound) :
    w.tail c = ⟨(rowsIn c w.activity).length, storedChain.head genesisHash (rowsIn c w.activity)⟩ := by
  rw [AuditStore.tail, h.chainHeadRow_eq]
  rcases List.eq_nil_or_concat (rowsIn c w.activity) with hnil | ⟨rows, row, hrows⟩
  · rw [hnil]
    rfl
  · have hlinked := h.linked c
    rw [hrows, List.concat_eq_append] at hlinked ⊢
    obtain ⟨-, hnum, -, -⟩ := ChainView.linked_snoc.mp hlinked
    rw [List.getLast?_concat, ChainView.head, List.getLast?_concat]
    show (⟨storedChain.number row, storedChain.stored row⟩ : ChainHead) = _
    rw [hnum]
    simp only [List.length_append, List.length_cons, List.length_nil, Option.map_some,
      Option.getD_some, ChainHead.mk.injEq, and_true]
    push_cast
    omega

/-! ## One entry -/

omit [CheckpointKeys] in
theorem content_row (event : AuditEvent) (head : ChainHead) (timestamp : Int) (key : Str) :
    (event.row (event.link c head timestamp key) c).content =
      event.digest c head timestamp key := by
  by_cases hk : key = []
  · simp [ActivityRow.content, AuditEvent.row, AuditEvent.link, AuditEvent.digest,
      DbNumber.asI64, hk]
  · simp [ActivityRow.content, AuditEvent.row, AuditEvent.link, AuditEvent.digest,
      DbNumber.asI64, hk]

omit [CheckpointKeys] in
/-- A row that a writer attaches is one that the verifier can check. -/
theorem kept_row {event : AuditEvent} {head : ChainHead} {timestamp : Int} {key : Str}
    (hkey : key ≠ [] → IsNormalKey actorTable key) :
    (event.row (event.link c head timestamp key) c).Kept where
  chain := ⟨c, rfl⟩
  seq := ⟨_, rfl⟩
  hash := ⟨_, rfl⟩
  actor k hk := by
    have hk' : (if key ≠ [] then some key else none) = some k := hk
    by_cases hne : key = []
    · simp [hne] at hk'
    · obtain rfl : key = k := by simpa [hne] using hk'
      exact ⟨hne, hkey hne⟩
  details := event.details.keysDistinct

omit [Platform] [CheckpointKeys] in
theorem rowsIn_append {activity : List ActivityRow} {row : ActivityRow} :
    rowsIn c (activity ++ [row]) =
      if row.chainId = some c ∧ row.seq ≠ none then rowsIn c activity ++ [row]
      else rowsIn c activity := by
  rw [rowsIn, List.filter_append]
  by_cases h : row.chainId = some c ∧ row.seq ≠ none
  · rw [if_pos h, List.filter_cons_of_pos (by simpa using h), List.filter_nil]
    rfl
  · rw [if_neg h, List.filter_cons_of_neg (by simpa using h), List.filter_nil, List.append_nil]
    rfl

/-- A row that is attached to a place of its chain extends the chain. -/
theorem AuditStore.Sound.append (h : w.Sound) {w' : AuditStore} {event : AuditEvent}
    {head : ChainHead} {timestamp : Int} {key : Str}
    (hkey : key ≠ [] → IsNormalKey actorTable key) (hpos : w.IsPosition c head)
    (hnew : w.hasPosition (event.row (event.link c head timestamp key) c) = false)
    (ha : w'.activity = w.activity ++ [event.row (event.link c head timestamp key) c])
    (hcps : w'.checkpoints = w.checkpoints) : w'.Sound where
  kept row hrow hseq := by
    rw [ha, List.mem_append, List.mem_singleton] at hrow
    rcases hrow with hrow | rfl
    · exact h.kept row hrow hseq
    · exact kept_row hkey
  linked d := by
    rw [ha, rowsIn_append]
    split
    · next hd =>
      obtain rfl : c = d := Option.some.inj hd.1
      have hfree : ∀ row ∈ w.activity, row.chainId = some c →
          row.seq ≠ some (.int (head.seq + 1)) := fun row hrow hc hseq => by
        have hno := List.any_eq_false.mp hnew row hrow
        refine hno (Bool.and_eq_true _ _ ▸ ⟨decide_eq_true hc, decide_eq_true hseq⟩)
      obtain ⟨hlen, hhead⟩ := h.position_last hpos hfree
      refine ChainView.linked_snoc.mpr ⟨h.linked c, ?_, hhead.symm, ?_⟩
      · show head.seq + 1 = 1 + ((rowsIn c w.activity).length : Int)
        omega
      · show eventHash (event.row (event.link c head timestamp key) c).content = _
        rw [content_row]
        rfl
    · exact h.linked d
  signed cp hcp := by
    rw [hcps] at hcp
    obtain ⟨signer, n, createdAt, a, heq, hl⟩ := h.signed cp hcp
    exact ⟨signer, n, createdAt, a, heq, hl.mono fun row hrow => by rw [ha]; simp [hrow]⟩

/-! ## Runs -/

/-- The invariant of a run: what the tasks have learned is stored. -/
structure AuditInv (tr : List (Nat × Entry auditMachine)) (w : AuditStore) : Prop where
  sound : w.Sound
  learned : ∀ i e, (i, e) ∈ tr → ∀ c head, Learns e c head → w.IsPosition c head
  read : ∀ i e, (i, e) ∈ tr → ∀ c seq a, ReadsHead e c (some (seq, some a)) →
    ∃ n, seq = .int n ∧ w.HasLink c n a

theorem AuditStore.Sound.hasLink_of_head (h : w.Sound) {seq : DbNumber} {hash : Option Str}
    (hrow : chainHeadRow c w.activity = some (seq, hash)) :
    ∃ n a, seq = .int n ∧ hash = some a ∧ w.HasLink c n a := by
  rw [h.chainHeadRow_eq] at hrow
  obtain ⟨row, hlast, heq⟩ := Option.map_eq_some_iff.mp hrow
  obtain ⟨hmem, hc, hne⟩ := mem_rowsIn.mp (List.mem_of_getLast? hlast)
  have hkept := h.kept row hmem hne
  obtain ⟨a, ha⟩ := hkept.hash
  cases heq
  refine ⟨_, _, rfl, rfl, row, hmem, hc, hkept.number rfl, ?_⟩
  show row.eventHash = some (row.eventHash.getD [])
  rw [ha]
  rfl

/-- The head query teaches a place of the chain. -/
theorem AuditStore.Sound.isPosition_head (h : w.Sound) :
    w.IsPosition c (headOf (chainHeadRow c w.activity)) := by
  cases hrow : chainHeadRow c w.activity with
  | none => exact .inl rfl
  | some row =>
    obtain ⟨seq, hash⟩ := row
    obtain ⟨n, a, rfl, rfl, hl⟩ := h.hasLink_of_head hrow
    exact .inr hl

theorem AuditInv.next {tr : List (Nat × Entry auditMachine)} {i : Nat} {e : Entry auditMachine}
    (h : AuditInv tr e.before) (hrule : AuditRule (entriesOf (S := auditors) i tr) e) :
    AuditInv (tr ++ [(i, e)]) e.after := by
  have hsound : e.after.Sound := by
    rcases activity_after e with hsame | ⟨row, ha⟩
    · rcases checkpoints_after e with hcps | ⟨cp, hcp⟩
      · refine ⟨by rw [hsame]; exact h.sound.kept, fun c => by rw [hsame]; exact h.sound.linked c,
          fun cp hmem => ?_⟩
        rw [hcps] at hmem
        obtain ⟨signer, n, createdAt, a, heq, hl⟩ := h.sound.signed cp hmem
        exact ⟨signer, n, createdAt, a, heq, hl.mono (activity_mono e)⟩
      · -- a new checkpoint is over a row that its task has read
        obtain ⟨signer, c, seq, a, createdAt, hcp', e', he', hread⟩ := hrule.2 cp hcp.stmt
        obtain ⟨n, rfl, hl⟩ := h.read i e' (mem_entriesOf.mp he') c seq a hread
        refine ⟨by rw [hsame]; exact h.sound.kept, fun c => by rw [hsame]; exact h.sound.linked c,
          fun cp₀ hmem => ?_⟩
        rw [hcp.after, List.mem_append, List.mem_singleton] at hmem
        rcases hmem with hmem | rfl
        · obtain ⟨signer, n, createdAt, a, heq, hl⟩ := h.sound.signed cp₀ hmem
          exact ⟨signer, n, createdAt, a, heq, hl.mono (activity_mono e)⟩
        · subst hcp'
          exact ⟨signer, n, createdAt, a, rfl, hl.mono (activity_mono e)⟩
    · obtain ⟨c, event, head, timestamp, key, rfl, hkey, e', he', hlearns⟩ := hrule.1 row ha.stmt
      have hcps : e.after.checkpoints = e.before.checkpoints := by
        rcases checkpoints_after e with hcps | ⟨cp, hcp⟩
        · exact hcps
        · have := ha.stmt.symm.trans hcp.stmt
          cases this
      exact h.sound.append hkey (h.learned i e' (mem_entriesOf.mp he') c head hlearns) ha.new
        ha.after hcps
  refine ⟨hsound, fun j e' hmem c head hl => ?_, fun j e' hmem c seq a hr => ?_⟩
  · rcases List.mem_append.mp hmem with hmem | hmem
    · exact (h.learned j e' hmem c head hl).mono (activity_mono e)
    · obtain ⟨rfl, rfl⟩ := Prod.mk.inj (List.mem_singleton.mp hmem)
      cases hl with
      | read row hread =>
        rw [hread.found]
        exact (h.sound.isPosition_head).mono (activity_mono _)
      | wrote event head timestamp key ha hf =>
        refine .inr ⟨event.row (event.link c head timestamp key) c, ?_, rfl, rfl, rfl⟩
        rw [ha.after]
        simp
  · rcases List.mem_append.mp hmem with hmem | hmem
    · obtain ⟨n, hn, hl⟩ := h.read j e' hmem c seq a hr
      exact ⟨n, hn, hl.mono (activity_mono e)⟩
    · obtain ⟨rfl, rfl⟩ := Prod.mk.inj (List.mem_singleton.mp hmem)
      obtain ⟨n, b, rfl, hb, hl⟩ := h.sound.hasLink_of_head hr.found.symm
      obtain rfl := Option.some.inj hb
      exact ⟨n, rfl, hl.mono (activity_mono _)⟩

/-- **The chains of a run.** Every run of the audit tasks from a database
    without chains keeps the tables sound. -/
theorem audit_run {c : auditors.Conf} (hw : w.IsUnchained) (hc : Reachable w c) :
    auditRule.Inv c ∧ AuditInv c.trace c.state := by
  refine hc.lift (R := auditRule) (P := AuditInv) auditRule_met
    ⟨hw.sound, fun _ _ hm => absurd hm List.not_mem_nil,
      fun _ _ hm => absurd hm List.not_mem_nil⟩
    (fun c i r e _ _ hP hbefore _ hE => ?_) fun _ _ _ => trivial
  rw [← hbefore] at hP
  exact hP.next hE

end

end SoulAuth
