import SoulAuth.Proofs.AuditScan

/-! # Tamper evidence

A checkpoint of this instance fixes the history of its chain: two databases
that are both reported intact with it have the same rows up to it. A chain
without a checkpoint is not covered by the report.
-/

namespace SoulAuth

open Framework Framework.System

section

variable [Platform]

/-- What the verifier hashes for the rows of a store. -/
def AuditStore.contents (store : AuditStore) (ρ : Rendering) : Set DigestInput :=
  {d | ∃ row ∈ scanRows ρ store.activity, row.digest row.previous = d}

/-- The chain `c` has a row with the number `k`, and `d` is what the verifier
    reads in every such row. -/
def AuditStore.HasContent (store : AuditStore) (ρ : Rendering) (c : Str) (k : Int)
    (d : DigestInput) : Prop :=
  (∃ row ∈ scanRows ρ store.activity, row.chain = c ∧ row.number = k) ∧
    ∀ row ∈ scanRows ρ store.activity, row.chain = c → row.number = k →
      row.digest row.previous = d

/-- In a linked chain every row has one content. -/
theorem hasContent_of_linked {store : AuditStore} {ρ : Rendering} {c : Str}
    (h : rowChain.Linked genesisHash 1 (rowsOf c (scanRows ρ store.activity))) {j : Nat}
    {row : ScannedRow} (hrow : (rowsOf c (scanRows ρ store.activity))[j]? = some row) :
    store.HasContent ρ c (1 + j) (row.digest row.previous) := by
  have hmem := List.mem_of_getElem? hrow
  obtain ⟨hrows, hc⟩ := mem_rowsOf.mp hmem
  have hnum : row.number = 1 + (j : Int) := (h.at_index hrow).1
  refine ⟨⟨row, hrows, hc, hnum⟩, fun row' hrow' hc' hnum' => ?_⟩
  have heq : row' = row :=
    h.number_inj (mem_rowsOf.mpr ⟨hrow', hc'⟩) hmem (hnum'.trans hnum.symm)
  rw [heq]

variable [CheckpointKeys]

/-- A checkpoint of a chain is anchored at a row of the chain. -/
def AuditStore.Anchored (store : AuditStore) (own : Option Str) (ρ : Rendering) (c : Str) : Prop :=
  ∃ cp ∈ store.checkpoints, cp.isOwn own = true ∧ cp.chainId = c ∧
    ∃ row ∈ scanRows ρ store.activity,
      row.chain = c ∧ row.number = cp.number ∧ row.stored = cp.headHash

/-- **Tamper evidence.** Two databases that are reported intact with a
    checkpoint of this instance over the row `n` of the chain `c` have the
    same contents in the rows from 1 to `n` of the chain. -/
theorem tamper_evident {key : Option Str} {store store' : AuditStore} {cs cs' : Nat → AuditCtx}
    {r r' : AuditIntegrityReport}
    (hr : ((verifyIntegrity key).runAlone cs store).1 = .ok r) (hi : r.intact = true)
    (hr' : ((verifyIntegrity key).runAlone cs' store').1 = .ok r') (hi' : r'.intact = true)
    {c : Str} {n : Int} {a : Str} (hcp : store.HasCheckpoint (ownPublicKey key) c n a)
    (hcp' : store'.HasCheckpoint (ownPublicKey key) c n a)
    (hsha : Set.InjOn Platform.sha256Hex (DigestInput.preimage ''
      (store.contents (cs 0).rendering ∪ store'.contents (cs' 0).rendering)))
    {k : Int} (hk : 1 ≤ k) (hkn : k ≤ n) :
    ∃ d, store.HasContent (cs 0).rendering c k d ∧
      store'.HasContent (cs' 0).rendering c k d := by
  obtain ⟨hlinked, hanchored, -⟩ := intact_of_report hr hi
  obtain ⟨hlinked', hanchored', -⟩ := intact_of_report hr' hi'
  obtain ⟨cp, hmem, hown, rfl, rfl, rfl⟩ := hcp
  obtain ⟨cp', hmem', hown', hc', hn', ha'⟩ := hcp'
  obtain ⟨row, hrow, hnum, hstored⟩ := hanchored cp hmem hown
  obtain ⟨row', hrow', hnum', hstored'⟩ := hanchored' cp' hmem' hown'
  rw [hc'] at hrow'
  -- the places of the two anchors
  obtain ⟨i, hi⟩ : ∃ i : Nat, cp.number = 1 + i := ⟨(cp.number - 1).toNat, by omega⟩
  obtain ⟨j, rfl⟩ : ∃ j : Nat, k = 1 + j := ⟨(k - 1).toNat, by omega⟩
  have hat : (rowsOf cp.chainId (scanRows (cs 0).rendering store.activity))[i]? = some row :=
    (hlinked cp.chainId).getElem?_of_number hrow (hnum.trans hi)
  have hat' : (rowsOf cp.chainId (scanRows (cs' 0).rendering store'.activity))[i]? = some row' :=
    (hlinked' cp.chainId).getElem?_of_number hrow' (hnum'.trans (hn'.trans hi))
  have hinj : Set.InjOn eventHash
      (store.contents (cs 0).rendering ∪ store'.contents (cs' 0).rendering) :=
    hsha.comp preimage_injective.injOn (Set.mapsTo_image _ _)
  obtain ⟨x, y, hx, hy, hxy⟩ := (hlinked cp.chainId).agree (hlinked' cp.chainId) rfl
    (S := store.contents (cs 0).rendering ∪ store'.contents (cs' 0).rendering)
    (fun r hr => .inl ⟨r, (mem_rowsOf.mp hr).1, rfl⟩)
    (fun r hr => .inr ⟨r, (mem_rowsOf.mp hr).1, rfl⟩) hinj
    (fun _ _ _ _ h => congrArg DigestInput.previousHash h) hat hat'
    (hstored.trans (ha'.symm.trans hstored'.symm)) (j := j) (by omega)
  have hxy' : x.digest x.previous = y.digest y.previous := hxy
  refine ⟨x.digest x.previous, hasContent_of_linked (hlinked _) hx, ?_⟩
  rw [hxy']
  exact hasContent_of_linked (hlinked' _) hy

instance {store : AuditStore} {own : Option Str} {ρ : Rendering} {c : Str} :
    Decidable (store.Anchored own ρ c) :=
  inferInstanceAs (Decidable (∃ cp ∈ store.checkpoints, cp.isOwn own = true ∧ cp.chainId = c ∧
    ∃ row ∈ scanRows ρ store.activity,
      row.chain = c ∧ row.number = cp.number ∧ row.stored = cp.headHash))

end

/-! ## Samples -/

namespace Sample

/-- A chain whose only row is signed. -/
def oneReplica : AuditStore := (auditAfter (written 0 "a" "login" ++ signed 1 "a")).state

/-- The same with a second chain that nobody has signed. -/
def twoReplicas : AuditStore :=
  (auditAfter (written 0 "a" "login" ++ signed 1 "a" ++ written 2 "b" "logout")).state

/-- The verification of a store by the instance with the sample key. -/
def verified (store : AuditStore) : Except AuditError AuditIntegrityReport :=
  ((verifyIntegrity (some seed)).runAlone (fun _ => AuditCtx.calm) store).1

theorem verified_oneReplica :
    verified oneReplica = .ok ⟨true, 1, 0, 1, none, none, none, 1, 1⟩ := by
  decide +kernel

theorem verified_twoReplicas :
    verified twoReplicas = .ok ⟨true, 2, 0, 2, none, none, none, 1, 1⟩ := by
  decide +kernel

/-- The hash of the only row of the signed chain. -/
def signedHash : Str := ((oneReplica.checkpoints.map Checkpoint.headHash).head?).getD []

theorem hasCheckpoint_oneReplica :
    oneReplica.HasCheckpoint (ownPublicKey (some seed)) "a".toList 1 signedHash := by
  unfold AuditStore.HasCheckpoint
  decide +kernel

theorem hasCheckpoint_twoReplicas :
    twoReplicas.HasCheckpoint (ownPublicKey (some seed)) "a".toList 1 signedHash := by
  unfold AuditStore.HasCheckpoint
  decide +kernel

/-- Both databases have the row that was signed. -/
theorem tamper_evident_second_replica :
    ∃ d, oneReplica.HasContent .plain "a".toList 1 d ∧
      twoReplicas.HasContent .plain "a".toList 1 d :=
  tamper_evident verified_oneReplica rfl verified_twoReplicas rfl hasCheckpoint_oneReplica
    hasCheckpoint_twoReplicas (fun _ _ _ _ h => h) (k := 1) (by decide) (by decide)

end Sample

end SoulAuth
