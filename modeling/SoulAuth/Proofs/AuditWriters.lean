import SoulAuth.Proofs.RecordKeys
import SoulAuth.Proofs.AuditScan

/-! # The audit tables in any run

Whatever the writers, the checkpoint tasks and the verifiers of all
instances do, and however their statements fail, the rows of every chain
stay linked in the order in which they were written, and every checkpoint
names the hash of a row. A writer never attaches a row anywhere but to the
last row of its chain: it names a row that is stored, and the unique index
lets no second row follow it.
-/

namespace SoulAuth

open Framework Framework.System

/-! ## Rows as links -/

/-- The content that the digest of a stored row covers. -/
def ActivityRow.content (row : ActivityRow) : DigestInput where
  chainId := row.chainId.getD []
  seq := (row.seq.bind DbNumber.asI64).getD 0
  previousHash := row.previousHash.getD []
  action := row.action
  category := row.category
  status := row.status
  actorIdentityId := row.actorIdentityId.getD []
  ipAddress := row.ipAddress
  userAgent := row.userAgent
  detailsJson := (Json.object row.details).canonical
  timestamp := row.timestamp.asI64.getD 0

/-- Stored rows as the links of a hash chain. -/
def storedChain [Platform] : ChainView ActivityRow DigestInput Str where
  number row := (row.seq.bind DbNumber.asI64).getD 0
  previous row := row.previousHash.getD []
  stored row := row.eventHash.getD []
  content := ActivityRow.content
  hash := eventHash

/-- The rows of a chain, in the order in which they were stored. -/
def rowsIn (c : Str) (activity : List ActivityRow) : List ActivityRow :=
  activity.filter fun row => row.chainId = some c ∧ row.seq ≠ none

theorem mem_rowsIn {c : Str} {activity : List ActivityRow} {row : ActivityRow} :
    row ∈ rowsIn c activity ↔ row ∈ activity ∧ row.chainId = some c ∧ row.seq ≠ none := by
  simp [rowsIn]

/-- The prefix of an actor's address. -/
def actorTable : Str := "actor_identity:".toList

/-- A row as a writer stores it: what is returned for it has the content
    that was hashed. -/
structure ActivityRow.Kept (row : ActivityRow) : Prop where
  chain : ∃ c, row.chainId = some c
  seq : ∃ n, row.seq = some (.int n)
  hash : ∃ a, row.eventHash = some a
  actor : ∀ key, row.actorIdentityId = some key → key ≠ [] ∧ IsNormalKey actorTable key
  details : (Json.object row.details).KeysDistinct

theorem actorTable_head : actorTable.head? = some 'a' := by decide +kernel

theorem actorTable_ne_nil : actorTable ≠ [] := by
  intro h
  have := actorTable_head
  rw [h] at this
  cases this

theorem actorTable_eq : "actor_identity".toList ++ [':'] = actorTable := by decide +kernel

theorem keyTrims_a : ∀ p ∈ keyTrims, p 'a' = false := by
  have h : keyTrims.all (fun p => !p 'a') = true := by decide +kernel
  intro p hp
  simpa using List.all_eq_true.mp h p hp

/-- Both sides normalise the actor to the same key. -/
theorem normalizeActorId_address {ρ : Rendering} {key : Str} {row : ActivityRow} (hkey : key ≠ [])
    (h : IsNormalKey actorTable key) : normalizeActorId (ρ.address key row) = key := by
  have htable : ∀ p ∈ keyTrims, ∀ c, actorTable.head? = some c → p c = false := by
    intro p hp c hc
    rw [actorTable_head] at hc
    obtain rfl := Option.some.inj hc
    exact keyTrims_a p hp
  have haddr : ∀ k, recordAddress "actor_identity".toList k = actorTable ++ k := fun k => by
    rw [← actorTable_eq, recordAddress, List.append_assoc]
    rfl
  obtain ⟨hopen, hclose, hback⟩ := isDelimiter_brackets
  show normalizeId actorTable (ρ.address key row) = key
  rcases ρ.address_eq key row with hr | hr | hr
  · rw [hr, haddr, h.normalizeId_append htable actorTable_ne_nil hkey]
  · rw [hr, haddr, h.normalizeId_delimited htable actorTable_ne_nil hkey hopen hclose]
  · rw [hr, haddr, h.normalizeId_delimited htable actorTable_ne_nil hkey hback hback]

theorem normalizeActorId_nil : normalizeActorId [] = [] := by decide +kernel

/-- The verifier hashes what the writer hashed. -/
theorem digest_scanned {ρ : Rendering} {row : ActivityRow} (h : row.Kept) {seq : DbNumber}
    (hseq : row.seq = some seq) :
    (row.scanned ρ seq).digest (row.scanned ρ seq).previous = row.content := by
  have hactor : normalizeActorId (row.scanned ρ seq).actorIdentityId =
      row.actorIdentityId.getD [] := by
    unfold ActivityRow.scanned
    cases hkey : row.actorIdentityId with
    | none => exact normalizeActorId_nil
    | some key =>
      obtain ⟨hne, hnormal⟩ := h.actor key hkey
      exact normalizeActorId_address hne hnormal
  have hdetails : (row.scanned ρ seq).details.canonical = (Json.object row.details).canonical :=
    (ρ.details_readBack row).canonical_eq h.details
  unfold ScannedRow.digest ActivityRow.content
  rw [hactor, hdetails, hseq]
  rfl

/-! ## What a writer knows -/

/-- The entry answers the last row of a chain. -/
structure ReadsHead (e : Entry auditMachine) (c : Str) (row : Option (DbNumber × Option Str)) :
    Prop where
  stmt : e.stmt = .db (.chainHead c)
  fault : e.ctx.fault = none
  found : row = chainHeadRow c e.before.activity

section

variable [Platform]

/-- The entry tells a task of the writer where a chain ends. -/
inductive Learns (e : Entry auditMachine) (c : Str) : ChainHead → Prop
  | read (row : Option (DbNumber × Option Str)) (h : ReadsHead e c row) : Learns e c (headOf row)
  | wrote (event : AuditEvent) (head : ChainHead) (timestamp : Int) (key : Str)
    (h : Appends e (event.row (event.link c head timestamp key) c)) (hf : e.ctx.fault = none) :
    Learns e c ⟨head.seq + 1, (event.link c head timestamp key).hash⟩

/-- A row that is to follow a head of which the task has learned. -/
def Attached (h : List (Entry auditMachine)) (row : ActivityRow) : Prop :=
  ∃ (c : Str) (event : AuditEvent) (head : ChainHead) (timestamp : Int) (key : Str),
    row = event.row (event.link c head timestamp key) c ∧
      (key ≠ [] → IsNormalKey actorTable key) ∧ ∃ e ∈ h, Learns e c head

variable [CheckpointKeys]

/-- A checkpoint over a row that the task has read. -/
def SignedOver (h : List (Entry auditMachine)) (cp : Checkpoint) : Prop :=
  ∃ (signer : CheckpointKeys.Signer) (c : Str) (seq : DbNumber) (a : Str) (createdAt : Int),
    cp = { chainId := c, seqTo := .int (seq.asI64.getD 0), headHash := a,
           createdAt := .int createdAt, publicKey := CheckpointKeys.publicKeyB64 signer,
           signature := signCheckpoint signer c (seq.asI64.getD 0) a createdAt } ∧
      ∃ e ∈ h, ReadsHead e c (some (seq, some a))

/-- What the statements of all audit tasks satisfy. -/
def AuditRule (h : List (Entry auditMachine)) (e : Entry auditMachine) : Prop :=
  (∀ row, e.stmt = .db (.writeEvent row) → Attached h row) ∧
    ∀ cp, e.stmt = .db (.createCheckpoint cp) → SignedOver h cp

/-- The programs that keep to the rule. -/
abbrev Abides {ε α : Type} (Q : List (Entry auditMachine) → Except ε α → Prop)
    (h : List (Entry auditMachine)) (p : AuditTask ε α) : Prop :=
  p.Meets (fun _ => True) AuditRule Q h

variable {h : List (Entry auditMachine)} {ε : Type}

theorem auditRule_query {s : AuditDbStmt} {ctx : AuditCtx} {w : AuditStore}
    (hrow : ∀ row, s ≠ .writeEvent row) (hcp : ∀ cp, s ≠ .createCheckpoint cp) :
    AuditRule h ⟨ctx, .db s, w⟩ :=
  ⟨fun row hs => absurd (AuditStmt.db.inj hs) (hrow row),
    fun cp hs => absurd (AuditStmt.db.inj hs) (hcp cp)⟩

theorem auditRule_now {ctx : AuditCtx} {w : AuditStore} : AuditRule h ⟨ctx, .now, w⟩ :=
  ⟨nofun, nofun⟩

theorem auditRule_receive {head : Option ChainHead} {ctx : AuditCtx} {w : AuditStore} :
    AuditRule h ⟨ctx, .receive head, w⟩ :=
  ⟨nofun, nofun⟩

/-- The outcome of a statement, judged by its entry. -/
theorem abides_attempt {s : AuditDbStmt}
    {Q : List (Entry auditMachine) → Except ε (Except DbFailure s.Reply) → Prop}
    (hE : ∀ ctx w, AuditRule h ⟨ctx, .db s, w⟩)
    (hQ : ∀ ctx w, Q (h ++ [⟨ctx, .db s, w⟩]) (.ok (AuditStmt.exec ctx (.db s) w).1)) :
    Abides Q h ((auditQuery s).attempt) :=
  fun ctx w _ => ⟨hE ctx w, hQ ctx w⟩

/-- What a head is known from. -/
def KnowsHead (c : Str) (h : List (Entry auditMachine)) : Except ε (Option ChainHead) → Prop
  | .ok (some head) => ∃ e ∈ h, Learns e c head
  | _ => True

theorem loadChainHead_abides (c : Str) : Abides (KnowsHead (ε := ε) c) h (loadChainHead c) := by
  unfold loadChainHead
  refine Prog.Meets.bind (P := fun h' r => ∀ row, r = .ok (.ok row) → ∃ e ∈ h', ReadsHead e c row)
    (abides_attempt (fun ctx w => auditRule_query nofun nofun) fun ctx w row hr => ?_)
    (fun t r hr => ?_) fun t e _ => trivial
  · obtain ⟨hf, hrow⟩ := audit_resp_ok (Except.ok.inj hr)
    exact ⟨⟨ctx, .db (.chainHead c), w⟩, by simp, rfl, hf, (Except.ok.inj hrow).symm⟩
  · cases r with
    | error e => trivial
    | ok row =>
      obtain ⟨e, he, hread⟩ := hr row rfl
      exact ⟨e, he, .read row hread⟩

theorem knownHead_abides {c : Str} {head : Option ChainHead}
    (hhead : ∀ known, head = some known → ∃ e ∈ h, Learns e c known) :
    Abides (KnowsHead (ε := ε) c) h (knownHead c head) := by
  cases head with
  | none => exact loadChainHead_abides c
  | some known => exact hhead known rfl

/-- The key of an actor is in normal form, if there is one. -/
def KnowsActor (_ : List (Entry auditMachine)) : Except ε Str → Prop
  | .ok key => key ≠ [] → IsNormalKey actorTable key
  | .error _ => True

omit [Platform] [CheckpointKeys] in
theorem isNormalKey_actor (raw : Str) : IsNormalKey actorTable (normalizeActorId raw) :=
  isNormalKey_normalizeId actorTable_ne_nil raw

theorem resolveActorKey_abides (userId : Option Str) :
    Abides (KnowsActor (ε := ε)) h (resolveActorKey userId) := by
  cases userId with
  | none => exact fun hne => absurd rfl hne
  | some raw =>
    simp only [resolveActorKey]
    split
    · exact fun hne => absurd rfl hne
    · refine Prog.Meets.bind (P := fun _ _ => True)
        (abides_attempt (fun ctx w => auditRule_query nofun nofun) fun _ _ => trivial)
        (fun t address _ => ?_) fun t e _ => trivial
      show KnowsActor _ (.ok _)
      split
      · next address => exact fun _ => isNormalKey_actor address
      · exact fun hne => absurd rfl hne

theorem actorKeyOf_abides (event : AuditEvent) :
    Abides (KnowsActor (ε := ε)) h (actorKeyOf event) := by
  unfold actorKeyOf
  split
  · next raw _ => exact fun _ => isNormalKey_actor raw
  · exact resolveActorKey_abides _

/-- Every attempt sends the same row; one that succeeds has stored it. -/
theorem attemptWrite_abides {event : AuditEvent} {link : ChainLink} {c : Str} (n : Nat)
    (hrow : Attached h (event.row link c)) :
    Abides (fun h' (r : Except ε Bool) => r = .ok true →
      ∃ e ∈ h', Appends e (event.row link c) ∧ e.ctx.fault = none) h
      (attemptWrite event link c n) := by
  induction n generalizing h with
  | zero => exact nofun
  | succ n ih =>
    unfold attemptWrite
    refine Prog.Meets.bind (P := fun h' r => (∀ e, r = .ok (.error e) → Attached h' (event.row link c)) ∧
        (r = .ok (.ok ()) → ∃ e ∈ h', Appends e (event.row link c) ∧ e.ctx.fault = none))
      (abides_attempt (fun ctx w => ⟨fun row hs => ?_, nofun⟩) fun ctx w => ⟨fun e _ => ?_, ?_⟩)
      (fun t sent hsent => ?_) fun t e _ => nofun
    · cases hs
      exact hrow
    · obtain ⟨c', event', head, ts, key, heq, hkey, e', he', hl⟩ := hrow
      exact ⟨c', event', head, ts, key, heq, hkey, e', by simp [he'], hl⟩
    · intro hr
      obtain ⟨ha, hf⟩ := appends_of_ok (Except.ok.inj hr)
      exact ⟨_, by simp, ha, hf⟩
    · cases sent with
      | ok u =>
        intro _
        exact hsent.2 rfl
      | error e => exact ih (hsent.1 e rfl)

/-- What the head after an event is known from. -/
def KnowsNext (c : Str) (h : List (Entry auditMachine)) : Except ε (ChainHead × Nat) → Prop
  | .ok (head, _) => ∃ e ∈ h, Learns e c head
  | .error _ => True

theorem writeWithRetry_abides {event : AuditEvent} {head : ChainHead} {c : Str}
    (hhead : ∃ e ∈ h, Learns e c head) :
    Abides (KnowsNext (ε := ε) c) h (writeWithRetry event head c) := by
  obtain ⟨e₀, he₀, hlearns⟩ := hhead
  unfold writeWithRetry
  refine Prog.Meets.bind (P := fun _ _ => True)
    (fun ctx w _ => ⟨auditRule_now, trivial⟩) (fun t timestamp _ => ?_) fun t e _ => trivial
  refine Prog.Meets.bind (actorKeyOf_abides event) (fun t' key hkey => ?_) fun t' e _ => trivial
  have hknown : ∀ t'', e₀ ∈ h ++ t ++ t' ++ t'' := fun t'' => by simp [he₀]
  refine Prog.Meets.bind
    (attemptWrite_abides auditWriteAttempts
      ⟨c, event, head, timestamp, key, rfl, hkey, e₀, by simpa using hknown [], hlearns⟩)
    (fun t'' written hwritten => ?_) fun t'' e _ => trivial
  cases written with
  | true =>
    obtain ⟨e, he, ha, hf⟩ := hwritten rfl
    exact ⟨e, he, .wrote event head timestamp key ha hf⟩
  | false => exact ⟨e₀, hknown t'', hlearns⟩

theorem serveAudit_abides {c : Str} {head : Option ChainHead} {dropped : Nat}
    {messages : List AuditMsg} (hhead : ∀ known, head = some known → ∃ e ∈ h, Learns e c known) :
    Abides (ε := ε) (fun _ _ => True) h (serveAudit c head dropped messages) := by
  induction messages generalizing h head dropped with
  | nil => exact fun ctx w _ => ⟨auditRule_receive, trivial⟩
  | cons message messages ih =>
    -- waiting for the message teaches nothing
    have hkeep : ∀ t known, head = some known → ∃ e ∈ h ++ t, Learns e c known :=
      fun t known hk => by
        obtain ⟨e, he, hl⟩ := hhead known hk
        exact ⟨e, by simp [he], hl⟩
    cases message with
    | flush =>
      unfold serveAudit
      exact fun ctx w _ => ⟨auditRule_receive, ih (hkeep _)⟩
    | event event =>
      unfold serveAudit
      refine Prog.Meets.bind (P := fun _ _ => True)
        (fun ctx w _ => ⟨auditRule_receive, trivial⟩) (fun t _ _ => ?_) fun t e _ => trivial
      refine Prog.Meets.bind (knownHead_abides (hkeep t)) (fun t' head' hk => ?_)
        fun t' e _ => trivial
      cases head' with
      | none => exact ih nofun
      | some known =>
        refine Prog.Meets.bind (writeWithRetry_abides hk) (fun t'' out hout => ?_)
          fun t'' e _ => trivial
        refine ih fun known' hk' => ?_
        cases hk'
        exact hout

/-- A row that has been answered as the last one of a chain. -/
def KnowsRow {ε' : Type} (c : Str) (h : List (Entry auditMachine)) :
    Except ε' (Option (DbNumber × Option Str)) → Prop
  | .ok row => ∃ e ∈ h, ReadsHead e c row
  | .error _ => True

theorem issueCheckpoint_abides (signer : CheckpointKeys.Signer) (c : Str) :
    Abides (fun _ _ => True) h (issueCheckpoint signer c) := by
  unfold issueCheckpoint
  refine Prog.Meets.bind (P := KnowsRow c) ?_ (fun t head hhead => ?_) fun t e _ => trivial
  · refine Prog.Meets.mapError (P := KnowsRow c) ?_ (fun t row hr => hr) fun t e _ => trivial
    refine fun ctx w _ => ⟨auditRule_query nofun nofun, ?_⟩
    show KnowsRow c _ (AuditStmt.exec ctx (.db (.chainHead c)) w).1
    cases hr : (AuditStmt.exec ctx (.db (.chainHead c)) w).1 with
    | error e => trivial
    | ok row =>
      obtain ⟨hf, hrow⟩ := audit_resp_ok hr
      exact ⟨⟨ctx, .db (.chainHead c), w⟩, by simp, rfl, hf, (Except.ok.inj hrow).symm⟩
  · obtain ⟨e, he, hread⟩ := hhead
    cases head with
    | none => trivial
    | some row =>
      obtain ⟨seq, hash⟩ := row
      simp only []
      split
      · trivial
      · next hne =>
        obtain ⟨a, rfl⟩ : ∃ a, hash = some a := by
          cases hash with
          | none => exact absurd rfl hne
          | some a => exact ⟨a, rfl⟩
        refine Prog.Meets.bind (P := fun _ _ => True)
          (Prog.Meets.mapError (P := fun _ _ => True)
            (fun ctx w _ => ⟨auditRule_query nofun nofun, trivial⟩)
            (fun _ _ _ => trivial) fun _ _ _ => trivial)
          (fun t' last _ => ?_) fun t' e _ => trivial
        split
        · trivial
        · refine Prog.Meets.bind (P := fun _ _ => True)
            (fun ctx w _ => ⟨auditRule_now, trivial⟩) (fun t'' createdAt _ => ?_)
            fun t'' e _ => trivial
          refine Prog.Meets.bind (P := fun _ _ => True)
            (Prog.Meets.mapError (P := fun _ _ => True)
              (fun ctx w _ => ⟨⟨nofun, fun cp hs => ?_⟩, trivial⟩)
              (fun _ _ _ => trivial) fun _ _ _ => trivial)
            (fun _ _ _ => trivial) fun _ _ _ => trivial
          obtain rfl := AuditDbStmt.createCheckpoint.inj (AuditStmt.db.inj hs)
          have hmem : e ∈ h ++ t ++ t' ++ t'' := List.mem_append_left _ (List.mem_append_left _ he)
          exact ⟨signer, c, seq, a, createdAt, rfl, e, hmem, hread⟩

/-- **The rule of the audit tasks.** -/
def auditRule : Rule auditors where
  assumes _ := True
  entry _ := AuditRule
  outcome
    | .verify key => fun h r => match r with
      | .ok (.report report) => VerifyOutcome key h (.ok report)
      | _ => True
    | _ => fun _ _ => True

theorem auditRule_met : auditRule.Met := by
  intro r
  cases r with
  | write c messages =>
    exact Prog.Meets.bind (serveAudit_abides nofun) (fun _ _ _ => trivial) fun _ _ _ => trivial
  | checkpoint signer c =>
    exact Prog.Meets.bind (P := fun _ _ => True)
      (Prog.Meets.mapError (issueCheckpoint_abides signer c) (fun _ _ _ => trivial)
        fun _ _ _ => trivial) (fun _ _ _ => trivial) fun _ _ _ => trivial
  | verify key =>
    have hread : (verifyIntegrity key).Meets (fun _ => True) AuditRule (VerifyOutcome key) [] := by
      refine (verifyIntegrity_meets key).weaken (fun _ _ => trivial) (fun t e _ he => ?_)
        fun _ _ hr => hr
      refine ⟨fun row hs => ?_, fun cp hs => ?_⟩
      · simp [IsRead, hs] at he
      · simp [IsRead, hs] at he
    exact Prog.Meets.bind hread (fun t report hr => hr) fun _ _ _ => trivial

end

end SoulAuth
