import SoulAuth.Framework.Residuals
import SoulAuth.Proofs.AuditHead

/-! # What a healthy report says

The writer counts an event as dropped when it cannot read the head of its
chain, or when no attempt to store the event has succeeded. As long as it
has dropped nothing, it was told of every row that it stored, and the rows
are the events in the order of the queue.

A row that was stored although its writer was told of a failure keeps the
number that the next attempts send. They fail, and the event is counted as
dropped.
-/

namespace SoulAuth

open Framework Framework.System Framework.Prog

/-! ## The statements of the writer -/

/-- The events among the messages. -/
def eventsOf : List AuditMsg → List AuditEvent
  | [] => []
  | .event event :: messages => event :: eventsOf messages
  | .flush :: messages => eventsOf messages

/-- The writer has computed the link by its statements `h`: the time is one
    that its clock has read, the key the one that it has resolved, and the
    hash is the one of the row behind `head`. -/
structure AuditEvent.LinkedBy [Platform] (event : AuditEvent) (c : Str) (head : ChainHead)
    (h : List (Entry auditMachine)) (link : ChainLink) : Prop where
  hash : link.hash = eventHash (event.digest c head link.timestamp link.actorKey)
  timed : ∃ e ∈ h, e.stmt = .now ∧ link.timestamp = e.after.now
  resolved : ∃ h', h' <:+: h ∧
    ComesTo (actorKeyOf (ε := AuditError) event) h' (.done (.ok link.actorKey))

/-- `rows` are the events in their order, as the statements `h` have stored
    them: each row has the content of its event, the number behind the last
    one, and the hash of the row before it; `head` is the place before the
    first. -/
inductive Recorded [Platform] (c : Str) (h : List (Entry auditMachine)) :
    ChainHead → List AuditEvent → List ActivityRow → Prop
  | nil {head : ChainHead} : Recorded c h head [] []
  | cons {head : ChainHead} {event : AuditEvent} {events : List AuditEvent} {row : ActivityRow}
      {rows : List ActivityRow} {link : ChainLink} : row = event.row link c →
      link.seq = head.seq + 1 → link.previousHash = head.hash → event.LinkedBy c head h link →
      Recorded c h ⟨link.seq, link.hash⟩ events rows →
      Recorded c h head (event :: events) (row :: rows)

section

variable [Platform] {ε : Type}

/-- The loop of the writer over messages, up to the next wait: the head that
    it remembers then, and how many events it has dropped. -/
def takeAudit (chainId : Str) :
    Option ChainHead → Nat → List AuditMsg → AuditTask ε (Option ChainHead × Nat)
  | head, dropped, [] => return (head, dropped)
  | head, dropped, .flush :: messages => do
    receive head
    takeAudit chainId head dropped messages
  | head, dropped, .event event :: messages => do
    receive head
    let head ← knownHead chainId head
    match head with
    | some known => do
      let out ← writeWithRetry event known chainId
      takeAudit chainId (some out.1) (dropped + out.2) messages
    | none => takeAudit chainId none (dropped + 1) messages

/-- A statement other than the wait for a message. -/
def IsWork (s : AuditStmt) : Prop := ∀ head, s ≠ .receive head

omit [Platform] in
theorem knownHead_work (c : Str) (head : Option ChainHead) :
    (knownHead (ε := ε) c head).Only IsWork := by
  cases head with
  | some head => trivial
  | none =>
    apply Only.bind
    · exact ⟨nofun, fun _ => trivial⟩
    · intro rows
      trivial

omit [Platform] in
theorem actorKeyOf_work (event : AuditEvent) : (actorKeyOf (ε := ε) event).Only IsWork := by
  unfold actorKeyOf
  split
  · trivial
  · cases event.userId with
    | none => trivial
    | some raw =>
      simp only [resolveActorKey]
      split
      · trivial
      · constructor
        · intro head heq
          cases heq
        · intro _
          trivial

omit [Platform] in
theorem attemptWrite_work (event : AuditEvent) (link : ChainLink) (c : Str) (n : Nat) :
    (attemptWrite (ε := ε) event link c n).Only IsWork := by
  induction n with
  | zero => trivial
  | succ n ih =>
    rw [attemptWrite_succ]
    constructor
    · exact nofun
    · intro sent
      cases sent with
      | ok u => trivial
      | error f => exact ih

theorem writeWithRetry_work (event : AuditEvent) (head : ChainHead) (c : Str) :
    (writeWithRetry (ε := ε) event head c).Only IsWork := by
  apply Only.bind
  · exact ⟨nofun, fun _ => trivial⟩
  · intro timestamp
    apply (actorKeyOf_work event).bind
    intro actorKey
    apply (attemptWrite_work _ _ _ _).bind
    intro written
    trivial

omit [Platform] in
/-- A program at work does not wait. -/
theorem not_waiting {α : Type} {p : AuditTask ε α} (hp : p.Only IsWork)
    {h : List (Entry auditMachine)} {head : Option ChainHead} {k} :
    ¬ ComesTo p h (.step (AuditStmt.receive head) k) := by
  intro hl
  exact (hp.comesTo hl).1 head rfl

/-- Whenever the writer waits, it has handled the messages up to some place
    of the queue. -/
theorem serveAudit_waits {α : Type} {c : Str} {head : Option ChainHead} {dropped : Nat}
    {messages : List AuditMsg} {f : Nat → AuditTask ε α} (hf : ∀ n, (f n).Only IsWork)
    {h : List (Entry auditMachine)} {head' : Option ChainHead} {k}
    (hl : ComesTo (serveAudit c head dropped messages >>= f) h
      (.step (AuditStmt.receive head') k)) :
    ∃ taken dropped', taken <+: messages ∧
      ComesTo (takeAudit (ε := ε) c head dropped taken) h (.done (.ok (head', dropped'))) := by
  induction messages generalizing head dropped h with
  | nil =>
    rcases comesTo_step hl with ⟨rfl, heq⟩ | ⟨ctx, w, t, rfl, hrest⟩
    · cases heq
      exact ⟨[], dropped, List.prefix_refl _, .nil _⟩
    · exact absurd hrest (not_waiting (hf dropped))
  | cons message messages ih =>
    cases message with
    | flush =>
      rcases comesTo_step hl with ⟨rfl, heq⟩ | ⟨ctx, w, t, rfl, hrest⟩
      · cases heq
        exact ⟨[], dropped, List.nil_prefix, .nil _⟩
      · obtain ⟨taken, dropped', htaken, hcomes⟩ := ih hrest
        exact ⟨.flush :: taken, dropped', (List.prefix_cons_inj _).mpr htaken, .cons hcomes⟩
    | event event =>
      rcases comesTo_step hl with ⟨rfl, heq⟩ | ⟨ctx, w, t, rfl, hrest⟩
      · cases heq
        exact ⟨[], dropped, List.nil_prefix, .nil _⟩
      · -- the head comes first, then the event
        have hassoc : ComesTo (knownHead c head >>= fun head =>
            (match head with
            | some known => do
              let out ← writeWithRetry event known c
              serveAudit c (some out.1) (dropped + out.2) messages
            | none => serveAudit c none (dropped + 1) messages) >>= f) t
            (.step (AuditStmt.receive head') k) := by
          rw [← bind_assoc']
          exact hrest
        rcases comesTo_bind_step hassoc with ⟨k', hwaits⟩ | ⟨known, h₁, h₂, rfl, hknown, hnext⟩
        · exact absurd hwaits (not_waiting (knownHead_work c head))
        · cases known with
          | none =>
            obtain ⟨taken, dropped', htaken, hcomes⟩ := ih hnext
            refine ⟨.event event :: taken, dropped', (List.prefix_cons_inj _).mpr htaken, .cons ?_⟩
            exact hknown.bind hcomes
          | some known =>
            dsimp only at hnext
            rw [bind_assoc'] at hnext
            rcases comesTo_bind_step hnext with ⟨k', hwaits⟩ | ⟨out, h₃, h₄, rfl, hout, hserve⟩
            · exact absurd hwaits (not_waiting (writeWithRetry_work event known c))
            · obtain ⟨taken, dropped', htaken, hcomes⟩ := ih hserve
              refine ⟨.event event :: taken, dropped', (List.prefix_cons_inj _).mpr htaken,
                .cons ?_⟩
              exact hknown.bind (hout.bind hcomes)

/-! ## The rows of the chain, as the writer's statements find them -/

/-- The place behind the last of the rows of a chain. -/
def placeBehind (rows : List ActivityRow) : ChainHead :=
  ⟨rows.length, storedChain.head genesisHash rows⟩

section

variable [CheckpointKeys]

/-- The entries of a writer find sound tables, and between two of them the
    rows of its chain stay as they are: from `rows` they lead to `rows'`. -/
inductive Witnessed (c : Str) :
    List ActivityRow → List (Entry auditMachine) → List ActivityRow → Prop
  | nil (rows : List ActivityRow) : Witnessed c rows [] rows
  | cons {e : Entry auditMachine} {h : List (Entry auditMachine)} {rows' : List ActivityRow} :
      e.before.Sound → Witnessed c (rowsIn c e.after.activity) h rows' →
      Witnessed c (rowsIn c e.before.activity) (e :: h) rows'

variable {c : Str} {rows rows' : List ActivityRow} {h : List (Entry auditMachine)}

theorem witnessed_nil (hs : Witnessed c rows [] rows') : rows' = rows := by
  cases hs
  rfl

theorem witnessed_append {h₁ h₂ : List (Entry auditMachine)} (hs : Witnessed c rows (h₁ ++ h₂) rows') :
    ∃ rows₁, Witnessed c rows h₁ rows₁ ∧ Witnessed c rows₁ h₂ rows' := by
  induction h₁ generalizing rows with
  | nil => exact ⟨rows, .nil rows, hs⟩
  | cons e h₁ ih =>
    cases hs with
    | cons hsound hrest =>
      obtain ⟨rows₁, hfirst, hsecond⟩ := ih hrest
      exact ⟨rows₁, .cons hsound hfirst, hsecond⟩

/-- The two parts of a sequence, and the rows between them. -/
theorem witnessed_bind_ok {α β : Type} {p : AuditTask ε α} {f : α → AuditTask ε β} {b : β}
    (hl : ComesTo (p >>= f) h (.done (.ok b))) (hs : Witnessed c rows h rows') :
    ∃ a h₁ h₂ rows₁, h = h₁ ++ h₂ ∧ ComesTo p h₁ (.done (.ok a)) ∧ Witnessed c rows h₁ rows₁ ∧
      ComesTo (f a) h₂ (.done (.ok b)) ∧ Witnessed c rows₁ h₂ rows' := by
  obtain ⟨a, h₁, h₂, rfl, hp, hf⟩ := comesTo_bind_ok hl
  obtain ⟨rows₁, hs₁, hs₂⟩ := witnessed_append hs
  exact ⟨a, h₁, h₂, rows₁, rfl, hp, hs₁, hf, hs₂⟩

theorem Witnessed.snoc (hs : Witnessed c rows h rows') {e : Entry auditMachine} (hsound : e.before.Sound)
    (he : rowsIn c e.before.activity = rows') :
    Witnessed c rows (h ++ [e]) (rowsIn c e.after.activity) := by
  induction hs with
  | nil rows =>
    subst he
    exact .cons hsound (.nil _)
  | cons hsound' _ ih => exact .cons hsound' (ih he)

/-- A statement other than a write. -/
def IsNoWrite (s : AuditStmt) : Prop := ∀ row, s ≠ .db (.writeEvent row)

/-- A statement that is no write leaves the rows alone. -/
theorem Witnessed.tail {e : Entry auditMachine} (hs : Witnessed c rows (e :: h) rows')
    (hquiet : IsNoWrite e.stmt) : Witnessed c rows h rows' := by
  cases hs with
  | cons _ hrest =>
    rcases activity_after e with hsame | ⟨row, happends⟩
    · rwa [hsame] at hrest
    · exact absurd happends.stmt (hquiet row)

/-- So does a program without writes. -/
theorem Witnessed.quiet {α : Type} {p q : AuditTask ε α} (hp : p.Only IsNoWrite)
    (hl : ComesTo p h q) (hs : Witnessed c rows h rows') : rows' = rows := by
  induction hl generalizing rows with
  | nil =>
    cases hs
    rfl
  | cons _ ih => exact ih (hp.2 _) (hs.tail hp.1)

/-! ## Reading the head -/

/-- The head that the writer goes on with is the place behind the last row. -/
theorem knownHead_place {head known : Option ChainHead}
    (hhead : ∀ place, head = some place → place = placeBehind rows)
    (hl : ComesTo (knownHead (ε := ε) c head) h (.done (.ok known))) (hs : Witnessed c rows h rows') :
    rows' = rows ∧ ∀ place, known = some place → place = placeBehind rows := by
  cases head with
  | some place =>
    obtain ⟨rfl, heq⟩ := comesTo_done hl
    cases heq
    cases hs
    exact ⟨rfl, hhead⟩
  | none =>
    rcases comesTo_step hl with ⟨-, heq⟩ | ⟨ctx, w, t, rfl, hrest⟩
    · cases heq
    · obtain ⟨rfl, heq⟩ := comesTo_done hrest
      refine ⟨witnessed_nil (hs.tail nofun), ?_⟩
      intro place hplace
      subst hplace
      -- only an answer that arrives gives a place
      cases hs with
      | cons hsound _ =>
        obtain ⟨elapsed, fault, ρ, subject⟩ := ctx
        rcases fault with _ | _ | _ | _
        · cases heq
          exact hsound.tail_eq
        · cases heq
        · cases heq
        · cases heq

/-! ## Writing -/

variable {event : AuditEvent} {link : ChainLink}

/-- A number that is taken stays so, and no attempt succeeds. -/
theorem attemptWrite_taken {n : Nat} {written : Bool} (hlow : 1 ≤ link.seq)
    (hhigh : link.seq ≤ rows.length)
    (hl : ComesTo (attemptWrite (ε := ε) event link c n) h (.done (.ok written)))
    (hs : Witnessed c rows h rows') : written = false := by
  induction n generalizing h rows with
  | zero =>
    obtain ⟨-, heq⟩ := comesTo_done hl
    cases heq
    rfl
  | succ n ih =>
    rw [attemptWrite_succ] at hl
    rcases comesTo_step hl with ⟨-, heq⟩ | ⟨ctx, w, t, rfl, hrest⟩
    · cases heq
    · cases hs with
      | cons hsound hnext =>
        have htaken : w.hasPosition (event.row link c) = true := by
          rw [hsound.hasPosition_iff rfl rfl, hsound.tail_eq]
          exact ⟨hlow, hhigh⟩
        rcases write_cases ctx (event.row link c) w with ⟨ha, -⟩ | ⟨ha, -⟩ | ⟨hsame, -, f, herr⟩
        · exact absurd (htaken.symm.trans ha.new) (by decide)
        · exact absurd (htaken.symm.trans ha.new) (by decide)
        · -- refused again: the rows are as before, with one attempt less
          rw [herr] at hrest
          rw [Entry.after, hsame] at hnext
          exact ih hhigh hrest hnext

/-- An attempt that succeeds has stored the row once, behind the others. -/
theorem attemptWrite_written {n : Nat} (hseq : link.seq = rows.length + 1)
    (hl : ComesTo (attemptWrite (ε := ε) event link c n) h (.done (.ok true)))
    (hs : Witnessed c rows h rows') : rows' = rows ++ [event.row link c] := by
  induction n generalizing h rows with
  | zero =>
    obtain ⟨-, heq⟩ := comesTo_done hl
    cases heq
  | succ n ih =>
    rw [attemptWrite_succ] at hl
    rcases comesTo_step hl with ⟨-, heq⟩ | ⟨ctx, w, t, rfl, hrest⟩
    · cases heq
    · cases hs with
      | cons hsound hnext =>
        have hgrows : ∀ e : Entry auditMachine, Appends e (event.row link c) →
            rowsIn c e.after.activity = rowsIn c e.before.activity ++ [event.row link c] := by
          intro e ha
          rw [ha.after, rowsIn_append, if_pos ⟨rfl, nofun⟩]
        rcases write_cases ctx (event.row link c) w with
          ⟨ha, -, hok⟩ | ⟨ha, -, f, herr⟩ | ⟨hsame, -, f, herr⟩
        · rw [hok] at hrest
          obtain ⟨rfl, -⟩ := comesTo_done hrest
          exact (witnessed_nil hnext).trans (hgrows _ ha)
        · -- the row is stored, but the writer tries again
          rw [herr] at hrest
          rw [hgrows _ ha] at hnext
          have hfalse := attemptWrite_taken (by omega) (by simp [hseq]) hrest hnext
          cases hfalse
        · rw [herr] at hrest
          rw [Entry.after, hsame] at hnext
          exact ih hseq hrest hnext

omit [CheckpointKeys] in
theorem placeBehind_append (hseq : link.seq = rows.length + 1) :
    placeBehind (rows ++ [event.row link c]) = ⟨link.seq, link.hash⟩ := by
  have hlen : ((rows ++ [event.row link c]).length : Int) = link.seq := by
    rw [hseq]
    simp
  rw [placeBehind, hlen, ChainView.head, List.getLast?_concat]
  rfl

omit [Platform] [CheckpointKeys] in
theorem actorKeyOf_quiet (event : AuditEvent) : (actorKeyOf (ε := ε) event).Only IsNoWrite := by
  unfold actorKeyOf
  split
  · trivial
  · cases event.userId with
    | none => trivial
    | some raw =>
      simp only [resolveActorKey]
      split
      · trivial
      · constructor
        · intro row heq
          cases heq
        · intro _
          trivial

omit [CheckpointKeys] in
/-- A link that is computed by some statements is computed by more. -/
theorem AuditEvent.LinkedBy.mono {head : ChainHead} {h' : List (Entry auditMachine)}
    (hl : event.LinkedBy c head h link) (hsub : h <:+: h') : event.LinkedBy c head h' link where
  hash := hl.hash
  timed := by
    obtain ⟨e, he, hread⟩ := hl.timed
    exact ⟨e, hsub.subset he, hread⟩
  resolved := by
    obtain ⟨h₀, hinfix, hkey⟩ := hl.resolved
    exact ⟨h₀, hinfix.trans hsub, hkey⟩

omit [CheckpointKeys] in
theorem Recorded.mono {head : ChainHead} {events : List AuditEvent} {h' : List (Entry auditMachine)}
    (hr : Recorded c h head events rows) (hsub : h <:+: h') : Recorded c h' head events rows := by
  induction hr with
  | nil => exact .nil
  | cons hrow hseq hprevious hlinked _ ih => exact .cons hrow hseq hprevious (hlinked.mono hsub) ih

/-- An event that is not dropped has been stored behind the last row. -/
theorem writeWithRetry_stores {out : ChainHead × Nat} (hout : out.2 = 0)
    (hl : ComesTo (writeWithRetry (ε := AuditError) event (placeBehind rows) c) h (.done (.ok out)))
    (hs : Witnessed c rows h rows') :
    ∃ link : ChainLink, link.seq = (placeBehind rows).seq + 1 ∧
      link.previousHash = (placeBehind rows).hash ∧ event.LinkedBy c (placeBehind rows) h link ∧
      rows' = rows ++ [event.row link c] ∧ out.1 = ⟨link.seq, link.hash⟩ := by
  obtain ⟨timestamp, h₁, t₁, rows₁, rfl, hnow, hs₁, hl₁, hr₁⟩ := witnessed_bind_ok hl hs
  obtain ⟨key, h₂, t₂, rows₂, rfl, hkey, hs₂, hl₂, hr₂⟩ := witnessed_bind_ok hl₁ hr₁
  obtain ⟨written, h₃, t₃, rows₃, rfl, hwritten, hs₃, hl₃, hr₃⟩ := witnessed_bind_ok hl₂ hr₂
  obtain rfl := Witnessed.quiet (p := auditNow) ⟨nofun, fun _ => trivial⟩ hnow hs₁
  obtain rfl := Witnessed.quiet (actorKeyOf_quiet event) hkey hs₂
  obtain ⟨rfl, heq⟩ := comesTo_done hl₃
  obtain rfl := witnessed_nil hr₃
  have hread : ∃ e ∈ h₁, e.stmt = .now ∧ timestamp = e.after.now := by
    rcases comesTo_step hnow with ⟨-, heq⟩ | ⟨ctx, w, t, rfl, hrest⟩
    · cases heq
    · obtain ⟨-, heq⟩ := comesTo_done hrest
      cases heq
      exact ⟨_, List.mem_cons_self, rfl, rfl⟩
  cases written with
  | false =>
    cases heq
    cases hout
  | true =>
    cases heq
    refine ⟨_, rfl, rfl, ⟨rfl, ?_, ?_⟩, attemptWrite_written rfl hwritten hs₃, rfl⟩
    · obtain ⟨e, he, hclock⟩ := hread
      exact ⟨e, List.mem_append_left _ he, hclock⟩
    · exact ⟨h₂, ⟨h₁, h₃ ++ [], List.append_assoc _ _ _⟩, hkey⟩

/-! ## The loop -/

omit [CheckpointKeys] in
/-- The count of dropped events never falls. -/
theorem takeAudit_dropped {head : Option ChainHead} {dropped : Nat} {taken : List AuditMsg}
    {out : Option ChainHead × Nat}
    (hl : ComesTo (takeAudit (ε := ε) c head dropped taken) h (.done (.ok out))) :
    dropped ≤ out.2 := by
  induction taken generalizing head dropped h with
  | nil =>
    obtain ⟨-, heq⟩ := comesTo_done hl
    cases heq
    exact Nat.le_refl _
  | cons message taken ih =>
    cases message with
    | flush =>
      obtain ⟨_, _, _, -, -, hl⟩ := comesTo_bind_ok hl
      exact ih hl
    | event event =>
      obtain ⟨_, _, _, -, -, hl⟩ := comesTo_bind_ok hl
      obtain ⟨known, _, _, -, -, hl⟩ := comesTo_bind_ok hl
      cases known with
      | none => exact Nat.le_of_succ_le (ih hl)
      | some known =>
        obtain ⟨written, _, _, -, -, hl⟩ := comesTo_bind_ok hl
        exact (Nat.le_add_right _ _).trans (ih hl)

/-- **The loop.** A writer that has dropped nothing has stored the events
    that it has taken, behind the rows that it found. -/
theorem takeAudit_records {head : Option ChainHead} {taken : List AuditMsg}
    {out : Option ChainHead × Nat} (hout : out.2 = 0)
    (hhead : ∀ place, head = some place → place = placeBehind rows)
    (hl : ComesTo (takeAudit (ε := AuditError) c head 0 taken) h (.done (.ok out)))
    (hs : Witnessed c rows h rows') :
    ∃ new, rows' = rows ++ new ∧ Recorded c h (placeBehind rows) (eventsOf taken) new := by
  induction taken generalizing head rows h with
  | nil =>
    obtain ⟨rfl, -⟩ := comesTo_done hl
    cases hs
    exact ⟨[], (List.append_nil _).symm, .nil⟩
  | cons message taken ih =>
    cases message with
    | flush =>
      obtain ⟨_, h₁, t₁, rows₁, rfl, hwait, hs₁, hl₁, hr₁⟩ := witnessed_bind_ok hl hs
      obtain rfl := Witnessed.quiet (p := receive head) ⟨nofun, fun _ => trivial⟩ hwait hs₁
      obtain ⟨new, hrows, hrecords⟩ := ih hhead hl₁ hr₁
      exact ⟨new, hrows, hrecords.mono (List.suffix_append h₁ t₁).isInfix⟩
    | event event =>
      obtain ⟨_, h₁, t₁, rows₁, rfl, hwait, hs₁, hl₁, hr₁⟩ := witnessed_bind_ok hl hs
      obtain rfl := Witnessed.quiet (p := receive head) ⟨nofun, fun _ => trivial⟩ hwait hs₁
      obtain ⟨known, h₂, t₂, rows₂, rfl, hknown, hs₂, hl₂, hr₂⟩ := witnessed_bind_ok hl₁ hr₁
      obtain ⟨rfl, hplace⟩ := knownHead_place hhead hknown hs₂
      cases known with
      | none =>
        -- without a head the event is dropped
        have hle := takeAudit_dropped hl₂
        omega
      | some known =>
        obtain rfl := hplace known rfl
        obtain ⟨written, h₃, t₃, rows₃, rfl, hwritten, hs₃, hl₃, hr₃⟩ := witnessed_bind_ok hl₂ hr₂
        have hle := takeAudit_dropped hl₃
        have hzero : written.2 = 0 := by omega
        obtain ⟨link, hseq, hprevious, hlinked, rfl, hnext⟩ :=
          writeWithRetry_stores hzero hwritten hs₃
        have hbehind : placeBehind (rows₂ ++ [event.row link c]) = ⟨link.seq, link.hash⟩ :=
          placeBehind_append hseq
        have hhead' : ∀ place, some written.1 = some place →
            place = placeBehind (rows₂ ++ [event.row link c]) := by
          intro place hplace
          rw [hbehind, ← hnext]
          exact (Option.some.inj hplace).symm
        rw [hzero] at hl₃
        obtain ⟨new, hrows, hrecords⟩ := ih hhead' hl₃ hr₃
        refine ⟨event.row link c :: new, by simpa using hrows, ?_⟩
        rw [hbehind] at hrecords
        have hwrite : h₃ <:+: h₁ ++ (h₂ ++ (h₃ ++ t₃)) :=
          ⟨h₁ ++ h₂, t₃, by simp only [List.append_assoc]⟩
        have hrest : t₃ <:+: h₁ ++ (h₂ ++ (h₃ ++ t₃)) :=
          ⟨h₁ ++ h₂ ++ h₃, [], by simp only [List.append_assoc, List.append_nil]⟩
        exact .cons rfl hseq hprevious (hlinked.mono hwrite) (hrecords.mono hrest)

/-! ## The report -/

/-- The writer waits, with `head` in memory, after it has handled the
    messages `taken` by the statements `h`. -/
structure IdleAfter (c : Str) (messages : List AuditMsg) (h : List (Entry auditMachine))
    (taken : List AuditMsg) (head : Option ChainHead) (dropped : Nat) : Prop where
  isPrefix : taken <+: messages
  handled : ComesTo (takeAudit (ε := AuditError) c none 0 taken) h (.done (.ok (head, dropped)))

/-- The flag and the counter after `n` calls of `mark_dropped`. -/
def healthAfter (n : Nat) : AuditHealth := AuditHealth.markDropped^[n] AuditHealth.init

omit [Platform] [CheckpointKeys] in
theorem healthAfter_report {n : Nat} (h : (healthAfter n).report = (true, 0)) : n = 0 := by
  cases n with
  | zero => rfl
  | succ n =>
    rw [healthAfter, Function.iterate_succ_apply'] at h
    cases h

variable {w : AuditStore} {i : Nat}

/-- The statements of the only writer of a chain see its rows grow by their
    own writes. -/
theorem witnessed_of_steps {tr w'} (hsteps : Steps (S := auditors) w tr w') (hsole : SoleWriter i c tr)
    (hsound : ∀ tr₁ j e tr₂, tr = tr₁ ++ (j, e) :: tr₂ → AuditStore.Sound e.before)
    {first : Entry auditMachine} {h : List (Entry auditMachine)}
    (hentries : entriesOf (S := auditors) i tr = first :: h) :
    Witnessed c (rowsIn c first.before.activity) (first :: h) (rowsIn c w'.activity) := by
  induction hsteps generalizing h with
  | nil => cases hentries
  | @snoc tr w' j e hsteps he ih =>
    have hsole' : SoleWriter i c tr := by
      intro tr₁ k e' tr₂ row htr
      apply hsole tr₁ k e' (tr₂ ++ [(j, e)]) row
      rw [htr, List.append_assoc, List.cons_append]
    have hsound' : ∀ tr₁ k e' tr₂, tr = tr₁ ++ (k, e') :: tr₂ → AuditStore.Sound e'.before := by
      intro tr₁ k e' tr₂ htr
      apply hsound tr₁ k e' (tr₂ ++ [(j, e)])
      rw [htr, List.append_assoc, List.cons_append]
    have hbefore : AuditStore.Sound e.before := hsound tr j e [] rfl
    by_cases hj : j = i
    · subst hj
      rw [entriesOf_snoc_self] at hentries
      cases hold : entriesOf (S := auditors) j tr with
      | nil =>
        rw [hold] at hentries
        cases hentries
        exact .cons hbefore (.nil _)
      | cons first' h' =>
        rw [hold, List.cons_append] at hentries
        obtain ⟨rfl, rfl⟩ := List.cons.inj hentries
        exact (ih hsole' hsound' hold).snoc hbefore (by rw [he])
    · rw [entriesOf_snoc_ne _ _ hj] at hentries
      -- another task stores no row of this chain
      have hsame : rowsIn c e.after.activity = rowsIn c w'.activity := by
        rw [← he]
        rcases activity_after e with hsame | ⟨row, happends⟩
        · rw [hsame]
        · rw [happends.after, rowsIn_append, if_neg]
          intro hrow
          exact hj (hsole tr j e [] row rfl (by rw [hentries]; exact List.cons_ne_nil _ _)
            happends hrow.1)
      rw [hsame]
      exact ih hsole' hsound' hentries

/-- **The health report.** Whenever a writer waits, and the report is
    healthy with no dropped events, the rows of its chain that were stored
    since its first statement are the events that it has taken, in their
    order, once each, linked one to the other, under the hashes, the times
    and the actors that its statements have given them. -/
theorem health_report_sound {conf : auditors.Conf} (hw : w.IsUnchained) (hc : Reachable w conf)
    {messages : List AuditMsg} (hreq : conf.reqOf i = some (.write c messages))
    {tr₁ tr₂ : List (Nat × Entry auditMachine)} {e : Entry auditMachine}
    (htr : conf.trace = tr₁ ++ (i, e) :: tr₂) (hsole : SoleWriter i c tr₁)
    {head : Option ChainHead} (hidle : e.stmt = .receive head) :
    ∃ taken dropped, IdleAfter c messages (entriesOf (S := auditors) i tr₁) taken head dropped ∧
      ∀ others first, (entriesOf (S := auditors) i (tr₁ ++ [(i, e)])).head? = some first →
        (healthAfter (dropped + others)).report = (true, 0) →
        ∃ new, rowsIn c e.before.activity = rowsIn c first.before.activity ++ new ∧
          Recorded c (entriesOf (S := auditors) i tr₁) (first.before.tail c) (eventsOf taken)
            new := by
  have hsoundAt : ∀ t₁ j e' t₂, conf.trace = t₁ ++ (j, e') :: t₂ → AuditStore.Sound e'.before := by
    intro t₁ j e' t₂ h
    obtain ⟨conf₁, hc₁, -, hstate⟩ := hc.before h
    rw [← hstate]
    exact (audit_run hw hc₁).2.sound
  -- the writer has handled the messages up to some place
  obtain ⟨k, hcomes⟩ : ∃ k, ComesTo (auditors.program (.write c messages))
      (entriesOf (S := auditors) i tr₁) (.step (AuditStmt.receive head) k) := by
    rw [← hidle]
    exact hc.comesTo htr hreq
  have hreturns : ∀ n, (return .written n : AuditTask AuditError AuditAnswer).Only IsWork :=
    fun _ => trivial
  obtain ⟨taken, dropped, htaken, hhandled⟩ := serveAudit_waits hreturns hcomes
  refine ⟨taken, dropped, ⟨htaken, hhandled⟩, ?_⟩
  intro others first hfirst hhealthy
  have hzero : dropped = 0 := by
    have h := healthAfter_report hhealthy
    omega
  -- and its statements see the rows grow
  have hsteps := hc.steps
  rw [htr] at hsteps
  have hfirstSound : AuditStore.Sound first.before := by
    have hmem : first ∈ entriesOf (S := auditors) i (tr₁ ++ [(i, e)]) := List.mem_of_head? hfirst
    obtain ⟨t₁, t₂, ht⟩ := List.append_of_mem (mem_entriesOf.mp hmem)
    apply hsoundAt t₁ i first (t₂ ++ tr₂)
    rw [htr, ← List.singleton_append, ← List.append_assoc, ht]
    simp
  have hseen : Witnessed c (rowsIn c first.before.activity) (entriesOf (S := auditors) i tr₁)
      (rowsIn c e.before.activity) := by
    cases hentries : entriesOf (S := auditors) i tr₁ with
    | nil =>
      rw [entriesOf_snoc_self, hentries] at hfirst
      obtain rfl : e = first := Option.some.inj hfirst
      exact .nil _
    | cons first' h =>
      rw [entriesOf_snoc_self, hentries] at hfirst
      obtain rfl : first' = first := Option.some.inj hfirst
      apply witnessed_of_steps hsteps.split_entry.1 hsole _ hentries
      intro t₁ j e' t₂ ht
      apply hsoundAt t₁ j e' (t₂ ++ (i, e) :: tr₂)
      rw [htr, ht]
      simp
  have hplace := hfirstSound.tail_eq (c := c)
  have hnone : ∀ place, (none : Option ChainHead) = some place →
      place = placeBehind (rowsIn c first.before.activity) := by
    intro place h
    cases h
  subst hzero
  obtain ⟨new, hnew, hrecords⟩ := takeAudit_records rfl hnone hhandled hseen
  refine ⟨new, hnew, ?_⟩
  rw [hplace]
  exact hrecords

end

end

namespace Sample

/-- A writer of two events, whose first write is refused once. -/
def retried : List auditors.Action :=
  .start (.write "a".toList [.event (auditEvent "login"), .event (auditEvent "logout")]) ::
    (auditSteps 0 3 ++ [.step 0 { AuditCtx.calm with fault := some .refused }] ++ auditSteps 0 4)

/-- It waits with the second row as its head. -/
def resting : Entry auditMachine :=
  ⟨.calm, .receive (some ((auditAfter retried).state.tail "a".toList)), (auditAfter retried).state⟩

theorem trace_resting : (auditAfter (retried ++ [.step 0 .calm])).trace =
    (auditAfter retried).trace ++ (0, resting) :: [] := rfl

theorem soleWriter_retried : SoleWriter 0 "a".toList (auditAfter retried).trace := by
  have hall : (auditAfter retried).trace.all (fun e => e.1 = 0) = true := by decide +kernel
  intro tr₁ j e tr₂ row htr _ _ _
  have hmem : (j, e) ∈ (auditAfter retried).trace := by
    rw [htr]
    simp
  exact of_decide_eq_true (List.all_eq_true.mp hall _ hmem)

theorem health_report_retried :
    (rowsIn "a".toList resting.before.activity).length = 2 ∧
    ∃ taken dropped, IdleAfter "a".toList
        [.event (auditEvent "login"), .event (auditEvent "logout")]
        (entriesOf (S := auditors) 0 (auditAfter retried).trace) taken
        (some (resting.before.tail "a".toList)) dropped ∧
      ∀ others first, (entriesOf (S := auditors) 0
          ((auditAfter retried).trace ++ [(0, resting)])).head? = some first →
        (healthAfter (dropped + others)).report = (true, 0) →
        ∃ new, rowsIn "a".toList resting.before.activity =
            rowsIn "a".toList first.before.activity ++ new ∧
          Recorded "a".toList (entriesOf (S := auditors) 0 (auditAfter retried).trace)
            (first.before.tail "a".toList) (eventsOf taken) new :=
  ⟨by decide +kernel, health_report_sound AuditStore.isUnchained_empty
    (auditAfter_reachable (retried ++ [.step 0 .calm])) rfl trace_resting soleWriter_retried rfl⟩

end Sample

end SoulAuth
