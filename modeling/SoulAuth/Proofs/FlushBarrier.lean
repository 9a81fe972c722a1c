import SoulAuth.Services.AuditQueue

/-! # The barrier of a flush

A call of `flush` that returns has waited for every event that stands
before its mark in the queue. An event whose task still waits for a place
comes behind the mark, although its `record` has returned before the flush
was called.
-/

namespace SoulAuth.AuditQueue

/-- The event has been written, or counted as dropped. -/
def Settled (q : AuditQueue) (n : Nat) : Prop := n ∈ q.written ∨ n ∈ q.dropped

/-- For every call of `flush` that has returned in time, the events recorded
    before it are settled. -/
def Barrier (q : AuditQueue) : Prop :=
  ∀ (f : Nat) (call : FlushCall), q.flushes[f]? = some call → call.state = .returned →
    ∀ n < call.recorded, q.Settled n

/-- The step lets no mark overtake an event: no event that was recorded
    before a flush still waits for a place when the mark of the flush is
    sent; and the writer ends only when it has nothing left to do. -/
def Orderly (q : AuditQueue) : QueueAction → Prop
  | .enter f => ∀ call, q.flushes[f]? = some call → ∀ n ∈ q.overflow, call.recorded ≤ n
  | .stop => q.writing = none ∧ ∀ n, .event n ∉ q.queue
  | _ => True

/-- Every step of the run is orderly. -/
def OrderlyRun (q : AuditQueue) : List QueueAction → Prop
  | [] => True
  | a :: as => q.Orderly a ∧ (q.next a).OrderlyRun as

/-- What holds along an orderly run. -/
structure Kept (q : AuditQueue) : Prop where
  accounted : ∀ n < q.events.length,
    n ∈ q.overflow ∨ .event n ∈ q.queue ∨ q.writing = some n ∨ q.Settled n
  recorded : ∀ (f : Nat) (call : FlushCall), q.flushes[f]? = some call →
    call.recorded ≤ q.events.length
  known : ∀ f, .flush f ∈ q.queue → f < q.flushes.length
  marked : ∀ (f : Nat) (call : FlushCall), q.flushes[f]? = some call → call.state = .waiting →
    .flush f ∈ q.queue
  ahead : ∀ (a b : List QueuedMsg) (f : Nat) (call : FlushCall), q.queue = a ++ .flush f :: b →
    q.flushes[f]? = some call → ∀ n < call.recorded, n ∉ q.overflow ∧ .event n ∉ b
  ended : q.stopped = true → q.queue = [] ∧ q.writing = none
  barrier : q.Barrier

theorem kept_init : init.Kept where
  accounted _ h := absurd h (Nat.not_lt_zero _)
  recorded _ _ h := by cases h
  known _ h := by cases h
  marked _ _ h := by cases h
  ahead a _ _ _ h := by
    have hnil : [] = a ++ _ := h
    cases a <;> cases hnil
  ended h := by cases h
  barrier _ _ h := by cases h

/-- What stands before the last message, and the last message. -/
theorem split_snoc {queue a b : List QueuedMsg} {x y : QueuedMsg}
    (h : queue ++ [x] = a ++ y :: b) :
    b = [] ∧ a = queue ∧ y = x ∨ ∃ b', b = b' ++ [x] ∧ queue = a ++ y :: b' := by
  rcases List.eq_nil_or_concat b with rfl | ⟨b', z, rfl⟩
  · obtain ⟨rfl, hy⟩ := List.append_inj' h rfl
    exact .inl ⟨rfl, rfl, (List.cons.inj hy).1.symm⟩
  · rw [List.concat_eq_append, ← List.cons_append, ← List.append_assoc] at h
    obtain ⟨rfl, hz⟩ := List.append_inj' h rfl
    obtain rfl := (List.cons.inj hz).1
    exact .inr ⟨b', List.concat_eq_append, rfl⟩

variable {q q' : AuditQueue}

theorem Barrier.mono (h : q.Barrier) (hflushes : q'.flushes = q.flushes)
    (hs : ∀ n, q.Settled n → q'.Settled n) : q'.Barrier := by
  intro f call hf hreturned n hn
  rw [hflushes] at hf
  exact hs n (h f call hf hreturned n hn)

/-! ## Changes of the flushes -/

theorem flushes_setFlush {f g : Nat} {state : FlushState} {call : FlushCall}
    (h : (q.setFlush f state).flushes[g]? = some call) :
    ∃ old, q.flushes[g]? = some old ∧ old.recorded = call.recorded ∧
      (f = g ∧ call.state = state ∨ f ≠ g ∧ call = old) := by
  simp only [setFlush, List.getElem?_modify] at h
  obtain ⟨old, hold, hcall⟩ := Option.map_eq_some_iff.mp h
  by_cases hfg : f = g
  · rw [if_pos hfg] at hcall
    subst hcall
    exact ⟨old, hold, rfl, .inl ⟨hfg, rfl⟩⟩
  · rw [if_neg hfg] at hcall
    subst hcall
    exact ⟨old, hold, rfl, .inr ⟨hfg, rfl⟩⟩

/-! ## The steps -/

/-- The events recorded so far are known by smaller numbers. -/
theorem Kept.not_new (h : q.Kept) {f : Nat} {call : FlushCall} (hf : q.flushes[f]? = some call)
    {n : Nat} (hn : n < call.recorded) : n ≠ q.events.length :=
  (hn.trans_le (h.recorded f call hf)).ne

theorem Kept.record (h : q.Kept) (event : AuditEvent) (reserved : Bool) :
    (q.record event reserved).Kept := by
  have hrecorded : ∀ (f : Nat) (call : FlushCall), q.flushes[f]? = some call →
      call.recorded ≤ (q.events ++ [event]).length := by
    intro f call hf
    have hle := h.recorded f call hf
    rw [List.length_append]
    omega
  have hcases : ∀ n < (q.events ++ [event]).length, n < q.events.length ∨ n = q.events.length := by
    intro n hn
    rw [List.length_append, List.length_singleton] at hn
    omega
  unfold AuditQueue.record
  dsimp only
  by_cases hstopped : q.stopped = true
  · rw [if_pos hstopped]
    have hs : ∀ n, q.Settled n → n ∈ q.written ∨ n ∈ q.dropped ++ [q.events.length] := by
      intro n hn
      exact hn.imp_right (List.mem_append_left _)
    constructor
    · intro n hn
      rcases hcases n hn with hlt | rfl
      · rcases h.accounted n hlt with ho | hq | hw | hn
        · exact .inl ho
        · exact .inr (.inl hq)
        · exact .inr (.inr (.inl hw))
        · exact .inr (.inr (.inr (hs n hn)))
      · exact .inr (.inr (.inr (.inr (by simp [drop]))))
    · exact hrecorded
    · exact h.known
    · exact h.marked
    · exact h.ahead
    · exact h.ended
    · exact h.barrier.mono rfl hs
  · rw [if_neg hstopped]
    by_cases hroom : HasRoom { q with events := q.events ++ [event] } ∧ reserved = false
    · rw [if_pos hroom]
      constructor
      · intro n hn
        rcases hcases n hn with hlt | rfl
        · rcases h.accounted n hlt with ho | hq | hrest
          · exact .inl ho
          · exact .inr (.inl (List.mem_append_left _ hq))
          · exact .inr (.inr hrest)
        · exact .inr (.inl (by simp))
      · exact hrecorded
      · intro f hf
        exact h.known f (by simpa using hf)
      · intro f call hf hwaiting
        exact List.mem_append_left _ (h.marked f call hf hwaiting)
      · intro a b f call hqueue hf n hn
        rcases split_snoc hqueue with ⟨-, -, hmark⟩ | ⟨b', rfl, hold⟩
        · cases hmark
        · obtain ⟨ho, hb⟩ := h.ahead a b' f call hold hf n hn
          refine ⟨ho, ?_⟩
          have hne := h.not_new hf hn
          simp [hb, hne]
      · intro hended
        exact absurd hended hstopped
      · exact h.barrier.mono rfl fun _ hn => hn
    · rw [if_neg hroom]
      constructor
      · intro n hn
        rcases hcases n hn with hlt | rfl
        · rcases h.accounted n hlt with ho | hrest
          · exact .inl (List.mem_append_left _ ho)
          · exact .inr hrest
        · exact .inl (by simp)
      · exact hrecorded
      · exact h.known
      · exact h.marked
      · intro a b f call hqueue hf n hn
        obtain ⟨ho, hb⟩ := h.ahead a b f call hqueue hf n hn
        refine ⟨?_, hb⟩
        have hne := h.not_new hf hn
        simp [ho, hne]
      · exact h.ended
      · exact h.barrier.mono rfl fun _ hn => hn

theorem Kept.resend (h : q.Kept) (n : Nat) : (q.resend n).Kept := by
  unfold AuditQueue.resend
  by_cases hn : n ∈ q.overflow
  · rw [if_pos hn]
    -- the other tasks still wait
    have hothers : ∀ m ∈ q.overflow, m ∈ q.overflow.erase n ∨ m = n := by
      intro m hm
      by_cases hmn : m = n
      · exact .inr hmn
      · exact .inl ((List.mem_erase_of_ne hmn).mpr hm)
    by_cases hstopped : q.stopped = true
    · rw [if_pos hstopped]
      have hs : ∀ m, q.Settled m → m ∈ q.written ∨ m ∈ q.dropped ++ [n] := by
        intro m hm
        exact hm.imp_right (List.mem_append_left _)
      constructor
      · intro m hm
        rcases h.accounted m hm with ho | hq | hw | hsettled
        · rcases hothers m ho with ho | rfl
          · exact .inl ho
          · exact .inr (.inr (.inr (.inr (by simp [drop]))))
        · exact .inr (.inl hq)
        · exact .inr (.inr (.inl hw))
        · exact .inr (.inr (.inr (hs m hsettled)))
      · exact h.recorded
      · exact h.known
      · exact h.marked
      · intro a b f call hqueue hf m hm
        obtain ⟨ho, hb⟩ := h.ahead a b f call hqueue hf m hm
        exact ⟨fun hmem => ho (List.mem_of_mem_erase hmem), hb⟩
      · exact h.ended
      · exact h.barrier.mono rfl hs
    · rw [if_neg hstopped]
      by_cases hroom : q.HasRoom
      · rw [if_pos hroom]
        constructor
        · intro m hm
          rcases h.accounted m hm with ho | hq | hrest
          · rcases hothers m ho with ho | rfl
            · exact .inl ho
            · exact .inr (.inl (by simp))
          · exact .inr (.inl (List.mem_append_left _ hq))
          · exact .inr (.inr hrest)
        · exact h.recorded
        · intro f hf
          exact h.known f (by simpa using hf)
        · intro f call hf hwaiting
          exact List.mem_append_left _ (h.marked f call hf hwaiting)
        · intro a b f call hqueue hf m hm
          rcases split_snoc hqueue with ⟨-, -, hmark⟩ | ⟨b', rfl, hold⟩
          · cases hmark
          · obtain ⟨ho, hb⟩ := h.ahead a b' f call hold hf m hm
            refine ⟨fun hmem => ho (List.mem_of_mem_erase hmem), ?_⟩
            -- an event that waits was not recorded before the flush
            have hne : m ≠ n := by
              rintro rfl
              exact ho hn
            simp [hb, hne]
        · intro hended
          exact absurd hended hstopped
        · exact h.barrier.mono rfl fun _ hm => hm
      · rw [if_neg hroom]
        exact h
  · rw [if_neg hn]
    exact h

theorem Kept.flush (h : q.Kept) : q.flush.Kept := by
  have hcases : ∀ (f : Nat) (call : FlushCall), q.flush.flushes[f]? = some call →
      q.flushes[f]? = some call ∨
        f = q.flushes.length ∧ call = ⟨q.events.length, .sending⟩ := by
    intro f call hf
    simp only [AuditQueue.flush, List.getElem?_append, List.getElem?_singleton] at hf
    split at hf
    · exact .inl hf
    · next hlen =>
      split at hf
      · next hzero => exact .inr ⟨by omega, (Option.some.inj hf).symm⟩
      · cases hf
  constructor
  · exact h.accounted
  · intro f call hf
    rcases hcases f call hf with hf | ⟨-, rfl⟩
    · exact h.recorded f call hf
    · exact Nat.le_refl _
  · intro f hf
    have hlt := h.known f hf
    simp only [AuditQueue.flush, List.length_append]
    omega
  · intro f call hf hwaiting
    rcases hcases f call hf with hf | ⟨-, rfl⟩
    · exact h.marked f call hf hwaiting
    · cases hwaiting
  · intro a b f call hqueue hf n hn
    have hmem : .flush f ∈ q.queue := by
      show .flush f ∈ q.flush.queue
      rw [hqueue]
      simp
    have hlt := h.known f hmem
    rcases hcases f call hf with hf | ⟨rfl, -⟩
    · exact h.ahead a b f call hqueue hf n hn
    · exact absurd hlt (Nat.lt_irrefl _)
  · exact h.ended
  · intro f call hf hreturned n hn
    rcases hcases f call hf with hf | ⟨-, rfl⟩
    · exact h.barrier f call hf hreturned n hn
    · cases hreturned

/-- A call of `flush` gives up, or comes to wait. -/
theorem Kept.setFlush (h : q.Kept) {f : Nat} {state : FlushState}
    (hmarked : state = .waiting → .flush f ∈ q.queue)
    (hreturned : state = .returned → ∀ call, q.flushes[f]? = some call →
      ∀ n < call.recorded, q.Settled n) : (q.setFlush f state).Kept := by
  constructor
  · exact h.accounted
  · intro g call hg
    obtain ⟨old, hold, hrecorded, -⟩ := flushes_setFlush hg
    rw [← hrecorded]
    exact h.recorded g old hold
  · intro g hg
    simpa [AuditQueue.setFlush] using h.known g hg
  · intro g call hg hwaiting
    obtain ⟨old, hold, -, ⟨rfl, hstate⟩ | ⟨-, rfl⟩⟩ := flushes_setFlush hg
    · exact hmarked (hstate.symm.trans hwaiting)
    · exact h.marked g call hold hwaiting
  · intro a b g call hqueue hg n hn
    obtain ⟨old, hold, hrecorded, -⟩ := flushes_setFlush hg
    rw [← hrecorded] at hn
    exact h.ahead a b g old hqueue hold n hn
  · exact h.ended
  · intro g call hg hreturns n hn
    obtain ⟨old, hold, hrecorded, ⟨rfl, hstate⟩ | ⟨-, rfl⟩⟩ := flushes_setFlush hg
    · rw [← hrecorded] at hn
      exact hreturned (hstate.symm.trans hreturns) old hold n hn
    · exact h.barrier g call hold hreturns n hn

/-- A mark behind the other messages. -/
theorem Kept.mark (h : q.Kept) (hstopped : ¬ q.stopped = true) {f : Nat}
    (hf : f < q.flushes.length)
    (horderly : ∀ call, q.flushes[f]? = some call → ∀ n ∈ q.overflow, call.recorded ≤ n) :
    Kept { q with queue := q.queue ++ [QueuedMsg.flush f] } := by
  constructor
  · intro n hn
    rcases h.accounted n hn with ho | hq | hrest
    · exact .inl ho
    · exact .inr (.inl (List.mem_append_left _ hq))
    · exact .inr (.inr hrest)
  · exact h.recorded
  · intro g hg
    rcases List.mem_append.mp hg with hg | hg
    · exact h.known g hg
    · obtain rfl : g = f := QueuedMsg.flush.inj (List.mem_singleton.mp hg)
      exact hf
  · intro g call hg hwaiting
    exact List.mem_append_left _ (h.marked g call hg hwaiting)
  · intro a b g call hqueue hg n hn
    rcases split_snoc hqueue with ⟨rfl, -, hmark⟩ | ⟨b', rfl, hold⟩
    · obtain rfl : g = f := QueuedMsg.flush.inj hmark
      refine ⟨?_, List.not_mem_nil⟩
      intro hwaits
      exact absurd hn (Nat.not_lt.mpr (horderly call hg n hwaits))
    · obtain ⟨ho, hb⟩ := h.ahead a b' g call hold hg n hn
      exact ⟨ho, by simpa using hb⟩
  · intro hended
    exact absurd hended hstopped
  · exact h.barrier.mono rfl fun _ hn => hn

theorem Kept.enter (h : q.Kept) {f : Nat} (horderly : q.Orderly (.enter f)) :
    (q.enter f).Kept := by
  unfold AuditQueue.enter
  by_cases hsending : (q.flushes[f]?).map FlushCall.state = some .sending
  · rw [if_pos hsending]
    obtain ⟨call, hcall, -⟩ := Option.map_eq_some_iff.mp hsending
    have hlt : f < q.flushes.length := (List.getElem?_eq_some_iff.mp hcall).1
    by_cases hstopped : q.stopped = true
    · rw [if_pos hstopped]
      obtain ⟨hqueue, hwriting⟩ := h.ended hstopped
      apply h.setFlush
      · intro hstate
        cases hstate
      · -- nothing is left but what has been settled
        intro _ call hcall n hn
        rcases h.accounted n (hn.trans_le (h.recorded f call hcall)) with ho | hq | hw | hsettled
        · exact absurd hn (Nat.not_lt.mpr (horderly call hcall n ho))
        · rw [hqueue] at hq
          cases hq
        · rw [hwriting] at hw
          cases hw
        · exact hsettled
    · rw [if_neg hstopped]
      by_cases hroom : q.HasRoom
      · rw [if_pos hroom]
        apply (h.mark hstopped hlt horderly).setFlush
        · intro _
          simp
        · intro hstate
          cases hstate
      · rw [if_neg hroom]
        exact h
  · rw [if_neg hsending]
    exact h

/-- The head of the queue is taken. -/
theorem Kept.take (h : q.Kept) {x : QueuedMsg} {queue : List QueuedMsg}
    (hqueue : q.queue = x :: queue) {a b : List QueuedMsg} {f : Nat} {call : FlushCall}
    (hrest : queue = a ++ .flush f :: b) (hf : q.flushes[f]? = some call) {n : Nat}
    (hn : n < call.recorded) : n ∉ q.overflow ∧ .event n ∉ b := by
  apply h.ahead (x :: a) b f call _ hf n hn
  rw [hqueue, hrest, List.cons_append]

/-- The mark of a call that does not wait is removed. -/
theorem Kept.unmark (h : q.Kept) {f : Nat} {queue : List QueuedMsg}
    (hqueue : q.queue = .flush f :: queue)
    (hdone : ∀ call, q.flushes[f]? = some call → call.state ≠ .waiting) :
    Kept { q with queue := queue } := by
  constructor
  · intro n hn
    rcases h.accounted n hn with ho | hq | hrest
    · exact .inl ho
    · rw [hqueue] at hq
      exact .inr (.inl (by simpa using hq))
    · exact .inr (.inr hrest)
  · exact h.recorded
  · intro g hg
    apply h.known g
    rw [hqueue]
    exact List.mem_cons_of_mem _ hg
  · intro g call hg hwaiting
    have hmem := h.marked g call hg hwaiting
    rw [hqueue] at hmem
    rcases List.mem_cons.mp hmem with heq | hmem
    · obtain rfl := QueuedMsg.flush.inj heq
      exact absurd hwaiting (hdone call hg)
    · exact hmem
  · intro a b g call hrest hg n hn
    exact h.take hqueue hrest hg hn
  · intro hended
    have hnil := (h.ended hended).1
    rw [hqueue] at hnil
    cases hnil
  · exact h.barrier.mono rfl fun _ hn => hn

theorem Kept.receive (h : q.Kept) : q.receive.Kept := by
  unfold AuditQueue.receive
  by_cases hbusy : q.stopped ∨ q.writing ≠ none
  · rw [if_pos hbusy]
    exact h
  · rw [if_neg hbusy]
    obtain ⟨hstopped, hwriting⟩ := not_or.mp hbusy
    rw [not_not] at hwriting
    split
    · exact h
    · next n queue hqueue =>
      constructor
      · intro m hm
        rcases h.accounted m hm with ho | hq | hw | hsettled
        · exact .inl ho
        · rw [hqueue] at hq
          rcases List.mem_cons.mp hq with heq | hq
          · obtain rfl := QueuedMsg.event.inj heq
            exact .inr (.inr (.inl rfl))
          · exact .inr (.inl hq)
        · rw [hwriting] at hw
          cases hw
        · exact .inr (.inr (.inr hsettled))
      · exact h.recorded
      · intro f hf
        apply h.known f
        rw [hqueue]
        exact List.mem_cons_of_mem _ hf
      · intro f call hf hwaiting
        have hmem := h.marked f call hf hwaiting
        rw [hqueue] at hmem
        simpa using hmem
      · intro a b f call hrest hf m hm
        exact h.take hqueue hrest hf hm
      · intro hended
        exact absurd hended hstopped
      · exact h.barrier.mono rfl fun _ hm => hm
    · next f queue hqueue =>
      -- before the mark, everything has been handled
      have hsettled : ∀ call, q.flushes[f]? = some call → ∀ n < call.recorded, q.Settled n := by
        intro call hcall n hn
        obtain ⟨ho, hb⟩ := h.ahead [] queue f call hqueue hcall n hn
        rcases h.accounted n (hn.trans_le (h.recorded f call hcall)) with hwaits | hq | hw | hs
        · exact absurd hwaits ho
        · rw [hqueue] at hq
          rcases List.mem_cons.mp hq with heq | hq
          · cases heq
          · exact absurd hq hb
        · rw [hwriting] at hw
          cases hw
        · exact hs
      dsimp only
      by_cases hwaiting : (q.flushes[f]?).map FlushCall.state = some .waiting
      · rw [if_pos hwaiting]
        have hset : (q.setFlush f .returned).Kept := by
          apply h.setFlush
          · intro hstate
            cases hstate
          · intro _
            exact hsettled
        apply hset.unmark (f := f) hqueue
        intro call hcall
        obtain ⟨old, -, -, ⟨-, hstate⟩ | ⟨hne, -⟩⟩ := flushes_setFlush hcall
        · rw [hstate]
          decide
        · exact absurd rfl hne
      · rw [if_neg hwaiting]
        apply h.unmark hqueue
        intro call hcall hstate
        rw [hcall] at hwaiting
        exact hwaiting (congrArg some hstate)

theorem Kept.finish (h : q.Kept) (written : Bool) : (q.finish written).Kept := by
  unfold AuditQueue.finish
  split
  · exact h
  · next n hwriting =>
    have hstopped : ¬ q.stopped = true := by
      intro hstopped
      rw [(h.ended hstopped).2] at hwriting
      cases hwriting
    -- whatever the outcome, the event is settled
    have hkept : ∀ w d health, (∀ m, q.Settled m → m ∈ w ∨ m ∈ d) → (n ∈ w ∨ n ∈ d) →
        Kept { q with writing := none, written := w, dropped := d, health := health } := by
      intro w d health hs hn
      constructor
      · intro m hm
        rcases h.accounted m hm with ho | hq | hw | hsettled
        · exact .inl ho
        · exact .inr (.inl hq)
        · obtain rfl : n = m := Option.some.inj (hwriting.symm.trans hw)
          exact .inr (.inr (.inr hn))
        · exact .inr (.inr (.inr (hs m hsettled)))
      · exact h.recorded
      · exact h.known
      · exact h.marked
      · exact h.ahead
      · intro hended
        exact absurd hended hstopped
      · exact h.barrier.mono rfl hs
    cases written with
    | true => exact hkept _ _ _ (fun m hm => hm.imp_left (List.mem_append_left _)) (by simp)
    | false => exact hkept _ _ _ (fun m hm => hm.imp_right (List.mem_append_left _)) (by simp)

theorem Kept.timeout (h : q.Kept) (f : Nat) : (q.timeout f).Kept := by
  unfold AuditQueue.timeout
  by_cases hwaiting : (q.flushes[f]?).map FlushCall.state = some .waiting
  · rw [if_pos hwaiting]
    have hset : (q.setFlush f .timedOut).Kept := by
      apply h.setFlush
      · intro hstate
        cases hstate
      · intro hstate
        cases hstate
    exact ⟨hset.accounted, hset.recorded, hset.known, hset.marked, hset.ahead, hset.ended,
      hset.barrier⟩
  · rw [if_neg hwaiting]
    exact h

theorem Kept.stop (h : q.Kept) (horderly : q.Orderly .stop) : q.stop.Kept := by
  obtain ⟨hwriting, hevents⟩ := horderly
  have hcases : ∀ (f : Nat) (call : FlushCall), q.stop.flushes[f]? = some call →
      ∃ old, q.flushes[f]? = some old ∧ old.recorded = call.recorded ∧ call.state ≠ .waiting ∧
        (call.state = .returned → old.state = .waiting ∨ old.state = .returned) := by
    intro f call hf
    simp only [AuditQueue.stop, List.getElem?_map] at hf
    obtain ⟨old, hold, rfl⟩ := Option.map_eq_some_iff.mp hf
    by_cases hstate : old.state = .waiting
    · rw [if_pos hstate]
      exact ⟨old, hold, rfl, nofun, fun _ => .inl hstate⟩
    · rw [if_neg hstate]
      exact ⟨old, hold, rfl, hstate, fun hreturned => .inr hreturned⟩
  constructor
  · intro n hn
    rcases h.accounted n hn with ho | hq | hw | hsettled
    · exact .inl ho
    · exact absurd hq (hevents n)
    · rw [hwriting] at hw
      cases hw
    · exact .inr (.inr (.inr hsettled))
  · intro f call hf
    obtain ⟨old, hold, hrecorded, -⟩ := hcases f call hf
    rw [← hrecorded]
    exact h.recorded f old hold
  · intro f hf
    cases hf
  · intro f call hf hwaiting
    obtain ⟨-, -, -, hstate, -⟩ := hcases f call hf
    exact absurd hwaiting hstate
  · intro a b f call hqueue
    have hnil : [] = a ++ _ := hqueue
    cases a <;> cases hnil
  · intro _
    exact ⟨rfl, rfl⟩
  · intro f call hf hreturned n hn
    obtain ⟨old, hold, hrecorded, -, hstate⟩ := hcases f call hf
    rw [← hrecorded] at hn
    rcases hstate hreturned with hwaiting | hold'
    · -- the mark is in the queue, and no event that it waits for
      obtain ⟨a, b, hqueue⟩ := List.append_of_mem (h.marked f old hold hwaiting)
      obtain ⟨ho, -⟩ := h.ahead a b f old hqueue hold n hn
      rcases h.accounted n (hn.trans_le (h.recorded f old hold)) with hwaits | hq | hw | hsettled
      · exact absurd hwaits ho
      · exact absurd hq (hevents n)
      · rw [hwriting] at hw
        cases hw
      · exact hsettled
    · exact h.barrier f old hold hold' n hn

/-- **A step.** -/
theorem Kept.next (h : q.Kept) {a : QueueAction} (ha : q.Orderly a) : (q.next a).Kept := by
  cases a with
  | record event reserved => exact h.record event reserved
  | resend n => exact h.resend n
  | flush => exact h.flush
  | enter f => exact h.enter ha
  | receive => exact h.receive
  | finish written => exact h.finish written
  | timeout f => exact h.timeout f
  | stop => exact h.stop ha

/-- **A run.** -/
theorem Kept.run (h : q.Kept) {as : List QueueAction} (has : q.OrderlyRun as) :
    (q.run as).Kept := by
  induction as generalizing q with
  | nil => exact h
  | cons a as ih => exact ih (h.next has.1) has.2

/-- **The barrier.** In every run whose steps are orderly, when a call of
    `flush` has returned in time, every event whose `record` had returned
    before the call has been written or counted as dropped. -/
theorem flush_is_barrier (as : List QueueAction) (has : init.OrderlyRun as) :
    (init.run as).Barrier :=
  (kept_init.run has).barrier

/-- A login, without details. -/
def sampleEvent : AuditEvent where
  action := "login_success".toList
  category := .authentication
  status := .success
  userId := none
  actorIdentityId := none
  ipAddress := "203.0.113.7".toList
  userAgent := []
  details := ⟨[], Json.keysDistinct_empty⟩

/-- An event is recorded, and a flush waits for it. -/
def calmRun : List QueueAction :=
  [.record sampleEvent false, .flush, .enter 0, .receive, .finish true, .receive]

theorem flush_is_barrier_calm :
    (init.run calmRun).flushes = [⟨1, .returned⟩] ∧ (init.run calmRun).Barrier := by
  have horderly : init.OrderlyRun calmRun := by
    refine ⟨trivial, trivial, ?_, trivial, trivial, trivial, trivial⟩
    intro call _ n hn
    cases hn
  exact ⟨rfl, flush_is_barrier calmRun horderly⟩

/-! ## A mark that overtakes an event -/

theorem run_append (q : AuditQueue) (as bs : List QueueAction) :
    q.run (as ++ bs) = (q.run as).run bs := List.foldl_append

/-- The queue with the events of `k` calls of `record`. -/
def filled (event : AuditEvent) (k : Nat) : AuditQueue where
  events := List.replicate k event
  queue := (List.range k).map .event
  overflow := []
  writing := none
  stopped := false
  flushes := []
  written := []
  dropped := []
  health := .init

theorem run_records (event : AuditEvent) {k : Nat} (hk : k ≤ queueCapacity) :
    init.run (List.replicate k (.record event false)) = filled event k := by
  induction k with
  | zero => rfl
  | succ k ih =>
    have hroom : k < queueCapacity := hk
    rw [List.replicate_succ', run_append, ih hroom.le]
    show AuditQueue.record (filled event k) event false = _
    unfold AuditQueue.record
    dsimp only
    rw [if_neg (by simp [filled]), if_pos ⟨by simpa [HasRoom, filled] using hroom, rfl⟩]
    simp only [filled, List.length_replicate, List.range_succ, List.map_append, List.map_cons,
      List.map_nil, List.replicate_succ']

/-- The writer takes and writes `k` events, and comes to a mark. -/
def drained : Nat → List QueueAction
  | 0 => [.receive]
  | k + 1 => .receive :: .finish true :: drained k

theorem run_drained {ns : List Nat} {f : Nat} {q : AuditQueue}
    (hqueue : q.queue = ns.map .event ++ [.flush f]) (hwriting : q.writing = none)
    (hstopped : q.stopped = false)
    (hwaiting : (q.flushes[f]?).map FlushCall.state = some .waiting) :
    q.run (drained ns.length) =
      AuditQueue.setFlush { q with queue := [], written := q.written ++ ns } f .returned := by
  have hidle : ¬ (q.stopped = true ∨ q.writing ≠ none) := by simp [hstopped, hwriting]
  induction ns generalizing q with
  | nil =>
    have hmark : q.queue = [.flush f] := hqueue
    show q.receive = _
    unfold AuditQueue.receive
    rw [if_neg hidle, hmark]
    dsimp only
    rw [if_pos hwaiting, List.append_nil]
  | cons n ns ih =>
    have hhead : q.queue = .event n :: (ns.map .event ++ [.flush f]) := hqueue
    have htake : q.receive = { q with queue := ns.map .event ++ [.flush f], writing := some n } := by
      unfold AuditQueue.receive
      rw [if_neg hidle, hhead]
    have hwrite : q.receive.finish true =
        { q with queue := ns.map .event ++ [.flush f], written := q.written ++ [n] } := by
      rw [htake]
      simp only [AuditQueue.finish, if_true, hwriting]
    show (q.receive.finish true).run (drained ns.length) = _
    rw [hwrite]
    have hrest := ih (q := { q with
      queue := ns.map .event ++ [.flush f], written := q.written ++ [n] })
      rfl hwriting hstopped hwaiting hidle
    rw [hrest]
    simp only [List.append_assoc, List.singleton_append]

/-- An event finds the queue full. A flush is called, the writer makes a
    place, and the mark takes it. -/
def overtaking (event : AuditEvent) : List QueueAction :=
  [.record event false, .flush, .receive, .finish true, .enter 0]

theorem run_overtaking (event : AuditEvent) {m : Nat} {queue : List QueuedMsg}
    (hqueue : q.queue = .event m :: queue) (hfull : queue.length + 1 = queueCapacity)
    (hwriting : q.writing = none) (hstopped : q.stopped = false) (hflushes : q.flushes = []) :
    q.run (overtaking event) =
      { q with
        events := q.events ++ [event]
        queue := queue ++ [.flush 0]
        overflow := q.overflow ++ [q.events.length]
        flushes := [⟨(q.events ++ [event]).length, .waiting⟩]
        written := q.written ++ [m] } := by
  have hrecord : q.record event false =
      { q with events := q.events ++ [event], overflow := q.overflow ++ [q.events.length] } := by
    have hroom : ¬ HasRoom { q with events := q.events ++ [event] } := by
      simp only [HasRoom, hqueue, List.length_cons, hfull]
      exact Nat.lt_irrefl _
    unfold AuditQueue.record
    dsimp only
    rw [if_neg (by simp [hstopped]), if_neg fun h => hroom h.1]
  show ((((q.record event false).flush).receive).finish true).enter 0 = _
  rw [hrecord]
  have htake : ∀ q' : AuditQueue, q'.queue = .event m :: queue → q'.writing = none →
      q'.stopped = false → q'.receive.finish true =
        { q' with queue := queue, written := q'.written ++ [m] } := by
    intro q' hq' hw hs
    have hreceive : q'.receive = { q' with queue := queue, writing := some m } := by
      unfold AuditQueue.receive
      rw [if_neg (by simp [hs, hw]), hq']
    rw [hreceive]
    simp only [AuditQueue.finish, if_true, hw]
  have htaken := htake (AuditQueue.flush
    { q with events := q.events ++ [event], overflow := q.overflow ++ [q.events.length] })
    hqueue hwriting hstopped
  rw [htaken]
  unfold AuditQueue.enter
  have hroom : queue.length < queueCapacity := by omega
  simp [AuditQueue.flush, hflushes, hstopped, HasRoom, hroom, AuditQueue.setFlush]

/-- The whole run, from the start of the process. -/
def crowded (event : AuditEvent) : List QueueAction :=
  List.replicate queueCapacity (.record event false) ++ (overtaking event ++ drained 4095)

theorem run_crowded (event : AuditEvent) :
    (init.run (crowded event)).flushes = [⟨queueCapacity + 1, .returned⟩] ∧
    (init.run (crowded event)).written = 0 :: List.range' 1 4095 ∧
    (init.run (crowded event)).dropped = [] := by
  have hqueue : (filled event queueCapacity).queue =
      .event 0 :: (List.range' 1 4095).map .event := by
    rw [filled, queueCapacity, List.range_eq_range', List.range'_succ, List.map_cons]
  have hfull : ((List.range' 1 4095).map QueuedMsg.event).length + 1 = queueCapacity := by
    rw [List.length_map, List.length_range']
    rfl
  have hlen : drained 4095 = drained (List.range' 1 4095).length := by rw [List.length_range']
  rw [crowded, run_append, run_records event le_rfl, run_append,
    run_overtaking event hqueue hfull rfl rfl rfl, hlen, run_drained rfl rfl rfl rfl]
  refine ⟨?_, rfl, rfl⟩
  simp [AuditQueue.setFlush, filled]

/-- The event that found the queue full is neither written nor dropped when
    the flush returns. -/
theorem flush_no_barrier : ¬ ∀ as, (init.run as).Barrier := by
  intro h
  obtain ⟨hflushes, hwritten, hdropped⟩ := run_crowded sampleEvent
  have hcall : (init.run (crowded sampleEvent)).flushes[0]? =
      some ⟨queueCapacity + 1, .returned⟩ := by
    rw [hflushes]
    rfl
  have hsettled := h (crowded sampleEvent) 0 _ hcall rfl queueCapacity (Nat.lt_succ_self _)
  unfold Settled at hsettled
  rw [hwritten, hdropped] at hsettled
  rcases hsettled with hwritten | hdropped
  · rcases List.mem_cons.mp hwritten with hzero | hmem
    · cases hzero
    · obtain ⟨i, hi, heq⟩ := List.mem_range'.mp hmem
      have hcapacity : queueCapacity = 4096 := rfl
      omega
  · cases hdropped

end SoulAuth.AuditQueue
