import Mathlib.Data.List.Forall2
import Mathlib.Tactic.Ring
import SoulAuth.Proofs.SlidingWindow
import SoulAuth.Utils.RateLimitMiddleware

/-! # The rate limit of the routes

Whatever the shared backend answers, a request passes the layer only if the
limiter of the process has admitted it. So the window of the limiter bounds
what reaches the handlers, under the name that the layer gives the client.
What the layer itself costs, an audit event for a request that begins a
block, is bounded as well: a flood of refused requests is no flood of events.
-/

namespace SoulAuth

/-! ## Runs -/

/-- What happens to the layer: a request, with the answer of the shared
    backend, or the periodic cleanup. -/
inductive LayerEvent
  | request (req : LimitedRequest) (t : Readings) (shared : Option RateLimitDecision)
  | cleanup (now : Int)

/-- What the limiter sees of it. -/
def LayerEvent.limited (trustProxyHeaders : Bool) : LayerEvent → LimiterEvent
  | request req t _ =>
    .check (clientIp req.addr req.headers trustProxyHeaders) (rateLimitEndpoint req) t
  | cleanup now => .cleanup now

/-- The answers of a run. -/
def RateLimiter.layerRun (l : RateLimiter) (trustProxyHeaders : Bool) :
    Records → List LayerEvent → List LayerAnswer
  | _, [] => []
  | records, .request req t shared :: es =>
    let out := rateLimitLayer l trustProxyHeaders records req t shared
    out.1 :: l.layerRun trustProxyHeaders out.2 es
  | records, .cleanup now :: es =>
    l.layerRun trustProxyHeaders (cleanupExpiredRecords records now) es

namespace LayerAnswer

/-- The answer is one of a bucket. -/
def isOf (trustProxyHeaders : Bool) (ip endpoint : Str) (a : LayerAnswer) : Bool :=
  clientIp a.req.addr a.req.headers trustProxyHeaders = ip && rateLimitEndpoint a.req = endpoint

/-- The request came from this address, whatever its headers say. -/
def isFrom (addr endpoint : Str) (a : LayerAnswer) : Bool :=
  a.req.addr = addr && rateLimitEndpoint a.req = endpoint

/-- The request was checked in the interval of length `w` that ends at `x`. -/
def isWithin (w : Nat) (x : Int) (a : LayerAnswer) : Bool :=
  x - w < a.t.recorded && a.t.recorded ≤ x

/-- The request has cost something: it has passed, or was audited. -/
def isCostly (a : LayerAnswer) : Bool := a.response.isNone || a.audited.isSome

end LayerAnswer

/-! ## The layer and the limiter -/

section

variable {l : RateLimiter} {trust : Bool} {records : Records} {es : List LayerEvent}
  {ip endpoint : Str} {boot x : Int}

/-- An answer of the layer, and the one of the limiter that it rests on. -/
structure LayerAnswer.RestsOn (trustProxyHeaders : Bool) (a : LayerAnswer)
    (b : LimiterAnswer) : Prop where
  key : b.key = clientIp a.req.addr a.req.headers trustProxyHeaders
  endpoint : b.endpoint = rateLimitEndpoint a.req
  t : b.t = a.t
  passed : a.response = none → b.decision = .allowed
  audited : a.audited ≠ none → b.decision ≠ .stillBlocked

theorem checkWithShared_decision {key : Str} {t : Readings} {shared : Option RateLimitDecision}
    {d : RateLimitDecision} (hd : (l.checkRateLimitVerbose records key endpoint t).1 = d)
    (hne : d ≠ .allowed) : (l.checkWithShared records key endpoint t shared).1 = d := by
  simp [RateLimiter.checkWithShared, hd, hne]

/-- One request: the layer refuses whatever the limiter refuses. -/
theorem rateLimitLayer_restsOn (req : LimitedRequest) (t : Readings)
    (shared : Option RateLimitDecision) :
    (rateLimitLayer l trust records req t shared).1.RestsOn trust
      ⟨clientIp req.addr req.headers trust, rateLimitEndpoint req, t,
        (l.checkRateLimitVerbose records (clientIp req.addr req.headers trust)
          (rateLimitEndpoint req) t).1⟩ := by
  simp only [rateLimitLayer]
  generalize hd : (l.checkRateLimitVerbose records (clientIp req.addr req.headers trust)
    (rateLimitEndpoint req) t).1 = d
  cases d with
  | allowed =>
    -- the shared backend decides
    generalize (l.checkWithShared records _ _ t shared).1 = decision
    cases decision <;> exact ⟨rfl, rfl, rfl, fun _ => rfl, fun _ => by simp⟩
  | justBlocked =>
    rw [checkWithShared_decision hd (by simp)]
    exact ⟨rfl, rfl, rfl, by simp [LayerAnswer.of], fun _ => by simp⟩
  | stillBlocked =>
    rw [checkWithShared_decision hd (by simp)]
    exact ⟨rfl, rfl, rfl, by simp [LayerAnswer.of], by simp [LayerAnswer.of]⟩

/-- The layer leaves the records as the limiter does. -/
theorem rateLimitLayer_records (req : LimitedRequest) (t : Readings)
    (shared : Option RateLimitDecision) :
    (rateLimitLayer l trust records req t shared).2 =
      (l.checkRateLimitVerbose records (clientIp req.addr req.headers trust)
        (rateLimitEndpoint req) t).2 :=
  rfl

/-- A whole run of the layer rests on one of the limiter, answer by answer. -/
theorem layerRun_restsOn :
    List.Forall₂ (LayerAnswer.RestsOn trust) (l.layerRun trust records es)
      (l.run records (es.map (LayerEvent.limited trust))) := by
  induction es generalizing records with
  | nil => exact .nil
  | cons e es ih =>
    cases e with
    | cleanup now => exact ih
    | request req t shared =>
      apply List.Forall₂.cons (rateLimitLayer_restsOn req t shared)
      rw [rateLimitLayer_records]
      exact ih

/-! ## Counting -/

/-- Related lists: what counts on the left counts on the right. -/
theorem length_filter_le_of_forall₂ {α β : Type} {R : α → β → Prop} {p : α → Bool} {q : β → Bool}
    {as : List α} {bs : List β} (h : List.Forall₂ R as bs)
    (hpq : ∀ a b, R a b → p a = true → q b = true) :
    (as.filter p).length ≤ (bs.filter q).length := by
  induction h with
  | nil => exact Nat.le_refl _
  | @cons a b as bs hab _ ih =>
    by_cases hp : p a = true
    · rw [List.filter_cons_of_pos hp, List.filter_cons_of_pos (hpq a b hab hp)]
      exact Nat.succ_le_succ ih
    · rw [List.filter_cons_of_neg hp]
      exact ih.trans ((List.sublist_cons_self b bs).filter q).length_le

/-- Times that are `b` apart, in an interval of length `w`. -/
theorem length_of_apart {b w : Nat} (hb : 0 < b) {ts : List Int}
    (hapart : ts.Pairwise fun s t => s + (b : Int) ≤ t) (hin : ∀ t ∈ ts, x - w < t ∧ t ≤ x) :
    ts.length ≤ w / b + 1 := by
  -- the induction is on the times from `lo` on
  have key : ∀ (ts : List Int) (lo : Int), ts.Pairwise (fun s t => s + (b : Int) ≤ t) →
      (∀ t ∈ ts, lo ≤ t ∧ t ≤ x) → lo ≤ x + b → (ts.length * b : Int) ≤ x - lo + b := by
    intro ts
    induction ts with
    | nil =>
      intro lo _ _ hlo
      simp only [List.length_nil]
      omega
    | cons t ts ih =>
      intro lo hp hin hlo
      obtain ⟨hhead, htail⟩ := List.pairwise_cons.mp hp
      obtain ⟨h₁, h₂⟩ := hin t List.mem_cons_self
      have hrest := ih (t + b) htail
        (fun s hs => ⟨hhead s hs, (hin s (List.mem_cons_of_mem t hs)).2⟩) (by omega)
      have hlen : ((t :: ts).length * b : Int) = ts.length * b + b := by
        rw [List.length_cons]
        push_cast
        ring
      omega
  have hall := key ts (x - w) hapart
    (fun t ht => ⟨Int.le_of_lt (hin t ht).1, (hin t ht).2⟩) (by omega)
  have hnat : ts.length * b ≤ w + b := by
    have : ((ts.length * b : Nat) : Int) ≤ ((w + b : Nat) : Int) := by
      push_cast
      omega
    exact_mod_cast this
  calc ts.length ≤ (w + b) / b := (Nat.le_div_iff_mul_le hb).mpr hnat
    _ = w / b + 1 := Nat.add_div_right w hb

/-! ## One bucket of the limiter -/

/-- The answers of a bucket keep its window. -/
theorem bucket_window {les : List LimiterEvent} (hes : Chronological.From boot les)
    (hnames : NamesPlain les) (hkey : keySeparator ∉ ip)
    (hw : (l.getRule endpoint).windowDuration ≤ seconds 3600) :
    SlidingWindow (l.getRule endpoint)
      ((l.run noRecords les).filter (LimiterAnswer.isOf ip endpoint)) := by
  have halone : (l.run noRecords les).filter (LimiterAnswer.isOf ip endpoint) =
      l.run noRecords (les.filter (LimiterEvent.isCheckOf ip endpoint)) :=
    run_alone hkey hw hnames hes .new rfl
  have hsub : ((les.filter (LimiterEvent.isCheckOf ip endpoint)).flatMap
      LimiterEvent.times).Sublist (les.flatMap LimiterEvent.times) :=
    List.filter_sublist.flatMap _
  have hown : Chronological.From boot (les.filter (LimiterEvent.isCheckOf ip endpoint)) :=
    ⟨hes.1.sublist hsub, fun t ht => hes.2 t (hsub.subset ht)⟩
  rw [halone, ← List.nil_append (l.run noRecords _)]
  exact SlidingWindow.run (fun e he => (List.mem_filter.mp he).2) hown .nil .nil

/-- The limiter began a block in the interval. -/
def LimiterAnswer.isBlockIn (w : Nat) (x : Int) (a : LimiterAnswer) : Bool :=
  a.decision = .justBlocked && x - w < a.t.recorded && a.t.recorded ≤ x

/-- The blocks that one bucket begins in an interval. -/
theorem blocks_bounded {rule : RateLimitRule} {answers : List LimiterAnswer}
    (h : SlidingWindow rule answers) (hb : 0 < rule.blockDuration) (w : Nat) :
    (answers.filter (LimiterAnswer.isBlockIn w x)).length ≤ w / rule.blockDuration + 1 := by
  have hcount : ((answers.filter (LimiterAnswer.isBlockIn w x)).map fun a => a.t.recorded).length ≤
      w / rule.blockDuration + 1 := by
    apply length_of_apart (x := x) hb
    · apply List.pairwise_map.mpr
      apply (h.apart.sublist List.filter_sublist).imp_of_mem
      intro a b ha hb hapart
      have ha := (List.mem_filter.mp ha).2
      have hb := (List.mem_filter.mp hb).2
      simp only [LimiterAnswer.isBlockIn, Bool.and_eq_true, decide_eq_true_eq] at ha hb
      exact hapart ha.1.1 hb.1.1
    · intro t ht
      obtain ⟨a, ha, rfl⟩ := List.mem_map.mp ht
      have ha := (List.mem_filter.mp ha).2
      simp only [LimiterAnswer.isBlockIn, Bool.and_eq_true, decide_eq_true_eq] at ha
      exact ⟨ha.1.2, ha.2⟩
  rwa [List.length_map] at hcount

/-! ## The bounds of the layer -/

/-- The requests among the answers that have passed, of those that `f`
    selects, in the interval of length `w` that ends at `x`. -/
def passes (f : LayerAnswer → Bool) (w : Nat) (x : Int) (answers : List LayerAnswer) : Nat :=
  (answers.filter fun a => f a && (a.response.isNone && a.isWithin w x)).length

/-- The requests that have passed or were audited. -/
def costs (f : LayerAnswer → Bool) (w : Nat) (x : Int) (answers : List LayerAnswer) : Nat :=
  (answers.filter fun a => f a && (a.isCostly && a.isWithin w x)).length

theorem namesPlain_limited : NamesPlain (es.map (LayerEvent.limited trust)) := by
  intro key endpoint t hmem
  obtain ⟨e, -, he⟩ := List.mem_map.mp hmem
  cases e with
  | request req t' shared =>
    cases he
    exact separator_notMem_clientIp req trust
  | cleanup now => cases he

/-- No client has a name with the separator. -/
theorem isOf_of_separator (hkey : keySeparator ∈ ip) (a : LayerAnswer) :
    a.isOf trust ip endpoint = false := by
  have hne : clientIp a.req.addr a.req.headers trust ≠ ip := by
    intro heq
    subst heq
    exact separator_notMem_clientIp a.req trust hkey
  simp [LayerAnswer.isOf, hne]

/-- An answer of a bucket rests on one of the same bucket. -/
theorem LayerAnswer.RestsOn.isOf {a : LayerAnswer} {b : LimiterAnswer} (h : a.RestsOn trust b) :
    b.isOf ip endpoint = a.isOf trust ip endpoint := by
  rw [LimiterAnswer.isOf, LayerAnswer.isOf, h.key, h.endpoint]

/-- What passes of one bucket. -/
theorem bucket_passes (hes : Chronological.From boot (es.map (LayerEvent.limited trust)))
    (hw : (l.getRule endpoint).windowDuration ≤ seconds 3600) :
    passes (LayerAnswer.isOf trust ip endpoint) (l.getRule endpoint).windowDuration x
      (l.layerRun trust noRecords es) ≤ (l.getRule endpoint).maxRequests := by
  by_cases hkey : keySeparator ∈ ip
  · simp [passes, isOf_of_separator hkey]
  · have hwindow := (bucket_window hes namesPlain_limited hkey hw).window x
    rw [List.filter_filter] at hwindow
    apply Nat.le_trans _ hwindow
    apply length_filter_le_of_forall₂ layerRun_restsOn
    intro a b hab ha
    simp only [Bool.and_eq_true, LayerAnswer.isWithin, decide_eq_true_eq,
      Option.isNone_iff_eq_none] at ha
    obtain ⟨hof, hpassed, hlo, hhi⟩ := ha
    simp [LimiterAnswer.isAllowedIn, hab.isOf, hof, hab.passed hpassed, hab.t, hlo, hhi]

/-- What counts as one or the other. -/
theorem length_filter_or_le {α : Type} (p q : α → Bool) (as : List α) :
    (as.filter fun a => p a || q a).length ≤ (as.filter p).length + (as.filter q).length := by
  induction as with
  | nil => exact Nat.le_refl _
  | cons a as ih =>
    cases hp : p a <;> cases hq : q a <;> simp [hp, hq] <;> omega

/-- The key under which the limiter counts a request. -/
def counterOf (trustProxyHeaders : Bool) (req : LimitedRequest) : Str :=
  recordKey (clientIp req.addr req.headers trustProxyHeaders) (rateLimitEndpoint req)

/-- Whatever a header names, two buckets never share a counter. -/
theorem counterOf_eq_iff {req req' : LimitedRequest} :
    counterOf trust req = counterOf trust req' ↔
      clientIp req.addr req.headers trust = clientIp req'.addr req'.headers trust ∧
        rateLimitEndpoint req = rateLimitEndpoint req' := by
  apply (recordKey_inj (separator_notMem_clientIp req trust)
    (separator_notMem_clientIp req' trust)).trans
  exact Iff.rfl

/-- **Passes are bounded.** In every run of the layer, in any interval of the
    length of the window, no more requests of a client reach the handlers of
    an endpoint than its rule admits, whatever the shared backend answers. Two
    requests share a counter only if client and endpoint are the same, and
    without a trusted proxy a client is an address, whatever it writes into
    its headers. -/
theorem passes_bounded (hes : Chronological.From boot (es.map (LayerEvent.limited trust)))
    (hw : (l.getRule endpoint).windowDuration ≤ seconds 3600) (x : Int) :
    passes (LayerAnswer.isOf trust ip endpoint) (l.getRule endpoint).windowDuration x
        (l.layerRun trust noRecords es) ≤ (l.getRule endpoint).maxRequests ∧
      (∀ a ∈ l.layerRun trust noRecords es, ∀ b ∈ l.layerRun trust noRecords es,
        counterOf trust a.req = counterOf trust b.req ↔
          clientIp a.req.addr a.req.headers trust = clientIp b.req.addr b.req.headers trust ∧
            rateLimitEndpoint a.req = rateLimitEndpoint b.req) ∧
      (trust = false → passes (LayerAnswer.isFrom ip endpoint)
        (l.getRule endpoint).windowDuration x (l.layerRun trust noRecords es) ≤
          (l.getRule endpoint).maxRequests) := by
  refine ⟨bucket_passes hes hw, fun _ _ _ _ => counterOf_eq_iff, fun htrust => ?_⟩
  subst htrust
  -- the client is the address
  exact bucket_passes hes hw

/-- **A flood is no flood of events.** In any such interval, the requests of a
    client to an endpoint that have passed or were audited are bounded by the
    rule, however many are refused. -/
theorem costs_bounded (hes : Chronological.From boot (es.map (LayerEvent.limited trust)))
    (hw : (l.getRule endpoint).windowDuration ≤ seconds 3600)
    (hb : 0 < (l.getRule endpoint).blockDuration) (x : Int) :
    costs (LayerAnswer.isOf trust ip endpoint) (l.getRule endpoint).windowDuration x
        (l.layerRun trust noRecords es) ≤ (l.getRule endpoint).maxRequests +
      ((l.getRule endpoint).windowDuration / (l.getRule endpoint).blockDuration + 1) := by
  by_cases hkey : keySeparator ∈ ip
  · simp [costs, isOf_of_separator hkey]
  · have hbucket := bucket_window hes namesPlain_limited hkey hw
    apply Nat.le_trans _ (Nat.add_le_add (hbucket.window x)
      (blocks_bounded (x := x) hbucket hb (l.getRule endpoint).windowDuration))
    apply Nat.le_trans _ (length_filter_or_le _ _ _)
    rw [List.filter_filter]
    apply length_filter_le_of_forall₂ layerRun_restsOn
    intro a b hab ha
    simp only [Bool.and_eq_true, LayerAnswer.isWithin, decide_eq_true_eq] at ha
    obtain ⟨hof, hcostly, hlo, hhi⟩ := ha
    -- a request that the limiter finds blocked costs nothing
    have hdecision : b.decision = .allowed ∨ b.decision = .justBlocked := by
      rcases Bool.or_eq_true_iff.mp hcostly with hnone | haudited
      · exact .inl (hab.passed (Option.isNone_iff_eq_none.mp hnone))
      · have hne := hab.audited (Option.isSome_iff_ne_none.mp haudited)
        cases hd : b.decision with
        | allowed => exact .inl rfl
        | justBlocked => exact .inr rfl
        | stillBlocked => exact absurd hd hne
    rcases hdecision with hd | hd
    · simp [LimiterAnswer.isAllowedIn, hab.isOf, hof, hd, hab.t, hlo, hhi]
    · simp [LimiterAnswer.isBlockIn, hab.isOf, hof, hd, hab.t, hlo, hhi]

/-- The rules of the deployed limiter keep to the hour of the cleanup, and
    every one of them blocks. -/
theorem deployed_rules (endpoint : Str) :
    (deployedRateLimiter.getRule endpoint).windowDuration ≤ seconds 3600 ∧
      0 < (deployedRateLimiter.getRule endpoint).blockDuration := by
  have hrules : ∀ rule ∈ deployedRateLimiter.defaultRule ::
      deployedRateLimiter.endpointRules.map Prod.snd,
      rule.windowDuration ≤ seconds 3600 ∧ 0 < rule.blockDuration := by decide
  apply hrules
  unfold RateLimiter.getRule
  cases hlookup : deployedRateLimiter.endpointRules.lookup endpoint with
  | none => exact List.mem_cons_self
  | some rule =>
    obtain ⟨l₁, l₂, hsplit, -⟩ := List.lookup_eq_some_iff.mp hlookup
    apply List.mem_cons_of_mem
    rw [hsplit]
    simp

end

end SoulAuth

namespace SoulAuth.Sample

def loginPath : Str := "/api/auth/login".toList

def floodAddr : Str := "203.0.113.7".toList

/-- A login from one address, at second `n`, behind a proxy of its own
    invention. -/
def floodRequest (n : Nat) : LayerEvent :=
  .request
    { addr := floodAddr
      headers := [("x-forwarded-for".toList, (toString n).toList)]
      matchedPath := some loginPath
      path := loginPath
      addr_plain := by decide }
    ⟨seconds n, seconds n, seconds n, Int.le_refl _, Int.le_refl _⟩ none

/-- Eight logins within eight seconds. -/
def flood : List LayerEvent := (List.range 8).map floodRequest

theorem flood_chronological (trust : Bool) :
    Chronological.From 0 (flood.map (LayerEvent.limited trust)) := by
  have htimes : (flood.map (LayerEvent.limited trust)).flatMap LimiterEvent.times =
      (List.range 8).flatMap fun n => List.replicate 3 (seconds n : Int) := rfl
  unfold Chronological.From Chronological
  rw [htimes]
  decide

/-- Five of them pass, although each names another client. -/
theorem passes_bounded_flood :
    passes (LayerAnswer.isFrom floodAddr loginPath) (seconds 300) (seconds 8)
        (deployedRateLimiter.layerRun false noRecords flood) = 5 ∧
      passes (LayerAnswer.isFrom floodAddr loginPath) (seconds 300) (seconds 8)
        (deployedRateLimiter.layerRun false noRecords flood) ≤ 5 :=
  ⟨by decide +kernel, (passes_bounded (flood_chronological false)
    (deployed_rules loginPath).1 (seconds 8)).2.2 rfl⟩

/-- One of the others is audited. -/
theorem costs_bounded_flood :
    costs (LayerAnswer.isOf false floodAddr loginPath) (seconds 300) (seconds 8)
        (deployedRateLimiter.layerRun false noRecords flood) = 6 ∧
      costs (LayerAnswer.isOf false floodAddr loginPath) (seconds 300) (seconds 8)
        (deployedRateLimiter.layerRun false noRecords flood) ≤ 5 + (seconds 300 / seconds 900 + 1) :=
  ⟨by decide +kernel, costs_bounded (flood_chronological false) (deployed_rules loginPath).1
    (deployed_rules loginPath).2 (seconds 8)⟩

end SoulAuth.Sample
