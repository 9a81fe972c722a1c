import SoulAuth.Utils.Text

/-! # The rate limiter, in one process

Requests are counted per client and endpoint with the times of the admitted
ones. One check reads the clock up to three times while it holds the lock on
the records. Times are nanoseconds of the monotonic clock.
-/

namespace SoulAuth

/-- Nanoseconds in `n` seconds. -/
def seconds (n : Nat) : Nat := n * 1000000000

/-- `RateLimitRule`. -/
structure RateLimitRule where
  windowDuration : Nat
  maxRequests : Nat
  blockDuration : Nat
  deriving DecidableEq, Repr

/-- `RateLimitRule::default`. -/
def RateLimitRule.default : RateLimitRule := ⟨seconds 60, 10, seconds 300⟩

/-- `RateLimitRules::login`, `register`, `password_reset` and `general_api`. -/
def RateLimitRules.login : RateLimitRule := ⟨seconds 300, 5, seconds 900⟩

def RateLimitRules.register : RateLimitRule := ⟨seconds 300, 3, seconds 600⟩

def RateLimitRules.passwordReset : RateLimitRule := ⟨seconds 900, 3, seconds 1800⟩

def RateLimitRules.generalApi : RateLimitRule := ⟨seconds 60, 30, seconds 60⟩

/-- `RateLimitDecision`. -/
inductive RateLimitDecision
  | allowed
  | justBlocked
  | stillBlocked
  deriving DecidableEq, Repr

/-- The readings of the clock in one check: when it looks for a block, when
    it drops old timestamps, and when it records its verdict. -/
structure Readings where
  entered : Int
  pruned : Int
  recorded : Int
  entered_le : entered ≤ pruned
  pruned_le : pruned ≤ recorded
  deriving DecidableEq

/-- `RequestRecord`. -/
structure RequestRecord where
  timestamps : List Int
  blockedUntil : Option Int
  deriving DecidableEq, Repr

namespace RequestRecord

/-- `RequestRecord::new`. -/
def new : RequestRecord := ⟨[], none⟩

/-- `is_blocked`. -/
def isBlocked (r : RequestRecord) (now : Int) : Bool :=
  match r.blockedUntil with
  | some blockedUntil => now < blockedUntil
  | none => false

/-- `cleanup_expired`. -/
def cleanupExpired (r : RequestRecord) (windowDuration : Nat) (now : Int) : RequestRecord :=
  { r with timestamps := r.timestamps.filter fun t => now - windowDuration < t }

/-- `add_request`. -/
def addRequest (r : RequestRecord) (now : Int) : RequestRecord :=
  { r with timestamps := r.timestamps ++ [now] }

/-- `block`. -/
def block (r : RequestRecord) (blockDuration : Nat) (now : Int) : RequestRecord :=
  { r with blockedUntil := some (now + blockDuration) }

/-- `is_rate_limited`. -/
def isRateLimited (r : RequestRecord) (maxRequests : Nat) : Bool :=
  maxRequests ≤ r.timestamps.length

/-- The part of `check_rate_limit_verbose` on the record of the bucket. -/
def check (r : RequestRecord) (rule : RateLimitRule) (t : Readings) :
    RateLimitDecision × RequestRecord :=
  if r.isBlocked t.entered then (.stillBlocked, r)
  else
    let r := r.cleanupExpired rule.windowDuration t.pruned
    if r.isRateLimited rule.maxRequests then
      (.justBlocked, r.block rule.blockDuration t.recorded)
    else (.allowed, r.addRequest t.recorded)

/-- What `cleanup_expired_records` keeps: a block in force, or a request
    within the last hour. -/
def isKept (now : Int) (r : RequestRecord) : Bool :=
  r.isBlocked now ||
    match r.timestamps.getLast? with
    | some lastRequest => now - lastRequest < seconds 3600
    | none => false

end RequestRecord

/-- The separator of client and endpoint in a key. -/
def keySeparator : Char := Char.ofNat 1

/-- `record_key`. -/
def recordKey (clientKey endpoint : Str) : Str := clientKey ++ keySeparator :: endpoint

/-- The rules of `RateLimiter`: the default one, and those of endpoints. -/
structure RateLimiter where
  defaultRule : RateLimitRule
  endpointRules : List (Str × RateLimitRule)

/-- `get_rule`. -/
def RateLimiter.getRule (l : RateLimiter) (endpoint : Str) : RateLimitRule :=
  (l.endpointRules.lookup endpoint).getD l.defaultRule

/-- The records of `RateLimiter`, by key. -/
abbrev Records := Str → Option RequestRecord

/-- `check_rate_limit_verbose` without a shared backend. -/
def RateLimiter.checkRateLimitVerbose (l : RateLimiter) (records : Records)
    (key endpoint : Str) (t : Readings) : RateLimitDecision × Records :=
  let record := (records (recordKey key endpoint)).getD .new
  let out := record.check (l.getRule endpoint) t
  (out.1, Function.update records (recordKey key endpoint) (some out.2))

/-- `cleanup_expired_records`. -/
def cleanupExpiredRecords (records : Records) (now : Int) : Records := fun key =>
  (records key).filter (RequestRecord.isKept now)

/-- `reset_limit`: the records of a client at all endpoints are dropped. -/
def resetLimit (records : Records) (key : Str) : Records := fun recordKey =>
  if (Str.stripPrefix (key ++ [keySeparator]) recordKey).isSome then none else records recordKey

/-- `get_remaining_requests`. The number of timestamps is cast to 32 bits. -/
def RateLimiter.getRemainingRequests (l : RateLimiter) (records : Records)
    (key endpoint : Str) (now : Int) : Nat :=
  let rule := l.getRule endpoint
  match records (recordKey key endpoint) with
  | some record =>
    if record.isBlocked now then 0
    else rule.maxRequests - record.timestamps.length % 2 ^ 32
  | none => rule.maxRequests

/-- Names without the separator have keys of their own. -/
theorem recordKey_inj {key key' endpoint endpoint' : Str} (h : keySeparator ∉ key)
    (h' : keySeparator ∉ key') :
    recordKey key endpoint = recordKey key' endpoint' ↔ key = key' ∧ endpoint = endpoint' := by
  constructor
  · intro heq
    have hsplit := Str.splitOnce_append (t := endpoint) h
    rw [show key ++ keySeparator :: endpoint = key' ++ keySeparator :: endpoint' from heq,
      Str.splitOnce_append h'] at hsplit
    simpa [eq_comm] using hsplit
  · rintro ⟨rfl, rfl⟩
    rfl

end SoulAuth
