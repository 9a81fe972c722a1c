import SoulAuth.Database.Machine
import SoulAuth.Framework.Extension
import SoulAuth.Framework.KeyedTable

/-! # The cache of authenticated requests

A table in the memory of the process, from tokens to the users they were
found to belong to. Entries expire; a logout, a new password and a change of
the account's status remove them before that.
-/

namespace SoulAuth

open Framework

/-- `CacheEntry`, with its key in the map. -/
structure CacheEntry where
  key : Hashed Claims
  user : User
  userId : Str
  expiresAt : Timestamp
  deriving DecidableEq

/-- `AuthCache`. No lifetime means that the cache is off. -/
structure AuthCache where
  ttl : Option Nat
  entries : List CacheEntry
  deriving DecidableEq

namespace AuthCache

/-- `MAX_ENTRIES`. -/
def maxEntries : Nat := 10000

/-- `AuthCache::new`. -/
def new (ttlSeconds : Nat) : AuthCache :=
  ⟨if 0 < ttlSeconds then some ttlSeconds else none, []⟩

/-- `AuthCache::key`. -/
def key (token : Claims) : Hashed Claims := hashBearer token

/-- `AuthCache::get`. -/
def get (cache : AuthCache) (token : Claims) (now : Timestamp) : Option User := do
  let _ ← cache.ttl
  let entry ← KeyedTable.rowAt CacheEntry.key (key token) cache.entries
  if entry.expiresAt ≤ now then none else some entry.user

/-- The entries that have not expired. -/
def live (entries : List CacheEntry) (now : Timestamp) : List CacheEntry :=
  entries.filter fun entry => now < entry.expiresAt

/-- What is left of a full table before an insertion: the live entries, or
    none if these alone fill it. -/
def makeRoom (entries : List CacheEntry) (now : Timestamp) : List CacheEntry :=
  if maxEntries ≤ entries.length then
    if maxEntries ≤ (live entries now).length then [] else live entries now
  else entries

/-- `AuthCache::insert`. -/
def insert (cache : AuthCache) (token : Claims) (userId : Str) (user : User)
    (now : Timestamp) : AuthCache :=
  match cache.ttl with
  | none => cache
  | some ttl =>
    let entry : CacheEntry := ⟨key token, user, userId, now + ttl⟩
    { cache with entries := KeyedTable.upsert CacheEntry.key (key token) (fun _ => entry)
                              (makeRoom cache.entries now) }

/-- `AuthCache::invalidate_token`. -/
def invalidateToken (cache : AuthCache) (token : Claims) : AuthCache :=
  match cache.ttl with
  | none => cache
  | some _ => { cache with entries := cache.entries.filter fun entry => entry.key ≠ key token }

/-- `AuthCache::invalidate_user`. -/
def invalidateUser (cache : AuthCache) (userId : Str) : AuthCache :=
  match cache.ttl with
  | none => cache
  | some _ => { cache with entries := cache.entries.filter fun entry => entry.userId ≠ userId }

/-- `AuthCache::purge_expired`. -/
def purgeExpired (cache : AuthCache) (now : Timestamp) : AuthCache :=
  match cache.ttl with
  | none => cache
  | some _ => { cache with entries := live cache.entries now }

end AuthCache

/-- The calls of the cache. -/
inductive CacheStmt
  | get (token : Claims)
  | insert (token : Claims) (userId : Str) (user : User)
  | invalidateToken (token : Claims)
  | invalidateUser (userId : Str)
  | purgeExpired
  deriving DecidableEq

@[reducible] def CacheStmt.Reply : CacheStmt → Type
  | get _ => Option User
  | _ => Unit

/-- Each call runs under the lock of the table. -/
def CacheStmt.exec (now : Timestamp) : (s : CacheStmt) → AuthCache → s.Reply × AuthCache
  | get token, cache => (cache.get token now, cache)
  | insert token userId user, cache => ((), cache.insert token userId user now)
  | invalidateToken token, cache => ((), cache.invalidateToken token)
  | invalidateUser userId, cache => ((), cache.invalidateUser userId)
  | purgeExpired, cache => ((), cache.purgeExpired now)

variable [Platform]

/-- The cache beside the machine. -/
@[reducible] def authCache : Extension machine where
  State := AuthCache
  Stmt := CacheStmt
  Resp := CacheStmt.Reply
  exec _ s w cache := s.exec w.now cache

/-- A part of a request that may use the cache. -/
abbrev CacheReq (ε α : Type) := Prog authCache.machine ε α

/-- Call the cache. -/
def withCache {ε : Type} (s : CacheStmt) : CacheReq ε s.Reply := Prog.own authCache s

end SoulAuth
