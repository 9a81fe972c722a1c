import SoulAuth.Routes.System
import SoulAuth.Services.AuthCache

/-! # Requests behind the cache

The extractor of an authenticated user asks the cache first and fills it
afterwards. The operations that end sessions clear what the cache holds of
them. Everything else is served as without a cache.
-/

namespace SoulAuth

open Framework Framework.System

variable [Platform]

namespace Cached

/-- The extractor `AuthedUser`. A hit still passes the gate of the identity
    root; a miss ends with an insertion. -/
def authedUser (bearer : Claims) : CacheReq AuthError User := do
  let hit : Option User ← withCache (.get bearer)
  match hit with
  | some user => (authedUserCached user).lift authCache
  | none =>
    let user ← (SoulAuth.authedUser bearer).lift authCache
    withCache (.insert bearer user.key user)
    return user

/-- `AuthService::logout`. -/
def logout (token : Claims) : CacheReq AuthError Unit := do
  (deleteSessionByToken token : Req AuthError Unit).lift authCache
  withCache (.invalidateToken token)

/-- `logout_all_sessions`. -/
def logoutAllSessions (userId : Str) : CacheReq AuthError Unit := do
  (deleteSessionsByUserId userId : Req AuthError Unit).lift authCache
  withCache (.invalidateUser userId)

/-- `AuthService::reset_password`: its last step clears the cache. -/
def resetPassword (cfg : Config) (token newPassword : Str) : CacheReq AuthError Str := do
  let userId ← (SoulAuth.resetPassword cfg token newPassword).lift authCache
  withCache (.invalidateUser userId)
  return userId

/-- The endpoint `logout`, which clears the cache once more. -/
def logoutRoute (bearer : Claims) : CacheReq AuthError Unit := do
  logout bearer
  withCache (.invalidateToken bearer)

/-- The endpoint `logout_all`. -/
def logoutAllRoute (user : User) : CacheReq AuthError Unit := do
  logoutAllSessions user.key
  withCache (.invalidateUser user.key)
  ((revokeAllTokensForUser user.key).mapError fun _ =>
    .serverError "Sessions were ended but issued tokens could not be revoked; retry logout-all").lift
      authCache

/-- The endpoint `reset_password`. -/
def resetPasswordRoute (cfg : Config) (token newPassword : Str) : CacheReq AuthError Unit := do
  let userId ← resetPassword cfg token newPassword
  ((revokeAllTokensForUser userId).mapError fun _ =>
    .serverError ("Password was reset but issued tokens could not be revoked; " ++
      "retry or revoke them from the admin surface")).lift authCache

/-- The endpoint `update_user_account_status`: the cache is cleared before
    the sessions are deleted, and a failure of the deletion is only logged. -/
def updateUserAccountStatus (userId : Str) (status : AccountStatus) :
    CacheReq AuthError Unit := do
  (updateAccountStatus userId status).lift authCache
  withCache (.invalidateUser (normalizeUserId userId))
  if status = .active then return () else
    ((deleteSessionsByUserId (normalizeUserId userId) : Req AuthError Unit).swallow :
      Req AuthError Unit).lift authCache
    ((revokeAllTokensForUser (normalizeUserId userId)).swallow : Req AuthError Unit).lift authCache

end Cached

/-! ## The instance -/

/-- What an authenticated user asks for. -/
inductive UserAction
  | currentUser
  | logout
  | logoutAll
  | updateAccountStatus (userId : Str) (status : AccountStatus)
  /-- Any other endpoint behind the extractor. -/
  | endpoint (call : User → Call)

/-- The requests to an instance with a cache, and the hourly clean-up. -/
inductive CachedCall
  | authed (bearer : Claims) (action : UserAction)
  | resetPassword (cfg : Config) (token newPassword : Str)
  | purgeExpired
  /-- Any request that does not use the cache. -/
  | call (r : Call)

/-- What is done for the user, once the request is let in. -/
def UserAction.run (bearer : Claims) (user : User) : UserAction → CacheReq Failure Reply
  | currentUser =>
    ((currentUserResponse user).lift authCache).mapError .auth >>= fun r => return .user r
  | logout => (Cached.logoutRoute bearer).mapError .auth >>= fun _ => return .ok
  | logoutAll => (Cached.logoutAllRoute user).mapError .auth >>= fun _ => return .ok
  | updateAccountStatus userId status =>
    (Cached.updateUserAccountStatus userId status).mapError .auth >>= fun _ => return .ok
  | endpoint call => (call user).program.lift authCache

/-- The program that serves a request. -/
def CachedCall.program : CachedCall → CacheReq Failure Reply
  | authed bearer action =>
    (Cached.authedUser bearer).mapError .auth >>= fun user => action.run bearer user
  | resetPassword cfg token newPassword =>
    (Cached.resetPasswordRoute cfg token newPassword).mapError .auth >>= fun _ => return .ok
  | purgeExpired => withCache .purgeExpired >>= fun _ => return .ok
  | call r => r.program.lift authCache

/-- The server with the cache in its memory. -/
@[reducible] def cachingServer : System :=
  extended (S := server) authCache CachedCall.program

end SoulAuth
