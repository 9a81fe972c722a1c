import SoulAuth.Utils.Text

/-! # Errors -/

namespace SoulAuth

/-- How a database statement fails: the connection (the statement may or may
    not have been executed), a conflict with a concurrent transaction, a
    unique index, or an `UPDATE` of a record that is not there. -/
inductive DbFailure
  | connection
  | conflict
  | alreadyContains (index value : Str)
  | recordNotFound
  deriving DecidableEq, Repr

/-- The text of a database failure, as far as the program looks into it. -/
def DbFailure.message : DbFailure → Str
  | .connection => "Failed to execute query".toList
  | .conflict => "Failed to execute query: Transaction conflict".toList
  | .alreadyContains index value =>
    "Failed to execute query: Database index ".toList ++ index ++
      " already contains '".toList ++ value ++ "'".toList
  | .recordNotFound => "Record not found".toList

/-- `AuthError`. -/
inductive AuthError
  | databaseError (message : Str)
  | invalidCredentials
  | emailNotVerified
  | tokenError (message : String)
  | userNotFound
  | emailExists
  | usernameExists
  | invalidToken
  | serverError (message : String)
  | oauthError (message : String)
  | passwordAlreadySet
  | invalidUserId
  | notFound (message : String)
  | validationError (message : String)
  | permissionDenied
  | insufficientPermissions
  | missingPermission (permission : String)
  | accountSuspended
  | accountInactive
  | accountDeleted
  | forbidden (message : String)
  | badRequest (message : String)
  | notConfigured (message : String)
  | unauthorized (message : String)
  | accountLocked (remainingSeconds : Option Int)
  | serviceUnavailable (message : String)
  deriving DecidableEq, Repr

/-- `impl From<surrealdb::Error> for AuthError`, on the statements' failures. -/
def AuthError.ofDb (e : DbFailure) : AuthError := .databaseError e.message

/-- `is_write_conflict`. -/
def AuthError.isWriteConflict : AuthError → Bool
  | .databaseError message => Str.containsStr message "Transaction conflict".toList
  | _ => false

/-- `translate_unique_violation`: a violated unique index on the email or
    the username is a conflict, every other error stays what it is. -/
def translateUniqueViolation : AuthError → AuthError
  | .databaseError message =>
    if Str.containsStr message "already contains".toList then
      if Str.containsStr message "email_idx".toList then .emailExists
      else if Str.containsStr message "username_idx".toList then .usernameExists
      else .databaseError message
    else .databaseError message
  | error => error

end SoulAuth
