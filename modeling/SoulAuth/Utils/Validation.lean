import SoulAuth.Platform
import SoulAuth.Error

/-! # Validation of submitted values -/

namespace SoulAuth

open Str

/-- `validate_email`: the trimmed address in lower case. -/
def validateEmail (email : Str) : Except AuthError Str :=
  let email := trim email
  if email = [] then
    .error (.validationError "Email is required")
  else if byteLen email > 254 then
    .error (.validationError "Email is too long")
  else if email.any isWhitespace then
    .error (.validationError "Email must not contain whitespace")
  else if email.any isControl then
    .error (.validationError "Email must not contain control characters")
  else
    match splitOnce '@' email with
    | none => .error (.validationError "Email must contain '@'")
    | some (localPart, domain) =>
      if localPart = [] ∨ domain = [] then
        .error (.validationError "Email is not a valid address")
      else if '@' ∈ domain then
        .error (.validationError "Email must contain exactly one '@'")
      else if '.' ∉ domain ∨ domain.head? = some '.' ∨ domain.getLast? = some '.' then
        .error (.validationError "Email domain is not valid")
      else .ok (toAsciiLowercase email)

/-- `validate_password`: at least `minLength` characters of three classes. -/
def validatePassword [Platform] (password : Str) (minLength : Nat) : Except AuthError Unit :=
  if password.length < minLength then
    .error (.validationError s!"Password must be at least {minLength} characters long")
  else if byteLen password > 1024 then
    .error (.validationError "Password must be at most 1024 bytes long")
  else
    let hasLower := password.any Platform.isLowercase
    let hasUpper := password.any Platform.isUppercase
    let hasDigit := password.any Char.isDigit
    let hasSymbol := password.any fun c => !Platform.isAlphanumeric c && !isWhitespace c
    let classes := ([hasLower, hasUpper, hasDigit, hasSymbol].filter id).length
    if classes < 3 then
      .error (.validationError
        "Password must contain at least three of: lowercase, uppercase, digit, symbol")
    else .ok ()

/-- `validate_username`. -/
def validateUsername (username : Str) : Except AuthError Str :=
  let username := trim username
  if byteLen username < 3 ∨ byteLen username > 32 then
    .error (.validationError "Username must be between 3 and 32 characters")
  else if username.all fun c => isAsciiAlphanumeric c || c = '_' || c = '-' then
    .ok username
  else
    .error (.validationError "Username may only contain letters, digits, '_' and '-'")

/-! ## What validation guarantees -/

/-- A validated address is never empty and is already in lower case. -/
theorem validateEmail_ok {email e : Str} (h : validateEmail email = .ok e) :
    e = toAsciiLowercase (trim email) ∧ trim email ≠ [] ∧
      (trim email).any isWhitespace = false := by
  unfold validateEmail at h
  simp only at h
  split at h
  · cases h
  next hne =>
    split at h
    · cases h
    split at h
    · cases h
    next hws =>
      split at h
      · cases h
      split at h
      · cases h
      · split at h
        · cases h
        split at h
        · cases h
        split at h
        · cases h
        · exact ⟨(Except.ok.inj h).symm, hne, by simpa using hws⟩

example : (validateEmail " User@Example.COM ".toList).toOption =
    some "user@example.com".toList := by decide

end SoulAuth
