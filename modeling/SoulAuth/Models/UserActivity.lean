import Mathlib.Algebra.Order.Field.Rat
import SoulAuth.Models.Json

/-! # Audit events, audit rows and checkpoints

The tables `user_activity` and `audit_checkpoint`, as the schema types their
columns, and the rows as the queries of the verifier return them.
-/

namespace SoulAuth

inductive ActivityCategory
  | authentication
  | profile
  | security
  | permissions
  | data
  | system
  deriving DecidableEq, Repr

inductive ActivityStatus
  | success
  | failed
  | warning
  | info
  deriving DecidableEq, Repr

/-- The serialised name, which is what the table stores. -/
def ActivityCategory.toText : ActivityCategory → Str
  | authentication => "Authentication".toList
  | profile => "Profile".toList
  | security => "Security".toList
  | permissions => "Permissions".toList
  | data => "Data".toList
  | system => "System".toList

def ActivityStatus.toText : ActivityStatus → Str
  | success => "Success".toList
  | failed => "Failed".toList
  | warning => "Warning".toList
  | info => "Info".toList

/-- The details of an event: an object in which no key occurs twice. -/
structure Details where
  members : List (Str × Json)
  keysDistinct : (Json.object members).KeysDistinct

/-- `AuditEvent`. The attribution is a user key, or a reference to an actor
    that has been resolved already, or neither. -/
structure AuditEvent where
  action : Str
  category : ActivityCategory
  status : ActivityStatus
  userId : Option Str
  actorIdentityId : Option Str
  ipAddress : Str
  userAgent : Str
  details : Details

/-- A number in the database: an integer, or a float or decimal. -/
inductive DbNumber
  | int (n : Int)
  | fraction (q : ℚ)
  deriving DecidableEq

namespace DbNumber

/-- `as_i64` of the number as it is returned. -/
def asI64 : DbNumber → Option Int
  | int n => some n
  | fraction _ => none

def value : DbNumber → ℚ
  | int n => n
  | fraction q => q

/-- The order in which the database sorts numbers. -/
protected def Le : DbNumber → DbNumber → Prop
  | int m, int n => m ≤ n
  | a, b => a.value ≤ b.value

instance : LE DbNumber := ⟨DbNumber.Le⟩

instance : DecidableRel (α := DbNumber) (· ≤ ·) := fun a b =>
  match a, b with
  | int m, int n => inferInstanceAs (Decidable (m ≤ n))
  | int m, fraction q => inferInstanceAs (Decidable ((m : ℚ) ≤ q))
  | fraction q, int n => inferInstanceAs (Decidable (q ≤ (n : ℚ)))
  | fraction p, fraction q => inferInstanceAs (Decidable (p ≤ q))

@[simp] theorem int_le_int {m n : Int} : (int m : DbNumber) ≤ int n ↔ m ≤ n := Iff.rfl

theorem le_iff {a b : DbNumber} : a ≤ b ↔ a.value ≤ b.value := by
  cases a <;> cases b <;> first | exact Iff.rfl | exact Rat.intCast_le_intCast.symm

end DbNumber

/-- A row of `user_activity`. Rows from before the audit chain have no
    chain columns. -/
structure ActivityRow where
  /-- The key of the record that `actor_identity_id` links to. -/
  actorIdentityId : Option Str
  action : Str
  category : Str
  ipAddress : Str
  userAgent : Str
  details : List (Str × Json)
  status : Str
  timestamp : DbNumber
  chainId : Option Str
  seq : Option DbNumber
  previousHash : Option Str
  eventHash : Option Str

/-- A row of `audit_checkpoint`. -/
structure Checkpoint where
  chainId : Str
  seqTo : DbNumber
  headHash : Str
  createdAt : DbNumber
  publicKey : Str
  signature : Str
  deriving DecidableEq

/-- How a query renders a row: the address of the linked actor as
    `type::string` writes it, and the details as they are stored. -/
structure Rendering where
  address : Str → ActivityRow → Str
  address_eq : ∀ key row,
    address key row = recordAddress "actor_identity".toList key ∨
    address key row = recordAddress "actor_identity".toList ('⟨' :: key ++ ['⟩']) ∨
    address key row = recordAddress "actor_identity".toList (backtick :: key ++ [backtick])
  details : ActivityRow → List (Str × Json)
  details_readBack : ∀ row, Json.ReadBack (.object row.details) (.object (details row))

/-- The rendering that adds no delimiters and returns what was stored. -/
def Rendering.plain : Rendering where
  address key _ := recordAddress "actor_identity".toList key
  address_eq _ _ := .inl rfl
  details row := row.details
  details_readBack _ := .refl _

/-- A row as `audit_integrity_scan` returns it. -/
structure ScannedRow where
  chainId : Option Str
  seq : DbNumber
  previousHash : Option Str
  eventHash : Option Str
  action : Str
  category : Str
  status : Str
  actorIdentityId : Str
  ipAddress : Str
  userAgent : Str
  details : Json
  timestamp : DbNumber

/-- The projection of the scan, for a row with a `seq`. -/
def ActivityRow.scanned (ρ : Rendering) (row : ActivityRow) (seq : DbNumber) : ScannedRow where
  chainId := row.chainId
  seq := seq
  previousHash := row.previousHash
  eventHash := row.eventHash
  action := row.action
  category := row.category
  status := row.status
  actorIdentityId := match row.actorIdentityId with
    | none => []
    | some key => ρ.address key row
  ipAddress := row.ipAddress
  userAgent := row.userAgent
  details := .object (ρ.details row)
  timestamp := row.timestamp

end SoulAuth
