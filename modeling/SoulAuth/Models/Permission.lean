import SoulAuth.Utils.Text

/-! # The names of the permissions

What the code asks for, under the names that the initial data gives to the
rows of `permission`.
-/

namespace SoulAuth

/-- `auth_local!`: the namespace of the names. -/
def authLocal (name : String) : Str := "soulauth:".toList ++ name.toList

namespace Names

def usersRead : Str := authLocal "users.read"

def usersWrite : Str := authLocal "users.write"

def rolesRead : Str := authLocal "roles.read"

def rolesWrite : Str := authLocal "roles.write"

def rolesDelete : Str := authLocal "roles.delete"

def permissionsRead : Str := authLocal "permissions.read"

def permissionsWrite : Str := authLocal "permissions.write"

def securityRead : Str := authLocal "security.read"

def securityWrite : Str := authLocal "security.write"

def oidcClientsWrite : Str := authLocal "oidc_clients.write"

def actorsWrite : Str := authLocal "actors.write"

end Names

end SoulAuth
