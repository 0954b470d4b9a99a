import Rollcall.Registration

/-!
# The shared key

The registry and its instances know each other by one secret, which is carried in a header and
never shown in diagnostics.
-/

namespace Rollcall

/-- The secret that a registry and its instances share. Diagnostics never show it, so it has no
`Repr`. -/
structure AccessKey where
  secret : String
  deriving DecidableEq

namespace AccessKey

/-- Whether a presented key is the secret, compared as a whole. Presenting none is no key. -/
def verify (key : AccessKey) : Option String → Bool
  | some candidate => candidate = key.secret
  | none => false

def debug (_ : AccessKey) : String := "RegKey([REDACTED])"

/-- The value of a variable; where it is set several times, the last one counts. -/
def valueOf? (name : String) (environment : List (String × String)) : Option String :=
  (environment.reverse.find? (·.1 = name)).map (·.2)

/-- Takes the key from the environment, where it must be set and not empty. Nothing else is asked of
it: it may hold characters that no header can carry back. -/
def ofEnvironment (environment : List (String × String)) : Except InputError AccessKey :=
  match valueOf? keyVariable environment with
  | some secret => if secret.isEmpty then .error .keyNotConfigured else .ok ⟨secret⟩
  | none => .error .keyNotConfigured

end AccessKey
end Rollcall
