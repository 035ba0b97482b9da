import InternetMail.Address.Parser
import InternetMail.Settings

/-!
# The address of the local user

The settings may say who the local user is, by an address or by user and host.
-/

namespace InternetMail.Address

/-- The address of the local user. One that is no address is reported and passed over. -/
def ofSettings (s : Settings) : Reported Notice (Option Address) := do
  match s.localText with
  | none => return none
  | some t =>
    match ← (parse .strict t).run with
    | .ok a => return some a
    | .error e =>
      Reported.report (.invalidLocalAddress t e.message)
      return none

end InternetMail.Address
