import InternetMail.Address.Fault
import InternetMail.Json

/-!
# Settings

What messages are read and written with. Settings are kept as a JSON object in which every member
may be missing (`Settings.ofJson?`), or as an array of its members in their order; they are written
as an object with all of them (`Settings.toJson`).
-/

namespace InternetMail

/-- The settings that a message and the messages in it are read and written with. -/
structure Settings where
  /-- The charset of text that names none. -/
  defaultTextCharset : Text
  /-- The charset that subjects are encoded in. -/
  personalCharset : Text
  /-- The column at which address fields are folded. -/
  foldColumn : Nat
  /-- The strictness that address fields are read with. -/
  headerStrictness : Strictness
  /-- The address of the local user. -/
  localAddress : Option Text
  /-- The name of the local user, for want of an address. -/
  user : Option Text
  /-- The host of the local user, for want of an address. -/
  host : Option Text
  deriving DecidableEq

namespace Settings

/-- The settings where nothing else is said. -/
def default : Settings where
  defaultTextCharset := "us-ascii".toList
  personalCharset := "utf-8".toList
  foldColumn := 72
  headerStrictness := .parseHeader
  localAddress := none
  user := none
  host := none

/-- The address made up of user and host, if neither is missing or empty. -/
def userAtHost (s : Settings) : Option Text :=
  match s.user, s.host with
  | some user, some host =>
    if user.isEmpty || host.isEmpty then none else some (user ++ '@' :: host)
  | _, _ => none

/-- The text of the address of the local user; a given one comes before user and host. -/
def localText (s : Settings) : Option Text :=
  s.localAddress.or s.userAtHost

/-! ### Settings as JSON -/

/-- The settings as a JSON object. -/
def toJson (s : Settings) : Json :=
  let optional : Option Text → Json
    | some t => .text t
    | none => .null
  .object [
    ("default_text_charset".toList, .text s.defaultTextCharset),
    ("personal_charset".toList, .text s.personalCharset),
    ("fold_column".toList, .integer s.foldColumn),
    ("header_strictness".toList, .text s.headerStrictness.name.toList),
    ("from".toList, optional s.localAddress),
    ("user".toList, optional s.user),
    ("host".toList, optional s.host)]

/-- A column: an integer of 64 bits that is not negative. -/
def column? : Json → Option Nat
  | .integer n => if 0 ≤ n ∧ n < 0x10000000000000000 then some n.toNat else none
  | _ => none

/-- A strictness by its name, which may also stand as the only member of an object. -/
def strictness? : Json → Option Strictness
  | .text t => Strictness.ofName? (String.ofList t)
  | .object [(t, .null)] => Strictness.ofName? (String.ofList t)
  | _ => none

/-- A text, or nothing. -/
def optionalText? : Json → Option (Option Text)
  | .null => some none
  | .text t => some (some t)
  | _ => none

/-- Reads settings, given the member at each place, by its name and its position. A missing member
takes its default; one that cannot be read makes the whole unreadable. -/
def ofMembers? (member : String → Nat → Option Json) : Option Settings := do
  let entry {α : Type} (name : String) (i : Nat) (read : Json → Option α) (missing : α) :
      Option α :=
    match member name i with
    | some j => read j
    | none => some missing
  return {
    defaultTextCharset := ← entry "default_text_charset" 0 Json.text? default.defaultTextCharset
    personalCharset := ← entry "personal_charset" 1 Json.text? default.personalCharset
    foldColumn := ← entry "fold_column" 2 column? default.foldColumn
    headerStrictness := ← entry "header_strictness" 3 strictness? default.headerStrictness
    localAddress := ← entry "from" 4 optionalText? default.localAddress
    user := ← entry "user" 5 optionalText? default.user
    host := ← entry "host" 6 optionalText? default.host }

/-- The settings that a JSON value holds. Members of other names are passed over. -/
def ofJson? (j : Json) : Option Settings :=
  match j with
  | .object _ => ofMembers? fun name _ ↦ j.member? name
  | .array items => if items.length ≤ 7 then ofMembers? fun _ i ↦ items[i]? else none
  | _ => none

end Settings

end InternetMail
