import InternetMail.Entries
import InternetMail.Flags.System
import InternetMail.Json
import InternetMail.Text.Lowercase

/-!
# Flags of a message

A message has system flags and any number of flags that the user names. The names are compared
without regard to case and shown as they were spelled last; sets with the same names are equal
whatever the spelling.
-/

namespace InternetMail

/-- The flags of a message. -/
structure Flags where
  system : SystemFlags
  /-- The names of the user's flags, each under its lower case. -/
  user : Entries Text Text

/-- What flags are added, taken away or looked up by. -/
inductive FlagOperand
  | system (flags : SystemFlags)
  | user (name : Text)
  | set (flags : Flags)

namespace Flags

/-- No flags. -/
def empty : Flags := ⟨.empty, []⟩

/-- Whether the set has a flag of the user, given by its lower case. -/
def hasKey (f : Flags) (key : Text) : Bool :=
  (f.user.lookup key).isSome

instance : BEq Flags :=
  ⟨fun a b ↦ a.system == b.system && a.user.length == b.user.length &&
    a.user.keys.all b.hasKey⟩

/-- Adds flags. A flag of the user that is there already takes the new spelling. -/
def add (f : Flags) : FlagOperand → Flags
  | .system flags => { f with system := f.system.union flags }
  | .user name => { f with user := f.user.put (Text.lower name) name }
  | .set g =>
    ⟨f.system.union g.system, g.user.foldl (fun user e ↦ user.put e.1 e.2) f.user⟩

/-- Takes flags away. -/
def remove (f : Flags) : FlagOperand → Flags
  | .system flags => { f with system := f.system.diff flags }
  | .user name => { f with user := f.user.remove (Text.lower name) }
  | .set g => ⟨f.system.diff g.system, f.user.filter (!g.hasKey ·.1)⟩

/-- Whether one of some system flags is there, or the flag of a name, or all flags of a set. -/
def contains (f : Flags) : FlagOperand → Bool
  | .system flags => f.system.meets flags
  | .user name => f.hasKey (Text.lower name)
  | .set g => f.system.contains g.system && g.user.keys.all f.hasKey

/-- Takes the system flags of another set and keeps those flags of the user that it has too. -/
def retain (f g : Flags) : Flags :=
  ⟨g.system, f.user.filter (g.hasKey ·.1)⟩

/-- Whether `retain` changes anything. -/
def isChangedByRetain (f g : Flags) : Bool :=
  f.system != g.system || f.user.length != (f.retain g).user.length

/-- Takes all system flags away. -/
def clearSystem (f : Flags) : Flags := { f with system := .empty }

/-- Takes all flags of the user away. -/
def clearUser (f : Flags) : Flags := { f with user := [] }

/-- Whether there are no flags. -/
def isEmpty (f : Flags) : Bool :=
  f.system == .empty && f.user.isEmpty

/-- The flags of the user as they are shown, in the order of their text. -/
def userNames (f : Flags) : List Text :=
  (f.user.map Prod.snd).mergeSort fun a b ↦ (compare a b).isLE

/-- What sets are told apart by: the system flags and the sorted keys of the user's. -/
def key (f : Flags) : UInt32 × List Text :=
  (f.system.bits, f.user.keys.mergeSort fun a b ↦ (compare a b).isLE)

/-! ### As JSON -/

/-- The flags as a JSON object. -/
def toJson (f : Flags) : Json :=
  .object [
    ("system".toList, .text f.system.text),
    ("user".toList, .object (f.user.map fun e ↦ (e.1, .text e.2)))]

/-- The flags of the user in a JSON object. Of two members of one name the later counts. -/
def userOfJson? : Json → Option (Entries Text Text)
  | .object members => members.foldlM (fun user (k, j) ↦ (j.text?).map (user.put k)) []
  | _ => none

/-- The flags that a JSON value holds, an object or an array of both its members. Other members of
an object are passed over. -/
def ofJson? (j : Json) : Option Flags := do
  let (system, user) ←
    match j with
    | .object _ => do some (← j.member? "system", ← j.member? "user")
    | .array [system, user] => some (system, user)
    | _ => none
  return ⟨← SystemFlags.ofText? (← system.text?), ← userOfJson? user⟩

end Flags

end InternetMail
