import InternetMail.Header.Map
import InternetMail.Settings

/-!
# Messages

A message is header fields and a body, with the settings it is read and written with. A message is
read from octets or from a source, and written as its fields, an empty line and the body.

`Message.ofOctets` and `Message.ofSource` read the same; the first takes the mail apart as a
whole, the second line by line.
-/

namespace InternetMail

/-- A message. Its body is encoded for transport still. -/
structure Message where
  headers : HeaderMap
  body : Octets
  settings : Settings

namespace Message

/-- Messages are equal if they have equal fields, the same body and the same settings. -/
instance : BEq Message :=
  ⟨fun a b ↦ a.headers == b.headers && a.body == b.body && a.settings == b.settings⟩

/-- A message without fields and body. -/
def empty (settings : Settings) : Message :=
  ⟨.empty, [], settings⟩

/-- The message that some octets are. -/
def ofOctets (settings : Settings) (bs : Octets) : Outcome Message := do
  let (fields, body) ← Mail.split bs
  return ⟨← HeaderMap.ofFields fields, body, settings⟩

/-- The message that a source holds. -/
def ofSource (settings : Settings) (source : Source) : Outcome Message :=
  match HeaderMap.empty.load source with
  | (.ok (), headers, rest) => rest.drain.1.map fun body ↦ ⟨headers, body, settings⟩
  | (.error e, _, _) => .error e

/-- The message as it is written. -/
def toOctets (m : Message) : Octets :=
  Utf8.encode m.headers.render ++ [0x0d, 0x0a] ++ m.body

/-- Writes the fields, the empty line and the body, and passes them on. -/
def write (m : Message) (sink : Sink) : Outcome Unit × Sink :=
  match m.headers.write sink with
  | (.ok (), sink) =>
    match sink.writeEach [[0x0d, 0x0a], m.body] with
    | (.ok (), sink) => sink.flush
    | failed => failed
  | failed => failed

end Message

end InternetMail
