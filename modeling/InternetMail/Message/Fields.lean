import InternetMail.Address.Format
import InternetMail.Address.Parser
import InternetMail.ContentType.Parser
import InternetMail.Date.Parser
import InternetMail.Message.Basic
import InternetMail.TransferEncoding

/-!
# Fields of a message

What the fields of a message say: who wrote it and who it is for, its subject, when it was sent, and
how its body is encoded. Address fields are read with the strictness and folded at the column that
the settings say.
-/

namespace InternetMail

/-- How a message is addressed to somebody. -/
inductive RecipientKind
  | primary
  /-- A copy. -/
  | cc
  /-- A copy that the other recipients do not see. -/
  | bcc
  deriving DecidableEq, Repr

/-- All kinds, in the order in which recipients are listed. -/
def RecipientKind.all : List RecipientKind := [.primary, .cc, .bcc]

/-- The field that recipients of a kind stand in. -/
def RecipientKind.field : RecipientKind → HeaderName
  | .primary => StandardName.recipient
  | .cc => StandardName.cc
  | .bcc => StandardName.bcc

/-- What a field value says as plain text: unfolded, and without the blanks around it. -/
def valueText (value : Text) : Text :=
  Utf8.decodeLossy (Octets.trim (unfold (Utf8.encode value)))

namespace Error

/-- A field that should hold a date and does not. -/
def malformedDate (value : Text) (fault : DateFault) : Error :=
  (ofDate fault).withSummary ("Invalid date: " ++ value.quoted)

end Error

namespace Message

variable [MultiByte.Codec]

/-- The first value of a field as plain text. -/
def fieldText? (m : Message) (n : HeaderName) : Option Text :=
  (m.headers.get? n).map valueText

/-! ### Addresses -/

/-- The addresses of a field value. -/
def addressesOf (m : Message) (n : HeaderName) (value : Text) : Attempt (List Address) :=
  let t := valueText value
  if t.isEmpty then return []
  else
    (Address.parseList m.settings.headerStrictness t).summarized
      ("Could not parse " ++ String.ofList n.display ++ " header")

/-- The addresses in all values of a field. -/
def addresses (m : Message) (n : HeaderName) : Attempt (List Address) := do
  return (← (m.headers.getAll n).mapM (m.addressesOf n)).flatten

/-- The addresses of a field, or of another if it has none. -/
def addressesOr (m : Message) (n : HeaderName) (otherwise : Attempt (List Address)) :
    Attempt (List Address) := do
  let as ← m.addresses n
  if as.isEmpty then otherwise else return as

/-- Who wrote the message, or else who sent it. -/
def authors (m : Message) : Attempt (List Address) :=
  m.addressesOr StandardName.author (m.addresses StandardName.sender)

/-- Who to reply to, or else who wrote the message. -/
def replyTo (m : Message) : Attempt (List Address) :=
  m.addressesOr StandardName.replyTo m.authors

/-- The recipients of a kind. -/
def recipients (m : Message) (kind : RecipientKind) : Attempt (List Address) :=
  m.addresses kind.field

/-- The recipients of all kinds, one kind after another. -/
def allRecipients (m : Message) : Attempt (List Address) := do
  return (← RecipientKind.all.mapM m.recipients).flatten

/-- Replaces an address field by a folded list. An empty list takes the field out. -/
def setAddresses (m : Message) (n : HeaderName) (as : List Address) :
    Reported Notice Message := do
  if as.isEmpty then return { m with headers := m.headers.remove n }
  else
    let as ← as.mapM Address.askEncoded
    let value := foldList (n.text.length + 2) m.settings.foldColumn (as.map Address.format)
    return { m with headers := m.headers.set n value }

/-- Replaces the author. -/
def setAuthor (m : Message) (a : Option Address) : Reported Notice Message :=
  m.setAddresses StandardName.author a.toList

/-- Replaces the recipients of a kind. -/
def setRecipients (m : Message) (kind : RecipientKind) (as : List Address) :
    Reported Notice Message :=
  m.setAddresses kind.field as

/-- Adds recipients of a kind after those that are there. -/
def addRecipients (m : Message) (kind : RecipientKind) (as : List Address) : Attempt Message := do
  m.setRecipients kind ((← m.recipients kind) ++ as)

/-! ### Subject, date and identifier -/

/-- The subject, with its encoded words decoded. -/
def subject (m : Message) : Attempt (Option Text) :=
  match m.headers.get? StandardName.subject with
  | none => return none
  | some value => some <$> decodeHeaderValue (Utf8.encode value)

/-- Replaces the subject, which is encoded in the charset of the settings if it has to be. -/
def setSubject (m : Message) (subject : Option Text) : Outcome Message :=
  match subject with
  | none => .ok { m with headers := m.headers.remove StandardName.subject }
  | some t => do
    let value ← encodeText t m.settings.personalCharset none
    return { m with headers := m.headers.set StandardName.subject value }

/-- A date without the comment at its end. -/
def withoutComment (t : Text) : Text :=
  if t.getLast? == some ')' && t.contains '(' then
    Text.trimEnd ((t.reverse.dropWhile (· != '(')).drop 1).reverse
  else t

/-- When the message was sent. -/
def sentDate (m : Message) : Outcome (Option Date) :=
  match m.fieldText? StandardName.date with
  | none => .ok none
  | some value =>
    ((Date.parse (withoutComment value)).map some).mapError (Error.malformedDate value)

/-- Replaces the date that the message was sent. -/
def setSentDate (m : Message) (date : Option Date) : Message :=
  { m with
    headers :=
      match date with
      | some date => m.headers.set StandardName.date date.format
      | none => m.headers.remove StandardName.date }

/-- The identifier of the message. -/
def messageId (m : Message) : Option Text :=
  m.fieldText? StandardName.messageId

/-! ### The body -/

/-- The type of the content; plain ASCII text if the message does not say. -/
def contentType (m : Message) : Outcome ContentType :=
  match m.fieldText? StandardName.contentType with
  | some value => ContentType.parse value
  | none => .ok .default

/-- The encoding of the body; seven bits if the message does not say. -/
def transferEncoding (m : Message) : TransferEncoding :=
  match m.headers.get? StandardName.contentTransferEncoding with
  | some value => .ofOctets (Utf8.encode value)
  | none => .sevenBit

end Message

end InternetMail
