import InternetMail.Notice

/-!
# Names of header fields

Field names are compared without regard to the case of ASCII letters. A `HeaderName` holds the name
in lower case, which is its identity; how it is written comes from that. The names that the
standards define are written as they spell them (`StandardName`), all others with a capital after
each hyphen (`HeaderName.display`).

Reading a name accepts what consists of printable ASCII characters other than the colon, once the
blanks around it are dropped (`HeaderName.ofOctets?`), and two octet strings are read as the same
name exactly when they agree but for case and such blanks.
-/

namespace InternetMail

/-- The fields that the mail standards define and mail programs use. -/
inductive StandardName
  | returnPath
  | received
  | date
  /-- The field `From`. -/
  | author
  | sender
  | replyTo
  /-- The field `To`. -/
  | recipient
  | cc
  | bcc
  | messageId
  | inReplyTo
  | references
  | subject
  | comments
  | keywords
  | newsgroups
  | resentDate
  | resentFrom
  | resentSender
  | resentTo
  | resentCc
  | resentBcc
  | resentMessageId
  | mimeVersion
  | contentType
  | contentTransferEncoding
  | contentId
  | contentDescription
  | contentDisposition
  | contentLanguage
  | userAgent
  | xMailer
  deriving DecidableEq, Repr

namespace StandardName

/-- The name as the standards spell it. -/
def spelling : StandardName → String
  | returnPath => "Return-Path"
  | received => "Received"
  | date => "Date"
  | author => "From"
  | sender => "Sender"
  | replyTo => "Reply-To"
  | recipient => "To"
  | cc => "Cc"
  | bcc => "Bcc"
  | messageId => "Message-ID"
  | inReplyTo => "In-Reply-To"
  | references => "References"
  | subject => "Subject"
  | comments => "Comments"
  | keywords => "Keywords"
  | newsgroups => "Newsgroups"
  | resentDate => "Resent-Date"
  | resentFrom => "Resent-From"
  | resentSender => "Resent-Sender"
  | resentTo => "Resent-To"
  | resentCc => "Resent-Cc"
  | resentBcc => "Resent-Bcc"
  | resentMessageId => "Resent-Message-ID"
  | mimeVersion => "MIME-Version"
  | contentType => "Content-Type"
  | contentTransferEncoding => "Content-Transfer-Encoding"
  | contentId => "Content-ID"
  | contentDescription => "Content-Description"
  | contentDisposition => "Content-Disposition"
  | contentLanguage => "Content-Language"
  | userAgent => "User-Agent"
  | xMailer => "X-Mailer"

/-- Whether a message may have the field more than once. -/
def isRepeatable : StandardName → Bool
  | returnPath | received => true
  | _ => false

/-- All standard names. -/
def all : List StandardName := [
  returnPath, received, date, author, sender, replyTo, recipient, cc, bcc, messageId, inReplyTo,
  references, subject, comments, keywords, newsgroups, resentDate, resentFrom, resentSender,
  resentTo, resentCc, resentBcc, resentMessageId, mimeVersion, contentType,
  contentTransferEncoding, contentId, contentDescription, contentDisposition, contentLanguage,
  userAgent, xMailer]

/-- The name in lower case. -/
def key (s : StandardName) : Octets :=
  Octets.foldAscii (.ofAscii s.spelling)

/-- The standard name that some octets spell in any case. -/
def ofOctets? (bs : Octets) : Option StandardName :=
  all.find? fun s ↦ s.key == Octets.foldAscii bs

end StandardName

/-- Whether a field name may hold the octet: a printable ASCII character, but no colon. -/
def isNameOctet (b : UInt8) : Bool :=
  33 ≤ b && b ≤ 126 && b != 0x3a

/-- Whether some octets are a field name in lower case. -/
def isNameKey (bs : Octets) : Bool :=
  !bs.isEmpty && bs.all fun b ↦ isNameOctet b && Octet.toLower b == b

/-- The name of a header field. -/
structure HeaderName where
  /-- The name in lower case. -/
  key : Octets
  isNameKey_key : isNameKey key = true := by decide
  deriving DecidableEq

namespace HeaderName

/-- The name that some octets spell, with blanks around it. -/
def ofOctets? (bs : Octets) : Option HeaderName :=
  let key := Octets.foldAscii bs.trim
  if h : isNameKey key = true then some ⟨key, h⟩ else none

/-- The name that a text spells, with blanks around it. -/
def ofText? (t : Text) : Option HeaderName :=
  ofOctets? (Utf8.encode t)

/-- A standard name as the name of a field. -/
def ofStandard (s : StandardName) : HeaderName :=
  ⟨s.key, by cases s <;> decide +kernel⟩

instance : Coe StandardName HeaderName := ⟨ofStandard⟩

/-- The standard name that this is, if it is one. -/
def standard? (n : HeaderName) : Option StandardName :=
  StandardName.ofOctets? n.key

/-- Whether a message may have the field more than once. -/
def isRepeatable (n : HeaderName) : Bool :=
  n.standard?.any StandardName.isRepeatable

/-! ### Writing names -/

/-- The name as plain text: standard names as they are spelled, others in lower case. -/
def text (n : HeaderName) : Text :=
  match n.standard? with
  | some s => s.spelling.toList
  | none => n.key.map Octet.toChar

/-- What is written in capitals between hyphens. -/
def capitalWords : List Octets :=
  ["id", "md5", "mime", "spf", "dkim", "arc", "mta"].map .ofAscii

/-- What stands between hyphens in a name: an acronym in capitals, all else with its first letter a
capital. -/
def capitalize (word : Octets) : Octets :=
  if capitalWords.contains word then word.map Octet.toUpper
  else
    match word with
    | [] => []
    | b :: bs => Octet.toUpper b :: bs

/-- The name as it is written in a header. -/
def display (n : HeaderName) : Text :=
  match n.standard? with
  | some s => s.spelling.toList
  | none =>
    Text.joined ['-'] ((Run.stretches (· == 0x2d) n.key).map fun word ↦
      (capitalize word).map Octet.toChar)

/-- Whether a text, with white space around it, spells the name in any case. -/
def isSpelledBy (n : HeaderName) (t : Text) : Bool :=
  n.text.foldAscii == (Text.trim t).foldAscii

end HeaderName

namespace Error

/-- A text that is no field name. -/
def invalidName : Error :=
  (ofSummary "Invalid header name").withDetails
    "Header names are printable US-ASCII characters except ':'." |>.withKind .valueError

end Error

/-- The name that a text spells. -/
def HeaderName.parse (t : Text) : Outcome HeaderName :=
  match ofText? t with
  | some n => .ok n
  | none => .error .invalidName

end InternetMail
