import InternetMail.Address.Fault
import InternetMail.Base64
import InternetMail.Text.Blank
import InternetMail.Text.Utf8

/-!
# Errors

Every operation of the library that can fail fails with an `Error`: a summary, details, the message
of the cause if there was one, and the kind by which callers tell errors apart. Each way to fail is
a function of its own here, so that its words stand in one place.
-/

namespace InternetMail

/-- How a source or a sink fails. -/
inductive StreamFault
  | unexpectedEof
  | brokenPipe
  | notFound
  | permissionDenied
  | invalidData
  | timedOut
  | other
  deriving DecidableEq, Repr

/-- The failure in words. -/
def StreamFault.message : StreamFault → String
  | .unexpectedEof => "unexpected end of file"
  | .brokenPipe => "broken pipe"
  | .notFound => "entity not found"
  | .permissionDenied => "permission denied"
  | .invalidData => "invalid data"
  | .timedOut => "timed out"
  | .other => "other error"

/-- What went wrong, in a form that callers can match on. -/
inductive ErrorKind
  /-- Nothing more than the summary says. -/
  | none
  /-- Address text that breaks a rule of the grammar. -/
  | addressSyntax (rule : SyntaxRule) (strictness : Strictness)
  /-- A charset that is not known, or a character that a charset does not have. -/
  | unsupportedEncoding
  /-- A second value for a field that may not repeat. -/
  | duplicateHeader
  /-- A media type without a handler, or content that its handler does not write. -/
  | unsupportedContentType
  /-- A malformed encoded word, header block, date or content type. -/
  | parse
  /-- A value outside its domain. -/
  | valueError
  /-- A source or a sink that failed. -/
  | io (fault : StreamFault)
  deriving DecidableEq, Repr

/-- The kind in words. -/
def ErrorKind.message : ErrorKind → String
  | .none => "None"
  | .addressSyntax rule strictness =>
    s!"Address syntax error ({rule.message}, {strictness.name})"
  | .unsupportedEncoding => "Unsupported encoding"
  | .duplicateHeader => "Duplicate header"
  | .unsupportedContentType => "Unsupported content type"
  | .parse => "Parse error"
  | .valueError => "Invalid value"
  | .io fault => s!"I/O error: {fault.message}"

/-- Whether the kind is that of malformed address text. -/
def ErrorKind.isAddressSyntax : ErrorKind → Bool
  | .addressSyntax _ _ => true
  | _ => false

/-- What an operation fails with. -/
structure Error where
  summary : String
  details : Option String
  /-- The message of what caused the error. -/
  cause : Option String
  kind : ErrorKind
  deriving DecidableEq

namespace Error

/-- An error that says no more than its summary. -/
def ofSummary (summary : String) : Error :=
  ⟨summary, none, none, .none⟩

/-- Puts another summary in place; the one before it becomes the first line of the details. -/
def withSummary (summary : String) (e : Error) : Error :=
  { e with
    summary
    details := some <|
      match e.details with
      | some details => e.summary ++ "\n" ++ details
      | none => e.summary }

/-- Replaces the details. -/
def withDetails (details : String) (e : Error) : Error :=
  { e with details := some details }

/-- Replaces the cause. -/
def withCause (cause : Option String) (e : Error) : Error :=
  { e with cause }

/-- Replaces the kind. -/
def withKind (kind : ErrorKind) (e : Error) : Error :=
  { e with kind }

/-- The error in words: the summary, then details that are not blank, the cause and the kind, each
on a line of its own. -/
def message (e : Error) : String :=
  let details :=
    match e.details with
    | some details => if (Text.trim details.toList).isEmpty then "" else "\n" ++ details
    | none => ""
  let cause :=
    match e.cause with
    | some cause => "\nCaused by: " ++ cause
    | none => ""
  let kind := if e.kind = .none then "" else "\nError kind: " ++ e.kind.message
  e.summary ++ details ++ cause ++ kind

/-! ### The ways to fail -/

/-- An error whose summary is that of its cause. -/
def ofCause (message : String) (kind : ErrorKind) : Error :=
  ⟨message, none, some message, kind⟩

/-- A source or a sink failed. -/
def ofStream (fault : StreamFault) (message : String) : Error :=
  ofCause message (.io fault)

/-- Octets that should have been UTF-8 were not. -/
def ofUtf8 (fault : Utf8.Fault) : Error :=
  ofCause fault.message .unsupportedEncoding

/-- A run of symbols is not base64. -/
def ofRun (fault : Base64.RunFault) : Error :=
  ofCause fault.message .parse

/-- Blocks of symbols are not base64. -/
def ofBlock (fault : Base64.BlockFault) : Error :=
  ofCause fault.message .parse

/-- Address text breaks a rule of the grammar. -/
def ofAddress (fault : AddressFault) : Error :=
  ⟨"Invalid address", some fault.message, some fault.message,
    .addressSyntax fault.rule fault.strictness⟩

end Error

end InternetMail
