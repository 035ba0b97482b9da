import InternetMail.Error
import InternetMail.Reported

/-!
# Notices

What the library reports while it works: how broken address text was put right, what could not be
read as it was meant, and what a search passed over. None of it is an error.

`Attempt α` is the type of a computation that reports notices and may fail with an `Error`.
-/

namespace InternetMail

/-- How much a notice matters. -/
inductive Level
  | error
  | warn
  | info
  | debug
  | trace
  deriving DecidableEq, Repr

/-- The name of a level. -/
def Level.name : Level → String
  | .error => "ERROR"
  | .warn => "WARN"
  | .info => "INFO"
  | .debug => "DEBUG"
  | .trace => "TRACE"

/-- How address text that breaks the grammar was read all the same. -/
inductive Recovery
  /-- A quoted string was closed at the end of the text. -/
  | closedQuote
  /-- A comment was closed at the end of the text. -/
  | closedComment
  /-- A semicolon outside a group was taken for a comma. -/
  | straySemicolon
  /-- A group was closed at the end of the list. -/
  | closedGroup
  /-- An angle bracket was closed at the end of its element. -/
  | closedRoute
  /-- What stands after a closed angle bracket was left out. -/
  | textAfterRoute
  deriving DecidableEq, Repr

/-- Something worth reporting that is no error. -/
inductive Notice
  /-- Broken address text was put right. -/
  | recovered (how : Recovery) (input : Text)
  /-- Octets above 127 in US-ASCII were read as U+FFFD. -/
  | replacedNonAscii
  /-- Malformed octets in another charset were read as U+FFFD. -/
  | replacedMalformed (charset : String)
  /-- A word that only looks like an encoded word was kept as it is. -/
  | keptMalformedWord (word : Text) (summary : String)
  /-- A display name could not be decoded and is shown as written. -/
  | undecodableName (raw : Text) (error : String)
  /-- The address of the local user is no address. -/
  | invalidLocalAddress (address : Text) (error : String)
  /-- A media type without a handler of its own went to the fallback. -/
  | fallbackHandler (mediaType : Text) (handler : String)
  /-- A search passed over a field that holds no addresses. -/
  | skippedAddressField (error : String)
  /-- A search passed over a value that could not be decoded. -/
  | skippedField (name : Text) (error : String)
  /-- A search passed over a date that could not be read. -/
  | skippedDate (error : String)
  /-- Another logger was there first. -/
  | loggerInstalled
  deriving DecidableEq

/-- The level that a notice is reported at. -/
def Notice.level : Notice → Level
  | .keptMalformedWord _ _ => .trace
  | .loggerInstalled => .warn
  | _ => .debug

/-- The notice in words. -/
def Notice.message : Notice → String
  | .recovered .closedQuote input =>
    "Closing unterminated quoted string at end of address " ++ input.quoted
  | .recovered .closedComment input =>
    "Closing unterminated comment at end of address " ++ input.quoted
  | .recovered .straySemicolon input =>
    "Treating stray ';' as a separator in address list " ++ input.quoted
  | .recovered .closedGroup input => "Closing unterminated group in " ++ input.quoted
  | .recovered .closedRoute input => "Closing unterminated route-addr in " ++ input.quoted
  | .recovered .textAfterRoute input => "Ignoring text after route-addr in " ++ input.quoted
  | .replacedNonAscii => "Replacing non-ASCII bytes in US-ASCII text."
  | .replacedMalformed charset =>
    s!"Replaced malformed byte sequences while decoding {charset}."
  | .keptMalformedWord word summary =>
    s!"Keeping malformed encoded word {word.quoted}: {summary}"
  | .undecodableName raw error => s!"Could not decode personal {raw.quoted}: {error}"
  | .invalidLocalAddress address error => s!"Invalid local address {address.quoted}: {error}"
  | .fallbackHandler mediaType handler =>
    s!"No handler for {String.ofList mediaType}, using fallback {handler}"
  | .skippedAddressField error => s!"Search skips unparsable address field: {error}"
  | .skippedField name error => s!"Search skips undecodable {String.ofList name} field: {error}"
  | .skippedDate error => s!"Search skips unparsable date: {error}"
  | .loggerInstalled => "A logger is already installed, StderrLogger was not registered."

/-- A computation that reports notices and may fail. -/
abbrev Attempt (α : Type) := ExceptT Error (Reported Notice) α

/-- The same attempt, whose failure is put under another summary. -/
def Attempt.summarized {α : Type} (summary : String) (x : Attempt α) : Attempt α :=
  Reported.restate (Error.withSummary summary) id x

/-- A computation that may fail, which reports nothing. -/
abbrev Outcome (α : Type) := Except Error α

end InternetMail
