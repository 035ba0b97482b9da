import InternetMail.Charset.Basic
import InternetMail.ContentType.Basic
import InternetMail.Message.Basic

/-!
# Content and its handlers

The content of a body is a text, a message or just octets. A `Handler` turns octets into content of
one of these kinds and back.
-/

namespace InternetMail

/-- What a body holds. -/
inductive Content
  | text (t : Text)
  | message (m : Message)
  | octets (bs : Octets)

/-- What kind of content it is, in words. -/
def Content.kind : Content → String
  | .text _ => "text"
  | .message _ => "message"
  | .octets _ => "bytes"

/-- How octets are turned into content and back. -/
inductive Handler
  /-- Text in the charset that the content type names. -/
  | text
  /-- A message in a message. -/
  | message
  /-- Octets as they are. -/
  | binary
  deriving DecidableEq, Repr

/-- The name of a handler. -/
def Handler.name : Handler → String
  | .text => "TextHandler"
  | .message => "MessageHandler"
  | .binary => "BinaryHandler"

namespace Error

/-- Content of another kind than the handler writes. -/
def wrongContent (h : Handler) (c : Content) (ct : ContentType) : Error :=
  (ofSummary s!"Cannot encode {c.kind} content as {String.ofList ct.base}").withDetails
    s!"{h.name} accepts other content." |>.withKind .unsupportedContentType

end Error

namespace Handler

variable [MultiByte.Codec]

/-- The charset of text: the one of the content type, or else that of the settings. -/
def charset (ct : ContentType) (settings : Settings) : Outcome Charset :=
  Charset.resolve (ct.charset?.getD settings.defaultTextCharset)

/-- The content that some octets are. -/
def read (h : Handler) (ct : ContentType) (settings : Settings) (bs : Octets) :
    Attempt Content :=
  match h with
  | .text => do
    let charset ← charset ct settings
    return .text (← charset.decode bs)
  | .message => do return .message (← Message.ofOctets settings bs)
  | .binary => return .octets bs

/-- The octets of some content. -/
def octetsOf (h : Handler) (ct : ContentType) (settings : Settings) (c : Content) :
    Outcome Octets :=
  match h, c with
  | .text, .text t => do (← charset ct settings).encode t
  | .message, .message m => .ok m.toOctets
  | .binary, .octets bs => .ok bs
  | h, c => .error (.wrongContent h c ct)

/-- Reads content from a source, of which nothing is left. -/
def decode (h : Handler) (ct : ContentType) (settings : Settings) (source : Source) :
    Reported Notice (Outcome Content × Source) := do
  match source.drain with
  | (.ok bs, rest) => return (← (h.read ct settings bs).run, rest)
  | (.error e, rest) => return (.error e, rest)

/-- Writes content to a sink. Only messages are passed on. -/
def encode (h : Handler) (ct : ContentType) (settings : Settings) (c : Content) (sink : Sink) :
    Outcome Unit × Sink :=
  match h, c with
  | .text, .text t =>
    match (charset ct settings).bind (·.encode t) with
    | .ok bs => sink.write bs
    | .error e => (.error e, sink)
  | .message, .message m => m.write sink
  | .binary, .octets bs => sink.write bs
  | h, c => (.error (.wrongContent h c ct), sink)

end Handler

end InternetMail
