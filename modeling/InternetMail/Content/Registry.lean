import InternetMail.Content.Basic

/-!
# Registries of handlers

A registry says which handler content of a type goes to: that of the type itself, or else that of
its main type, or else the fallback. Encoding writes nothing unless all of the content can be
written (`Registry.encode`).
-/

namespace InternetMail

/-- Handlers by content type. -/
structure Registry where
  /-- The handlers of `type/subtype` and `type/*`. -/
  handlers : Entries Text Handler
  /-- The handler of all other types. -/
  fallback : Option Handler

namespace Error

/-- Content of a type that has no handler. -/
def noHandler (ct : ContentType) : Error :=
  (ofSummary s!"No content handler for {String.ofList ct.base}").withKind .unsupportedContentType

end Error

namespace Registry

variable [MultiByte.Codec]

/-- No handlers. -/
def empty : Registry := ⟨[], none⟩

/-- Gives a type a handler, in place of the one it has. -/
def register (r : Registry) (mediaType : Text) (h : Handler) : Registry :=
  { r with handlers := r.handlers.put (Text.trim mediaType).foldAscii h }

/-- Replaces the fallback. -/
def setFallback (r : Registry) (h : Option Handler) : Registry :=
  { r with fallback := h }

/-- Text as text, messages as messages, all else as octets. -/
def default : Registry :=
  ((empty.register "text/*".toList .text).register "message/rfc822".toList .message).setFallback
    (some .binary)

/-- The handler for a type. Going to the fallback is reported. -/
def lookup (r : Registry) (ct : ContentType) : Attempt Handler :=
  match (r.handlers.lookup ct.base).or (r.handlers.lookup ct.wildcard), r.fallback with
  | some h, _ => return h
  | none, some h => do
    Reported.note (.fallbackHandler ct.base h.name)
    return h
  | none, none => throw (.noHandler ct)

/-- The content that some octets are. -/
def read (r : Registry) (ct : ContentType) (settings : Settings) (bs : Octets) :
    Attempt Content := do
  (← r.lookup ct).read ct settings bs

/-- The octets of some content. -/
def octetsOf (r : Registry) (ct : ContentType) (settings : Settings) (c : Content) :
    Attempt Octets := do
  (← r.lookup ct).octetsOf ct settings c

/-- Reads content from a source, which is left alone if there is no handler. -/
def decode (r : Registry) (ct : ContentType) (settings : Settings) (source : Source) :
    Reported Notice (Outcome Content × Source) := do
  match ← (r.lookup ct).run with
  | .ok h => h.decode ct settings source
  | .error e => return (.error e, source)

/-- Writes content to a sink and passes it on. The handler writes to memory, so that the sink gets
nothing of content that is refused. -/
def encode (r : Registry) (ct : ContentType) (settings : Settings) (c : Content) (sink : Sink) :
    Reported Notice (Outcome Unit × Sink) := do
  match ← (r.lookup ct).run with
  | .ok h =>
    match h.encode ct settings c .buffer with
    | (.ok (), buffer) => return sink.deliver buffer.written
    | (.error e, _) => return (.error e, sink)
  | .error e => return (.error e, sink)

end Registry

end InternetMail
