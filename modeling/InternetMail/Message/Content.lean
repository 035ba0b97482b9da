import InternetMail.Content.Registry
import InternetMail.Message.Fields

/-!
# The content of a message

Reading the content of a message undoes the encoding of its body and hands it to the handler of its
type. Setting the content goes the other way, and puts the fields that describe it in place.
-/

namespace InternetMail.Message

variable [MultiByte.Codec]

/-- The content of the body. -/
def content (m : Message) (r : Registry) : Attempt Content := do
  let ct ← m.contentType
  let bs ← m.transferEncoding.decode m.body
  r.read ct m.settings bs

/-- The type that content is set with: text that names no charset gets the smallest that holds it.
-/
def typeFor (ct : ContentType) : Content → ContentType
  | .text t =>
    if ct.isText && ct.charset?.isNone then
      ct.setParameter "charset".toList (if Text.isAscii t then "us-ascii" else "utf-8").toList
    else ct
  | _ => ct

/-- The encoding for a body of a type. Messages and what is made of parts are never encoded. -/
def encodingFor (ct : ContentType) (raw : Octets) : TransferEncoding :=
  if ct.isMatch "message/*".toList || ct.isMatch "multipart/*".toList then
    if Octets.isAscii raw then .sevenBit else .eightBit
  else if ct.isText then .forText raw
  else .forOctets raw

/-- The fields of a message with content of a type and encoding. -/
def describeContent (headers : HeaderMap) (ct : ContentType) (e : TransferEncoding) :
    HeaderMap :=
  let headers :=
    if headers.contains StandardName.mimeVersion then headers
    else headers.set StandardName.mimeVersion "1.0".toList
  (headers.set StandardName.contentType ct.format).set StandardName.contentTransferEncoding e.name

/-- Makes some content the body, with the fields that describe it. -/
def setContent (m : Message) (r : Registry) (ct : ContentType) (c : Content) :
    Attempt Message := do
  let ct := typeFor ct c
  let raw ← r.octetsOf ct m.settings c
  let e := encodingFor ct raw
  let body ← e.encode raw
  return { m with headers := describeContent m.headers ct e, body }

end InternetMail.Message
