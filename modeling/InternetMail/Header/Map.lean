import InternetMail.Entries
import InternetMail.Header.Field
import InternetMail.Json
import InternetMail.Stream

/-!
# Header maps

A header map holds the values of header fields, in the order in which their names were first added.
Only fields that may repeat take a second value; it stands with the first.

Values are kept as on the wire: line breaks they are folded at stay, and encoded words are not
decoded.
-/

namespace InternetMail

/-- The values of header fields, in order. -/
structure HeaderMap where
  entries : Entries HeaderName (List Text)

namespace Error

/-- A second value for a field that may not repeat. -/
def duplicateHeader (n : HeaderName) : Error :=
  (ofSummary ("Header map cannot contain more than one value for header: " ++
    String.ofList n.display)).withKind .duplicateHeader

/-- A header block that ends with something else than a field. -/
def malformedBlock (rest : Octets) : Error :=
  (ofSummary "Could not parse header block").withDetails
    ("Not a header field: " ++ (Text.firstLine (Utf8.decodeLossy rest)).quoted)
    |>.withKind .parse

end Error

namespace HeaderMap

/-- No fields. -/
def empty : HeaderMap := ⟨[]⟩

/-- Maps are equal if they have the same values under the same names, in whatever order. -/
instance : BEq HeaderMap := ⟨fun a b ↦ a.entries.sameEntries b.entries⟩

/-! ### Fields -/

/-- All values of a field. -/
def getAll (m : HeaderMap) (n : HeaderName) : List Text :=
  (m.entries.lookup n).getD []

/-- The first value of a field. -/
def get? (m : HeaderMap) (n : HeaderName) : Option Text :=
  (m.getAll n).head?

/-- Whether the map has the field. -/
def contains (m : HeaderMap) (n : HeaderName) : Bool :=
  (m.entries.lookup n).isSome

/-- Replaces all values of a field by one. A new field comes last. -/
def set (m : HeaderMap) (n : HeaderName) (value : Text) : HeaderMap :=
  ⟨m.entries.put n [value]⟩

/-- Adds a value to a field. One that is there already may have to refuse it. -/
def add (m : HeaderMap) (n : HeaderName) (value : Text) : Outcome HeaderMap :=
  match m.entries.lookup n with
  | none => .ok (m.set n value)
  | some values =>
    if n.isRepeatable then .ok ⟨m.entries.put n (values ++ [value])⟩
    else .error (.duplicateHeader n)

/-- Takes a field out. -/
def remove (m : HeaderMap) (n : HeaderName) : HeaderMap :=
  ⟨m.entries.remove n⟩

/-- The names of the fields with each of their values, in order. -/
def fields (m : HeaderMap) : List (HeaderName × Text) :=
  m.entries.flatMap fun e ↦ e.2.map fun value ↦ (e.1, value)

/-! ### Fields by the spelling of their name -/

/-- All values of the field that `t` spells. -/
def getAllSpelled (m : HeaderMap) (t : Text) : List Text :=
  ((HeaderName.ofText? t).map m.getAll).getD []

/-- The first value of the field that `t` spells. -/
def getSpelled? (m : HeaderMap) (t : Text) : Option Text :=
  (HeaderName.ofText? t).bind m.get?

/-- Whether the map has the field that `t` spells. -/
def containsSpelled (m : HeaderMap) (t : Text) : Bool :=
  (HeaderName.ofText? t).any m.contains

/-- Replaces all values of the field that `t` spells. -/
def setSpelled (m : HeaderMap) (t value : Text) : Outcome HeaderMap :=
  (HeaderName.parse t).map (m.set · value)

/-- Adds a value to the field that `t` spells. -/
def addSpelled (m : HeaderMap) (t value : Text) : Outcome HeaderMap := do
  m.add (← HeaderName.parse t) value

/-- Takes out the field that `t` spells, and gives its values if it was there. -/
def removeSpelled (m : HeaderMap) (t : Text) : Option (List Text) × HeaderMap :=
  match HeaderName.ofText? t with
  | some n => (m.entries.lookup n, m.remove n)
  | none => (none, m)

/-! ### On the wire -/

/-- A field as it is written. -/
def renderField (field : HeaderName × Text) : Text :=
  field.1.display ++ [':', ' '] ++ field.2 ++ ['\r', '\n']

/-- The fields as they are written, one after another. -/
def render (m : HeaderMap) : Text :=
  m.fields.flatMap renderField

/-- The fields as they are written, piece by piece. -/
def pieces (m : HeaderMap) : List Octets :=
  m.fields.flatMap fun f ↦ [f.1.display, [':', ' '], f.2, ['\r', '\n']].map Utf8.encode

/-- Writes the fields. -/
def write (m : HeaderMap) (sink : Sink) : Outcome Unit × Sink :=
  sink.writeEach m.pieces

/-- Adds fields as they stand on the wire, up to the first that is refused. -/
def addAll (m : HeaderMap) : List Field → Outcome Unit × HeaderMap
  | [] => (.ok (), m)
  | f :: fs =>
    match m.add f.name (Utf8.decodeLossy f.value) with
    | .ok m => m.addAll fs
    | .error e => (.error e, m)

/-- The map of some fields. -/
def ofFields (fs : List Field) : Outcome HeaderMap :=
  match empty.addAll fs with
  | (.ok (), m) => .ok m
  | (.error e, _) => .error e

/-- The fields of a mail. -/
def ofOctets (bs : Octets) : Outcome HeaderMap := do
  let (fields, _) ← Mail.split bs
  ofFields fields

/-- Reads lines up to an empty one, which is dropped, or to the end. A line of blanks is empty. -/
def readBlock (source : Source) : Outcome Octets × Source :=
  match h : source.line with
  | (.error e, source') => (.error e, source')
  | (.ok line, source') =>
    if hl : line.trim.isEmpty then (.ok [], source')
    else
      have : source'.octets.length < source.octets.length := by
        have hlen := source.length_line (congrArg Prod.fst h)
        rw [h] at hlen
        have : line.length ≠ 0 := by
          intro h0
          rw [List.eq_nil_of_length_eq_zero h0] at hl
          exact hl rfl
        simp only at hlen
        omega
      match readBlock source' with
      | (.ok block, rest) => (.ok (line ++ block), rest)
      | failed => failed
termination_by source.octets.length

/-- Adds the fields of a header block. -/
def addBlock (m : HeaderMap) (block : Octets) : Outcome Unit × HeaderMap :=
  let (fields, rest) := Field.readAll block
  if rest.trim.isEmpty then m.addAll fields else (.error (.malformedBlock rest), m)

/-- Reads a header block and the empty line after it, and adds its fields. What follows is left in
the source. -/
def load (m : HeaderMap) (source : Source) : Outcome Unit × HeaderMap × Source :=
  match readBlock source with
  | (.ok block, source) =>
    let (outcome, m) := m.addBlock block
    (outcome, m, source)
  | (.error e, source) => (.error e, m, source)

/-! ### As JSON -/

/-- The map as a JSON object of lists of values. -/
def toJson (m : HeaderMap) : Json :=
  .object (m.entries.map fun e ↦ (e.1.display, .array (e.2.map .text)))

/-- The map of a JSON object of lists of values. A name that comes up again takes the new values. -/
def ofJson? : Json → Option HeaderMap
  | .object members =>
    members.foldlM (fun m (name, values) ↦ do
      let .array items := values | none
      return ⟨m.entries.put (← HeaderName.ofText? name) (← items.mapM Json.text?)⟩) empty
  | _ => none

end HeaderMap

end InternetMail
