import InternetMail.EncodedWord.Text
import InternetMail.Text.Lowercase

/-!
# Addresses

An address is the address itself and a display name. A group is one address too, whose text is the
whole group.

A display name has two forms, the one that is shown and the one that is written in a header. Either
it was given as shown and encoded then, or it was read as written and is decoded when it is asked
for.

A form that is derived when it is asked for is no part of the name, whether or not it is kept from
then on. It is a function of the raw name alone: `DisplayName.reading` of it, and that in UTF-8 if
the raw name is not ASCII. So neither how often the forms are asked for nor which of the two is
asked for first can be seen in an answer (`Address.personal_ask`, `Address.encodedPersonal_ask`).
What can be seen is that decoding reports what comes up the first time and no more (`Address.ask`);
of all that a kept form would tell, `asked` alone is left. A name that was given has both forms from
the start, as one that cannot be encoded is refused, and its charset is never needed again.

Addresses are equal, and ordered, by their text in lower case; display names do not count.
-/

namespace InternetMail

/-- The display name of an address. -/
inductive DisplayName
  | absent
  /-- A name given as it is shown, with its encoded form. -/
  | given (shown encoded : Text)
  /-- A name as it was written, and whether it was asked for before. -/
  | written (raw : Text) (asked : Bool)
  deriving DecidableEq

/-- An address with its display name. -/
structure Address where
  spec : Text
  name : DisplayName
  deriving DecidableEq

/-- The charset of display names that come with none. -/
def defaultNameCharset : Text := "utf-8".toList

theorem resolve_defaultNameCharset : Charset.resolve defaultNameCharset = .ok .utf8 := rfl

variable [MultiByte.Codec]

namespace DisplayName

/-- What a name says as it was written. A name that cannot be decoded is shown as it is. -/
def reading (raw : Text) : Reported Notice Text := do
  match ← ExceptT.run (decodeText raw) with
  | .ok shown => return shown
  | .error e =>
    Reported.report (.undecodableName raw e.message)
    return raw

/-- The name as it is shown. -/
def shown : DisplayName → Option Text
  | absent => none
  | given shown _ => some shown
  | written raw _ => some (reading raw).value

/-- The name as it is written in a header, which is ASCII. -/
def encoded : DisplayName → Option Text
  | absent => none
  | given _ encoded => some encoded
  | written raw _ =>
    if Text.isAscii raw then some raw
    else (encodeText (reading raw).value defaultNameCharset none).toOption

end DisplayName

namespace Address

/-- No address. -/
def empty : Address := ⟨[], .absent⟩

/-- The display name as it is shown. -/
def personal (a : Address) : Option Text := a.name.shown

/-- The display name as it is written in a header. -/
def encodedPersonal (a : Address) : Option Text := a.name.encoded

/-- Asks for the display name as it is shown. The first time, what came up in decoding it is
reported. -/
def ask (a : Address) : Reported Notice Address :=
  match a.name with
  | .written raw false => ⟨{ a with name := .written raw true }, (DisplayName.reading raw).notices⟩
  | _ => pure a

/-- Asks for the display name as it is written. Only a name that is not ASCII is decoded for that.
-/
def askEncoded (a : Address) : Reported Notice Address :=
  match a.name with
  | .written raw _ => if Text.isAscii raw then pure a else a.ask
  | _ => pure a

/-! ### Changing an address -/

/-- Replaces the address itself by any text. -/
def setSpec (spec : Text) (a : Address) : Address :=
  { a with spec }

/-- Replaces the display name, which is encoded in `charset`. If it cannot be encoded, nothing
changes. -/
def setPersonal (shown charset : Option Text) (a : Address) : Outcome Address :=
  match shown with
  | none => .ok { a with name := .absent }
  | some shown => do
    let encoded ← encodeText shown (charset.getD defaultNameCharset) none
    return { a with name := .given shown encoded }

/-- Replaces the display name by one as it is written. -/
def setEncodedPersonal (raw : Option Text) (a : Address) : Address :=
  { a with
    name :=
      match raw with
      | none => .absent
      | some raw => .written raw false }

/-- An address with a display name; the address itself may be any text. -/
def withPersonal (spec shown : Text) (charset : Option Text) : Outcome Address :=
  setPersonal (some shown) charset ⟨spec, .absent⟩

/-! ### Comparing addresses -/

/-- The text that addresses are compared by. -/
def key (a : Address) : Text := Text.lower a.spec

instance : BEq Address := ⟨fun a b ↦ a.key == b.key⟩

instance : Ord Address := ⟨fun a b ↦ compare a.key b.key⟩

/-! ### Groups -/

/-- Whether the text is that of a group: it ends with a semicolon and has a colon that does not
begin it. -/
def isGroupText (t : Text) : Bool :=
  t.getLast? == some ';' && t.contains ':' && t.head? != some ':'

/-- Whether the address is a group. -/
def isGroup (a : Address) : Bool := isGroupText a.spec

/-! ### First facts -/

/-- Asking for a name does not change what the address says. -/
@[simp]
theorem spec_ask (a : Address) : a.ask.value.spec = a.spec := by
  unfold ask
  split <;> rfl

@[simp]
theorem personal_ask (a : Address) : a.ask.value.personal = a.personal := by
  unfold ask
  split
  · rename_i h
    simp [personal, h, DisplayName.shown]
  · rfl

@[simp]
theorem encodedPersonal_ask (a : Address) : a.ask.value.encodedPersonal = a.encodedPersonal := by
  unfold ask
  split
  · rename_i h
    simp [encodedPersonal, h, DisplayName.encoded]
  · rfl

end Address

end InternetMail
