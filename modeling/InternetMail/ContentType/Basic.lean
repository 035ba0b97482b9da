import InternetMail.Entries
import InternetMail.Text.Blank

/-!
# Content types

A content type is a type and a subtype, such as `text/plain`, with parameters. Type, subtype and the
names of parameters are in lower case, the values are as given. `ContentType.format` writes a
content type; values that are no tokens stand between quotes.
-/

namespace InternetMail

/-- The type of some content. -/
structure ContentType where
  primary : Text
  sub : Text
  parameters : Entries Text Text

namespace ContentType

/-- The content type of two names in any case, without parameters. -/
def ofNames (primary sub : Text) : ContentType :=
  ⟨(Text.trim primary).foldAscii, (Text.trim sub).foldAscii, []⟩

/-- Content types are equal if they have the same parameters, in whatever order. -/
instance : BEq ContentType :=
  ⟨fun a b ↦ a.primary == b.primary && a.sub == b.sub && a.parameters.sameEntries b.parameters⟩

/-! ### Parameters -/

/-- The value of a parameter, by its name in any case. -/
def parameter? (ct : ContentType) (name : Text) : Option Text :=
  ct.parameters.lookup name.foldAscii

/-- Gives a parameter a value. A new parameter comes last. -/
def setParameter (ct : ContentType) (name value : Text) : ContentType :=
  { ct with parameters := ct.parameters.put (Text.trim name).foldAscii value }

/-- Takes out a parameter, by its name in any case. -/
def removeParameter (ct : ContentType) (name : Text) : ContentType :=
  { ct with parameters := ct.parameters.remove name.foldAscii }

/-- The charset that the content names. -/
def charset? (ct : ContentType) : Option Text :=
  ct.parameter? "charset".toList

/-- The content type of a body that has none. -/
def default : ContentType :=
  (ofNames "text".toList "plain".toList).setParameter "charset".toList "us-ascii".toList

/-! ### Matching -/

/-- Type and subtype without the parameters. -/
def base (ct : ContentType) : Text :=
  ct.primary ++ '/' :: ct.sub

/-- The pattern of all types with the same main type. -/
def wildcard (ct : ContentType) : Text :=
  ct.primary ++ ['/', '*']

/-- Whether the content is text. -/
def isText (ct : ContentType) : Bool :=
  ct.primary == "text".toList

/-- Whether a pattern matches the type: `*` in place of a name matches any. What follows a semicolon
in the pattern does not count. -/
def isMatch (ct : ContentType) (pattern : Text) : Bool :=
  let pattern := Text.trim (pattern.takeWhile (· != ';'))
  let agrees (name : Text) (given : Text) : Bool :=
    Text.trim given == ['*'] || (Text.trim given).foldAscii == name.foldAscii
  match pattern.dropWhile (· != '/') with
  | [] => false
  | _ :: sub => agrees ct.primary (pattern.takeWhile (· != '/')) && agrees ct.sub sub

/-! ### Writing -/

/-- The characters that a token may not have besides white space and controls. -/
def specials : List Char :=
  ['(', ')', '<', '>', '@', ',', ';', ':', '\\', '"', '/', '[', ']', '?', '=']

/-- Whether a value has to stand between quotes. -/
def needsQuotes (value : Text) : Bool :=
  value.isEmpty || value.any fun c ↦
    c.toNat ≤ 0x20 || c.toNat == 0x7f || specials.contains c

/-- A value between quotes. -/
def quoteValue (value : Text) : Text :=
  '"' :: value.flatMap (fun c ↦ if c == '"' || c == '\\' then ['\\', c] else [c]) ++ ['"']

/-- A parameter as it is written. -/
def formatParameter (p : Text × Text) : Text :=
  [';', ' '] ++ p.1 ++ '=' :: (if needsQuotes p.2 then quoteValue p.2 else p.2)

/-- The content type as it is written. -/
def format (ct : ContentType) : Text :=
  ct.base ++ ct.parameters.flatMap formatParameter

end ContentType

end InternetMail
