import InternetMail.Address.Basic
import InternetMail.Address.Token
import InternetMail.Text.Blank

/-!
# Written addresses

How addresses are written, one by one and as lists. A display name is quoted if it has a special
character or white space that reading would not bring back; an address that is more than a plain
`local@domain` stands in angle brackets; a list is folded where the next address would end past a
column, and only between addresses.
-/

namespace InternetMail

/-- Whether a text has white space at an end, or two of them side by side. -/
def hasLooseWhite (t : Text) : Bool :=
  t.head?.any isWhite || t.getLast?.any isWhite ||
    (t.zip (t.drop 1)).any fun p ↦ isWhite p.1 && isWhite p.2

/-- The text between quotes, with quotes and backslashes in it escaped. -/
def inQuotes (t : Text) : Text :=
  '"' :: t.flatMap (fun c ↦ if c == '"' || c == '\\' then ['\\', c] else [c]) ++ ['"']

/-- The text as a phrase: in quotes if reading would not bring it back without. -/
def quotePhrase (t : Text) : Text :=
  if !t.isEmpty && !hasLooseWhite t && !t.any isSpecial then t else inQuotes t

namespace Address

/-- Whether an address has to stand in angle brackets: one with a route, a quoted local part or a
domain literal. -/
def needsBrackets (spec : Text) : Bool :=
  !isGroupText spec &&
    spec.any fun c ↦ ['(', ')', '<', '>', ',', ';', ':', '"', '[', ']'].contains c

/-- An address without a display name as it is written. -/
def formatSpec (spec : Text) : Text :=
  if needsBrackets spec then '<' :: spec ++ ['>'] else spec

/-- The address as it is written with the display name `name`; a group has none. -/
def render (a : Address) (name : Option Text) : Text :=
  if a.isGroup then a.spec
  else
    match name with
    | some name => quotePhrase name ++ [' ', '<'] ++ a.spec ++ ['>']
    | none => formatSpec a.spec

variable [MultiByte.Codec]

/-- The address as it is written in a header. -/
def format (a : Address) : Text := a.render a.encodedPersonal

/-- The address as it is shown. -/
def formatUnicode (a : Address) : Text := a.render a.personal

end Address

/-! ### Lists -/

/-- Where an address list is folded unless something else is asked for. -/
def defaultFoldColumn : Nat := 72

/-- A line break and the indentation of the next line. -/
def foldBreak : Text := ['\r', '\n', ' ', ' ']

/-- The width of the indentation. -/
def foldIndent : Nat := 2

/-- The items after the first, each with what separates it from the one before; `used` columns of
the line are taken. -/
def foldRest (column used : Nat) : List Text → Text
  | [] => []
  | item :: items =>
    if column < used + item.length + 1 then
      [','] ++ foldBreak ++ item ++ foldRest column (foldIndent + item.length) items
    else [',', ' '] ++ item ++ foldRest column (used + 2 + item.length) items

/-- Items with commas between them, where `used` columns of the first line are taken. A line break
stands before an item that would end past `column`. A single item may end at the column; in a list
room for a comma is asked for. -/
def foldList (used column : Nat) : List Text → Text
  | [] => []
  | [item] => if column < used + item.length then foldBreak ++ item else item
  | item :: items =>
    if column < used + item.length + 1 then
      foldBreak ++ item ++ foldRest column (foldIndent + item.length) items
    else item ++ foldRest column (used + item.length) items

namespace Address

variable [MultiByte.Codec]

/-- A list of addresses as it is written in a header, after `used` columns. -/
def formatList (as : List Address) (used : Nat) : Text :=
  foldList used defaultFoldColumn (as.map format)

/-- A list of addresses as it is shown, after `used` columns. -/
def formatListUnicode (as : List Address) (used : Nat) : Text :=
  foldList used defaultFoldColumn (as.map formatUnicode)

end Address

end InternetMail
