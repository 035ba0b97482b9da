import InternetMail.EncodedWord.Basic

/-!
# Header text with encoded words in it

A header text is words with white space between them, and some of the words may be encoded.
`decodeText` decodes these and drops the white space between two of them that stand side by side;
everything else is kept as it is. `encodeText` writes a text as encoded words if it needs to be,
none of them longer than 75 characters and none of them ending within a character.
-/

namespace InternetMail

/-! ### Words -/

/-- A word of a text and the white space before it. -/
structure SpacedWord where
  space : Text
  word : Text

/-- The words of a text, and the white space after the last. -/
def spacedWords (t : Text) : List SpacedWord × Text :=
  match h : t.dropWhile isSpaceChar with
  | [] => ([], t)
  | c :: rest =>
    have : ((c :: rest).dropWhile (!isSpaceChar ·)).length < t.length := by
      have hc : isSpaceChar c = false := by
        have := List.head?_dropWhile_not isSpaceChar t
        rw [h] at this
        simpa using this
      have h₁ := (List.dropWhile_sublist isSpaceChar (l := t)).length_le
      have h₂ := (List.dropWhile_sublist (!isSpaceChar ·) (l := rest)).length_le
      rw [h, List.length_cons] at h₁
      rw [List.dropWhile_cons_of_pos (by simp [hc])]
      omega
    let (words, after) := spacedWords ((c :: rest).dropWhile (!isSpaceChar ·))
    (⟨t.takeWhile isSpaceChar, (c :: rest).takeWhile (!isSpaceChar ·)⟩ :: words, after)
termination_by t.length

variable [MultiByte.Codec]

/-! ### Decoding -/

/-- Whether the word begins and ends like an encoded word. -/
def looksEncoded (word : Text) : Bool :=
  ['=', '?'].isPrefixOf word && ['?', '='].isSuffixOf word

/-- What a word says if it is an encoded word. A charset that is not known is an error; a word that
is malformed in another way is no encoded word, which is reported. -/
def decodeSpacedWord (word : Text) : Attempt (Option Text) := do
  if looksEncoded word then
    tryCatch (some <$> EncodedWord.decode word) fun e ↦ do
      if e.kind = .unsupportedEncoding then throw e
      Reported.note (.keptMalformedWord word e.summary)
      return none
  else return none

/-- What words say, `afterEncoded` telling whether an encoded word stands before them. -/
def decodeWords (afterEncoded : Bool) : List SpacedWord → Attempt Text
  | [] => return []
  | w :: ws => do
    match ← decodeSpacedWord w.word with
    | some t =>
      let rest ← decodeWords true ws
      return (if afterEncoded then [] else w.space) ++ t ++ rest
    | none =>
      let rest ← decodeWords false ws
      return w.space ++ w.word ++ rest

/-- The text with its encoded words decoded. -/
def decodeText (t : Text) : Attempt Text := do
  let (words, after) := spacedWords t
  return (← decodeWords false words) ++ after

/-- A header value without its folding line breaks. -/
def unfold : Octets → Octets
  | 0x0d :: 0x0a :: bs => unfold bs
  | 0x0a :: bs => unfold bs
  | b :: bs => b :: unfold bs
  | [] => []

/-- What a header value on the wire says. Octets above 127 are read as UTF-8. -/
def decodeHeaderValue (value : Octets) : Attempt Text :=
  decodeText (Utf8.decodeLossy (Octets.trim (unfold value)))

/-! ### Encoding -/

/-- The longest encoded word, with its delimiters. -/
def encodedWordLimit : Nat := 75

/-- Whether a text has to be written as encoded words: it has a character that is not ASCII, a
control other than TAB, or what could be taken for the start of an encoded word. -/
def needsEncoding (t : Text) : Bool :=
  (t.any fun c ↦ 128 ≤ c.toNat || (c.toNat < 32 && c != '\t') || c.toNat == 127) ||
    Run.contains ['=', '?'] t

/-- The encoding for a text: `Q` if less than half of it is outside ASCII. -/
def WordEncoding.forText (t : Text) : WordEncoding :=
  if (t.countP fun c ↦ 128 ≤ c.toNat) * 2 < t.length then .q else .b

/-- The number of characters that octets take in an encoded word. -/
def WordEncoding.size (encoding : WordEncoding) (bs : Octets) : Nat :=
  match encoding with
  | .b => (bs.length + 2) / 3 * 4
  | .q => (QuotedPrintable.encodeWord bs).length

/-- Octets as an encoded word has them. -/
def WordEncoding.write (encoding : WordEncoding) (bs : Octets) : Octets :=
  match encoding with
  | .b => Base64.encode bs
  | .q => QuotedPrintable.encodeWord bs

/-- What stands before the octets of an encoded word. -/
def wordOpening (charset : Charset) (encoding : WordEncoding) : Text :=
  ['=', '?'] ++ charset.name.toList ++ ['?', encoding.letter, '?']

/-- Takes a text apart into chunks, each as long as `size` lets `budget` hold, and encodes these;
`begun` is the stretch of the chunk begun, and `current` are its octets. A character never ends up
in two chunks. -/
def packChunks (encode : Text → Option Octets) (size : Octets → Nat) (budget : Nat) (begun : Text)
    (current : Octets) : Text → Option (List Octets)
  | [] => some (if current.isEmpty then [] else [current])
  | c :: t => do
    let candidate ← encode (begun ++ [c])
    if budget < size candidate && !current.isEmpty then
      let first ← encode [c]
      return current :: (← packChunks encode size budget [c] first t)
    else packChunks encode size budget (begun ++ [c]) candidate t

/-- The encoded word that carries a chunk. -/
def writeWord (charset : Charset) (encoding : WordEncoding) (chunk : Octets) : Text :=
  wordOpening charset encoding ++ (encoding.write chunk).map Octet.toChar ++ ['?', '=']

/-- The text as encoded words in the charset of `label`, with a space between them; a text that
needs no encoding is kept as it is. -/
def encodeText (t label : Text) (encoding : Option WordEncoding) : Outcome Text :=
  if !needsEncoding t then .ok t
  else do
    let charset ← Charset.resolve label
    let encoding := encoding.getD (.forText t)
    let budget := encodedWordLimit - ((wordOpening charset encoding).length + 2)
    match packChunks charset.octets? encoding.size budget [] [] t with
    | none => .error (.unmappable charset.name)
    | some chunks => .ok (Text.joined [' '] (chunks.map (writeWord charset encoding)))

end InternetMail
