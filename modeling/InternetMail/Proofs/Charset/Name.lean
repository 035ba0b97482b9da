import InternetMail.Charset.Basic
import InternetMail.Proofs.Charset.Inverse
import Mathlib.Data.List.Basic

/-!
# Charsets go by their names

The name of a whole charset is one of its labels, and of no charset before it in the table
(`Charset.exists_name`). All labels are made of visible characters
(`Charset.isLabelChar_of_ofLabel?`).

The table has texts that are string literals, and to decide something about all of them they are
taken as lists of characters. This is done once, in `exists_tables`: there are lists of characters
that the table is made of, with all that is needed of them by evaluation, and the results are read
off that.
-/

namespace InternetMail.Charset

/-- What names of charsets are written in: letters, digits and hyphens. -/
def isLabelOctet (b : UInt8) : Bool :=
  Octet.isAlphanumeric b || b == 0x2d

/-! ### The table as texts

A literal is the text it unfolds to, and texts are compared character by character. -/

/-- One more label, as a list of characters. -/
theorem map_ofList_cons {t : Text} {ts : List Text} {ss : List String}
    (h : ss = ts.map String.ofList) : String.ofList t :: ss = (t :: ts).map String.ofList := by
  rw [h, List.map_cons]

/-- The table of labels whose texts are in `table`. -/
def ofTexts (table : List (Charset × List Text)) : List (Charset × List String) :=
  table.map fun e ↦ (e.1, e.2.map String.ofList)

/-- One more line of the table. -/
theorem ofTexts_cons {charset : Charset} {ts : List Text} {ss : List String}
    {table : List (Charset × List Text)} {entries : List (Charset × List String)}
    (h : ss = ts.map String.ofList) (hentries : entries = ofTexts table) :
    (charset, ss) :: entries = ofTexts ((charset, ts) :: table) := by
  rw [h, hentries]
  rfl

/-- The charset that a label means by tables of texts. -/
def lookup (ascii : List Text) (table : List (Charset × List Text)) (t : Text) : Option Charset :=
  if ascii.contains t then some .ascii else (table.find? fun e ↦ e.2.contains t).map Prod.fst

/-- A label is in a row if its characters are. -/
theorem contains_map_ofList (ts : List Text) (t : Text) :
    (ts.map String.ofList).contains (String.ofList t) = ts.contains t := by
  rw [Bool.eq_iff_iff, List.contains_iff_mem, List.contains_iff_mem]
  exact List.mem_map_of_injective fun _ _ ↦ String.ofList_injective

/-- The charset of a label, by its characters. -/
theorem ofLabel?_ofList {ascii : List Text} {table : List (Charset × List Text)}
    (hascii : asciiLabels = ascii.map String.ofList) (htable : labels = ofTexts table) (t : Text) :
    ofLabel? (String.ofList t) = lookup ascii table t := by
  have hfind : (ofTexts table).find? (fun e ↦ e.2.contains (String.ofList t)) =
      (table.find? fun e ↦ e.2.contains t).map fun e ↦ (e.1, e.2.map String.ofList) := by
    rw [ofTexts, List.find?_map]
    congr 2
    funext e
    exact contains_map_ofList e.2 t
  rw [ofLabel?, hascii, htable, contains_map_ofList, hfind, Option.map_map]
  rfl

/-- The label that is looked up for a name. -/
def bareLabel (name : Octets) : Text :=
  Text.foldAscii (Text.trim (Run.strip (· == '"') (Text.trim (name.map Octet.toChar))))

/-- Whether a label may have the character: it is visible ASCII and no quote. -/
def isLabelChar (c : Char) : Bool :=
  0x21 ≤ c.toNat && c.toNat ≤ 0x7e && c != '"'

/-- **The labels, as lists of characters**: none is empty, all are made of visible characters, and
the name of each whole charset is found under itself. -/
theorem exists_tables : ∃ ascii table,
    (asciiLabels = ascii.map String.ofList ∧ labels = ofTexts table) ∧
    (ascii ++ table.flatMap Prod.snd).all (fun t ↦ !t.isEmpty && t.all isLabelChar) = true ∧
    ∀ charset : Charset, charset.isWhole = true → ∃ name : Octets,
      charset.name = String.ofList (name.map Octet.toChar) ∧
      (name ≠ [] ∧ name.all isLabelOctet = true) ∧
      lookup ascii table (bareLabel name) = some charset := by
  -- the tables are what unification makes of the literals in the first part
  apply Exists.intro
  apply Exists.intro
  apply And.intro
  · constructor
    · dsimp only [asciiLabels]
      repeat apply map_ofList_cons
      exact List.map_nil.symm
    · dsimp only [labels]
      repeat (apply ofTexts_cons; (repeat apply map_ofList_cons); exact List.map_nil.symm)
      exact List.map_nil.symm
  constructor
  · decide +kernel
  · have hname : ∀ {charset : Charset} {t : Text}, charset.name = String.ofList t →
        t = (t.map Octet.ofAscii).map Octet.toChar →
        charset.name = String.ofList ((t.map Octet.ofAscii).map Octet.toChar) := by
      intro charset t h ht
      rw [← ht, h]
    intro charset hwhole
    cases charset with
    | ascii => exact ⟨_, hname rfl (by decide +kernel), by decide +kernel, by decide +kernel⟩
    | utf8 => exact ⟨_, hname rfl (by decide +kernel), by decide +kernel, by decide +kernel⟩
    | utf16 order =>
      cases order <;>
        exact ⟨_, hname rfl (by decide +kernel), by decide +kernel, by decide +kernel⟩
    | singleByte s =>
      cases s <;>
        exact ⟨_, hname rfl (by decide +kernel), by decide +kernel, by decide +kernel⟩
    | multiByte m => cases hwhole
    | replacement => cases hwhole

/-- A whole charset is meant by its name, which is letters, digits and hyphens. -/
theorem exists_name {charset : Charset} (hwhole : charset.isWhole = true) :
    ∃ name : Octets, charset.name.toList = name.map Octet.toChar ∧ name ≠ [] ∧
      (∀ b ∈ name, isLabelOctet b = true) ∧
      resolve (name.map Octet.toChar) = .ok charset := by
  obtain ⟨ascii, table, ⟨hascii, htable⟩, -, hall⟩ := exists_tables
  obtain ⟨name, hname, ⟨hne, hoctets⟩, hlookup⟩ := hall charset hwhole
  refine ⟨name, by rw [hname, String.toList_ofList], hne, List.all_eq_true.1 hoctets, ?_⟩
  have hlabel : ofLabel? (String.ofList (bareLabel name)) = some charset := by
    rw [ofLabel?_ofList hascii htable, hlookup]
  rw [bareLabel] at hlabel
  rw [resolve, hlabel]

/-- A label that means a charset is not empty, and has only characters of labels. -/
theorem isLabelChar_of_ofLabel? {t : Text} {charset : Charset}
    (h : ofLabel? (String.ofList t) = some charset) :
    t ≠ [] ∧ ∀ c ∈ t, isLabelChar c = true := by
  obtain ⟨ascii, table, ⟨hascii, htable⟩, hall, -⟩ := exists_tables
  rw [ofLabel?_ofList hascii htable, lookup] at h
  have hmem : t ∈ ascii ++ table.flatMap Prod.snd := by
    split at h
    · exact List.mem_append_left _ (List.contains_iff_mem.1 ‹_›)
    · obtain ⟨entry, hfind, -⟩ := Option.map_eq_some_iff.1 h
      have hcontains := List.find?_some
        (p := fun e : Charset × List Text ↦ e.2.contains t) hfind
      exact List.mem_append_right _ (List.mem_flatMap.2
        ⟨entry, List.mem_of_find?_eq_some hfind, List.contains_iff_mem.1 hcontains⟩)
  have ht := List.all_eq_true.1 hall t hmem
  rw [Bool.and_eq_true, List.all_eq_true] at ht
  exact ⟨by simpa using ht.1, ht.2⟩

end InternetMail.Charset
