import InternetMail.Proofs.Charset.Label
import InternetMail.Proofs.Charset.LineBreaks
import InternetMail.Proofs.Message.Content

/-!
# Text in a declared charset

The encoding for a text is chosen by its octets in the charset of its type, and quoted-printable
writes their LF octets as line breaks. In UTF-16 these octets are parts of other characters. A text
without line breaks comes back as it was just if quoted-printable is not chosen for it or keeps its
octets (`Message.content_setContent_declared`); in charsets other than UTF-16 it always does.

So the text, its charset and the choice of the encoding have to fit each other, and the result says
when they do: whatever the label of the charset is, with blanks and quotes around it or not, the
text comes back unless its octets in that charset are put in quoted-printable and changed by it
(`TransferEncoding.Keeps`). Of the two fixed texts at the end one has a unit with the octets of a
whole line break and comes back, and one has an LF in a unit and does not.
-/

namespace InternetMail.Message

open Reported (outcome)

variable {m m' : Message} {t label : Text} {charset : Charset} {raw : Octets}

/-- Plain text in a charset. -/
def plainText (label : Text) : ContentType :=
  (ContentType.ofNames "text".toList "plain".toList).setParameter "charset".toList label

theorem typeFor_plainText (label t : Text) :
    typeFor (plainText label) (.text t) = textType "plain".toList label := rfl

/-- Text that was set has a form in its charset. -/
theorem exists_octets?_of_setContent [MultiByte.Codec]
    (hlabel : Charset.resolve label = .ok charset)
    (h : outcome (m.setContent .default (plainText label) (.text t)) = .ok m') :
    ∃ raw, charset.octets? t = some raw ∧ charset.encode t = .ok raw := by
  obtain ⟨raw, -, hraw, -⟩ := outcome_setContent_eq_ok_iff.1 h
  rw [typeFor_plainText, outcome_octetsOf_textType, hlabel, ok_bind] at hraw
  refine ⟨raw, ?_, hraw⟩
  rw [Charset.encode] at hraw
  split at hraw
  · cases hraw
  · split at hraw
    · rename_i hoctets
      rw [hoctets, Except.ok.inj hraw]
    · cases hraw

/-- What text that was set is read as. -/
theorem outcome_content_of_setContent [MultiByte.Codec]
    (hlabel : Charset.resolve label = .ok charset) (hraw : charset.encode t = .ok raw)
    (h : outcome (m.setContent .default (plainText label) (.text t)) = .ok m') :
    outcome (m'.content .default) =
      .ok (.text (charset.text ((TransferEncoding.forText raw).carried raw))) := by
  have hsub : ContentType.IsName "plain".toList := by decide
  obtain ⟨m'', hset, hcontent⟩ := exists_setContent_text (m := m) hsub
    (typeFor_plainText label t) hlabel (Charset.resolve_unfolded hlabel) hraw
  rw [h] at hset
  rwa [Except.ok.inj hset]

/-- **Text in a declared charset.** A text without line breaks that was set as plain text in a whole
charset, under whatever label, comes back as it was just if quoted-printable is not chosen for it or
keeps its octets: each LF octet stands right after a CR octet, and none of these is the last. In
charsets other than UTF-16 it comes back as it was. -/
theorem content_setContent_declared [MultiByte.Codec] (m m' : Message) (t label : Text)
    (charset : Charset)
    (ht : ∀ c ∈ t, c ≠ '\r' ∧ c ≠ '\n') (hlabel : Charset.resolve label = .ok charset)
    (hwhole : charset.isWhole = true)
    (hset : outcome (m.setContent .default (plainText label) (.text t)) = .ok m') :
    (outcome (m'.content .default) = .ok (.text t) ↔
      ∀ raw, charset.octets? t = some raw → TransferEncoding.forText raw = .quotedPrintable →
        QuotedPrintable.Keeps raw) ∧
    ((∀ order, charset ≠ .utf16 order) → outcome (m'.content .default) = .ok (.text t)) := by
  obtain ⟨raw, hoctets, hraw⟩ := exists_octets?_of_setContent hlabel hset
  have hcontent := outcome_content_of_setContent hlabel hraw hset
  have hsame : outcome (m'.content .default) = .ok (.text t) ↔
      charset.text ((TransferEncoding.forText raw).carried raw) = t := by
    rw [hcontent]
    exact ⟨fun h ↦ Content.text.inj (Except.ok.inj h), fun h ↦ by rw [h]⟩
  have hiff : outcome (m'.content .default) = .ok (.text t) ↔
      ∀ raw, charset.octets? t = some raw → TransferEncoding.forText raw = .quotedPrintable →
        QuotedPrintable.Keeps raw := by
    rw [hsame]
    constructor
    · intro htext raw' hoctets' hchosen
      obtain rfl : raw = raw' := Option.some.inj (hoctets.symm.trans hoctets')
      rw [TransferEncoding.carried, if_pos hchosen] at htext
      exact (Charset.text_endedLines_eq_iff hwhole ht hoctets).1 htext
    · intro hkeeps
      by_cases hchosen : TransferEncoding.forText raw = .quotedPrintable
      · rw [TransferEncoding.carried_of_keeps _ (hkeeps raw hoctets hchosen),
          Charset.text_of_octets? hwhole hoctets]
      · rw [TransferEncoding.carried_of_ne hchosen, Charset.text_of_octets? hwhole hoctets]
  refine ⟨hiff, fun hunits ↦ hiff.2 fun raw' hoctets' _ ↦ ?_⟩
  exact QuotedPrintable.keeps_of_forall (Charset.ne_break_of_octets? hwhole hunits ht hoctets')

/-- The octets of a character that are those of a CR LF, in quoted-printable for a control among the
octets of the next one; the label is quoted and folded. -/
theorem content_setContent_declared_unit_of_break :
    ∃ m', outcome ((empty .default).setContent .default (plainText " \"\r\n UTF-16BE\"".toList)
        (.text "䅁䅁䅁ഊ䄅".toList)) = .ok m' ∧
      outcome (m'.content .default) = .ok (.text "䅁䅁䅁ഊ䄅".toList) := by
  have hlabel : Charset.resolve " \"\r\n UTF-16BE\"".toList = .ok (.utf16 .bigEndian) := rfl
  have hraw : Charset.encode (.utf16 .bigEndian) "䅁䅁䅁ഊ䄅".toList =
      .ok [0x41, 0x41, 0x41, 0x41, 0x41, 0x41, 0x0d, 0x0a, 0x41, 0x05] := by decide
  have hkeeps : ∀ raw, Charset.octets? (.utf16 .bigEndian) "䅁䅁䅁ഊ䄅".toList = some raw →
      TransferEncoding.forText raw = .quotedPrintable → QuotedPrintable.Keeps raw := by
    intro raw h _
    obtain rfl := Option.some.inj h
    decide
  obtain ⟨m', hset, -⟩ := exists_setContent_text (m := empty .default) (by decide)
    (typeFor_plainText _ _) hlabel (Charset.resolve_unfolded hlabel) hraw
  exact ⟨m', hset, (content_setContent_declared _ m' _ _ (.utf16 .bigEndian)
    (Run.forall_mem_of_all (by decide)) hlabel rfl hset).1.2 hkeeps⟩

/-- The last character has an LF octet before its second one, a control. Quoted-printable writes a
CR before it, so that the text comes back with another character and half a one. -/
theorem content_setContent_declared_unit_of_line_feed :
    Charset.resolve "utf-16be".toList = .ok (.utf16 .bigEndian) ∧
      (∀ c ∈ "䅁䅁䅁䅁ਅ".toList, c ≠ '\r' ∧ c ≠ '\n') ∧
      ∃ m', outcome ((empty .default).setContent .default (plainText "utf-16be".toList)
          (.text "䅁䅁䅁䅁ਅ".toList)) = .ok m' ∧
        outcome (m'.content .default) = .ok (.text "䅁䅁䅁䅁ഊ\uFFFD".toList) ∧
        "䅁䅁䅁䅁ഊ\uFFFD".toList ≠ "䅁䅁䅁䅁ਅ".toList := by
  have hlabel : Charset.resolve "utf-16be".toList = .ok (.utf16 .bigEndian) := rfl
  have hraw : Charset.encode (.utf16 .bigEndian) "䅁䅁䅁䅁ਅ".toList =
      .ok [0x41, 0x41, 0x41, 0x41, 0x41, 0x41, 0x41, 0x41, 0x0a, 0x05] := by decide
  obtain ⟨m', hset, hcontent⟩ := exists_setContent_text (m := empty .default) (by decide)
    (typeFor_plainText _ _) hlabel (Charset.resolve_unfolded hlabel) hraw
  refine ⟨hlabel, Run.forall_mem_of_all (by decide), m', hset, ?_, by decide⟩
  rw [hcontent]
  have hread : Charset.text (.utf16 .bigEndian) ((TransferEncoding.forText
      [0x41, 0x41, 0x41, 0x41, 0x41, 0x41, 0x41, 0x41, 0x0a, 0x05]).carried
        [0x41, 0x41, 0x41, 0x41, 0x41, 0x41, 0x41, 0x41, 0x0a, 0x05]) =
      "䅁䅁䅁䅁ഊ\uFFFD".toList := by decide
  rw [hread]

end InternetMail.Message
