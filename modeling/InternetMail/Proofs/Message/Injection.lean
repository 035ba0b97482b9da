import InternetMail.Proofs.Address.LineBreaks
import InternetMail.Proofs.Message.AddressFields

/-!
# Addresses in the fields of a message

Nothing checks the values that are set, and an address that was read strictly may have a line break
in a quoted string, a comment or a domain literal, which it is written with. If no space or TAB
stands after it, the field ends there when the message is read again, and what follows may be read
as a field of its own.

`survives_setRecipients_and_setAuthor` says that nothing else goes wrong: a message is read as it
was written just if none of its new addresses has such a line break, and none has if the text that
they were found in does not.

The boundary is the text that the addresses were found in, and it is exact for the values that are
written: a field survives if each line feed in it has a fold behind it (`wireSafe_foldList_iff`),
and a message does if its fields do and its map is in order. The name of an address is never at
fault, as one with a line break in it is encoded.
-/

namespace InternetMail.Message

open Reported

variable {m : Message} {n : HeaderName} {as : List Address}

/-! ### Header maps with an address field replaced -/

theorem nodup_keys_setAddresses [MultiByte.Codec] (h : m.headers.entries.keys.Nodup) :
    (m.setAddresses n as).value.headers.entries.keys.Nodup := by
  by_cases hne : as = []
  · subst hne
    exact Entries.nodup_keys_remove n h
  · rw [value_setAddresses hne]
    exact Entries.nodup_keys_put h

theorem wellFormed_setAddresses [MultiByte.Codec] (h : m.headers.WellFormed) :
    (m.setAddresses n as).value.headers.WellFormed := by
  by_cases hne : as = []
  · subst hne
    exact h.remove n
  · rw [value_setAddresses hne]
    exact h.set n _

/-! ### Reading the message again -/

theorem survives_setAddresses_iff [MultiByte.Codec] (hbare : ∀ a ∈ as, Bare a.format)
    (hm : m.WireSafe) (hkeys : m.headers.entries.keys.Nodup) :
    (m.setAddresses n as).value.Survives ↔
      (∀ a ∈ as, a.format.Continued) ∧ (m.setAddresses n as).value.headers.WellFormed := by
  rw [survives_iff (nodup_keys_setAddresses hkeys), wireSafe_setAddresses_iff hm hbare]

/-- **Addresses bring in fields by their line breaks alone.** After recipients or an author were set
to addresses of a list that was read strictly, the message is read as an equal one just if each line
feed in these stands before a space or a TAB, and its header map is in order. If each line feed in
the text of the list does, then so does each in its addresses. -/
theorem survives_setRecipients_and_setAuthor [MultiByte.Codec] {t : Text}
    (has : outcome (Address.parseList .strict t) = .ok as) (hm : m.WireSafe)
    (hkeys : m.headers.entries.keys.Nodup) :
    (∀ kind, (m.setRecipients kind as).value.Survives ↔
        (∀ a ∈ as, a.format.Continued) ∧
          (m.setRecipients kind as).value.headers.WellFormed) ∧
      (∀ a ∈ as, (m.setAuthor (some a)).value.Survives ↔
        a.format.Continued ∧ (m.setAuthor (some a)).value.headers.WellFormed) ∧
      (t.Continued → ∀ a ∈ as, a.format.Continued) := by
  have hformat := bare_and_continued_format_of_parseList has
  refine ⟨fun kind ↦ ?_, fun a ha ↦ ?_, fun ht a ha ↦ (hformat a ha).2 ht⟩
  · exact survives_setAddresses_iff (fun a ha ↦ (hformat a ha).1) hm hkeys
  · have hsingle : ∀ b ∈ (some a).toList, Bare b.format := by simpa using (hformat a ha).1
    rw [setAuthor, survives_setAddresses_iff hsingle hm hkeys]
    simp

/-- A name that is not ASCII, and a quoted local part with a line break before a space. -/
theorem survives_setRecipients_and_setAuthor_folded :
    ∃ m : Message, ∃ as : List Address, m.WireSafe ∧
      outcome (Address.parseList .strict "é (\\\n\t) <\"a\\\n b\"@c>, d@e".toList) = .ok as ∧
      as.length = 2 ∧ (m.setRecipients .bcc as).value.Survives ∧
      ∀ a ∈ as, (m.setAuthor (some a)).value.Survives := by
  let subject := HeaderMap.empty.set (.ofStandard .subject) "x\n y".toList
  let m : Message := ⟨subject, [], .default⟩
  let as : List Address := [⟨"\"a\\\n b\"@c".toList, .written "é".toList false⟩,
    ⟨"d@e".toList, .absent⟩]
  have hordered : m.headers.WellFormed := (HeaderMap.Built.set _ _ .empty).wellFormed
  have hm : m.WireSafe := by decide
  have has : outcome (Address.parseList .strict
      "é (\\\n\t) <\"a\\\n b\"@c>, d@e".toList) = .ok as := by
    decide +kernel
  obtain ⟨hrecipients, hauthor, hcontinued⟩ :=
    survives_setRecipients_and_setAuthor has hm hordered.nodup
  have hall := hcontinued (by decide)
  exact ⟨m, as, hm, has, rfl, (hrecipients .bcc).2 ⟨hall, wellFormed_setAddresses hordered⟩,
    fun a ha ↦ (hauthor a ha).2 ⟨hall a ha, wellFormed_setAddresses hordered⟩⟩

/-- A quoted local part with a line break before a letter brings in a field. -/
theorem not_survives_setRecipients_of_quoted_break :
    ∃ m : Message, ∃ as : List Address, m.headers.Built ∧ m.WireSafe ∧
      outcome (Address.parseList .strict "\"a\nb: c\"@d".toList) = .ok as ∧
      ¬(m.setRecipients .primary as).value.Survives := by
  let as : List Address := [⟨"\"a\nb: c\"@d".toList, .absent⟩]
  have has : outcome (Address.parseList .strict "\"a\nb: c\"@d".toList) = .ok as := by
    decide +kernel
  have hm : WireSafe (empty .default) := by decide
  have hbare : ∀ a ∈ as, Bare a.format := fun a ha ↦
    (bare_and_continued_format_of_parseList has a ha).1
  have hbroken : ¬∀ a ∈ as, a.format.Continued := by decide
  refine ⟨empty .default, as, .empty, hm, has, ?_⟩
  rw [setRecipients, survives_setAddresses_iff hbare hm List.nodup_nil]
  exact fun h ↦ hbroken h.1

end InternetMail.Message
