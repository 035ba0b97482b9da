import InternetMail.Proofs.Message.Content

/-!
# The content type on the wire

Nothing checks the fields that describe the content, and a value of a parameter may have a line
feed, which stands between quotes. In the header that is the line break of a folded value: it is
left out when the type is read, and if no space or TAB stands after it, the field ends there once
the message is read again.

`contentType_setContent` says that nothing else goes wrong: the type that octets are set with is the
type that the message has, before and after it went over the wire, just if no value has a line feed.

The fields that describe the content are two or three, and each is set by the same operation; what
holds of a map after any such operations is proved by one induction (`describeContent_induction`).
Of the values that are set, only the type can have a line feed, since the name of an encoding and
the version of the format have none.
-/

namespace InternetMail

open Reported (outcome)

namespace Message

variable {m : Message} {ct : ContentType} {e : TransferEncoding} {form : Octets}

/-! ### The fields that describe the content -/

/-- What each field that is set preserves, the description of the content preserves. -/
theorem describeContent_induction {P : HeaderMap → Prop} {headers : HeaderMap} (h : P headers)
    (hset : ∀ headers n, ∀ value ∈ ["1.0".toList, ct.format, e.name], P headers →
      P (headers.set n value)) : P (describeContent headers ct e) := by
  have hversion : P (if headers.contains StandardName.mimeVersion then headers
      else headers.set StandardName.mimeVersion "1.0".toList) := by
    split
    · exact h
    · exact hset _ _ _ (by simp) h
  exact hset _ _ _ (by simp) (hset _ _ _ (by simp) hversion)

theorem nodup_keys_described (h : m.headers.entries.keys.Nodup) :
    (m.described ct e form).headers.entries.keys.Nodup :=
  describeContent_induction (P := fun headers ↦ headers.entries.keys.Nodup) h
    fun _ _ _ _ ↦ Entries.nodup_keys_put

theorem unrepeated_described (h : m.headers.Unrepeated) :
    (m.described ct e form).headers.Unrepeated :=
  describeContent_induction h fun _ n value _ h ↦ h.set n value

theorem wireSafe_described (hm : m.WireSafe) (hct : ct.format.WireSafe)
    (he : e ∈ TransferEncoding.supported) : (m.described ct e form).WireSafe := by
  have hname : ∀ e ∈ TransferEncoding.supported, e.name.WireSafe := by decide
  refine describeContent_induction (P := HeaderMap.WireSafe) hm fun headers n value hvalue h ↦ ?_
  rw [HeaderMap.wireSafe_set_iff h]
  simp only [List.mem_cons, List.not_mem_nil, or_false] at hvalue
  rcases hvalue with rfl | rfl | rfl
  · decide
  · exact hct
  · exact hname e he

/-! ### The type that is read -/

/-- Names without values say nothing about the content. -/
theorem contentType_filled (hkeys : m.headers.entries.keys.Nodup) :
    contentType { m with headers := m.headers.filled } = m.contentType := by
  rw [contentType, contentType, fieldText?, fieldText?, HeaderMap.get?, HeaderMap.get?,
    HeaderMap.getAll_filled hkeys]

/-- If a message can be read from what it is written as, it has the same type then. -/
theorem contentType_of_ofOctets {r : Message} (hm : m.WireSafe)
    (hkeys : m.headers.entries.keys.Nodup) (h : ofOctets m.settings m.toOctets = .ok r) :
    r.contentType = m.contentType := by
  have hread := ofOctets_toOctets_of_unrepeated hm
    ((exists_ofOctets_toOctets_iff hm hkeys).1 ⟨r, h⟩)
  cases h.symm.trans hread
  exact contentType_filled hkeys

theorem contentType_described_eq_iff (h : ct.WellFormed) :
    (m.described ct e form).contentType = .ok ct ↔ ∀ p ∈ ct.parameters, '\n' ∉ p.2 := by
  rw [contentType_described h, Except.ok.injEq]
  exact ContentType.unfolded_eq_self_iff

/-- **The type of the content survives the wire, but for line feeds.** After octets were set with a
type that is neither text nor a message in a message, the message has this type, without the line
breaks in its values. It has the type as it was, and is read with it from what it is written as,
just if no value has a line feed and no header name has too many values. None has too many if none
had before. -/
theorem contentType_setContent [MultiByte.Codec] (hm : m.WireSafe)
    (hkeys : m.headers.entries.keys.Nodup)
    (hct : ct.WellFormed) (htext : ct.primary ≠ "text".toList)
    (hmessage : ¬(ct.primary = "message".toList ∧ ct.sub = "rfc822".toList)) (bs : Octets) :
    ∃ m', outcome (m.setContent .default ct (.octets bs)) = .ok m' ∧
      m'.contentType = .ok ct.unfolded ∧
      ((m'.contentType = .ok ct ∧
          ∃ r, ofOctets m'.settings m'.toOctets = .ok r ∧ r.contentType = .ok ct) ↔
        (∀ p ∈ ct.parameters, '\n' ∉ p.2) ∧ m'.headers.Unrepeated) ∧
      (m.headers.Unrepeated → m'.headers.Unrepeated) := by
  have hraw := Registry.outcome_octetsOf_octets hct htext hmessage m.settings bs
  have hsupported := encodingFor_mem_supported ct bs
  obtain ⟨form, hform, -⟩ := TransferEncoding.exists_encode hsupported bs
  have hkeys' : (m.described ct (encodingFor ct bs) form).headers.entries.keys.Nodup :=
    nodup_keys_described hkeys
  refine ⟨m.described ct (encodingFor ct bs) form,
    outcome_setContent_eq_ok_iff.2 ⟨bs, form, hraw, hform, rfl⟩, contentType_described hct, ?_,
    unrepeated_described⟩
  rw [contentType_described_eq_iff hct, and_congr_right_iff]
  intro hvalues
  have hsafe : (m.described ct (encodingFor ct bs) form).WireSafe :=
    wireSafe_described hm (hct.wireSafe_format hvalues) hsupported
  rw [← exists_ofOctets_toOctets_iff hsafe hkeys']
  refine exists_congr fun r ↦ and_iff_left_of_imp fun hread ↦ ?_
  rw [contentType_of_ofOctets hsafe hkeys' hread]
  exact (contentType_described_eq_iff hct).2 hvalues

/-- A value that has to stand between quotes, and one that is empty, beside a folded subject. -/
theorem contentType_setContent_quoted_name :
    ∃ m m' : Message, ∃ ct : ContentType,
      m.headers.fields = [(.ofStandard .subject, "one\n\ttwo".toList)] ∧
      ct.parameters = [("name".toList, " ä\r\"b\".png ".toList), ("x".toList, [])] ∧
      outcome (m.setContent .default ct (.octets [0x0a, 0xff])) = .ok m' ∧
      m'.contentType = .ok ct ∧
      ∃ r, ofOctets m'.settings m'.toOctets = .ok r ∧ r.contentType = .ok ct := by
  let m : Message :=
    ⟨HeaderMap.empty.set StandardName.subject "one\n\ttwo".toList, [], .default⟩
  let ct : ContentType := ⟨"image".toList, "png".toList,
    [("name".toList, " ä\r\"b\".png ".toList), ("x".toList, [])]⟩
  have hordered : m.headers.WellFormed := HeaderMap.wellFormed_empty.set _ _
  have hct : ct.WellFormed := ⟨by decide, by decide, by decide, by decide⟩
  obtain ⟨m', hset, -, hiff, hkept⟩ := contentType_setContent (m := m) (by decide)
    hordered.nodup hct (by decide) (by decide) [0x0a, 0xff]
  obtain ⟨hread, hagain⟩ := hiff.2 ⟨by decide, hkept hordered.unrepeated⟩
  exact ⟨m, m', ct, rfl, rfl, hset, hread, hagain⟩

/-- A line feed before a letter is left out of the value when it is read, and the message is not
read from what it is written as. -/
theorem contentType_setContent_line_feed :
    ∃ ct m', ct = (ContentType.ofNames "application".toList "octet-stream".toList).setParameter
        "name".toList "a\nb".toList ∧ ct.WellFormed ∧ (empty .default).WireSafe ∧
      outcome ((empty .default).setContent .default ct (.octets [])) = .ok m' ∧
      m'.contentType ≠ .ok ct ∧ ¬∃ r, ofOctets m'.settings m'.toOctets = .ok r := by
  let ct := (ContentType.ofNames "application".toList "octet-stream".toList).setParameter
    "name".toList "a\nb".toList
  let m' := (empty .default).described ct .sevenBit []
  have hct : ct.WellFormed := ⟨by decide, by decide, by decide, by decide⟩
  have hset : outcome ((empty .default).setContent .default ct (.octets [])) = .ok m' := rfl
  have hread : (ofOctets m'.settings m'.toOctets).toOption.isNone = true := by decide +kernel
  refine ⟨ct, m', rfl, hct, by decide, hset, ?_, ?_⟩
  · rw [Ne, contentType_described_eq_iff hct]
    decide
  · rintro ⟨r, h⟩
    rw [h] at hread
    cases hread

end Message

end InternetMail
