import InternetMail.Proofs.Address.Phrase
import InternetMail.Proofs.Message.AddressFields

/-!
# Subjects

A subject is free text, and it is encoded wherever a header would not keep it: what it is written as
has no line breaks, and begins and ends with a blank only if the text does (`bare_of_encodeText`).
So it is read as the text again, and none of it gets into other fields
(`Message.subject_setSubject`).

Two things could go wrong. The value could be read as something else, if it were decoded where it
should not be: a text in which an encoded word could begin is encoded for that reason. And the value
could break out of its field: a text with a line break is encoded, and encoded words have none.
Blanks at the ends of a text are not protected, as trimming takes them off, and so the text must
have none there.
-/

namespace InternetMail

open Reported

variable {t label e : Text} {charset : Charset} {choice : Option WordEncoding}

/-! ### What a text is encoded as -/

theorem isBlankChar_of_isSpaceChar {c : Char} (h : isSpaceChar c = false) :
    isBlankChar c = false :=
  (Bool.or_eq_false_iff.1 h).1

/-- Words that stand apart have no blanks around them. -/
theorem bare_of_spacedBy {p : Text → Prop} {words : List Text} (h : SpacedBy p words t)
    (hwords : ∀ word ∈ words, IsVisibleWord word) : Bare t := by
  constructor
  · obtain ⟨word, hword, rest, rfl⟩ := h.exists_first
    obtain ⟨hne, hvisible⟩ := (hwords word hword).isSpaceChar
    intro c hc
    rw [List.head?_append_of_ne_nil _ hne] at hc
    exact isBlankChar_of_isSpaceChar (hvisible c (List.mem_of_head? hc))
  · obtain ⟨word, hword, us, rfl⟩ := h.exists_last
    obtain ⟨hne, hvisible⟩ := (hwords word hword).isSpaceChar
    intro c hc
    rw [List.getLast?_append_of_ne_nil _ hne] at hc
    exact isBlankChar_of_isSpaceChar (hvisible c (List.mem_of_getLast? hc))

/-- A text without spaces and TABs at its ends is encoded without blanks at the ends. -/
theorem bare_of_encodeText [MultiByte.Codec] (hlabel : Charset.resolve label = .ok charset)
    (hwhole : charset.isWhole = true) (he : encodeText t label choice = .ok e)
    (hhead : ∀ c ∈ t.head?, isFoldChar c = false) (hlast : ∀ c ∈ t.getLast?, isFoldChar c = false) :
    Bare e := by
  cases hneeds : needsEncoding t with
  | false =>
    obtain rfl : t = e := by simpa [encodeText, hneeds] using he
    have hblank : ∀ c ∈ t, isFoldChar c = false → isBlankChar c = false := by
      intro c hc hfold
      rw [← Bool.not_eq_true, (isWritten_of_needsEncoding hneeds c hc).isBlankChar_iff]
      rintro (rfl | rfl) <;> cases hfold
    exact ⟨fun c hc ↦ hblank c (List.mem_of_head? hc) (hhead c hc),
      fun c hc ↦ hblank c (List.mem_of_getLast? hc) (hlast c hc)⟩
  | true =>
    obtain ⟨encoding, chunks, texts, hne, rfl, -, -⟩ :=
      exists_chunks_of_encodeText hlabel hwhole hneeds he
    refine bare_of_spacedBy (spacedBy_joined (by simpa using hne)) fun word hword ↦ ?_
    obtain ⟨chunk, -, rfl⟩ := List.mem_map.1 hword
    exact isVisibleWord_writeWord hwhole encoding chunk

theorem isLineBreak_of_encodeText [MultiByte.Codec] (hlabel : Charset.resolve label = .ok charset)
    (hwhole : charset.isWhole = true) (he : encodeText t label choice = .ok e) :
    ∀ c ∈ e, isLineBreak c = false :=
  fun c hc ↦ (isWritten_of_encodeText hlabel hwhole he c hc).1.isLineBreak_eq_false

/-- What a text is encoded as is read as that text where it is a header value. -/
theorem outcome_decodeHeaderValue_of_encodeText [MultiByte.Codec]
    (hlabel : Charset.resolve label = .ok charset)
    (hwhole : charset.isWhole = true) (he : encodeText t label choice = .ok e)
    (hhead : ∀ c ∈ t.head?, isFoldChar c = false) (hlast : ∀ c ∈ t.getLast?, isFoldChar c = false) :
    outcome (decodeHeaderValue (Utf8.encode e)) = .ok t := by
  have hbare := bare_of_encodeText hlabel hwhole he hhead hlast
  have hself : valueText e = e :=
    valueText_eq_self (isLineBreak_of_encodeText hlabel hwhole he) hbare.head hbare.last
  have hvalue : decodeHeaderValue (Utf8.encode e) = decodeText (valueText e) := rfl
  rw [hvalue, hself]
  exact outcome_decodeText_of_encodeText hlabel hwhole he

/-- It stays within its field. -/
theorem wireSafe_of_encodeText [MultiByte.Codec] (hlabel : Charset.resolve label = .ok charset)
    (hwhole : charset.isWhole = true) (he : encodeText t label choice = .ok e)
    (hhead : ∀ c ∈ t.head?, isFoldChar c = false) (hlast : ∀ c ∈ t.getLast?, isFoldChar c = false) :
    e.WireSafe := by
  refine ⟨(bare_of_encodeText hlabel hwhole he hhead hlast).any_head,
    Text.continued_of_forall fun c hc ↦ ?_⟩
  exact (isLineBreak_eq_false_iff.1 (isLineBreak_of_encodeText hlabel hwhole he c hc)).2

/-! ### The subject of a message -/

namespace Message

variable {m m' : Message}

theorem exists_of_setSubject [MultiByte.Codec] (h : m.setSubject (some t) = .ok m') :
    ∃ e, encodeText t m.settings.personalCharset none = .ok e ∧
      m' = { m with headers := m.headers.set StandardName.subject e } := by
  obtain ⟨e, he, h⟩ := bind_eq_ok_iff.1 h
  exact ⟨e, he, (Except.ok.inj h).symm⟩

/-- **A subject is read as it was set**, whatever characters it has, and only its own field changes.
The message is then read from its octets as an equal one just if its header map is in order, which
it is if it was before. -/
theorem subject_setSubject [MultiByte.Codec] (hm : m.WireSafe)
    (hkeys : m.headers.entries.keys.Nodup)
    (hcharset : Charset.resolve m.settings.personalCharset = .ok charset)
    (hwhole : charset.isWhole = true) (hhead : ∀ c ∈ t.head?, isFoldChar c = false)
    (hlast : ∀ c ∈ t.getLast?, isFoldChar c = false) (h : m.setSubject (some t) = .ok m') :
    outcome m'.subject = .ok (some t) ∧
      (m'.headers.remove StandardName.subject = m.headers.remove StandardName.subject ∧
        m'.body = m.body ∧ m'.settings = m.settings) ∧
      (m'.Survives ↔ m'.headers.WellFormed) ∧
      (m.headers.WellFormed → m'.headers.WellFormed) := by
  obtain ⟨e, he, rfl⟩ := exists_of_setSubject h
  have hsafe : (m.headers.set StandardName.subject e).WireSafe :=
    (HeaderMap.wireSafe_set_iff hm).2 (wireSafe_of_encodeText hcharset hwhole he hhead hlast)
  refine ⟨?_, ⟨congrArg HeaderMap.mk (Entries.remove_put _ _ _), rfl, rfl⟩, ?_,
    fun hordered ↦ hordered.set _ e⟩
  · have hget : (m.headers.set StandardName.subject e).get? StandardName.subject = some e := by
      rw [HeaderMap.get?, HeaderMap.getAll_set_self]
      rfl
    simp only [subject, hget, outcome_map,
      outcome_decodeHeaderValue_of_encodeText hcharset hwhole he hhead hlast]
    rfl
  · rw [survives_iff (Entries.nodup_keys_put hkeys)]
    exact and_iff_right hsafe

/-- A subject with a line break that looks like an encoded word and like a field, in place of one
that is folded. -/
theorem subject_setSubject_line_break :
    ∃ m m' : Message, m.WireSafe ∧ m.settings = .default ∧
      m.setSubject (some "=?ü?=\nTo: a".toList) = .ok m' ∧
      outcome m'.subject = .ok (some "=?ü?=\nTo: a".toList) ∧
      m'.headers.fields.map (·.2) =
        ["=?UTF-8?Q?=3D=3F=C3=BC=3F=3D=0ATo=3A_a?=".toList, "x\n\ty".toList] ∧
      m'.Survives := by
  let folded : HeaderMap :=
    ⟨[(.ofStandard .subject, ["x\n y".toList]), (.ofStandard .comments, ["x\n\ty".toList])]⟩
  let e := "=?UTF-8?Q?=3D=3F=C3=BC=3F=3D=0ATo=3A_a?=".toList
  let m : Message := ⟨folded, [], .default⟩
  let m' : Message := ⟨folded.set StandardName.subject e, [], .default⟩
  have hm : m.WireSafe := by
    show folded.WireSafe
    decide
  have hbuilt : HeaderMap.Built folded :=
    .set (.ofStandard .comments) _ (.set (.ofStandard .subject) _ .empty)
  have hordered : folded.WellFormed := hbuilt.wellFormed
  have he : encodeText "=?ü?=\nTo: a".toList Settings.default.personalCharset none = .ok e := rfl
  have hset : m.setSubject (some "=?ü?=\nTo: a".toList) = .ok m' :=
    bind_eq_ok_iff.2 ⟨e, he, rfl⟩
  have hcharset : Charset.resolve m.settings.personalCharset = .ok .utf8 :=
    resolve_defaultNameCharset
  obtain ⟨hsubject, -, hsurvives, hstays⟩ :=
    subject_setSubject hm hordered.nodup hcharset rfl (by simp [isFoldChar])
      (by simp [isFoldChar]) hset
  exact ⟨m, m', hm, rfl, hset, hsubject, rfl, hsurvives.2 (hstays hordered)⟩

/-- A map that was read from JSON may have two authors, and then the message cannot be read,
whatever its subject is. -/
theorem not_survives_setSubject_two_authors :
    ∃ m m' : Message,
      HeaderMap.ofJson?
        (.object [("From".toList, .array [.text "a".toList, .text "b".toList])]) =
          some m.headers ∧ m.WireSafe ∧ m.settings.personalCharset = "utf-8".toList ∧
      m.setSubject (some "c".toList) = .ok m' ∧ ¬m'.Survives := by
  let authors : HeaderName × List Text := (.ofStandard .author, ["a".toList, "b".toList])
  let m' : Message := ⟨⟨[authors, (.ofStandard .subject, ["c".toList])]⟩, [], .default⟩
  have hm : WireSafe ⟨⟨[authors]⟩, [], .default⟩ := by decide
  have hkeys : m'.headers.entries.keys.Nodup := by decide
  refine ⟨⟨⟨[authors]⟩, [], .default⟩, m', rfl, hm, rfl, rfl, fun h ↦ ?_⟩
  have hordered := ((survives_iff hkeys).1 h).2
  exact absurd (hordered.single authors List.mem_cons_self rfl) (by decide)

end Message

end InternetMail
