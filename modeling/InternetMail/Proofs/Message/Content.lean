import InternetMail.Message.Content
import InternetMail.Proofs.Charset.Inverse
import InternetMail.Proofs.ContentType.Unfolding
import InternetMail.Proofs.Message.Wire
import InternetMail.Proofs.TransferEncoding

/-!
# Content comes back

A message that some content was set in says the type and the encoding it was set with, the type but
for the line breaks in its values (`Message.contentType_described`,
`Message.transferEncoding_described`). So the content that it has is what the handler makes of the
octets that the encoding carried, for every registry of handlers (`Message.exists_setContent`).

With the default handlers, octets come back as they were whatever they are, and messages if they
come back from the wire (`Message.content_setContent`); so does text whose line breaks are CR LF
(`Message.content_setContent_text`).

The way back is through two fields of the header and the body. The type is written with its
parameters and read from a field that is unfolded, so that line breaks in a value are lost
(`contentType_described`); the encoding is one of the five that are supported, and is read as what
was written (`transferEncoding_described`). Which handler is asked depends on the names of the type
alone, in any case. The body comes back as the encoding carried it, which for octets is as it was
(`carried_encodingFor`), and for text as far as its line breaks are whole.
-/

namespace InternetMail

open Reported (outcome)

/-! ### Fields -/

namespace HeaderMap

variable {m : HeaderMap} {n k : HeaderName} {value : Text}

/-- A field that was set has the value that was set. -/
theorem get?_set_self : (m.set n value).get? n = some value := by
  rw [get?, getAll_set_self]
  rfl

/-- Other fields keep theirs. -/
theorem get?_set_of_ne (h : k ≠ n) : (m.set n value).get? k = m.get? k := by
  rw [get?, get?, getAll, getAll, set, Entries.lookup_put_of_ne h]

end HeaderMap

namespace Message

variable {m : Message} {r : Registry} {ct : ContentType} {c : Content} {raw form : Octets}
  {e : TransferEncoding}

/-- The message with a body of a type and an encoding. -/
def described (m : Message) (ct : ContentType) (e : TransferEncoding) (form : Octets) : Message :=
  { m with headers := describeContent m.headers ct e, body := form }

/-- A described message has the type it was described with, without the line breaks in its values.
-/
theorem contentType_described (h : ct.WellFormed) :
    (m.described ct e form).contentType = .ok ct.unfolded := by
  have hfield : (m.described ct e form).fieldText? StandardName.contentType =
      some (valueText ct.format) := by
    show ((HeaderMap.set _ StandardName.contentTransferEncoding e.name).get?
      StandardName.contentType).map valueText = _
    rw [HeaderMap.get?_set_of_ne (by decide), HeaderMap.get?_set_self]
    rfl
  rw [contentType, hfield]
  exact ContentType.parse_valueText_format h

/-- The encoding is said by its name, and read from that. -/
theorem transferEncoding_described (h : e ∈ TransferEncoding.supported) :
    (m.described ct e form).transferEncoding = e := by
  have hfield : (m.described ct e form).headers.get? StandardName.contentTransferEncoding =
      some e.name := HeaderMap.get?_set_self
  rw [transferEncoding, hfield]
  exact TransferEncoding.ofOctets_encode_name h

/-! ### Setting and reading -/

/-- An encoding is chosen among those that can be read. -/
theorem encodingFor_mem_supported (ct : ContentType) (raw : Octets) :
    encodingFor ct raw ∈ TransferEncoding.supported := by
  unfold encodingFor
  split
  · split <;> decide
  · split
    · exact TransferEncoding.forText_mem_supported raw
    · exact TransferEncoding.forOctets_mem_supported raw

theorem typeFor_octets (ct : ContentType) (bs : Octets) : typeFor ct (.octets bs) = ct := rfl

theorem typeFor_message (ct : ContentType) (i : Message) : typeFor ct (.message i) = ct := rfl

/-- Content is set only if it can be written. -/
theorem outcome_setContent_eq_ok_iff [MultiByte.Codec] {m' : Message} :
    outcome (m.setContent r ct c) = .ok m' ↔
      ∃ raw form, outcome (r.octetsOf (typeFor ct c) m.settings c) = .ok raw ∧
        (encodingFor (typeFor ct c) raw).encode raw = .ok form ∧
        m' = m.described (typeFor ct c) (encodingFor (typeFor ct c) raw) form := by
  simp only [setContent, Reported.outcome_bind, Reported.outcome_liftExcept, bind_eq_ok_iff,
    Reported.outcome_pure]
  constructor
  · rintro ⟨raw, hraw, form, hform, h⟩
    cases h
    exact ⟨raw, form, hraw, hform, rfl⟩
  · rintro ⟨raw, form, hraw, hform, rfl⟩
    exact ⟨raw, hraw, form, hform, rfl⟩

/-- Content that can be written is set, and read as what its handler makes of the octets that its
encoding carries. -/
theorem exists_setContent [MultiByte.Codec] (hct : (typeFor ct c).WellFormed)
    (hraw : outcome (r.octetsOf (typeFor ct c) m.settings c) = .ok raw) :
    ∃ m', outcome (m.setContent r ct c) = .ok m' ∧ outcome (m'.content r) =
      outcome (r.read (typeFor ct c).unfolded m.settings
        ((encodingFor (typeFor ct c) raw).carried raw)) := by
  have hsupported := encodingFor_mem_supported (typeFor ct c) raw
  obtain ⟨form, hform, hback⟩ := TransferEncoding.exists_encode hsupported raw
  refine ⟨_, outcome_setContent_eq_ok_iff.2 ⟨raw, form, hraw, hform, rfl⟩, ?_⟩
  have hbody : (m.described (typeFor ct c) (encodingFor (typeFor ct c) raw) form).body = form := rfl
  rw [content, contentType_described hct, transferEncoding_described hsupported, hbody, hback]
  rfl

/-! ### The encoding that is chosen -/

/-- Octets that are not text come back as they were. -/
theorem carried_encodingFor (h : ct.isText = false) (raw : Octets) :
    (encodingFor ct raw).carried raw = raw := by
  rw [encodingFor, h]
  split
  · split <;> rfl
  · exact TransferEncoding.carried_forOctets raw

end Message

/-! ### The default handlers -/

namespace Registry

variable {ct : ContentType}

/-- The default handlers, in the order in which they are looked for. -/
theorem handlers_default :
    default.handlers = [("text/*".toList, .text), ("message/rfc822".toList, .message)] := rfl

/-- Two types of tokens are written the same just if they are the same. -/
theorem base_eq_iff {primary sub : Text} (h : ct.WellFormed) (hprimary : '/' ∉ primary) :
    ct.base = primary ++ '/' :: sub ↔ ct.primary = primary ∧ ct.sub = sub := by
  constructor
  · intro heq
    have hslash : ∀ t : Text, '/' ∉ t → ∀ c ∈ t, (c != '/') = true := by
      rintro t ht c hc
      rw [bne_iff_ne]
      rintro rfl
      exact ht hc
    have hmem : '/' ∉ ct.primary := fun hmem ↦
      (ContentType.isTokenChar_facts (h.primary.token.2 _ hmem)).2.1 rfl
    obtain ⟨hfirst, -, hrest⟩ :=
      Run.append_cons_inj (hslash _ hmem) rfl (hslash _ hprimary) rfl heq
    exact ⟨hfirst, hrest⟩
  · rintro ⟨rfl, rfl⟩
    rfl

/-- The handler that `base` or `wildcard` of a type has, read off the default registry. -/
theorem lookup_handlers_default (key : Text) :
    default.handlers.lookup key = if key = "text/*".toList then some .text
      else if key = "message/rfc822".toList then some .message else none := by
  rw [handlers_default]
  simp only [List.lookup_cons, List.lookup_nil]
  split
  · rename_i hkey
    rw [if_pos (eq_of_beq hkey)]
  · rename_i hkey
    rw [if_neg (by simpa using hkey)]
    split
    · rename_i hkey
      rw [if_pos (eq_of_beq hkey)]
    · rename_i hkey
      rw [if_neg (by simpa using hkey)]

/-- Text goes to the handler of text. -/
theorem outcome_lookup_text {sub : Text} (ps : Entries Text Text) :
    outcome (default.lookup ⟨"text".toList, sub, ps⟩) = .ok .text := by
  have hwildcard : default.handlers.lookup
      (ContentType.wildcard ⟨"text".toList, sub, ps⟩) = some .text := rfl
  have hbase : default.handlers.lookup (ContentType.base ⟨"text".toList, sub, ps⟩) = some .text ∨
      default.handlers.lookup (ContentType.base ⟨"text".toList, sub, ps⟩) = none := by
    rw [lookup_handlers_default]
    split
    · exact Or.inl rfl
    · rw [if_neg (by simp [ContentType.base])]
      exact Or.inr rfl
  rw [lookup, hwildcard]
  rcases hbase with h | h <;> rw [h] <;> rfl

/-- What is neither text nor a message goes to the handler of octets. -/
theorem outcome_lookup_binary (h : ct.WellFormed) (htext : ct.primary ≠ "text".toList)
    (hmessage : ¬(ct.primary = "message".toList ∧ ct.sub = "rfc822".toList)) :
    outcome (default.lookup ct) = .ok .binary := by
  have hkey : ∀ {key : Text}, key ≠ "text/*".toList → key ≠ "message/rfc822".toList →
      default.handlers.lookup key = none := by
    intro key h₁ h₂
    rw [lookup_handlers_default, if_neg h₁, if_neg h₂]
  have hbase : default.handlers.lookup ct.base = none := by
    refine hkey (fun heq ↦ ?_) fun heq ↦ ?_
    · exact htext ((@base_eq_iff ct "text".toList ['*'] h (by decide)).1 heq).1
    · exact hmessage ((@base_eq_iff ct "message".toList "rfc822".toList h (by decide)).1 heq)
  have hwildcard : default.handlers.lookup ct.wildcard = none := by
    refine hkey (fun heq ↦ ?_) fun heq ↦ ?_
    · exact htext (@List.append_cancel_right _ ct.primary ['/', '*'] "text".toList heq)
    · have hlast := congrArg List.getLast? heq
      simp [ContentType.wildcard] at hlast
  rw [lookup, hbase, hwildcard]
  rfl

/-- Octets are written as they are. -/
theorem outcome_octetsOf_octets [MultiByte.Codec] (h : ct.WellFormed)
    (htext : ct.primary ≠ "text".toList)
    (hmessage : ¬(ct.primary = "message".toList ∧ ct.sub = "rfc822".toList)) (s : Settings)
    (bs : Octets) : outcome (default.octetsOf ct s (.octets bs)) = .ok bs := by
  rw [octetsOf, Reported.outcome_bind, outcome_lookup_binary h htext hmessage]
  rfl

end Registry

namespace Message

variable {m : Message} {sub label t : Text} {charset : Charset} {raw : Octets}

/-! ### Octets and messages -/

/-- Octets of a type that no handler takes are kept as they are. -/
theorem exists_setContent_octets [MultiByte.Codec] (m : Message) {primary sub : Text} (bs : Octets)
    (hprimary : ContentType.IsToken primary) (hsub : ContentType.IsToken sub)
    (htext : primary.foldAscii ≠ "text".toList)
    (hmessage : ¬(primary.foldAscii = "message".toList ∧ sub.foldAscii = "rfc822".toList)) :
    ∃ m', outcome (m.setContent .default (.ofNames primary sub) (.octets bs)) = .ok m' ∧
      outcome (m'.content .default) = .ok (.octets bs) := by
  have hct : (ContentType.ofNames primary sub).WellFormed :=
    ContentType.wellFormed_ofNames hprimary hsub
  have htext : (ContentType.ofNames primary sub).primary ≠ "text".toList := by
    rwa [ContentType.ofNames, hprimary.trim]
  have hmessage : ¬((ContentType.ofNames primary sub).primary = "message".toList ∧
      (ContentType.ofNames primary sub).sub = "rfc822".toList) := by
    rwa [ContentType.ofNames, hprimary.trim, hsub.trim]
  have hcarried : (encodingFor (.ofNames primary sub) bs).carried bs = bs := by
    apply carried_encodingFor
    rw [ContentType.isText]
    simpa using htext
  have hread : outcome (Registry.default.read (.ofNames primary sub) m.settings bs) =
      .ok (.octets bs) := by
    rw [Registry.read, Reported.outcome_bind,
      Registry.outcome_lookup_binary hct htext hmessage]
    rfl
  obtain ⟨m', hset, hcontent⟩ := @exists_setContent m .default (.ofNames primary sub)
    (.octets bs) bs _ hct (Registry.outcome_octetsOf_octets hct htext hmessage m.settings bs)
  refine ⟨m', hset, hcontent.trans ?_⟩
  rw [typeFor_octets, hcarried]
  exact hread

/-- A message in a message is read from what it is written as. -/
theorem exists_setContent_message [MultiByte.Codec] (m : Message) {i : Message}
    (hsettings : i.settings = m.settings) :
    ∃ m', outcome (m.setContent .default (.ofNames "message".toList "rfc822".toList)
        (.message i)) = .ok m' ∧
      outcome (m'.content .default) = (ofOctets i.settings i.toOctets).map Content.message := by
  have hct : (ContentType.ofNames "message".toList "rfc822".toList).WellFormed :=
    ContentType.wellFormed_ofNames (by decide) (by decide)
  have hraw : outcome (Registry.default.octetsOf (.ofNames "message".toList "rfc822".toList)
      m.settings (.message i)) = .ok i.toOctets := rfl
  have hread : outcome (Registry.default.read (.ofNames "message".toList "rfc822".toList)
      m.settings i.toOctets) = (ofOctets m.settings i.toOctets).map Content.message := by
    have hlookup : outcome (Registry.default.lookup (.ofNames "message".toList
        "rfc822".toList)) = .ok .message := rfl
    rw [Registry.read, Reported.outcome_bind, hlookup, ok_bind, Handler.read]
    simp only [Reported.outcome_bind, Reported.outcome_liftExcept, Reported.outcome_pure]
    rfl
  obtain ⟨m', hset, hcontent⟩ := @exists_setContent m .default
    (.ofNames "message".toList "rfc822".toList) (.message i) i.toOctets _ hct hraw
  refine ⟨m', hset, hcontent.trans ?_⟩
  rw [typeFor_message, carried_encodingFor rfl, hsettings]
  exact hread

/-- **Content other than text comes back as it was.** Octets come back as they were under every type
of two tokens that is neither text nor a message in a message. A message with the same settings
whose header values survive the wire does so just if its header map is in order, as it is in every
message that was read. -/
theorem content_setContent [MultiByte.Codec] (m : Message) :
    (∀ (primary sub : Text) (bs : Octets), ContentType.IsToken primary → ContentType.IsToken sub →
      primary.foldAscii ≠ "text".toList →
      ¬(primary.foldAscii = "message".toList ∧ sub.foldAscii = "rfc822".toList) →
      ∃ m', outcome (m.setContent .default (.ofNames primary sub) (.octets bs)) = .ok m' ∧
        outcome (m'.content .default) = .ok (.octets bs)) ∧
    ∀ i : Message, i.settings = m.settings → i.WireSafe →
      ∃ m', outcome (m.setContent .default (.ofNames "message".toList "rfc822".toList)
          (.message i)) = .ok m' ∧
        (outcome (m'.content .default) = .ok (.message i) ↔ i.headers.WellFormed) := by
  refine ⟨fun _ _ bs hprimary hsub htext hmessage ↦
    m.exists_setContent_octets bs hprimary hsub htext hmessage, fun i hsettings hsafe ↦ ?_⟩
  obtain ⟨m', hset, hcontent⟩ := m.exists_setContent_message hsettings
  refine ⟨m', hset, ?_⟩
  rw [hcontent]
  constructor
  · intro h
    obtain ⟨j, hread, hsame⟩ := map_eq_ok_iff.1 h
    obtain rfl := Content.message.inj hsame
    exact wellFormed_of_ofOctets hread
  · intro hordered
    rw [ofOctets_toOctets_of_wellFormed hordered hsafe]
    rfl

/-- Octets that quoted-printable would change, under a type in capitals; and a message with a folded
subject. -/
theorem content_setContent_bare_breaks_and_folded_subject :
    (∃ m', outcome ((empty .default).setContent .default
        (.ofNames "IMAGE".toList "x-icon".toList) (.octets [0x0a, 0x41, 0x41, 0xff, 0x0d])) =
          .ok m' ∧
        outcome (m'.content .default) = .ok (.octets [0x0a, 0x41, 0x41, 0xff, 0x0d])) ∧
      ∃ i : Message, i.headers.fields = [(.ofStandard .subject, "one\n\ttwo".toList)] ∧
        ∃ m', outcome ((empty .default).setContent .default
          (.ofNames "message".toList "rfc822".toList) (.message i)) = .ok m' ∧
          outcome (m'.content .default) = .ok (.message i) := by
  let i : Message := ⟨HeaderMap.empty.set StandardName.subject "one\n\ttwo".toList,
    Octets.ofAscii "three", .default⟩
  have hsafe : i.WireSafe := by decide
  have hordered : i.headers.WellFormed := HeaderMap.wellFormed_empty.set _ _
  have hboth := content_setContent (empty .default)
  obtain ⟨m', hset, hcontent⟩ := hboth.2 i rfl hsafe
  exact ⟨hboth.1 _ _ _ (by decide) (by decide) (by decide) (by decide), i, rfl, m', hset,
    hcontent.2 hordered⟩

/-- A message whose header map was deserialized with two subjects can be set, but not read again
from what it is written as. -/
theorem content_setContent_two_subjects :
    ∃ i m' : Message,
      HeaderMap.ofJson?
        (.object [("Subject".toList, .array [.text "a".toList, .text "b".toList])]) =
          some i.headers ∧ i.settings = .default ∧ i.WireSafe ∧
      outcome ((empty .default).setContent .default
        (.ofNames "message".toList "rfc822".toList) (.message i)) = .ok m' ∧
      m'.toOctets = Octets.ofAscii ("MIME-Version: 1.0\r\nContent-Type: message/rfc822\r\n" ++
        "Content-Transfer-Encoding: 7bit\r\n\r\nSubject: a\r\nSubject: b\r\n\r\n") ∧
      ¬∃ c, outcome (m'.content .default) = .ok c := by
  let i : Message := ⟨⟨[(.ofStandard .subject, ["a".toList, "b".toList])]⟩, [], .default⟩
  have hsafe : i.WireSafe := by decide
  obtain ⟨m', hset, hcontent⟩ := (empty .default).exists_setContent_message (i := i) rfl
  have hwritten : (outcome ((empty .default).setContent .default
      (.ofNames "message".toList "rfc822".toList) (.message i))).map toOctets =
        .ok (Octets.ofAscii ("MIME-Version: 1.0\r\nContent-Type: message/rfc822\r\n" ++
          "Content-Transfer-Encoding: 7bit\r\n\r\nSubject: a\r\nSubject: b\r\n\r\n")) := by
    decide +kernel
  have hrefused : (ofOctets i.settings i.toOctets).isOk = false := by decide +kernel
  rw [hset] at hwritten
  refine ⟨i, m', rfl, rfl, hsafe, hset, Except.ok.inj hwritten, ?_⟩
  rintro ⟨c, hc⟩
  obtain ⟨j, hread, -⟩ := map_eq_ok_iff.1 (hcontent.symm.trans hc)
  rw [hread] at hrefused
  cases hrefused

/-! ### Text -/

/-- The type of text in a charset. -/
def textType (sub label : Text) : ContentType :=
  ⟨"text".toList, sub, [("charset".toList, label)]⟩

/-- The type of a text in a charset can be written and read. -/
theorem wellFormed_textType (hsub : ContentType.IsName sub) (label : Text) :
    (textType sub label).WellFormed := by
  have htext : ContentType.IsName "text".toList := by decide
  have hcharset : ContentType.IsName "charset".toList := by decide
  refine ⟨htext, hsub, fun p hp ↦ ?_, by simp [textType, Entries.keys]⟩
  rw [List.mem_singleton.1 hp]
  exact hcharset

/-- The charset of the type is the one it names. -/
theorem charset_textType (s : Settings) :
    Handler.charset (textType sub label) s = Charset.resolve label := rfl

/-- Text is written in the charset of its type. -/
theorem outcome_octetsOf_textType [MultiByte.Codec] (s : Settings) (t : Text) :
    outcome (Registry.default.octetsOf (textType sub label) s (.text t)) =
      Charset.resolve label >>= fun charset ↦ charset.encode t := by
  have hlookup : outcome (Registry.default.lookup (textType sub label)) = .ok .text :=
    Registry.outcome_lookup_text _
  rw [Registry.octetsOf, Reported.outcome_bind, hlookup, ok_bind, Reported.outcome_liftExcept,
    Handler.octetsOf, charset_textType]

/-- Octets are read as text in the charset of their type. -/
theorem outcome_read_textType [MultiByte.Codec] (s : Settings) (bs : Octets) :
    outcome (Registry.default.read (textType sub label) s bs) =
      (Charset.resolve label).map fun charset ↦ .text (charset.text bs) := by
  have hlookup : outcome (Registry.default.lookup (textType sub label)) = .ok .text :=
    Registry.outcome_lookup_text _
  rw [Registry.read, Reported.outcome_bind, hlookup, ok_bind, Handler.read, charset_textType]
  simp only [Reported.outcome_bind, Reported.outcome_liftExcept, Reported.outcome_lift,
    Reported.outcome_pure, Charset.value_decode]
  cases Charset.resolve label <;> rfl

/-- Text of a type and a charset: what comes back is the text of the octets that the encoding
carried. -/
theorem exists_setContent_text [MultiByte.Codec] {ct : ContentType} (hsub : ContentType.IsName sub)
    (hct : typeFor ct (.text t) = textType sub label) (hlabel : Charset.resolve label = .ok charset)
    (hunfolded : Charset.resolve (Text.unfolded label) = .ok charset)
    (hraw : charset.encode t = .ok raw) :
    ∃ m', outcome (m.setContent .default ct (.text t)) = .ok m' ∧
      outcome (m'.content .default) =
        .ok (.text (charset.text ((TransferEncoding.forText raw).carried raw))) := by
  have hwritten : outcome (Registry.default.octetsOf (typeFor ct (.text t)) m.settings (.text t)) =
      .ok raw := by
    rw [hct, outcome_octetsOf_textType, hlabel]
    exact hraw
  obtain ⟨m', hset, hcontent⟩ :=
    exists_setContent (hct ▸ wellFormed_textType hsub label) hwritten
  have htype : (textType sub label).unfolded = textType sub (Text.unfolded label) := rfl
  refine ⟨m', hset, hcontent.trans ?_⟩
  rw [hct, htype, outcome_read_textType, hunfolded]
  rfl

/-- The type of text that names no charset is completed by the smallest that holds it. -/
theorem typeFor_ofNames_text (hsub : ContentType.IsToken sub) (t : Text) :
    typeFor (.ofNames "text".toList sub) (.text t) = textType sub.foldAscii
      (if Text.isAscii t then "us-ascii" else "utf-8").toList := by
  have hnames : ContentType.ofNames "text".toList sub = ⟨"text".toList, sub.foldAscii, []⟩ := by
    rw [ContentType.ofNames, hsub.trim]
    rfl
  rw [hnames]
  rfl

end Message

/-- Each CR in the text stands right before an LF, and each LF right after a CR. -/
structure Text.WholeBreaks (t : Text) : Prop where
  returns : ∀ u v, t = u ++ '\r' :: v → v.head? = some '\n'
  feeds : ∀ u v, t = u ++ '\n' :: v → u.getLast? = some '\r'

/-- Line breaks are whole if a line feed is behind each return, and a return in front of each line
feed. -/
theorem Text.wholeBreaks_iff {t : Text} : t.WholeBreaks ↔
    Followed (· == '\r') (· == '\n') t ∧ Followed (· == '\n') (· == '\r') t.reverse := by
  have hany : ∀ (o : Option Char) (c : Char), o.any (· == c) = true ↔ o = some c := by
    rintro (_ | d) c <;> simp
  rw [followed_iff, followed_iff]
  constructor
  · refine fun h ↦ ⟨fun u c v ht hc ↦ ?_, fun u c v ht hc ↦ ?_⟩
    · rw [eq_of_beq hc] at ht
      exact (hany _ _).2 (h.returns u v ht)
    · rw [eq_of_beq hc, List.reverse_eq_iff, List.reverse_append, List.reverse_cons,
        List.append_assoc] at ht
      rw [hany, ← List.getLast?_reverse]
      exact h.feeds v.reverse u.reverse ht
  · refine fun ⟨hreturns, hfeeds⟩ ↦ ⟨fun u v ht ↦ ?_, fun u v ht ↦ ?_⟩
    · exact (hany _ _).1 (hreturns u '\r' v ht rfl)
    · rw [← List.head?_reverse, ← hany]
      exact hfeeds v.reverse '\n' u.reverse (by simp [ht]) rfl

instance (t : Text) : Decidable t.WholeBreaks :=
  decidable_of_iff _ Text.wholeBreaks_iff.symm

/-- In UTF-8 only CR and LF have the octets of these, so quoted-printable keeps the line breaks of
such a text. -/
theorem Text.WholeBreaks.keeps {t : Text} (h : t.WholeBreaks) :
    QuotedPrintable.Keeps (Utf8.encode t) := by
  refine ⟨fun us rest heq ↦ ?_, fun hlast ↦ ?_⟩
  · obtain ⟨u, v, rfl, rfl, -⟩ := exists_of_encode_eq_append_cons (by decide) heq
    obtain ⟨u, rfl⟩ := List.getLast?_eq_some_iff.1 (h.feeds u v rfl)
    have hreturn : Utf8.encode ['\r'] = [0x0d] := by decide
    rw [Utf8.encode_append, hreturn, List.getLast?_concat]
  · obtain ⟨us, heq⟩ := List.getLast?_eq_some_iff.1 hlast
    obtain ⟨u, v, rfl, -, hv⟩ := exists_of_encode_eq_append_cons (by decide) heq
    -- nothing follows the last octet, and an LF would have to
    cases v with
    | nil => cases h.returns u [] rfl
    | cons c v =>
      rw [Utf8.encode_cons] at hv
      exact String.utf8EncodeChar_ne_nil (List.append_eq_nil_iff.1 hv.symm).1

namespace Message

/-- **Text comes back as it was.** Text whose line breaks are all CR LF comes back as it was under
every type of text that names no charset. -/
theorem content_setContent_text [MultiByte.Codec] (m : Message) (sub t : Text)
    (hsub : ContentType.IsToken sub) (ht : t.WholeBreaks) :
    ∃ m', outcome (m.setContent .default (.ofNames "text".toList sub) (.text t)) = .ok m' ∧
      outcome (m'.content .default) = .ok (.text t) := by
  obtain ⟨charset, hwhole, hlabel, hunfolded, hoctets⟩ : ∃ charset : Charset,
      charset.isWhole = true ∧
      Charset.resolve (if Text.isAscii t then "us-ascii" else "utf-8").toList = .ok charset ∧
      Charset.resolve (Text.unfolded (if Text.isAscii t then "us-ascii" else "utf-8").toList) =
        .ok charset ∧
      charset.octets? t = some (Utf8.encode t) := by
    split
    · rename_i hascii
      exact ⟨.ascii, rfl, rfl, rfl, Charset.octets?_ascii hascii⟩
    · exact ⟨.utf8, rfl, rfl, rfl, Charset.octets?_utf8 t⟩
  have hraw : charset.encode t = .ok (Utf8.encode t) := by
    rw [Charset.encode, if_neg (by rintro rfl; cases hwhole), hoctets]
  obtain ⟨m', hset, hcontent⟩ := exists_setContent_text hsub.isName_foldAscii
    (typeFor_ofNames_text hsub t) hlabel hunfolded hraw
  refine ⟨m', hset, hcontent.trans ?_⟩
  rw [TransferEncoding.carried_of_keeps _ ht.keeps, Charset.text_of_octets? hwhole hoctets]

/-- Blanks before a line break, an equals sign and a character that is not ASCII. -/
theorem content_setContent_text_blank_before_break :
    ∃ m', outcome ((empty .default).setContent .default
        (.ofNames "text".toList "x-caf".toList) (.text "é \r\n= ".toList)) = .ok m' ∧
      outcome (m'.content .default) = .ok (.text "é \r\n= ".toList) :=
  content_setContent_text _ _ _ (by decide) (by decide)

end Message

end InternetMail
