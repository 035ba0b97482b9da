import InternetMail.Message.Basic
import InternetMail.Proofs.Header.Adding
import InternetMail.Proofs.Header.Filled

/-!
# Messages survive the wire

A message that is read from octets has no header value that begins with a space or a TAB, and none
with a line feed that neither follows. Every such message whose headers came about by operations on
maps is read from its octets as it was written, with its fields in the same order
(`wireSafe_ofOctets_and_ofOctets_toOctets`).

Whatever its headers came from, a message is read as an equal one just if its values survive the
wire and its header map is in order (`survives_iff`).

The fields come back since each of them is read up to a line feed without a fold behind it, and the
value has no such line feed (`WireSafe`). They come back in the same order since they are added to
an empty map in the order in which they were written, and none is refused since the map had no more
values than it may have. The body is what stands behind the empty line.
-/

namespace InternetMail.Message

/-- All header values of the message survive the wire. -/
def WireSafe (m : Message) : Prop :=
  m.headers.WireSafe

instance (m : Message) : Decidable m.WireSafe :=
  inferInstanceAs (Decidable m.headers.WireSafe)

/-- The empty line after the fields ends them, and what comes after it is the body. -/
theorem split_toOctets {m : Message} (hm : m.WireSafe) :
    Mail.split m.toOctets = .ok (m.headers.fields.map Field.ofEntry, m.body) := by
  have hread := readAll_render hm m.body
  have hwritten : m.toOctets = Utf8.encode m.headers.render ++ 0x0d :: 0x0a :: m.body := by
    rw [toOctets, List.append_assoc]
    rfl
  rw [hwritten, Mail.split, hread]
  rfl

/-- What is read off the wire survives it. -/
theorem wireSafe_of_ofOctets {s : Settings} {bs : Octets} {m : Message}
    (h : ofOctets s bs = .ok m) : m.WireSafe := by
  obtain ⟨⟨fields, body⟩, hsplit, h⟩ := bind_eq_ok_iff.1 h
  obtain ⟨headers, hfields, h⟩ := bind_eq_ok_iff.1 h
  cases h
  have hread : fields = (Field.readAll bs).1 := by
    simp only [Mail.split] at hsplit
    split at hsplit
    · cases hsplit
      rfl
    · split at hsplit
      · cases hsplit
        rfl
      · cases hsplit
  rw [hread] at hfields
  exact HeaderMap.wireSafe_ofFields hfields

/-- **A message comes back as it was**, if its values survive the wire and its map is in order. -/
theorem ofOctets_toOctets_of_wellFormed {m : Message} (h : m.headers.WellFormed)
    (hm : m.WireSafe) : ofOctets m.settings m.toOctets = .ok m :=
  bind_eq_ok_iff.2 ⟨_, split_toOctets hm,
    bind_eq_ok_iff.2 ⟨m.headers, HeaderMap.ofFields_fields h, rfl⟩⟩

/-- And so it does if operations on maps built the map. -/
theorem ofOctets_toOctets {m : Message} (hbuilt : m.headers.Built) (hm : m.WireSafe) :
    ofOctets m.settings m.toOctets = .ok m :=
  ofOctets_toOctets_of_wellFormed hbuilt.wellFormed hm

/-- **Messages survive the wire.** Octets are read as messages whose values survive the wire, and
every such message, whatever names, values and body it was built with, is read from its octets as it
is: its fields are the same, in the same order. -/
theorem wireSafe_ofOctets_and_ofOctets_toOctets :
    (∀ (s : Settings) (bs : Octets) (m : Message), ofOctets s bs = .ok m → m.WireSafe) ∧
      ∀ m : Message, m.headers.Built → m.WireSafe → ofOctets m.settings m.toOctets = .ok m :=
  ⟨fun _ _ _ h ↦ wireSafe_of_ofOctets h, fun _ hbuilt hm ↦ ofOctets_toOctets hbuilt hm⟩

/-- Two trace fields, a folded subject, an empty value and a name that is spelled anew; the body
holds what looks like a field. -/
theorem ofOctets_toOctets_traces_around_folded_subject :
    ∃ m : Message, m.headers.Built ∧ m.headers.fields.map (·.2) =
        ["by a\r".toList, "by b".toList, "one\n\ttwo".toList, "y".toList, []] ∧
      ofOctets m.settings m.toOctets = .ok m ∧ m.WireSafe := by
  let traced := (HeaderMap.empty.set (.ofStandard .received) "by a\r".toList).set
    (.ofStandard .subject) "one\n\ttwo".toList
  let spelled : HeaderMap := ⟨[
    (.ofStandard .received, ["by a\r".toList]),
    (.ofStandard .subject, ["one\n\ttwo".toList]),
    (⟨Octets.ofAscii "x-of", by decide⟩, ["y".toList])]⟩
  let headers : HeaderMap := ⟨[
    (.ofStandard .received, ["by a\r".toList, "by b".toList]),
    (.ofStandard .subject, ["one\n\ttwo".toList]),
    (⟨Octets.ofAscii "x-of", by decide⟩, ["y".toList]),
    (.ofStandard .comments, [[]])]⟩
  have htraced : traced.Built := .set _ _ (.set _ _ .empty)
  have hset : traced.setSpelled "x-OF".toList "y".toList = .ok spelled := rfl
  have hspelled : spelled.Built := .setSpelled htraced hset
  have hadd : (spelled.set (.ofStandard .comments) []).add (.ofStandard .received)
      "by b".toList = .ok headers := rfl
  have hbuilt : headers.Built := .add (.set (.ofStandard .comments) [] hspelled) hadd
  let m : Message := ⟨headers, Octets.ofAscii "Subject: three", .default⟩
  have hm : m.WireSafe := by
    show headers.WireSafe
    decide
  have hread := wireSafe_ofOctets_and_ofOctets_toOctets.2 m hbuilt hm
  exact ⟨m, hbuilt, rfl, hread, wireSafe_ofOctets_and_ofOctets_toOctets.1 _ _ m hread⟩

/-! ### Headers from anywhere -/

/-- A message in which no name has too many values is read as it was written, less the names that
have none. -/
theorem ofOctets_toOctets_of_unrepeated {m : Message} (hm : m.WireSafe)
    (h : m.headers.Unrepeated) :
    ofOctets m.settings m.toOctets = .ok { m with headers := m.headers.filled } :=
  bind_eq_ok_iff.2 ⟨_, split_toOctets hm,
    bind_eq_ok_iff.2 ⟨m.headers.filled, HeaderMap.ofFields_fields_of_unrepeated h, rfl⟩⟩

/-- Nor is any other message read at all. -/
theorem exists_ofOctets_toOctets_iff {m : Message} (hm : m.WireSafe)
    (hkeys : m.headers.entries.keys.Nodup) :
    (∃ m', ofOctets m.settings m.toOctets = .ok m') ↔ m.headers.Unrepeated := by
  constructor
  · rintro ⟨m', h⟩
    obtain ⟨_, hsplit, h⟩ := bind_eq_ok_iff.1 h
    obtain ⟨headers, hfields, -⟩ := bind_eq_ok_iff.1 h
    rw [split_toOctets hm] at hsplit
    cases hsplit
    exact HeaderMap.unrepeated_of_ofFields hkeys hfields
  · intro h
    exact ⟨_, ofOctets_toOctets_of_unrepeated hm h⟩

/-- A message that was read has a map in order. -/
theorem wellFormed_of_ofOctets {s : Settings} {bs : Octets} {m : Message}
    (h : ofOctets s bs = .ok m) : m.headers.WellFormed := by
  obtain ⟨_, -, h⟩ := bind_eq_ok_iff.1 h
  obtain ⟨headers, hfields, h⟩ := bind_eq_ok_iff.1 h
  cases h
  exact HeaderMap.wellFormed_ofFields hfields

/-- Such a message is equal to itself. -/
theorem beq_self {m : Message} (h : m.headers.WellFormed) : (m == m) = true := by
  show (m.headers == m.headers && m.body == m.body && m.settings == m.settings) = true
  rw [HeaderMap.beq_self h, beq_self_eq_true, beq_self_eq_true]
  rfl

/-- The message is read from its octets as one that is equal to it. -/
def Survives (m : Message) : Prop :=
  ∃ m', ofOctets m.settings m.toOctets = .ok m' ∧ (m' == m) = true

/-- **A message survives exactly if** its values do and its map is in order. Nothing else could be
read from its octets, since what is read has both. -/
theorem survives_iff {m : Message} (hkeys : m.headers.entries.keys.Nodup) :
    m.Survives ↔ m.WireSafe ∧ m.headers.WellFormed := by
  constructor
  · rintro ⟨m', hread, hequal⟩
    have hsafe := wireSafe_of_ofOctets hread
    have hordered := wellFormed_of_ofOctets hread
    have hsame : (m'.headers == m.headers) = true := by
      have : (m'.headers == m.headers && m'.body == m.body && m'.settings == m.settings) = true :=
        hequal
      rw [Bool.and_eq_true, Bool.and_eq_true] at this
      exact this.1.1
    have hmem : ∀ e ∈ m.headers.entries, e ∈ m'.headers.entries := fun _ he ↦
      Entries.mem_of_sameEntries hordered.nodup hkeys hsame he
    refine ⟨fun f hf ↦ ?_, hkeys, fun e he ↦ hordered.nonempty e (hmem e he),
      fun e he ↦ hordered.single e (hmem e he)⟩
    obtain ⟨values, he, hv⟩ := HeaderMap.mem_fields_iff.1 hf
    exact hsafe f (HeaderMap.mem_fields_iff.2 ⟨values, hmem _ he, hv⟩)
  · rintro ⟨hm, hordered⟩
    exact ⟨m, ofOctets_toOctets_of_wellFormed hordered hm, beq_self hordered⟩

end InternetMail.Message
