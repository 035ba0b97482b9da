import InternetMail.Proofs.Address.Characters
import InternetMail.Proofs.Address.StandingAlone
import InternetMail.Proofs.Message.AddressFields

/-!
# Recipients are read as they were written

Recipients are written as a folded list, which is read item by item, so all that matters is how each
of them is read alone. Addresses that the strict reading found in a printable text are read as
themselves at any strictness (`addressesOf_format`). Recipients that were there before need not be,
for incoming mail is read with its broken places put right, and written as broken as it was:
`recipients_addRecipients` says that nobody is lost if each of them still is read alone.

Which recipients of incoming mail that is said of can be told from their text
(`readsAlone_iff_of_recipients`): those that stand alone (`Address.StandsAlone`). What has been put
right outside of an address does no harm. A comment that was left open, angle brackets that were not
closed and text behind them, and a semicolon without a group are not written again. What was put
right in the text itself does: a quoted string that is open in a mailbox, and whatever is open or
out of order in a group, is written as it was.

Recipients that were set are read from the message and also from what it is written as, folded at
any column (`recipients_setRecipients`).
-/

namespace InternetMail.Message

open Reported

variable {m : Message} {n : HeaderName} {as : List Address}

/-- An address that was found in a printable text is read as itself, whatever the strictness. -/
theorem addressesOf_format [MultiByte.Codec] {t : Text} (ht : ∀ c ∈ t, Printable c)
    (has : outcome (Address.parseList .strict t) = .ok as) :
    ∀ a ∈ as, m.addressesOf n a.format = pure [a] := by
  intro a ha
  obtain ⟨⟨us, hus, hwritten, hreads⟩, hbare, hprintable⟩ := rereads_of_printable ht has a ha
  have hvalue : valueText a.format = a.format :=
    valueText_eq_self (fun c hc ↦ (hprintable c hc).isLineBreak_eq_false) hbare.head hbare.last
  rw [addressesOf_eq_pure_iff, hvalue, ← hwritten]
  exact parseList_of_strict
    (outcome_parseList_strict.2 ⟨_, tokenize_writtenOf hus, (hreads 0).strictList⟩) _

/-! ### Adding recipients -/

/-- The address is read alone, from what it is written as, as one that is equal to it, and with
nothing to put right. -/
def ReadsAlone [MultiByte.Codec] (m : Message) (n : HeaderName) (a : Address) : Prop :=
  ∃ b, m.addressesOf n a.format = pure [b] ∧ (b == a) = true

theorem readsAlone_of_parseList [MultiByte.Codec] {t : Text} (ht : ∀ c ∈ t, Printable c)
    (has : outcome (Address.parseList .strict t) = .ok as) : ∀ a ∈ as, m.ReadsAlone n a := by
  intro a ha
  refine ⟨a, addressesOf_format ht has a ha, ?_⟩
  show (a.key == a.key) = true
  exact beq_self_eq_true a.key

/-- No field is read as addresses with line feeds. -/
theorem madeOf_of_addresses (h : outcome (m.addresses n) = .ok as) :
    ∀ a ∈ as, a.MadeOf (· ≠ '\n') := by
  rw [addresses, outcome_bind, bind_eq_ok_iff] at h
  obtain ⟨lists, hlists, hflat⟩ := h
  cases hflat
  rw [outcome_mapM_eq_ok_iff] at hlists
  generalize m.headers.getAll n = values at hlists
  induction hlists with
  | nil => simp
  | @cons value bs values lists hread _ ih =>
    rw [List.flatten_cons]
    refine List.forall_mem_append.2 ⟨fun b hb ↦ ?_, ih⟩
    refine (madeOf_of_parseList (outcome_addressesOf_eq_ok_iff.1 hread) b hb).imp ?_
    rintro c (hc | rfl | rfl)
    · exact ne_lineFeed_valueText value c hc
    all_goals decide

/-- **Which addresses are read alone in incoming mail**, of those that are written without line
feeds: those that stand alone. -/
theorem readsAlone_iff_standsAlone [MultiByte.Codec]
    (hs : m.settings.headerStrictness = .parseHeader) {a : Address}
    (ha : ∀ c ∈ a.format, c ≠ '\n') : m.ReadsAlone n a ↔ a.StandsAlone := by
  rw [← Address.exists_parseList_format_iff, ← valueText_of_forall ha, ← hs]
  simp only [ReadsAlone, addressesOf_eq_pure_iff]

/-- The recipients that incoming mail has are read alone if they stand alone, and no others. -/
theorem readsAlone_iff_of_recipients [MultiByte.Codec]
    (hs : m.settings.headerStrictness = .parseHeader) {kind : RecipientKind} {rs : List Address}
    (hrs : outcome (m.recipients kind) = .ok rs) :
    ∀ r ∈ rs, m.ReadsAlone kind.field r ↔ r.StandsAlone :=
  fun r hr ↦ readsAlone_iff_standsAlone hs (madeOf_of_addresses hrs r hr).ne_lineFeed_format

/-- **Nobody is lost by adding recipients**, if each of those that are there is read alone. Then
adding recipients that were found in a printable text goes well, and afterwards there are those that
were there and those that were added, each in its place. -/
theorem recipients_addRecipients [MultiByte.Codec] {t : Text}
    (ht : ∀ c ∈ t, 0x20 ≤ c.toNat ∧ c.toNat ≤ 0x7e)
    (has : outcome (Address.parseList .strict t) = .ok as) {kind : RecipientKind}
    {rs : List Address} (hrs : outcome (m.recipients kind) = .ok rs)
    (halone : ∀ r ∈ rs, m.ReadsAlone kind.field r) :
    ∃ m', outcome (m.addRecipients kind as) = .ok m' ∧ ∃ bs, outcome (m'.recipients kind) = .ok bs ∧
      List.Forall₂ (fun b a ↦ (b == a) = true) bs (rs ++ as) := by
  have hall : ∀ a ∈ rs ++ as, m.ReadsAlone kind.field a :=
    List.forall_mem_append.2 ⟨halone, readsAlone_of_parseList ht has⟩
  obtain ⟨bs, hbs, hequal⟩ := exists_addresses_setAddresses hall
  refine ⟨(m.setRecipients kind (rs ++ as)).value, ?_, bs, ?_, hequal⟩
  · rw [addRecipients, outcome_bind, hrs]
    rfl
  · rw [recipients, setRecipients, hbs, outcome_pure]

/-- A recipient with a name and a comment that was left open, and another one after it. -/
theorem recipients_addRecipients_after_open_comment :
    ∃ m m' : Message, ∃ rs as bs : List Address,
      ofOctets .default (Octets.ofAscii "To: N <a@b> (c\r\n\r\n") = .ok m ∧
      outcome (m.recipients .primary) = .ok rs ∧
      outcome (Address.parseList .strict "\"d e\" <f@g>".toList) = .ok as ∧
      outcome (m.addRecipients .primary as) = .ok m' ∧ outcome (m'.recipients .primary) = .ok bs ∧
      rs.length = 1 ∧ List.Forall₂ (fun b a ↦ (b == a) = true) bs (rs ++ as) := by
  let m : Message := ⟨.set .empty (.ofStandard .recipient) "N <a@b> (c".toList, [], .default⟩
  let r : Address := ⟨"a@b".toList, .written "N".toList false⟩
  let a : Address := ⟨"f@g".toList, .written "d e".toList false⟩
  have hwritten : m.toOctets = Octets.ofAscii "To: N <a@b> (c\r\n\r\n" := by decide
  have hm : ofOctets .default (Octets.ofAscii "To: N <a@b> (c\r\n\r\n") = .ok m := by
    rw [← hwritten]
    exact ofOctets_toOctets_of_wellFormed (HeaderMap.wellFormed_empty.set _ _) (by decide)
  have hrs : outcome (m.recipients .primary) = .ok [r] := by decide +kernel
  have has : outcome (Address.parseList .strict "\"d e\" <f@g>".toList) = .ok [a] := by
    decide +kernel
  have hr : outcome (Address.parseList .strict (valueText r.format)) = .ok [r] := by decide +kernel
  have halone : ∀ r' ∈ [r], m.ReadsAlone RecipientKind.primary.field r' := by
    intro r' hr'
    obtain rfl := List.mem_singleton.1 hr'
    exact ⟨r, addressesOf_eq_pure_iff.2 (parseList_of_strict hr _), by decide⟩
  obtain ⟨m', hm', bs, hbs, hequal⟩ :=
    recipients_addRecipients (Run.forall_mem_of_all (by decide)) has hrs halone
  exact ⟨m, m', [r], [a], bs, hm, hrs, has, hm', hbs, rfl, hequal⟩

/-- A quoted string that was left open is written as it was, and takes in who is added after it. -/
theorem recipients_addRecipients_after_open_quote :
    ∃ m m' : Message, ∃ rs as bs : List Address,
      ofOctets .default (Octets.ofAscii "To: \"a\r\n\r\n") = .ok m ∧
      outcome (m.recipients .primary) = .ok rs ∧
      outcome (Address.parseList .strict "b@c".toList) = .ok as ∧
      outcome (m.addRecipients .primary as) = .ok m' ∧ outcome (m'.recipients .primary) = .ok bs ∧
      ¬List.Forall₂ (fun b a ↦ (b == a) = true) bs (rs ++ as) := by
  let m : Message := ⟨.set .empty (.ofStandard .recipient) "\"a".toList, [], .default⟩
  let m' : Message :=
    { m with headers := m.headers.set (.ofStandard .recipient) "<\"a>, b@c".toList }
  have hwritten : m.toOctets = Octets.ofAscii "To: \"a\r\n\r\n" := by decide
  have hm : ofOctets .default (Octets.ofAscii "To: \"a\r\n\r\n") = .ok m := by
    rw [← hwritten]
    exact ofOctets_toOctets_of_wellFormed (HeaderMap.wellFormed_empty.set _ _) (by decide)
  have hrs : outcome (m.recipients .primary) = .ok [⟨"\"a".toList, .absent⟩] := by decide +kernel
  have has : outcome (Address.parseList .strict "b@c".toList) = .ok [⟨"b@c".toList, .absent⟩] := by
    decide +kernel
  have hm' : outcome (m.addRecipients .primary [⟨"b@c".toList, .absent⟩]) = .ok m' := by
    rw [addRecipients, outcome_bind, hrs]
    rfl
  have hbs : outcome (m'.recipients .primary) = .ok [⟨"\"a>, b@c".toList, .absent⟩] := by
    decide +kernel
  refine ⟨m, m', _, _, _, hm, hrs, has, hm', hbs, fun h ↦ ?_⟩
  cases h.length_eq

/-! ### Setting recipients -/

/-- **Recipients that were set are read as they are**, at any strictness and folded at any column:
if they were found in a printable text, the message has them, and so has the message that is read
from its octets. A message is read at all if none of its fields has more values than it may have. -/
theorem recipients_setRecipients [MultiByte.Codec] {t : Text}
    (ht : ∀ c ∈ t, 0x20 ≤ c.toNat ∧ c.toNat ≤ 0x7e)
    (has : outcome (Address.parseList .strict t) = .ok as) (hm : m.WireSafe)
    (kind : RecipientKind) :
    outcome ((m.setRecipients kind as).value.recipients kind) = .ok as ∧
      ((m.setRecipients kind as).value.headers.Unrepeated →
        ∃ m', ofOctets m.settings (m.setRecipients kind as).value.toOctets = .ok m' ∧
          outcome (m'.recipients kind) = .ok as) := by
  have hread : (m.setRecipients kind as).value.recipients kind = pure as := by
    have halone : ∀ a ∈ as, ∃ b, m.addressesOf kind.field a.format = pure [b] ∧ b = a :=
      fun a ha ↦ ⟨a, addressesOf_format ht has a ha, rfl⟩
    obtain ⟨bs, hbs, hsame⟩ := exists_addresses_setAddresses halone
    have heq : bs = as := List.forall₂_eq_eq_eq ▸ hsame
    rwa [heq] at hbs
  have hsafe : (m.setRecipients kind as).value.WireSafe := by
    refine (wireSafe_setAddresses_iff hm fun a ha ↦ (rereads_of_printable ht has a ha).2.1).2 ?_
    exact fun a ha ↦ continued_of_printable (rereads_of_printable ht has a ha).2.2
  have hsettings : (m.setRecipients kind as).value.settings = m.settings := settings_setAddresses
  generalize (m.setRecipients kind as).value = composed at hread hsafe hsettings ⊢
  refine ⟨by rw [hread, outcome_pure], fun honce ↦ ?_⟩
  refine ⟨{ composed with headers := composed.headers.filled }, ?_, ?_⟩
  · rw [← hsettings]
    exact ofOctets_toOctets_of_unrepeated hsafe honce
  · rw [recipients, addresses_filled honce.nodup, ← recipients, hread, outcome_pure]

/-- A quoted name and a name in a comment, in a field of short lines after one with a subject. -/
theorem recipients_setRecipients_on_short_lines :
    ∃ m m' : Message, ∃ as : List Address, m.WireSafe ∧ m.settings.foldColumn = 10 ∧
      outcome (Address.parseList .strict "\"d, e\" <f@g>, h@i (j)".toList) = .ok as ∧
      outcome ((m.setRecipients .cc as).value.recipients .cc) = .ok as ∧
      ofOctets m.settings (m.setRecipients .cc as).value.toOctets = .ok m' ∧
      outcome (m'.recipients .cc) = .ok as ∧ as.length = 2 := by
  let subject := HeaderMap.empty.set (.ofStandard .subject) "x".toList
  let m : Message := ⟨subject, [], { Settings.default with foldColumn := 10 }⟩
  let as : List Address := [⟨"f@g".toList, .written "d, e".toList false⟩,
    ⟨"h@i".toList, .written "j".toList false⟩]
  have hm : m.WireSafe := by decide
  have has : outcome (Address.parseList .strict "\"d, e\" <f@g>, h@i (j)".toList) = .ok as := by
    decide +kernel
  have honce : (m.setRecipients .cc as).value.headers.Unrepeated := by
    rw [setRecipients, value_setAddresses (List.cons_ne_nil _ _)]
    exact (HeaderMap.Built.set _ _ (.set _ _ .empty)).wellFormed.unrepeated
  obtain ⟨hset, hread⟩ :=
    recipients_setRecipients (Run.forall_mem_of_all (by decide)) has hm .cc
  obtain ⟨m', hm', hrecipients⟩ := hread honce
  exact ⟨m, m', as, hm, rfl, has, hset, hm', hrecipients, rfl⟩

/-- A map that was read from JSON may have two subjects, and then the message cannot be read,
whoever its recipients are. -/
theorem recipients_setRecipients_two_subjects :
    ∃ m : Message, ∃ as : List Address,
      HeaderMap.ofJson?
        (.object [("Subject".toList, .array [.text "a".toList, .text "b".toList])]) =
          some m.headers ∧ m.WireSafe ∧
      outcome (Address.parseList .strict "a@b".toList) = .ok as ∧
      ¬∃ m', ofOctets m.settings (m.setRecipients .primary as).value.toOctets = .ok m' ∧
        outcome (m'.recipients .primary) = .ok as := by
  let subjects : HeaderMap := ⟨[(.ofStandard .subject, ["a".toList, "b".toList])]⟩
  let addressed : HeaderMap := subjects.set (.ofStandard .recipient) "a@b".toList
  have hm : WireSafe ⟨subjects, [], .default⟩ := by decide
  have has : outcome (Address.parseList .strict "a@b".toList) = .ok [⟨"a@b".toList, .absent⟩] := by
    decide +kernel
  have hset : (setRecipients ⟨subjects, [], .default⟩ .primary [⟨"a@b".toList, .absent⟩]).value =
      ⟨addressed, [], .default⟩ := by
    rw [setRecipients, value_setAddresses (List.cons_ne_nil _ _)]
    rfl
  refine ⟨⟨subjects, [], .default⟩, [⟨"a@b".toList, .absent⟩], rfl, hm, has, ?_⟩
  rintro ⟨m', hm', -⟩
  have hsafe : WireSafe ⟨addressed, [], .default⟩ := by decide
  obtain ⟨_, hsplit, hfields⟩ := bind_eq_ok_iff.1 (hset ▸ hm')
  cases (split_toOctets hsafe).symm.trans hsplit
  obtain ⟨_, hrefused, -⟩ := bind_eq_ok_iff.1 hfields
  cases hrefused

end InternetMail.Message
