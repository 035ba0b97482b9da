import InternetMail.Proofs.Outcome
import InternetMail.Proofs.Text.Lowercase
import InternetMail.Search

/-!
# What a search finds

A query for a text looks through values of a field or through addresses as they are shown
(`Query.LooksAt`), and finds the text if its lower case stands in the lower case of one of these
(`Query.value_isMatch_iff`).

So a text is found wherever it occurs, if its capital sigmas have the same forms there as in the
text alone (`Query.isMatch_of_looksAt`); they have if it has none, or is whole words there
(`Query.isMatch_of_not_mem_or_whole_words`). A sigma at an end of the text may not: alone it ends a
word, and in the middle of a word it does not (`Query.not_isMatch_sigma_in_word`).

Looking may report what was put right in the values on the way, and none of that has to do with what
is found: the results here are about the value of the computation. A value that cannot be decoded is
not looked at, and neither is a list of addresses that cannot be read.
-/

namespace InternetMail

open Reported (outcome)

/-- Whether something holds of any item of a list, without what is reported on the way. -/
theorem Reported.value_anyM {ν α : Type} (p : α → Reported ν Bool) (xs : List α) :
    (xs.anyM p).value = xs.any fun x ↦ (p x).value := by
  induction xs with
  | nil => rfl
  | cons x xs ih =>
    rw [List.anyM, Reported.value_bind, List.any_cons]
    cases (p x).value with
    | true => rfl
    | false => exact ih

/-- To find is to find the lower case in the lower case. -/
theorem containsIgnoringCase_iff {haystack needle : Text} :
    containsIgnoringCase haystack needle = true ↔ Text.lower needle <:+: Text.lower haystack :=
  Run.contains_iff_isInfix

namespace Query

/-- The text that a query asks for, if it asks for a text. -/
def needle? : Query → Option Text
  | authorText needle | recipientText _ needle | subject needle | field _ needle => some needle
  | _ => none

/-- The query looks through the text: a value of its field that can be decoded, or one of the
addresses in its fields, if these can be read, as it is shown. -/
inductive LooksAt [MultiByte.Codec] (m : Message) : Query → Text → Prop
  | field {n : HeaderName} {needle value t : Text} : value ∈ m.headers.getAll n →
      outcome (decodeHeaderValue (Utf8.encode value)) = .ok t → LooksAt m (.field n needle) t
  | subject {needle value t : Text} : value ∈ m.headers.getAll StandardName.subject →
      outcome (decodeHeaderValue (Utf8.encode value)) = .ok t → LooksAt m (.subject needle) t
  | authorText {needle : Text} {as : List Address} {a : Address} : outcome m.authors = .ok as →
      a ∈ as → LooksAt m (.authorText needle) a.formatUnicode
  | recipientText {kind : RecipientKind} {needle : Text} {as : List Address} {a : Address} :
      outcome (m.recipients kind) = .ok as → a ∈ as →
      LooksAt m (.recipientText kind needle) a.formatUnicode

variable {m : Message} {needle t before after : Text} {q : Query}

/-- The subject of a message is looked through for a text in the subject. -/
theorem looksAt_subject [MultiByte.Codec] (h : outcome m.subject = .ok (some t)) : LooksAt m
    (.subject needle) t := by
  rw [Message.subject, HeaderMap.get?] at h
  cases hget : m.headers.getAll StandardName.subject with
  | nil =>
    rw [hget] at h
    cases h
  | cons value values =>
    rw [hget] at h
    have hvalue : (outcome (decodeHeaderValue (Utf8.encode value))).map some = .ok (some t) := by
      rw [← h]
      exact (Reported.outcome_map ..).symm
    obtain ⟨u, hu, htu⟩ := map_eq_ok_iff.1 hvalue
    exact .subject (hget ▸ List.mem_cons_self) (hu.trans (congrArg _ (Option.some.inj htu)))

/-! ### Finding a text -/

/-- A value is looked through as it is decoded. -/
theorem value_isInValue_iff [MultiByte.Codec] {n : HeaderName} {value : Text} :
    (Search.isInValue n needle value).value = true ↔
      ∃ t, outcome (decodeHeaderValue (Utf8.encode value)) = .ok t ∧
        Text.lower needle <:+: Text.lower t := by
  have hrun : (decodeHeaderValue (Utf8.encode value)).run.value =
    outcome (decodeHeaderValue (Utf8.encode value)) := rfl
  rw [Search.isInValue, Reported.value_bind, hrun]
  cases outcome (decodeHeaderValue (Utf8.encode value)) with
  | error e => simp
  | ok t => simp [containsIgnoringCase_iff]

/-- A field is looked through value by value. -/
theorem value_isInField_iff [MultiByte.Codec] {n : HeaderName} :
    (Search.isInField m n needle).value = true ↔ ∃ value ∈ m.headers.getAll n,
      ∃ t, outcome (decodeHeaderValue (Utf8.encode value)) = .ok t ∧
        Text.lower needle <:+: Text.lower t := by
  rw [Search.isInField, Reported.value_anyM, List.any_eq_true]
  exact exists_congr fun value ↦ and_congr_right fun _ ↦ value_isInValue_iff

/-- An address is shown as it was before its name was asked for. -/
theorem formatUnicode_ask [MultiByte.Codec] (a : Address) :
    a.ask.value.formatUnicode = a.formatUnicode := by
  simp [Address.formatUnicode, Address.render, Address.isGroup]

/-- Addresses are looked through as they are shown. -/
theorem value_anyAddress_iff [MultiByte.Codec] {x : Attempt (List Address)} :
    (Search.anyAddress x (Search.isShownWith needle)).value = true ↔
      ∃ as, outcome x = .ok as ∧ ∃ a ∈ as, Text.lower needle <:+: Text.lower a.formatUnicode := by
  have hshown : ∀ a, (Search.isShownWith needle a).value =
      containsIgnoringCase a.formatUnicode needle := by
    intro a
    rw [← formatUnicode_ask]
    rfl
  have hrun : x.run.value = outcome x := rfl
  rw [Search.anyAddress, Reported.value_bind, hrun]
  cases outcome x with
  | error e => simp
  | ok as => simp [Reported.value_anyM, hshown, containsIgnoringCase_iff]

/-- A text is found exactly if its lower case stands in that of a text that is looked through. -/
theorem value_isMatch_iff [MultiByte.Codec] (hq : q.needle? = some needle) :
    (q.isMatch m).value = true ↔ ∃ t, q.LooksAt m t ∧ Text.lower needle <:+: Text.lower t := by
  cases q with
  | field n needle' =>
    obtain rfl : needle' = needle := Option.some.inj hq
    rw [isMatch, value_isInField_iff]
    constructor
    · rintro ⟨value, hvalue, t, ht, hinfix⟩
      exact ⟨t, .field hvalue ht, hinfix⟩
    · rintro ⟨t, hlooks, hinfix⟩
      cases hlooks with
      | field hvalue ht => exact ⟨_, hvalue, t, ht, hinfix⟩
  | subject needle' =>
    obtain rfl : needle' = needle := Option.some.inj hq
    rw [isMatch, value_isInField_iff]
    constructor
    · rintro ⟨value, hvalue, t, ht, hinfix⟩
      exact ⟨t, .subject hvalue ht, hinfix⟩
    · rintro ⟨t, hlooks, hinfix⟩
      cases hlooks with
      | subject hvalue ht => exact ⟨_, hvalue, t, ht, hinfix⟩
  | authorText needle' =>
    obtain rfl : needle' = needle := Option.some.inj hq
    rw [isMatch, value_anyAddress_iff]
    constructor
    · rintro ⟨as, has, a, ha, hinfix⟩
      exact ⟨_, .authorText has ha, hinfix⟩
    · rintro ⟨t, hlooks, hinfix⟩
      cases hlooks with
      | authorText has ha => exact ⟨_, has, _, ha, hinfix⟩
  | recipientText kind needle' =>
    obtain rfl : needle' = needle := Option.some.inj hq
    rw [isMatch, value_anyAddress_iff]
    constructor
    · rintro ⟨as, has, a, ha, hinfix⟩
      exact ⟨_, .recipientText has ha, hinfix⟩
    · rintro ⟨t, hlooks, hinfix⟩
      cases hlooks with
      | recipientText has ha => exact ⟨_, has, _, ha, hinfix⟩
  | _ => cases hq

/-- **A text is found wherever it occurs**, if its capital sigmas have the forms there that they
have in the text alone. -/
theorem isMatch_of_looksAt [MultiByte.Codec] (hq : q.needle? = some needle)
    (ht : q.LooksAt m (before ++ needle ++ after))
    (hsigmas : Text.KeepsSigmas before needle after) : (q.isMatch m).value = true :=
  (value_isMatch_iff hq).2 ⟨_, ht, hsigmas.lower_isInfix⟩

/-- A sigma that ends a word of the subject is found by a text that it ends. -/
theorem isMatch_of_looksAt_end_of_word :
    ∃ m : Message, outcome m.subject = .ok (some "ὉΔΌΣ ΣΥ".toList) ∧
      LooksAt m (.subject "ΌΣ".toList) ("ὉΔ".toList ++ "ΌΣ".toList ++ " ΣΥ".toList) ∧
      Text.KeepsSigmas "ὉΔ".toList "ΌΣ".toList " ΣΥ".toList ∧
      (isMatch m (.subject "ΌΣ".toList)).value = true := by
  let m : Message := ⟨⟨[(.ofStandard .subject, ["ὉΔΌΣ ΣΥ".toList])]⟩, [], .default⟩
  have hsubject : outcome m.subject = .ok (some "ὉΔΌΣ ΣΥ".toList) := by decide +kernel
  have hlooks : LooksAt m (.subject "ΌΣ".toList)
      ("ὉΔ".toList ++ "ΌΣ".toList ++ " ΣΥ".toList) := looksAt_subject hsubject
  have hsigmas : Text.KeepsSigmas "ὉΔ".toList "ΌΣ".toList " ΣΥ".toList := by
    intro us vs h
    cases us with
    | nil => exact absurd (List.cons.inj h).1 (by decide)
    | cons c us =>
      obtain ⟨rfl, hrest⟩ := List.cons.inj h
      cases us with
      | nil =>
        obtain rfl : [] = vs := (List.cons.inj hrest).2
        decide +kernel
      | cons d us => exact absurd (List.cons.inj hrest).2 (by simp)
  exact ⟨m, hsubject, hlooks, hsigmas, isMatch_of_looksAt rfl hlooks hsigmas⟩

/-- A text without a capital sigma is found wherever it occurs, and any text is found where it is
whole words: where no letter that has case goes on with the first of them or with the last. -/
theorem isMatch_of_not_mem_or_whole_words [MultiByte.Codec] (hq : q.needle? = some needle)
    (ht : q.LooksAt m (before ++ needle ++ after))
    (h : 'Σ' ∉ needle ∨ casedNext before.reverse = false ∧ casedNext after = false) :
    (q.isMatch m).value = true := by
  have hsigmas : Text.KeepsSigmas before needle after := by
    rcases h with hnone | ⟨hbefore, hafter⟩
    · exact .of_not_mem hnone
    · exact .of_casedNext hbefore hafter
  exact (value_isMatch_iff hq).2 ⟨_, ht, hsigmas.lower_isInfix⟩

/-- A text that ends with a capital sigma is not found in the middle of a word, although it stands
there: in the lower case of the word the sigma has another form than in that of the text. -/
theorem not_isMatch_sigma_in_word :
    ∃ m : Message, outcome m.subject = .ok (some "ΑΣΑ".toList) ∧ "ΑΣ".toList <:+: "ΑΣΑ".toList ∧
      (isMatch m (.subject "ΑΣ".toList)).value = false := by
  refine ⟨⟨⟨[(.ofStandard .subject, ["ΑΣΑ".toList])]⟩, [], .default⟩, ?_, ?_, ?_⟩
  · decide +kernel
  · exact ⟨[], ['Α'], rfl⟩
  · decide +kernel

end Query

end InternetMail
