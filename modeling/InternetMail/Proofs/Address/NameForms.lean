import InternetMail.Proofs.Address.Characters
import InternetMail.Proofs.Address.GivenName
import InternetMail.Proofs.InPlace
import InternetMail.Proofs.Silent

/-!
# The two forms of a display name

A display name has a form that is shown and one that is written. They say the same for every address
that was read or built by calls, in any order (`Address.personal_and_encodedPersonal_after`): the
written form is ASCII and decodes to the shown one, or it cannot be decoded and is what is shown.

That holds of a name as it was written whatever it is, since the other form is worked out from it.
Of a name that was given it holds because it was encoded, so that each call only has to be looked at
for the names it gives (`Call.agrees_run`). No reading gives any (`DisplayName.IsRead`).

Reading makes names in several places: of phrases, of comments, and in groups that are opened up.
None of them is a given name, which is seen from what addresses that were read are made of
(`Address.MadeOf.isRead`), so that no place needs an argument of its own. A call that fails leaves
the address as it is (`run_of_error`), which is why the result needs no care for which of the calls
succeeded.
-/

namespace InternetMail

open Reported

/-! ### The forms of a name -/

/-- The text `encoded` is ASCII and says `shown`, or it cannot be decoded and is shown as it is. -/
def IsEncodedFormOf [MultiByte.Codec] (encoded shown : Text) : Prop :=
  Text.isAscii encoded = true ∧
    (outcome (decodeText encoded) = .ok shown ∨
      (∃ e, outcome (decodeText encoded) = .error e) ∧ shown = encoded)

/-- What a text was encoded as in a whole charset decodes to it and is ASCII. -/
theorem isEncodedFormOf_of_resolve [MultiByte.Codec] {shown label encoded : Text}
    {charset : Charset}
    {choice : Option WordEncoding} (hlabel : Charset.resolve label = .ok charset)
    (hwhole : charset.isWhole = true) (h : encodeText shown label choice = .ok encoded) :
    IsEncodedFormOf encoded shown := by
  refine ⟨?_, Or.inl (outcome_decodeText_of_encodeText hlabel hwhole h)⟩
  simp only [Text.isAscii, List.all_eq_true, decide_eq_true_eq]
  intro c hc
  rcases (isWritten_of_encodeText hlabel hwhole h c hc).1 with hprintable | rfl
  · omega
  · decide

/-- What a text is encoded as is an encoded form of it, if the charset is a whole one or none. -/
theorem isEncodedFormOf_of_encodeText [MultiByte.Codec] {shown label encoded : Text}
    {choice : Option WordEncoding}
    (hwhole : ∀ charset, Charset.resolve label = .ok charset → charset.isWhole = true)
    (h : encodeText shown label choice = .ok encoded) : IsEncodedFormOf encoded shown := by
  cases hneeds : needsEncoding shown with
  | false =>
    -- it is kept as it is, whatever the charset
    have hutf8 : encodeText shown defaultNameCharset choice = .ok encoded := by
      simpa [encodeText, hneeds] using h
    exact isEncodedFormOf_of_resolve resolve_defaultNameCharset rfl hutf8
  | true =>
    have hencode := h
    rw [encodeText, hneeds] at hencode
    obtain ⟨charset, hlabel, -⟩ := bind_eq_ok_iff.1 hencode
    exact isEncodedFormOf_of_resolve hlabel (hwhole charset hlabel) h

namespace DisplayName

/-- A name that cannot be decoded is shown as it was written. -/
theorem value_reading_of_error [MultiByte.Codec] {raw : Text} {e : Error}
    (h : outcome (decodeText raw) = .error e) : (reading raw).value = raw := by
  have hrun : (ExceptT.run (decodeText raw)).value = .error e := h
  rw [reading, Reported.value_bind, hrun]
  rfl

/-- A given name was encoded as it has to be. -/
def Agrees [MultiByte.Codec] : DisplayName → Prop
  | given shown encoded => IsEncodedFormOf encoded shown
  | _ => True

/-- The forms of a name are both there or both not, and the one is an encoded form of the other. -/
theorem Agrees.shown_and_encoded [MultiByte.Codec] {name : DisplayName} (h : name.Agrees) :
    (name.shown = none ∧ name.encoded = none) ∨
      ∃ p e, name.shown = some p ∧ name.encoded = some e ∧ IsEncodedFormOf e p := by
  cases name with
  | absent => exact Or.inl ⟨rfl, rfl⟩
  | given p e => exact Or.inr ⟨p, e, rfl, rfl, h⟩
  | written raw asked =>
    refine Or.inr ⟨(reading raw).value, ?_⟩
    rw [encoded]
    split
    · rename_i hascii
      refine ⟨raw, rfl, rfl, hascii, ?_⟩
      cases hraw : outcome (decodeText raw) with
      | ok p => exact Or.inl (congrArg _ (value_reading hraw).symm)
      | error e => exact Or.inr ⟨⟨e, rfl⟩, value_reading_of_error hraw⟩
    · -- a name that is not ASCII is written as what it says
      obtain ⟨e, he⟩ := exists_encodeText resolve_defaultNameCharset (reading raw).value none
      refine ⟨e, rfl, ?_, isEncodedFormOf_of_resolve resolve_defaultNameCharset rfl he⟩
      rw [he]
      rfl

/-- A name that stood in a text. -/
def IsRead : DisplayName → Prop
  | given _ _ => False
  | _ => True

/-- The two forms of a name that was read say the same: one is worked out from the other. -/
theorem IsRead.agrees [MultiByte.Codec] {name : DisplayName} (h : name.IsRead) : name.Agrees := by
  cases name with
  | given => exact h.elim
  | _ => trivial

end DisplayName

/-! ### Names that are read -/

variable {s : Strictness} {ts : List Token} {as : List Address} {a : Address}

/-- An address that is made of characters that were read has a name that was. -/
theorem Address.MadeOf.isRead {p : Char → Prop} (h : a.MadeOf p) : a.name.IsRead := by
  rcases h.name with hname | ⟨raw, hname, -⟩ <;>
  · rw [hname]
    trivial

/-- The addresses of a list have names that were read. -/
theorem isRead_of_addressList (h : outcome (addressList s ts) = .ok as) :
    ∀ a ∈ as, a.name.IsRead := by
  have hmade : ∀ a ∈ as, a.MadeOf fun _ ↦ True :=
    madeOf_of_addressList trivial trivial (fun _ _ _ _ ↦ trivial) h
  exact fun a ha ↦ (hmade a ha).isRead

/-- So have the members of a group. -/
theorem isRead_of_groupMembers (h : outcome (groupMembers s ts) = .ok (some as)) :
    ∀ a ∈ as, a.name.IsRead := by
  rw [groupMembers] at h
  split at h
  · cases h
  split at h
  · cases h
  · simp only [outcome_bind, outcome_pure, bind_eq_ok_iff] at h
    obtain ⟨-, -, as', has', heq⟩ := h
    cases heq
    exact isRead_of_addressList has'

/-- The addresses that a text gives, in one of the ways to read it. -/
inductive IsReading (t : Text) : Address → Prop
  | inList {s : Strictness} {as : List Address} {a : Address} :
      outcome (Address.parseList s t) = .ok as → a ∈ as → IsReading t a
  | alone {s : Strictness} {a : Address} : outcome (Address.parse s t) = .ok a → IsReading t a
  | member {s : Strictness} {as : List Address} {a : Address} :
      outcome (Address.membersOf s t) = .ok (some as) → a ∈ as → IsReading t a

/-- **No reading gives a name**: whatever comes out of a text was read there. -/
theorem IsReading.isRead {t : Text} (h : IsReading t a) : a.name.IsRead := by
  cases h with
  | inList h ha =>
    obtain ⟨ts, -, has⟩ := outcome_parseList.1 h
    exact isRead_of_addressList has _ ha
  | alone h =>
    obtain ⟨ts, -, has⟩ := outcome_parse.1 h
    exact isRead_of_addressList has a (List.mem_singleton_self a)
  | member h ha =>
    obtain ⟨ts, -, h⟩ := outcome_readingOf_eq_ok_iff.1 h
    split at h
    · exact isRead_of_groupMembers h _ ha
    · cases h

/-! ### Calls -/

namespace Address

/-- Replaces the display name of the address that is worked on. It is encoded first, and what fails
then has changed nothing. -/
def replacePersonal [MultiByte.Codec] (shown charset : Option Text) : InPlace Address Unit :=
  match shown with
  | none => modify fun a ↦ { a with name := .absent }
  | some shown => do
    let encoded ← .attempt (monadLift (encodeText shown (charset.getD defaultNameCharset) none))
    modify fun a ↦ { a with name := .given shown encoded }

/-- What is left is the address with the name, or the address as it was. -/
theorem result_replacePersonal [MultiByte.Codec] (shown charset : Option Text) (a : Address) :
    (replacePersonal shown charset).result a =
      match a.setPersonal shown charset with
      | .ok a' => (.ok (), a')
      | .error e => (.error e, a) := by
  cases shown with
  | none => rfl
  | some shown =>
    rw [replacePersonal, InPlace.result_bind, InPlace.result_attempt, outcome_liftExcept,
      setPersonal]
    cases encodeText shown (charset.getD defaultNameCharset) none <;> rfl

/-- A call on an address. Asking for the name changes nothing but what is reported, and writing the
address asks for the name in its written form (`askEncoded`). -/
inductive Call
  | setSpec (spec : Text)
  | setPersonal (shown charset : Option Text)
  | setEncodedPersonal (raw : Option Text)
  | ask
  | askEncoded

namespace Call

/-- The work that the call does on the address. -/
def work [MultiByte.Codec] : Call → InPlace Address Unit
  | setSpec spec => modify (Address.setSpec spec)
  | setPersonal shown charset => replacePersonal shown charset
  | setEncodedPersonal raw => modify (Address.setEncodedPersonal raw)
  | ask => do set (← .attempt (liftM (← get).ask))
  | askEncoded => do set (← .attempt (liftM (← get).askEncoded))

/-- What the call gives, and the address after it. -/
def run [MultiByte.Codec] (a : Address) (c : Call) : Outcome Unit × Address :=
  c.work.result a

/-- A name that the call gives is encoded in a whole charset, if in any. -/
def InWholeCharset : Call → Prop
  | setPersonal _ charset =>
    ∀ c, Charset.resolve (charset.getD defaultNameCharset) = .ok c → c.isWhole = true
  | _ => True

/-- Asking for the name changes neither form. -/
theorem agrees_ask [MultiByte.Codec] (h : a.name.Agrees) : a.ask.value.name.Agrees := by
  unfold Address.ask
  split
  · trivial
  · exact h

/-- The forms of the name still agree after a call. -/
theorem agrees_run [MultiByte.Codec] {c : Call} (hc : c.InWholeCharset) (h : a.name.Agrees) :
    (c.run a).2.name.Agrees := by
  cases c with
  | setSpec => exact h
  | setPersonal shown charset =>
    rw [run, work, result_replacePersonal]
    cases shown with
    | none => trivial
    | some shown =>
      cases he : encodeText shown (charset.getD defaultNameCharset) none with
      | error e => simpa [Address.setPersonal, he] using h
      | ok encoded =>
        have hform : IsEncodedFormOf encoded shown := isEncodedFormOf_of_encodeText hc he
        simpa [Address.setPersonal, he, DisplayName.Agrees] using hform
  | setEncodedPersonal raw => cases raw <;> trivial
  | ask => exact agrees_ask h
  | askEncoded =>
    show a.askEncoded.value.name.Agrees
    unfold Address.askEncoded
    split
    · split
      · exact h
      · exact agrees_ask h
    · exact h

/-- A call that fails leaves the address as it was: only a name that is given can be refused, and it
is before anything is changed. -/
theorem run_of_error [MultiByte.Codec] {c : Call} {e : Error} (h : (c.run a).1 = .error e) :
    (c.run a).2 = a := by
  cases c with
  | setPersonal shown charset =>
    rw [run, work, result_replacePersonal] at h ⊢
    cases he : a.setPersonal shown charset with
    | ok a' => simp [he] at h
    | error e' => rfl
  | _ => cases h

end Call

/-- The address after calls, one after another. -/
def after [MultiByte.Codec] (a : Address) (calls : List Call) : Address :=
  calls.foldl (fun a c ↦ (c.run a).2) a

/-- After any calls the two forms say the same, if they did before. -/
theorem agrees_after [MultiByte.Codec] {calls : List Call} (hcalls : ∀ c ∈ calls, c.InWholeCharset)
    (h : a.name.Agrees) : (a.after calls).name.Agrees := by
  induction calls generalizing a with
  | nil => exact h
  | cons c calls ih =>
    rw [List.forall_mem_cons] at hcalls
    exact ih hcalls.2 (Call.agrees_run hcalls.1 h)

/-- **The two forms of a name agree.** Whatever is called on an address that was read, or on the
empty one, its name has both forms or none. The written one is ASCII and decodes to the one that is
shown, or cannot be decoded and is the same. A name that cannot be encoded changes nothing. -/
theorem personal_and_encodedPersonal_after [MultiByte.Codec] {calls : List Call}
    (ha : a = empty ∨ ∃ t, IsReading t a) (hcalls : ∀ c ∈ calls, c.InWholeCharset) :
    let b := a.after calls
    ((b.personal = none ∧ b.encodedPersonal = none) ∨
      ∃ p e, b.personal = some p ∧ b.encodedPersonal = some e ∧ Text.isAscii e = true ∧
        (outcome (decodeText e) = .ok p ∨
          (∃ error, outcome (decodeText e) = .error error) ∧ p = e)) ∧
    ∀ shown charset error, (Call.run b (.setPersonal shown charset)).1 = .error error →
      let c := (Call.run b (.setPersonal shown charset)).2
      c.spec = b.spec ∧ c.personal = b.personal ∧ c.encodedPersonal = b.encodedPersonal := by
  intro b
  refine ⟨?_, fun shown charset error herror ↦ ?_⟩
  · have hstart : a.name.Agrees := by
      rcases ha with rfl | ⟨t, ha⟩
      · trivial
      · exact ha.isRead.agrees
    exact (agrees_after hcalls hstart).shown_and_encoded
  · rw [Call.run_of_error herror]
    exact ⟨rfl, rfl, rfl⟩

/-- A name in a charset that nobody knows gives way to one that is not ASCII, which is written as
encoded words. It cannot be replaced by one that its charset does not have. -/
theorem personal_and_encodedPersonal_after_raw_name :
    ∃ a, outcome (parse .parseHeader "=?x?Q?a?= <b@c>".toList) = .ok a ∧
      let b := a.after [.ask, .setPersonal (some "ü".toList) (some "latin1".toList), .askEncoded,
        .setEncodedPersonal (some "ö".toList), .askEncoded]
      b.personal = some "ö".toList ∧
      (∃ e, b.encodedPersonal = some e ∧ Text.isAscii e = true ∧
        outcome (decodeText e) = .ok "ö".toList) ∧
      ∃ error, (Call.run b (.setPersonal (some "ä".toList) (some "us-ascii".toList))).1 =
          .error error ∧
        (Call.run b (.setPersonal (some "ä".toList) (some "us-ascii".toList))).2.personal =
          b.personal := by
  have ha : outcome (parse .parseHeader "=?x?Q?a?= <b@c>".toList) =
      .ok ⟨"b@c".toList, .written "=?x?Q?a?=".toList false⟩ := by
    decide +kernel
  refine ⟨_, ha, ?_⟩
  intro b
  have hcalls : ∀ c ∈ [.ask, .setPersonal (some "ü".toList) (some "latin1".toList), .askEncoded,
      .setEncodedPersonal (some "ö".toList), .askEncoded], Call.InWholeCharset c := by
    simp only [List.forall_mem_cons, List.not_mem_nil, false_implies, implies_true, and_true]
    refine ⟨trivial, fun charset hcharset ↦ ?_, trivial, trivial, trivial⟩
    cases hcharset
    rfl
  have hpersonal : b.personal = some "ö".toList := by decide +kernel
  obtain ⟨hforms, hfails⟩ :=
    personal_and_encodedPersonal_after (Or.inr ⟨_, .alone ha⟩) hcalls
  refine ⟨hpersonal, ?_, _, rfl, (hfails _ _ _ rfl).2.1⟩
  rcases hforms with ⟨hnone, -⟩ | ⟨p, e, hp, he, hascii, hsays⟩
  · rw [hpersonal] at hnone
    cases hnone
  · obtain rfl : "ö".toList = p := Option.some.inj (hpersonal.symm.trans hp)
    rcases hsays with hdecode | ⟨-, hsame⟩
    · exact ⟨e, he, hascii, hdecode⟩
    · rw [← hsame] at hascii
      exact absurd hascii (by decide)

end Address

end InternetMail
