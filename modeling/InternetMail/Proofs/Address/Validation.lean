import InternetMail.Proofs.Address.RoundTrip

/-!
# Addresses that validate

To validate an address is to write it without its display name and to read that strictly. What the
strict reading found in a list passes (`validate_and_parse_format_setSpec`), whatever characters its
text has: a group is written as it stood there, and all else is written as tokens that were found in
the text, without the blanks and comments between them. Angle brackets stand around a route, a
quoted local part or a domain literal, and a plain addr-spec is read without them.

Only the address itself is written, so that this asks nothing of the text, as reading a whole list
again does for the sake of its names (`parseList_formatList`).
-/

namespace InternetMail

open Reported Grammar

/-! ### What is written is read -/

/-- The tokens that an address is written as are read as that address. -/
theorem Rereads.outcome_parse [MultiByte.Codec] {a : Address} (h : Rereads a) :
    outcome (Address.parse .strict a.format) = .ok a := by
  obtain ⟨us, hus, hwritten, hreads⟩ := h
  have htokens : tokenize .strict a.format = .ok (placed 0 us) := by
    rw [← hwritten]
    exact tokenize_writtenOf hus
  exact outcome_parse_strict.2 ⟨placed 0 us, htokens, (hreads 0).strictList⟩

/-- An address that the strict reading found is read again without its name. -/
theorem ReadsAs.rereads_setSpec [MultiByte.Codec] {ts : List Token} {a : Address} (h : ReadsAs ts a)
    (hts : WellSpelled ts) : Rereads (Address.empty.setSpec a.spec) := by
  cases h with
  | group h => exact exists_tokens_of_strictGroup h hts
  | mailbox h =>
    obtain ⟨route, spec, rfl, hroute, hspec, hspelled, hcomments⟩ := exists_path_of_mailbox h hts
    exact exists_tokens_of_unnamed hroute hspec hspelled hcomments

/-- Without a name an address is written as the address itself. -/
theorem Address.format_setSpec_empty [MultiByte.Codec] (spec : Text) :
    (Address.empty.setSpec spec).format = Address.formatSpec spec := by
  show (if Address.isGroupText spec then spec else Address.formatSpec spec) = _
  split
  · rename_i hgroup
    rw [Address.formatSpec, Address.needsBrackets, hgroup]
    rfl
  · rfl

/-! ### Main statement -/

/-- **What the strict reading accepts is valid.** Each address of a list that the strict reading
found validates, and written without a display name it is read as one address with the same text,
that has no display name and is a group if that was one. -/
theorem validate_and_parse_format_setSpec [MultiByte.Codec] {t : Text} {as : List Address}
    (has : outcome (Address.parseList .strict t) = .ok as) {a : Address} (ha : a ∈ as) :
    outcome a.validate = .ok () ∧
      ∃ b, outcome (Address.parse .strict (Address.empty.setSpec a.spec).format) = .ok b ∧
        b.spec = a.spec ∧ b.personal = none ∧ b.isGroup = a.isGroup := by
  obtain ⟨ts, hts, hlist⟩ := outcome_parseList_strict.1 has
  obtain ⟨before, us, after, rfl, hreads⟩ := hlist.exists_readsAs a ha
  have hus := (wellSpelled_of_tokenize hts).right_of_append.left_of_append
  have hparse := (hreads.rereads_setSpec hus).outcome_parse
  refine ⟨?_, _, hparse, rfl, rfl, rfl⟩
  rw [Address.format_setSpec_empty] at hparse
  rw [Address.validate, outcome_bind, hparse]
  rfl

/-- A route before a quoted local part with an escaped line break and a fold, and a group after a
comment with a character beyond ASCII in its name. -/
theorem validate_and_parse_format_setSpec_route_and_group :
    ∃ as, outcome (Address.parseList .strict
        "n <@r,@s:\"y\\\n\r\nz\".w@[1\\]] (c)>, (c) ö: a@b , (d) ;".toList) = .ok as ∧
      as.map Address.spec = ["@r,@s:\"y\\\n\r\nz\".w@[1\\]]".toList, "(c) ö: a@b , (d) ;".toList] ∧
      ∀ a ∈ as, outcome a.validate = .ok () ∧
        ∃ b, outcome (Address.parse .strict (Address.empty.setSpec a.spec).format) = .ok b ∧
          b.spec = a.spec ∧ b.personal = none ∧ b.isGroup = a.isGroup := by
  have has : outcome (Address.parseList .strict
      "n <@r,@s:\"y\\\n\r\nz\".w@[1\\]] (c)>, (c) ö: a@b , (d) ;".toList) =
      .ok [⟨"@r,@s:\"y\\\n\r\nz\".w@[1\\]]".toList, .written "n".toList false⟩,
        ⟨"(c) ö: a@b , (d) ;".toList, .absent⟩] := by
    decide +kernel
  exact ⟨_, has, rfl, fun a ha ↦ validate_and_parse_format_setSpec has ha⟩

end InternetMail
