import InternetMail.Proofs.Address.RoundTrip

/-!
# Given display names are read again

A name that is given to an address of the strict reading can always be encoded, and the written
address is read as that address again (`parse_format_withPersonal`). Encoded words bring back the
name as it was, and so do quotes. A name that needs neither stands as it is, and there the lexer
takes what is between two words for a space: `quotePhrase` looks for white space at the ends and for
two of them side by side, and lets a TAB between two words pass, so that it comes back as a space.

So the name that is read again is a function of the name that was given (`rereadName`), and the name
itself unless it is written without quotes and has such a TAB. The spec of the address plays no part
in this. It is written behind the name in angle brackets, as the tokens it was read as.
-/

namespace InternetMail

open Reported Grammar

/-! ### What is read of an encoded name -/

/-- A text in which nothing begins like an encoded word has nothing that does when spaces stand for
its TABs. -/
theorem contains_rereadName {name : Text} (h : Run.contains ['=', '?'] name = false) :
    Run.contains ['=', '?'] (rereadName name) = false := by
  unfold rereadName
  split
  · rw [← Bool.not_eq_true, Run.contains_iff_isInfix] at h ⊢
    rw [Text.replaceChar_singleton]
    rintro ⟨us, vs, hmap⟩
    obtain ⟨front, rest, rfl, hfront, -⟩ := List.map_eq_append_iff.1 hmap.symm
    obtain ⟨before, word, rfl, -, hword⟩ := List.map_eq_append_iff.1 hfront
    refine h ⟨before, rest, ?_⟩
    -- neither character of the opening is a space, so none of them stands for a TAB
    have hsame : word = ['=', '?'] := by
      rw [← hword]
      refine (List.map_id word).symm.trans (List.map_congr_left fun c hc ↦ ?_)
      have hmem : (if c = '\t' then ' ' else c) ∈ ['=', '?'] :=
        hword ▸ List.mem_map_of_mem hc
      split at hmem
      · exact absurd hmem (by decide)
      · rename_i hne
        rw [if_neg hne]
        rfl
    rw [hsame]
  · exact h

/-- A given name comes back from its encoded form as it is, or if it was not encoded, as what it
says where it stands. -/
theorem outcome_decodeText_rereadName [MultiByte.Codec] {name encoded : Text}
    (h : encodeText name defaultNameCharset none = .ok encoded) :
    outcome (decodeText (rereadName encoded)) =
      .ok (if needsEncoding name then name else rereadName name) := by
  cases hneeds : needsEncoding name with
  | true =>
    have hsame : rereadName encoded = encoded :=
      rereadName_eq_self_iff.2 fun _ htab ↦
        (isWritten_of_encodeText resolve_defaultNameCharset rfl h _ htab).2 hneeds rfl
    rw [hsame, outcome_decodeText_of_encodeText resolve_defaultNameCharset rfl h]
    rfl
  | false =>
    obtain rfl : name = encoded := by simpa [encodeText, hneeds] using h
    rw [needsEncoding, Bool.or_eq_false_iff] at hneeds
    exact outcome_decodeText_of_contains (contains_rereadName hneeds.2)

theorem DisplayName.value_reading [MultiByte.Codec] {raw shown : Text}
    (h : outcome (decodeText raw) = .ok shown) : (DisplayName.reading raw).value = shown := by
  have hrun : (ExceptT.run (decodeText raw)).value = .ok shown := h
  rw [reading, Reported.value_bind, hrun]
  rfl

/-! ### Main statement -/

variable {t : Text} {as : List Address} {x : Address}

/-- The path of an address that is no group, from what the strict reading made of it. -/
theorem exists_path_of_parseList (has : outcome (Address.parseList .strict t) = .ok as)
    (hx : x ∈ as) (hgroup : x.isGroup = false) :
    ∃ route spec, x.spec = rawOf (route ++ spec) ∧ RouteOrNone route ∧ AddrSpec spec ∧
      (∀ u ∈ route ++ spec, u.Spelled) ∧ ∀ u ∈ route ++ spec, u.isComment = false := by
  obtain ⟨ts, hts, hlist⟩ := outcome_parseList_strict.1 has
  obtain ⟨before, us, after, rfl, hreads⟩ := hlist.exists_readsAs x hx
  have hus := (wellSpelled_of_tokenize hts).right_of_append.left_of_append
  cases hreads with
  | group h =>
    have hisGroup : Address.isGroup (groupOf us) = true := h.isGroupText hus.spelled
    rw [hisGroup] at hgroup
    cases hgroup
  | mailbox h =>
    obtain ⟨route, spec, rfl, hpath⟩ := exists_path_of_mailbox h hus
    exact ⟨route, spec, rfl, hpath⟩

/-- **Given names are read again.** An address that the strict reading found and that is no group
takes any name, and what it is written as is read as that address. The name is the same, unless it
needs neither encoding nor quotes and has a TAB in it; then there is a space for each TAB. -/
theorem parse_format_withPersonal [MultiByte.Codec]
    (has : outcome (Address.parseList .strict t) = .ok as)
    (hx : x ∈ as) (hgroup : x.isGroup = false) (name : Text) :
    ∃ a b, Address.withPersonal x.spec name none = .ok a ∧
      outcome (Address.parse .strict a.format) = .ok b ∧ b.spec = x.spec ∧
      (b.personal = some name ↔
        (needsEncoding name = false → quotePhrase name = name → '\t' ∉ name)) ∧
      (needsEncoding name = false → quotePhrase name = name →
        b.personal = some (Text.replaceChar '\t' [' '] name)) := by
  have hlabel : Charset.resolve defaultNameCharset = .ok .utf8 := rfl
  obtain ⟨route, spec, hpath, hroute, hspec, hspelled, hcomments⟩ :=
    exists_path_of_parseList has hx hgroup
  obtain ⟨encoded, hencoded⟩ := exists_encodeText hlabel name none
  -- the encoded name is made of characters that a phrase can have
  obtain ⟨us, hus, hwritten, hreads⟩ := exists_tokens_of_path
    (fun c hc ↦ (isWritten_of_encodeText hlabel rfl hencoded c hc).1) hroute hspec hspelled
    hcomments
  rw [← hpath] at hwritten hreads
  have hwith : Address.withPersonal x.spec name none =
      .ok ⟨x.spec, .given name encoded⟩ := by
    rw [Address.withPersonal, Address.setPersonal]
    exact bind_eq_ok_iff.2 ⟨encoded, hencoded, rfl⟩
  have hparse : outcome (Address.parse .strict (Address.format ⟨x.spec, .given name encoded⟩)) =
      .ok ⟨x.spec, .written (rereadName encoded) false⟩ :=
    outcome_parse_strict.2 ⟨placed 0 us,
      (congrArg (tokenize .strict) hwritten.symm).trans (tokenize_writtenOf hus),
      (hreads 0).strictList⟩
  have hpersonal : Address.personal ⟨x.spec, .written (rereadName encoded) false⟩ =
      some (if needsEncoding name then name else rereadName name) :=
    congrArg some (DisplayName.value_reading (outcome_decodeText_rereadName hencoded))
  refine ⟨_, _, hwith, hparse, rfl, ?_, fun hneeds hbare ↦ ?_⟩
  · rw [hpersonal]
    cases hneeds : needsEncoding name with
    | true => simp
    | false => simp [← rereadName_eq_self_iff]
  · rw [hpersonal, hneeds, rereadName, if_pos hbare]
    rfl

/-- A name with a TAB that is quoted for its comma, for an address with a route, a quoted local part
and a domain literal that stood after a group. -/
theorem parse_format_withPersonal_quoted_tab :
    ∃ as x, outcome (Address.parseList .strict "g:a@b;, n <@r:\"y z\"@[1]> (c)".toList) = .ok as ∧
      x ∈ as ∧ x.isGroup = false ∧ x.spec = "@r:\"y z\"@[1]".toList ∧
      ∃ a b, Address.withPersonal x.spec "Doe,\tJ".toList none = .ok a ∧
        outcome (Address.parse .strict a.format) = .ok b ∧ b.spec = x.spec ∧
        b.personal = some "Doe,\tJ".toList := by
  have has : outcome (Address.parseList .strict "g:a@b;, n <@r:\"y z\"@[1]> (c)".toList) =
      .ok [⟨"g:a@b;".toList, .absent⟩, ⟨"@r:\"y z\"@[1]".toList, .written "n".toList false⟩] := by
    decide +kernel
  have hquoted : quotePhrase "Doe,\tJ".toList ≠ "Doe,\tJ".toList := by decide
  obtain ⟨a, b, ha, hb, hspec, hpersonal, -⟩ :=
    parse_format_withPersonal has (List.mem_cons_of_mem _ List.mem_cons_self) rfl "Doe,\tJ".toList
  exact ⟨_, _, has, List.mem_cons_of_mem _ List.mem_cons_self, rfl, rfl, a, b, ha, hb, hspec,
    hpersonal.2 fun _ hbare ↦ absurd hbare hquoted⟩

/-- A single TAB between two words comes back as a space. -/
theorem personal_parse_format_withPersonal_tab :
    outcome (Address.parseList .strict "a@b".toList) = .ok [⟨"a@b".toList, .absent⟩] ∧
      Address.isGroup ⟨"a@b".toList, .absent⟩ = false ∧
      ∃ a b, Address.withPersonal "a@b".toList "a\tb".toList none = .ok a ∧
        outcome (Address.parse .strict a.format) = .ok b ∧
        b.personal = some "a b".toList ∧ "a b".toList ≠ "a\tb".toList := by
  refine ⟨by decide +kernel, rfl, ⟨"a@b".toList, .given "a\tb".toList "a\tb".toList⟩,
    ⟨"a@b".toList, .written "a b".toList false⟩, rfl, by decide +kernel, ?_, by decide⟩
  exact congrArg some (DisplayName.value_reading
    (outcome_decodeText_of_contains (t := "a b".toList) (by decide)))

end InternetMail
