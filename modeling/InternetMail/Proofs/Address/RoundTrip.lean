import InternetMail.Proofs.Address.Rendering

/-!
# Lists read from what they are written as

A list of addresses that the strict reading found is written, with folding after any column, as a
text that the strict reading reads as the same list (`parseList_formatList`). The one condition is
on the text that the list was read from: it is printable but for its line breaks, none of which is
escaped. An escaped line break would become part of a display name, where it is folding when it is
read again.

The proof goes by tokens. For each address there are tokens that it is written as and read from
(`Rereads`), and for the folded list there are those of its addresses with commas between them,
where a line break is part of the blanks after a comma (`exists_tokens_foldRest`). So neither the
column nor the line breaks have to be looked at once the text is made of tokens.
-/

namespace InternetMail

open Grammar

/-! ### The items of a list -/

theorem ReadsAs.strictList {ts : List Token} {a : Address} (h : ReadsAs ts a) :
    StrictList ts [a] := by
  cases h with
  | mailbox h => exact .last h
  | group h =>
    have := StrictList.group h (.none wordsOf_nil)
    rwa [List.append_nil] at this

theorem ReadsAs.strictList_comma {us ts : List Token} {comma : Token} {a : Address}
    {as : List Address} (h : ReadsAs us a) (hcomma : comma.isSpecial ',' = true)
    (hts : StrictList ts as) : StrictList (us ++ comma :: ts) (a :: as) := by
  cases h with
  | mailbox h => exact .mailbox h hcomma hts
  | group h => exact .group h (.comma wordsOf_nil hcomma hts)

/-- Each address of a list is read from a stretch of it. -/
theorem StrictList.exists_readsAs {ts : List Token} {as : List Address} (h : StrictList ts as) :
    ∀ a ∈ as, ∃ before us after, ts = before ++ (us ++ after) ∧ ReadsAs us a := by
  induction h with
  | none _ => simp
  | @comma us ts comma as _ _ _ ih =>
    intro a ha
    obtain ⟨before, vs, after, rfl, hreads⟩ := ih a ha
    exact ⟨us ++ comma :: before, vs, after, by simp, hreads⟩
  | @last ts _ _ h =>
    intro a ha
    cases List.mem_singleton.1 ha
    exact ⟨[], ts, [], by simp, .mailbox h⟩
  | @mailbox us ts _ _ comma as h _ _ ih =>
    intro a ha
    rcases List.mem_cons.1 ha with rfl | ha
    · exact ⟨[], us, comma :: ts, by simp, .mailbox h⟩
    · obtain ⟨before, vs, after, rfl, hreads⟩ := ih a ha
      exact ⟨us ++ comma :: before, vs, after, by simp, hreads⟩
  | @group us ts as h _ ih =>
    intro a ha
    rcases List.mem_cons.1 ha with rfl | ha
    · exact ⟨[], us, ts, by simp, .group h⟩
    · obtain ⟨before, vs, after, rfl, hreads⟩ := ih a ha
      exact ⟨us ++ before, vs, after, by simp, hreads⟩

/-! ### Folded lists -/

/-- The address is written as tokens that read as it. -/
def Rereads [MultiByte.Codec] (a : Address) : Prop :=
  ∃ us, WellSpelled us ∧ writtenOf us = a.format ∧ ∀ position, ReadsAs (placed position us) a

/-- Between two items stand a comma and blanks. -/
theorem exists_foldRest_cons (column used : Nat) (item : Text) (items : List Text) :
    ∃ gap used', (∀ c ∈ gap, isBlankChar c = true) ∧ (gap = foldBreak ∨ gap = [' ']) ∧
      foldRest column used (item :: items) =
        ',' :: (gap ++ (item ++ foldRest column used' items)) := by
  rw [foldRest]
  split
  · exact ⟨foldBreak, foldIndent + item.length, Run.forall_mem_of_all (by decide), Or.inl rfl,
      by simp⟩
  · exact ⟨[' '], used + 2 + item.length, Run.forall_mem_of_all (by decide), Or.inr rfl, by simp⟩

/-- In front of the first item stand blanks at most. -/
theorem exists_foldList_cons (used column : Nat) (item : Text) (items : List Text) :
    ∃ gap used', (∀ c ∈ gap, isBlankChar c = true) ∧ (gap = foldBreak ∨ gap = []) ∧
      foldList used column (item :: items) = gap ++ (item ++ foldRest column used' items) := by
  cases items with
  | nil =>
    rw [foldList]
    split
    · exact ⟨foldBreak, 0, Run.forall_mem_of_all (by decide), Or.inl rfl, by simp [foldRest]⟩
    · exact ⟨[], 0, by simp, Or.inr rfl, by simp [foldRest]⟩
  | cons next items =>
    rw [foldList]
    · split
      · exact ⟨foldBreak, foldIndent + item.length, Run.forall_mem_of_all (by decide), Or.inl rfl,
          by simp⟩
      · exact ⟨[], used + item.length, by simp, Or.inr rfl, by simp⟩
    · simp

/-- What is written after the first address reads as the others. -/
theorem exists_tokens_foldRest [MultiByte.Codec] (column : Nat) {as : List Address}
    (h : ∀ a ∈ as, Rereads a) (used : Nat) :
    ∃ us, WellSpelled us ∧ writtenOf us = foldRest column used (as.map Address.format) ∧
      (∀ u ∈ us.head?, u.isSpecial ',' = true) ∧
      ∀ {ts a}, ReadsAs ts a → ∀ position, StrictList (ts ++ placed position us) (a :: as) := by
  induction as generalizing used with
  | nil =>
    refine ⟨[], ⟨by simp, by simp, .nil⟩, rfl, by simp, fun hts _ ↦ ?_⟩
    rw [placed, List.append_nil]
    exact hts.strictList
  | cons a as ih =>
    rw [List.forall_mem_cons] at h
    obtain ⟨us, hus, hwritten, hreads⟩ := h.1
    obtain ⟨gap, used', hgap, -, hfold⟩ :=
      exists_foldRest_cons column used a.format (as.map Address.format)
    obtain ⟨vs, hvs, hrest, hcomma, hlist⟩ := ih h.2 used'
    have hfirst : WellSpelled [.ofSpecial ',' gap] :=
      .singleton (spelled_ofSpecial (by decide) (by decide) gap) hgap
    have htail := hus.append hvs fun _ _ u hu ↦ apart_of_isSpecial_right (hcomma u hu)
    refine ⟨.ofSpecial ',' gap :: (us ++ vs), hfirst.append htail fun t ht u _ ↦ ?_, ?_, ?_, ?_⟩
    · cases ht
      exact apart_of_isSpecial_left (c := ',') rfl
    · rw [List.map_cons, hfold, writtenOf_cons, writtenOf_append, hwritten, hrest]
      simp [Token.ofSpecial]
    · intro u hu
      cases hu
      rfl
    · intro ts b hts position
      rw [placed, placed_append]
      exact hts.strictList_comma rfl (hlist (hreads _) _)

/-- A folded list of addresses is read as these addresses. -/
theorem exists_strictList_foldList [MultiByte.Codec] {as : List Address} (h : ∀ a ∈ as, Rereads a)
    (used column : Nat) :
    ∃ ts, tokenize .strict (foldList used column (as.map Address.format)) = .ok ts ∧
      StrictList ts as := by
  cases as with
  | nil =>
    refine ⟨[], ?_, .none wordsOf_nil⟩
    rw [List.map_nil, foldList, tokenize, List.dropWhile_nil, tokensFrom]
  | cons a as =>
    rw [List.forall_mem_cons] at h
    obtain ⟨us, hus, hwritten, hreads⟩ := h.1
    obtain ⟨gap, used', hgap, -, hfold⟩ :=
      exists_foldList_cons used column a.format (as.map Address.format)
    obtain ⟨vs, hvs, hrest, hcomma, hlist⟩ := exists_tokens_foldRest column h.2 used'
    have hall := hus.append hvs fun _ _ u hu ↦ apart_of_isSpecial_right (hcomma u hu)
    obtain ⟨htake, hdrop⟩ := takeWhile_gap_append hgap hall.head_writtenOf
    rw [List.map_cons, hfold, ← hwritten, ← hrest, ← writtenOf_append, tokenize, htake, hdrop,
      tokensFrom_writtenOf hall, placed_append]
    exact ⟨_, rfl, hlist (hreads _) _⟩

/-! ### Main statement -/

/-- **Lists survive being written.** A list that the strict reading found in a plain text is read
again from what it is written as, with the same addresses and the same names in the same order, so
that it is written the same again. -/
theorem parseList_formatList [MultiByte.Codec] {t : Text}
    (hchars : ∀ c ∈ t, (0x20 ≤ c.toNat ∧ c.toNat ≤ 0x7e) ∨ c = '\r' ∨ c = '\n')
    (hescapes : t.IsChain fun c d ↦ c = '\\' → d ≠ '\r' ∧ d ≠ '\n') (used : Nat)
    {as : List Address} (has : Reported.outcome (Address.parseList .strict t) = .ok as) :
    ∃ as', Reported.outcome (Address.parseList .strict (Address.formatList as used)) = .ok as' ∧
      as'.map Address.spec = as.map Address.spec ∧
      as'.map Address.personal = as.map Address.personal ∧
      Address.formatList as' used = Address.formatList as used := by
  have hplain : PlainText t := by
    refine ⟨fun c hc ↦ ?_, hescapes.imp fun c d h hc ↦ ?_⟩
    · simpa [Printable, isLineBreak] using hchars c hc
    · simpa [isLineBreak] using h hc
  obtain ⟨ts, hts, hlist⟩ := outcome_parseList_strict.1 has
  have hrereads : ∀ a ∈ as, Rereads a := by
    intro a ha
    obtain ⟨before, us, after, rfl, hreads⟩ := hlist.exists_readsAs a ha
    exact exists_tokens_of_readsAs hreads
      (wellSpelled_of_tokenize hts).right_of_append.left_of_append fun u hu ↦
        printable_of_tokenize hts hplain u (by simp [hu])
  obtain ⟨ts', hts', hlist'⟩ := exists_strictList_foldList hrereads used defaultFoldColumn
  exact ⟨as, outcome_parseList_strict.2 ⟨ts', hts', hlist'⟩, rfl, rfl, rfl⟩

/-- A quoted name before a route, a folded group after a comment, and a name from a comment. -/
theorem map_spec_parseList_formatList_mixed :
    ∃ as as', Reported.outcome (Address.parseList .strict
        "\"Doe, \\\"J\" <@a,@b:x@y>, (c) g:\r\n \"q r\"@[1],;z@w (n.m)".toList) = .ok as ∧
      Reported.outcome (Address.parseList .strict (Address.formatList as 60)) = .ok as' ∧
      as'.map Address.spec =
        ["@a,@b:x@y".toList, "(c) g:\r\n \"q r\"@[1],;".toList, "z@w".toList] ∧
      as'.map Address.personal = as.map Address.personal ∧
      Address.formatList as' 60 = Address.formatList as 60 := by
  have has : Reported.outcome (Address.parseList .strict
      "\"Doe, \\\"J\" <@a,@b:x@y>, (c) g:\r\n \"q r\"@[1],;z@w (n.m)".toList) =
      .ok [⟨"@a,@b:x@y".toList, .written "Doe, \"J".toList false⟩,
        ⟨"(c) g:\r\n \"q r\"@[1],;".toList, .absent⟩,
        ⟨"z@w".toList, .written "n.m".toList false⟩] := by
    decide +kernel
  obtain ⟨as', has', hspec, hpersonal, hformat⟩ :=
    parseList_formatList (Run.forall_mem_of_all (by decide)) (by decide) 60 has
  exact ⟨_, as', has, has', hspec, hpersonal, hformat⟩

end InternetMail
