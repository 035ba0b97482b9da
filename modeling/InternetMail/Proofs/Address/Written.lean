import InternetMail.Proofs.Address.RoundTrip

/-!
# The characters of a written address

Neither a token nor an address that the strict reading found begins or ends with a blank, as it is
written, so nothing of a written address is lost with the blanks around it (`bare_format`). And if
it was found in a printable text, it is written with printable characters alone
(`ReadsAs.printable_format`).

Both properties are about the two ends and about all characters of what is written, and what is
written is put together from tokens: from their texts for addr-specs, routes and groups, and from
their values for names, which are quoted anew. So each is proved of tokens first, and kept by
putting texts together (`Bare.append`, `forall_mem_format`). The second is said for any property of
characters that spaces, quotes and backslashes have, which is what the lemmas on line breaks and on
characters that were read build on.
-/

namespace InternetMail

open Grammar

/-! ### Tokens -/

/-- A quoted string that is closed ends with a quote. -/
theorem getLast_raw_of_quotedBody {s : Strictness} {position : Nat} {t : Text} {b : TokenBody}
    (h : quotedBody s position t = .ok b) (hclosed : b.closed = true) :
    b.raw.getLast? = some '"' := by
  fun_induction quotedBody s position t generalizing b with
  | case2 position c t hc =>
    cases h
    simp [eq_of_beq hc]
  | case4 | case5 | case7 =>
    rename_i ih
    obtain ⟨b₀, h₀, rfl⟩ := map_after_eq_ok h
    have := ih h₀ hclosed
    cases hraw : b₀.raw <;> simp_all
  | case1 | case3 =>
    cases h
    cases hclosed
  | case6 => cases h

/-- A comment that is closed ends with a parenthesis. -/
theorem getLast_raw_of_commentBody {s : Strictness} {position depth : Nat} {t : Text}
    {b : TokenBody} (h : commentBody s position depth t = .ok b) (hclosed : b.closed = true) :
    b.raw.getLast? = some ')' := by
  fun_induction commentBody s position depth t generalizing b with
  | case5 position c t hslash hopen hclose =>
    cases h
    simp [eq_of_beq hclose]
  | case3 | case4 | case6 | case7 | case9 =>
    rename_i ih
    obtain ⟨b₀, h₀, rfl⟩ := map_after_eq_ok h
    have := ih h₀ hclosed
    cases hraw : b₀.raw <;> simp_all
  | case1 | case2 =>
    cases h
    cases hclosed
  | case8 => cases h

/-- A closed token ends with what closes it, or with a character of an atom, unless it is a single
character. -/
theorem exists_getLast_of_closed {s : Strictness} {position : Nat} {c : Char} {t : Text}
    {b : TokenBody} (h : tokenBody s position c t = .ok b) (hclosed : b.closed = true) :
    ∃ d, b.raw.getLast? = some d ∧
      (d ∈ ['"', ')', ']'] ∨ b.raw = [d] ∨ isBlankChar d = false ∧ isSpecial d = false) := by
  have hcons : ∀ {raw : Text} {d : Char}, raw.getLast? = some d →
      ([c] ++ raw).getLast? = some d := by
    intro raw d hraw
    rw [List.getLast?_append, hraw, Option.some_or]
  unfold tokenBody at h
  split at h
  · obtain ⟨b₀, h₀, rfl⟩ := map_after_eq_ok h
    exact ⟨_, hcons (getLast_raw_of_quotedBody (bind_closedOr_eq_ok h₀) hclosed),
      Or.inl (by simp)⟩
  · obtain ⟨b₀, h₀, rfl⟩ := map_after_eq_ok h
    exact ⟨_, hcons (getLast_raw_of_commentBody (bind_closedOr_eq_ok h₀) hclosed),
      Or.inl (by simp)⟩
  · obtain ⟨b₀, h₀, rfl⟩ := map_after_eq_ok h
    exact ⟨_, hcons (getLast_raw_of_literalBody (bind_closedOr_eq_ok h₀) hclosed),
      Or.inl (by simp)⟩
  · cases h
    exact ⟨c, rfl, Or.inr (Or.inl rfl)⟩
  · split at h
    · cases h
    · obtain ⟨b₀, h₀, rfl⟩ := map_after_eq_ok h
      rcases List.eq_nil_or_concat' b₀.raw with hnil | ⟨raw, d, hraw⟩
      · exact ⟨c, by simp [hnil], Or.inr (Or.inl (by simp [hnil]))⟩
      · exact ⟨d, hcons (by simp [hraw]),
          Or.inr (Or.inr (eq_false_of_atomBody h₀ d (by simp [hraw])))⟩

/-- A closed token does not end with a blank, unless it is one. -/
theorem isBlankChar_getLast_of_tokenBody {s : Strictness} {position : Nat} {c : Char} {t : Text}
    {b : TokenBody} (h : tokenBody s position c t = .ok b) (hclosed : b.closed = true)
    (hc : isBlankChar c = false) : ∀ d ∈ b.raw.getLast?, isBlankChar d = false := by
  obtain ⟨d, hd, hlast⟩ := exists_getLast_of_closed h hclosed
  rw [hd]
  rintro _ ⟨⟩
  rcases hlast with hclose | hsingle | ⟨hblank, -⟩
  · exact Run.forall_mem_of_all (P := fun e ↦ isBlankChar e = false) (by decide) d hclose
  · have hwhole := raw_append_rest_of_tokenBody h
    rw [hsingle, List.singleton_append] at hwhole
    rwa [(List.cons.inj hwhole).1]
  · exact hblank

/-- The text neither begins nor ends with a blank. -/
structure Bare (t : Text) : Prop where
  head : ∀ c ∈ t.head?, isBlankChar c = false
  last : ∀ c ∈ t.getLast?, isBlankChar c = false

/-- What stands inside a text does not count. -/
theorem Bare.append {t u : Text} (ht : Bare t) (hu : Bare u) (htne : t ≠ []) (hune : u ≠ [])
    (gap : Text) : Bare (t ++ gap ++ u) := by
  refine ⟨?_, ?_⟩
  · obtain ⟨c, t, rfl⟩ := List.exists_cons_of_ne_nil htne
    simpa using ht.head
  · obtain ⟨u, c, rfl⟩ := (List.eq_nil_or_concat' u).resolve_left hune
    have := hu.last
    rw [← List.append_assoc]
    simpa using this

/-- A token has text. -/
theorem Token.Spelled.raw_ne_nil {t : Token} (h : t.Spelled) : t.raw ≠ [] := by
  obtain ⟨c, raw, hraw, -⟩ := h
  simp [hraw]

/-- A token neither begins nor ends with a blank. -/
theorem Token.Spelled.bare_raw {t : Token} (h : t.Spelled) : Bare t.raw := by
  obtain ⟨c, raw, hraw, hc, -, hread⟩ := h
  have hbody := hread 0 [] fun _ ↦ by simp [EndsAtom]
  exact ⟨by simpa [hraw] using hc,
    isBlankChar_getLast_of_tokenBody hbody (closed_of_tokenBody (by decide) hbody) hc⟩

/-- A stretch of tokens begins with the first and ends with the last of them. -/
theorem bare_sourceOf {ts : List Token} (h : ∀ t ∈ ts, t.Spelled) : Bare (sourceOf ts) := by
  fun_induction sourceOf ts with
  | case1 => exact ⟨by simp, by simp⟩
  | case2 t => exact (h t List.mem_cons_self).bare_raw
  | case3 t ts hts ih =>
    rw [List.forall_mem_cons] at h
    have hne : sourceOf ts ≠ [] := by
      obtain ⟨us, u, rfl⟩ := (List.eq_nil_or_concat' ts).resolve_left hts
      rw [sourceOf_concat]
      simpa using fun _ ↦ (h.2 u (by simp)).raw_ne_nil
    exact h.1.bare_raw.append (ih h.2) h.1.raw_ne_nil hne t.gap

/-- So do the texts of tokens without anything between them. -/
theorem bare_rawOf {ts : List Token} (h : ∀ t ∈ ts, t.Spelled) : Bare (rawOf ts) := by
  have htight : ∀ us : List Token, sourceOf (us.map Token.tight) = rawOf us := by
    intro us
    rcases List.eq_nil_or_concat' us with rfl | ⟨us, u, rfl⟩
    · rfl
    · rw [List.map_append, List.map_singleton, sourceOf_concat, writtenOf_map_tight, rawOf_append]
      simp [rawOf, Token.tight]
  rw [← htight]
  refine bare_sourceOf fun t ht ↦ ?_
  obtain ⟨u, hu, rfl⟩ := List.mem_map.1 ht
  exact h u hu

/-! ### Addresses -/

/-- The text of an address that was read has no blanks around it. -/
theorem ReadsAs.bare_spec {ts : List Token} {a : Address} (h : ReadsAs ts a)
    (hts : ∀ t ∈ ts, t.Spelled) : Bare a.spec := by
  cases h with
  | group _ => exact bare_sourceOf hts
  | mailbox h =>
    rw [mailboxAddress]
    exact bare_rawOf fun t ht ↦ hts t (List.mem_filter.1 (h.path_subset ht)).1

/-- A name as it is written begins with no blank: it would have been quoted. -/
theorem isBlankChar_head_quotePhrase (name : Text) :
    ∀ c ∈ (quotePhrase name).head?, isBlankChar c = false := by
  rw [quotePhrase]
  split
  · rename_i h
    intro c hc
    simp only [hasLooseWhite, Bool.and_eq_true, Bool.not_eq_true', Bool.or_eq_false_iff] at h
    have hwhite := h.1.2.1.1
    rw [hc, Option.any_some, ← Bool.not_eq_true] at hwhite
    rw [← Bool.not_eq_true]
    exact fun hblank ↦ hwhite (isWhite_of_isBlankChar hblank)
  · simp [inQuotes, isBlankChar]

/-- A written address begins and ends as the address itself or with quotes and brackets. -/
theorem bare_format [MultiByte.Codec] {a : Address} (h : Bare a.spec) : Bare a.format := by
  unfold Address.format Address.render
  split
  · exact h
  split
  · rename_i name _
    have hname : quotePhrase name ≠ [] := by
      rw [quotePhrase]
      split <;> simp_all [inQuotes]
    have := isBlankChar_head_quotePhrase name
    obtain ⟨c, rest, hrest⟩ := List.exists_cons_of_ne_nil hname
    rw [hrest] at this ⊢
    refine ⟨by simpa using this, fun d hd ↦ ?_⟩
    rw [List.getLast?_concat] at hd
    cases hd
    decide
  · rw [Address.formatSpec]
    split
    · refine ⟨by simp [isBlankChar], fun d hd ↦ ?_⟩
      rw [List.getLast?_concat] at hd
      cases hd
      decide
    · exact h

/-! ### Printable characters -/

section

variable {p : Char → Prop}

/-- A phrase is written with the characters of what it says, quotes and backslashes. -/
theorem forall_mem_quotePhrase (hown : ∀ c ∈ ['"', '\\'], p c) {name : Text}
    (h : ∀ c ∈ name, p c) : ∀ c ∈ quotePhrase name, p c := by
  simp only [List.forall_mem_cons, List.not_mem_nil, false_imp_iff, implies_true, and_true] at hown
  obtain ⟨hquote, hslash⟩ := hown
  rw [quotePhrase]
  split
  · exact h
  · intro c hc
    simp only [inQuotes, List.cons_append, List.mem_cons, List.mem_append, List.mem_flatMap,
      List.not_mem_nil, or_false] at hc
    rcases hc with rfl | ⟨d, hd, hc⟩ | rfl
    · exact hquote
    · split at hc <;> simp only [List.mem_cons, List.not_mem_nil, or_false] at hc
      · rcases hc with rfl | rfl
        · exact hslash
        · exact h c hd
      · exact hc ▸ h d hd
    · exact hquote

/-- An address is written with the characters of its text and its name, and a few of its own. -/
theorem forall_mem_format [MultiByte.Codec] {a : Address}
    (hown : ∀ c ∈ ['"', '\\', ' ', '<', '>'], p c) (hspec : ∀ c ∈ a.spec, p c)
    (hname : ∀ name ∈ a.encodedPersonal, ∀ c ∈ name, p c) : ∀ c ∈ a.format, p c := by
  unfold Address.format Address.render
  split
  · exact hspec
  split
  · rename_i name heq
    have hphrase := forall_mem_quotePhrase
      (fun c hc ↦ hown c (List.mem_append_left [' ', '<', '>'] hc)) (hname name heq)
    intro c hc
    simp only [List.mem_append, List.mem_cons, List.not_mem_nil, or_false] at hc
    rcases hc with ((hc | rfl | rfl) | hc) | rfl
    · exact hphrase c hc
    · exact hown _ (by simp)
    · exact hown _ (by simp)
    · exact hspec c hc
    · exact hown _ (by simp)
  · intro c hc
    rw [Address.formatSpec] at hc
    split at hc
    · simp only [List.cons_append, List.mem_cons, List.mem_append, List.not_mem_nil,
        or_false] at hc
      rcases hc with rfl | hc | rfl
      · exact hown _ (by simp)
      · exact hspec c hc
      · exact hown _ (by simp)
    · exact hspec c hc

end

/-- An address is written with printable characters if its text and its name are printable. -/
theorem printable_format [MultiByte.Codec] {a : Address} (hspec : ∀ c ∈ a.spec, Printable c)
    (hname : a.name = .absent ∨ ∃ raw, a.name = .written raw false ∧ ∀ c ∈ raw, Printable c) :
    ∀ c ∈ a.format, Printable c := by
  refine forall_mem_format (Run.forall_mem_of_all (by decide)) hspec fun name heq ↦ ?_
  rcases hname with hname | ⟨raw, hname, hraw⟩
  · simp [Address.encodedPersonal, hname, DisplayName.encoded] at heq
  · rw [Address.encodedPersonal, hname, DisplayName.encoded,
      if_pos (isAscii_of_printable hraw)] at heq
    cases heq
    exact hraw

/-- **An address that was read from printable text is written with printable characters.** -/
theorem ReadsAs.printable_format [MultiByte.Codec] {ts : List Token} {a : Address}
    (h : ReadsAs ts a) (hwritten : ∀ c ∈ writtenOf ts, Printable c)
    (hvalue : ∀ u ∈ ts, u.kind ≠ .domainLiteral → ∀ c ∈ u.value, Printable c) :
    ∀ c ∈ a.format, Printable c := by
  cases h with
  | group _ =>
    exact InternetMail.printable_format
      (fun c hc ↦ hwritten c ((sourceOf_sublist ts).subset hc)) (Or.inl rfl)
  | @mailbox phrase path h =>
    have hmem : ∀ u ∈ wordsOf ts, u ∈ ts := fun u hu ↦ (List.mem_filter.1 hu).1
    refine InternetMail.printable_format (fun c hc ↦ ?_) ?_
    · obtain ⟨u, hu, hcu⟩ := List.mem_flatMap.1 (show c ∈ path.flatMap Token.raw from hc)
      have := hmem u (h.path_subset hu)
      exact hwritten c (List.mem_flatMap.2 ⟨u, this, by simp [hcu]⟩)
    · simp only [mailboxAddress]
      split
      · exact printable_nameOfComments hvalue
      · exact Or.inr ⟨_, rfl, forall_mem_phraseText (by decide) fun u hu ↦
          hvalue u (hmem u (h.phrase_subset hu)) (h.phraseOrNone.kind_ne u hu).2⟩

/-! ### Lists -/

/-- An address of a list that was found in a printable text is written bare and printable, and read
again from that. -/
theorem rereads_of_printable [MultiByte.Codec] {t : Text} (ht : ∀ c ∈ t, Printable c)
    {as : List Address} (h : Reported.outcome (Address.parseList .strict t) = .ok as) :
    ∀ a ∈ as, Rereads a ∧ Bare a.format ∧ ∀ c ∈ a.format, Printable c := by
  have hplain : PlainText t := by
    refine ⟨fun c hc ↦ Or.inl (ht c hc), List.Pairwise.isChain ?_⟩
    exact List.pairwise_iff_forall_sublist.2 fun hsub _ ↦
      (ht _ (hsub.subset (by simp))).isLineBreak_eq_false
  obtain ⟨ts, hts, hlist⟩ := outcome_parseList_strict.1 h
  have hspelled := wellSpelled_of_tokenize hts
  have hvalue := printable_of_tokenize hts hplain
  have hwritten : ∀ c ∈ writtenOf ts, Printable c := by
    intro c hc
    refine ht c ?_
    rw [(tiles_of_tokenize hts).eq_append]
    exact List.mem_append_right _ hc
  intro a ha
  obtain ⟨before, us, after, rfl, hreads⟩ := hlist.exists_readsAs a ha
  have hus := hspelled.right_of_append.left_of_append
  refine ⟨exists_tokens_of_readsAs hreads hus fun u hu ↦ hvalue u (by simp [hu]),
    bare_format (hreads.bare_spec hus.spelled),
    hreads.printable_format (fun c hc ↦ hwritten c (by simp [hc])) fun u hu ↦
      hvalue u (by simp [hu])⟩

end InternetMail
