import InternetMail.Proofs.Address.Lenient
import InternetMail.Proofs.Address.Rereading

/-!
# Texts of lists put together

A text that is read without anything to report ends where its last token does, so that blanks and
more text can stand behind it (`tokensFrom_append`). Blanks at its ends change nothing
(`parseList_pad`).

If such a text stands before a special character, what comes after that is read on its own, whatever
it is (`exists_tokenize_append_cons`). So with a comma between them two such texts are read as the
one list and then the other, at any strictness (`parseList_comma`).

What stands behind a text moves on by as many octets as are put in front of it, and the reader says
so by the places of its tokens (`tokensFrom_add_eq_ok_iff`). What stands in front gets other blanks
after its last token. Neither is seen by what is made of the tokens, so that only the tokens have to
be put together here.
-/

namespace InternetMail

open Reported

variable {s : Strictness} {x y z gap : Text} {as bs : List Address}

/-! ### Tokens -/

/-- Closed tokens are read again before blanks and a text that does not go on with the last of them,
here `d` octets further on. -/
theorem tokensFrom_append {position : Nat} {ts : List Token}
    (h : tokensFrom s position x = .ok ts) (hclosed : ∀ u ∈ ts, u.closed = true) (hx : x ≠ [])
    (d : Nat) (hgap : ∀ c ∈ gap, isBlankChar c = true) (hz : ∀ c ∈ z.head?, isBlankChar c = false)
    (hends : EndsAtom (gap ++ z)) :
    ∃ us u, ts = us ++ [u] ∧ tokensFrom s (position + d) (x ++ (gap ++ z)) =
      (tokensFrom s (position + d + Text.utf8Size (x ++ gap)) z).map
        ((us ++ [u.before (u.gap ++ gap)]).map (Token.moved d) ++ ·) := by
  obtain ⟨hwritten, hcons⟩ := tiles_of_tokensFrom h
  rcases List.eq_nil_or_concat' ts with rfl | ⟨us, u, rfl⟩
  · exact absurd hwritten hx
  have hblank := blank_of_tokensFrom h (u := u) (by simp)
  have hends' := hends.append_left hblank
  rw [← List.append_assoc] at hends'
  have hread := tokensFrom_stretch h hclosed (List.forall_mem_append.2 ⟨hblank, hgap⟩) hz hends'
    (position + d)
  rw [placed_add, (hcons.concat _).placed_eq] at hread
  refine ⟨us, u, rfl, ?_⟩
  rw [hwritten]
  simpa [Token.before, Nat.add_assoc] using hread

/-- Where a text stands makes no difference to its tokens but for the places of these. -/
theorem tokensFrom_placed {position : Nat} {ts : List Token} (h : tokensFrom s position x = .ok ts)
    (hclosed : ∀ u ∈ ts, u.closed = true) (position' : Nat) :
    tokensFrom s position' x = .ok (placed position' ts) := by
  have hwritten := (tiles_of_tokensFrom h).1
  rcases List.eq_nil_or_concat' ts with rfl | ⟨us, u, rfl⟩
  · rw [hwritten, writtenOf_nil, tokensFrom, placed]
  · have hblank := blank_of_tokensFrom h (u := u) (by simp)
    have hnil : EndsAtom [] := by simp [EndsAtom]
    have hread := tokensFrom_stretch h hclosed hblank (by simp) (hnil.append_left hblank) position'
    have hself : u.before u.gap = u := rfl
    rw [tokensFrom, hself] at hread
    simpa [hwritten, Except.map] using hread

/-- Closed tokens are read `d` octets further on just as they are. -/
theorem tokensFrom_add_eq_ok_iff {vs : List Token} (position d : Nat) :
    (tokensFrom s (position + d) x = .ok vs ∧ ∀ v ∈ vs, v.closed = true) ↔
      ∃ ts, (tokensFrom s position x = .ok ts ∧ ∀ u ∈ ts, u.closed = true) ∧
        ts.map (Token.moved d) = vs := by
  have hplaced : ∀ {p : Nat} {ts : List Token}, tokensFrom s p x = .ok ts →
      placed p ts = ts := fun h ↦ (tiles_of_tokensFrom h).2.placed_eq
  have hall : ∀ {p : Nat} {ts : List Token}, (∀ u ∈ ts, u.closed = true) →
      ∀ v ∈ placed p ts, v.closed = true := by
    intro p ts hts v hv
    have hmem := List.mem_map_of_mem (f := Token.closed) hv
    rw [map_placed fun _ _ ↦ rfl] at hmem
    obtain ⟨u, hu, heq⟩ := List.mem_map.1 hmem
    rw [← heq, hts u hu]
  constructor
  · rintro ⟨h, hclosed⟩
    exact ⟨placed position vs, ⟨tokensFrom_placed h hclosed position, hall hclosed⟩,
      by rw [← placed_add, hplaced h]⟩
  · rintro ⟨ts, ⟨h, hclosed⟩, rfl⟩
    rw [tokensFrom_placed h hclosed, placed_add, hplaced h]
    exact ⟨rfl, by simpa [Token.moved] using hclosed⟩

/-- What is read of a special character and the text after it. -/
theorem exists_tokensFrom_special {c : Char} (hc : TokenKind.ofFirst c = .special c)
    (position : Nat) (y : Text) :
    ∃ t : Token, ∃ d, t.isSpecial c = true ∧ t.closed = true ∧ tokensFrom s position (c :: y) =
      (tokensFrom s (Text.utf8Size (y.takeWhile isBlankChar) + d)
        (y.dropWhile isBlankChar)).map (t :: ·) := by
  have hbody : tokenBody s position c y = .ok ⟨[c], [c], y, true⟩ := by simp [tokenBody, hc]
  let t : Token := ⟨.ofFirst c, [c], [c], position, y.takeWhile isBlankChar, true⟩
  have hnext : t.next = Text.utf8Size (y.takeWhile isBlankChar) + (position + c.utf8Size) := by
    simp only [t, Token.next, Token.stop, Text.utf8Size_cons, Text.utf8Size_nil]
    omega
  refine ⟨t, position + c.utf8Size, by simp [Token.isSpecial, t, hc], rfl, ?_⟩
  rw [← hnext]
  exact tokensFrom_cons hbody rfl

/-! ### Texts -/

theorem parseList_eq_pure_iff_cleanList :
    Address.parseList s x = pure as ↔
      ∃ ts, tokenize s x = .ok ts ∧ (∀ u ∈ ts, u.closed = true) ∧ CleanList s ts as := by
  simp only [parseList_eq_pure_iff, addressList_eq_pure_iff]

/-- A text is blanks and what does not begin with one. -/
theorem exists_blanks_append (x : Text) : ∃ lead y, x = lead ++ y ∧
    (∀ c ∈ lead, isBlankChar c = true) ∧ ∀ c ∈ y.head?, isBlankChar c = false :=
  ⟨x.takeWhile isBlankChar, x.dropWhile isBlankChar, List.takeWhile_append_dropWhile.symm,
    fun _ hc ↦ List.mem_takeWhile_imp hc, head_dropWhile_isBlankChar x⟩

theorem tokenize_append {lead : Text} (hlead : ∀ c ∈ lead, isBlankChar c = true)
    (hx : ∀ c ∈ x.head?, isBlankChar c = false) :
    tokenize s (lead ++ x) = tokensFrom s (Text.utf8Size lead) x := by
  obtain ⟨htake, hdrop⟩ := takeWhile_gap_append hlead hx
  rw [tokenize, htake, hdrop]

/-- Blanks hold no addresses. -/
theorem parseList_blank {lead : Text} (hlead : ∀ c ∈ lead, isBlankChar c = true) :
    Address.parseList s lead = pure as ↔ as = [] := by
  have hnil := tokenize_append (s := s) (x := []) hlead (by simp)
  rw [List.append_nil, tokensFrom] at hnil
  rw [parseList_eq_pure_iff, hnil]
  constructor
  · rintro ⟨_, hts, -, has⟩
    cases hts
    exact (pure_eq_pure_iff.1 has).symm
  · rintro rfl
    exact ⟨[], rfl, by simp, rfl⟩

/-- Blanks at the ends of a text change nothing. -/
theorem parseList_pad {before after : Text} (hbefore : ∀ c ∈ before, isBlankChar c = true)
    (hafter : ∀ c ∈ after, isBlankChar c = true) (h : Address.parseList s x = pure as) :
    Address.parseList s (before ++ x ++ after) = pure as := by
  -- the blanks in front of the first token belong to no token
  obtain ⟨lead, x, rfl, hlead, hx⟩ := exists_blanks_append x
  by_cases hnil : x = []
  · subst hnil
    rw [List.append_nil] at h ⊢
    rw [parseList_blank hlead] at h
    rw [parseList_blank (by simp_all [or_imp])]
    exact h
  obtain ⟨ts, hts, hclosed, hlist⟩ := parseList_eq_pure_iff_cleanList.1 h
  rw [tokenize_append hlead hx] at hts
  -- the last token ends where it did: blanks come after it, or nothing
  have hends : EndsAtom (after ++ []) := by
    intro c hc
    rw [List.append_nil] at hc
    simp [hafter c (List.mem_of_mem_head? hc)]
  obtain ⟨us, u, rfl, hu⟩ :=
    tokensFrom_append hts hclosed hnil (Text.utf8Size before) hafter (by simp) hends
  rw [tokensFrom, List.append_nil] at hu
  refine parseList_eq_pure_iff_cleanList.2
    ⟨(us ++ [u.before (u.gap ++ after)]).map (Token.moved (Text.utf8Size before)), ?_, ?_,
      (hlist.concat _).map_moved _⟩
  · have hhead : ∀ c ∈ (x ++ after).head?, isBlankChar c = false := by
      obtain ⟨e, x, rfl⟩ := List.exists_cons_of_ne_nil hnil
      simpa using hx
    rw [← List.append_assoc before, List.append_assoc (before ++ lead),
      tokenize_append (List.forall_mem_append.2 ⟨hbefore, hlead⟩) hhead, Text.utf8Size_append,
      Nat.add_comm, hu]
    simp [Except.map]
  · simpa [or_imp, forall_and, Token.moved, Token.before] using hclosed

theorem isSpecial_of_ofFirst {c : Char} (hc : TokenKind.ofFirst c = .special c) :
    isSpecial c = true := by
  rw [← Bool.not_eq_false, ← ofFirst_eq_atom_iff, hc]
  simp

/-- Closed tokens are read again before a special character, and what comes after that is read on
its own. -/
theorem exists_tokenize_append_cons {c : Char} (hc : TokenKind.ofFirst c = .special c)
    (hblank : isBlankChar c = false) {us : List Token} (hx : tokenize s x = .ok us)
    (hus : ∀ u ∈ us, u.closed = true) (y : Text) :
    ∃ t : Token, ∃ d, t.isSpecial c = true ∧ t.closed = true ∧ ∀ vs,
      (tokenize s (x ++ c :: y) = .ok vs ∧ ∀ v ∈ vs, v.closed = true) ↔
        ∃ ts, (tokenize s y = .ok ts ∧ ∀ u ∈ ts, u.closed = true) ∧
          us ++ t :: ts.map (Token.moved d) = vs := by
  obtain ⟨lead, x, rfl, hlead, hhead⟩ := exists_blanks_append x
  rw [tokenize_append hlead hhead] at hx
  have hhead' : ∀ d ∈ (x ++ c :: y).head?, isBlankChar d = false := by
    cases x with
    | nil => simpa using hblank
    | cons e x => simpa using hhead
  obtain ⟨t, d, ht, hclosed, hrest⟩ :=
    exists_tokensFrom_special (s := s) hc (Text.utf8Size lead + Text.utf8Size x) y
  -- the tokens of the first text, the special character, and what is read behind it
  have hread : tokenize s (lead ++ x ++ c :: y) =
      (tokensFrom s (Text.utf8Size (y.takeWhile isBlankChar) + d)
        (y.dropWhile isBlankChar)).map (us ++ t :: ·) := by
    rw [List.append_assoc, tokenize_append hlead hhead']
    by_cases hnil : x = []
    · subst hnil
      rw [tokensFrom] at hx
      cases hx
      exact hrest
    · have hends : EndsAtom ([] ++ c :: y) := by simp [EndsAtom, isSpecial_of_ofFirst hc]
      obtain ⟨vs, v, rfl, hv⟩ := tokensFrom_append hx hus hnil 0 (by simp) (by simpa using hblank)
        hends
      simp only [List.append_nil, List.nil_append, Nat.add_zero] at hv
      have hzero : Token.moved 0 = id := rfl
      rw [hv, hrest, hzero, List.map_id]
      cases tokensFrom s _ (y.dropWhile isBlankChar) <;> simp [Except.map, Token.before]
  refine ⟨t, d, ht, hclosed, fun vs ↦ ?_⟩
  rw [hread, tokenize]
  simp only [map_eq_ok_iff]
  constructor
  · rintro ⟨⟨ts', hts', rfl⟩, hall⟩
    have htail : ∀ u ∈ ts', u.closed = true := fun u hu ↦ hall u (by simp [hu])
    obtain ⟨ts, hts, rfl⟩ := (tokensFrom_add_eq_ok_iff _ d).1 ⟨hts', htail⟩
    exact ⟨ts, hts, rfl⟩
  · rintro ⟨ts, hts, rfl⟩
    obtain ⟨hmoved, htail⟩ := (tokensFrom_add_eq_ok_iff _ d).2 ⟨ts, hts, rfl⟩
    refine ⟨⟨_, hmoved, rfl⟩, List.forall_mem_append.2 ⟨hus, ?_⟩⟩
    exact List.forall_mem_cons.2 ⟨hclosed, htail⟩

/-- A special character behind closed tokens is one more. -/
theorem exists_tokenize_concat {s : Strictness} {c : Char} (hc : TokenKind.ofFirst c = .special c)
    (hblank : isBlankChar c = false) (hx : tokenize s x = .ok us)
    (hus : ∀ u ∈ us, u.closed = true) :
    ∃ t : Token, t.isSpecial c = true ∧ t.closed = true ∧
      tokenize s (x ++ [c]) = .ok (us ++ [t]) := by
  obtain ⟨t, d, ht, hclosed, hread⟩ := exists_tokenize_append_cons hc hblank hx hus []
  have hnil : tokenize s [] = .ok [] := by
    rw [tokenize, List.dropWhile_nil, tokensFrom]
  exact ⟨t, ht, hclosed, ((hread _).2 ⟨[], ⟨hnil, by simp⟩, rfl⟩).1⟩

/-- With a comma between them, two texts are read as the one list and then the other. -/
theorem parseList_comma (hx : Address.parseList s x = pure as)
    (hy : Address.parseList s y = pure bs) :
    Address.parseList s (x ++ ',' :: y) = pure (as ++ bs) := by
  obtain ⟨us, hus, husClosed, husList⟩ := parseList_eq_pure_iff_cleanList.1 hx
  obtain ⟨ts, hts, htsClosed, htsList⟩ := parseList_eq_pure_iff_cleanList.1 hy
  obtain ⟨comma, d, hcomma, -, hread⟩ :=
    exists_tokenize_append_cons (c := ',') (by decide) (by decide) hus husClosed y
  obtain ⟨hvs, hvsClosed⟩ := (hread _).2 ⟨ts, ⟨hts, htsClosed⟩, rfl⟩
  exact parseList_eq_pure_iff_cleanList.2
    ⟨_, hvs, hvsClosed, husList.append hcomma (htsList.map_moved d)⟩

end InternetMail
