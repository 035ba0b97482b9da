import InternetMail.Proofs.Address.Phrase
import InternetMail.Proofs.Address.StrictList

/-!
# What a written address reads as

An address that the strict reading found is written as tokens that read as that address again,
wherever they stand (`exists_tokens_of_readsAs`). A group is written as it stood in its text, but
for what came after its semicolon. A mailbox is written anew: its name as a phrase, and its route
and addr-spec without blanks, in angle brackets unless they are a plain addr-spec.

That a text is written from tokens is what makes it readable: the tokens are spelled in the text as
they have to be and there is a blank where two words would run together (`WellSpelled`), so that
reading gives these tokens at their new places (`tokenize_writtenOf`). What is left is what tokens
of such kinds read as. A route and an addr-spec are written without blanks, as one text, and so are
made of the same tokens without the blanks after them (`Token.tight`). Whether brackets are needed
is seen from that text alone, by its characters: a route has a colon and needs them, and a text that
ends with a semicolon behind a colon is taken for a group and has none.
-/

namespace InternetMail

open Grammar

/-- The tokens are those of one address, `a`. -/
inductive ReadsAs : List Token → Address → Prop
  | mailbox {ts phrase path : List Token} : Mailbox (wordsOf ts) phrase path →
      ReadsAs ts (mailboxAddress ts phrase path)
  | group {ts : List Token} : StrictGroup ts → ReadsAs ts (groupOf ts)

/-! ### Texts of tokens -/

/-- No character of an atom ends one. -/
theorem eq_false_of_atomBody {s : Strictness} {position : Nat} {t : Text} {b : TokenBody}
    (h : atomBody s position t = .ok b) :
    ∀ c ∈ b.raw, isBlankChar c = false ∧ isSpecial c = false := by
  fun_induction atomBody s position t generalizing b with
  | case4 position c t hends hrefuses ih =>
    obtain ⟨b₀, h₀, rfl⟩ := map_after_eq_ok h
    simp only [Bool.not_eq_true, Bool.or_eq_false_iff] at hends
    exact List.forall_mem_cons.2 ⟨hends, ih h₀⟩
  | _ => cases h <;> simp

/-- A domain literal that is closed ends with a bracket. -/
theorem getLast_raw_of_literalBody {s : Strictness} {position : Nat} {t : Text} {b : TokenBody}
    (h : literalBody s position t = .ok b) (hclosed : b.closed = true) :
    b.raw.getLast? = some ']' := by
  fun_induction literalBody s position t generalizing b with
  | case2 position c t hc =>
    cases h
    simp [eq_of_beq hc]
  | case5 | case6 | case8 =>
    rename_i ih
    obtain ⟨b₀, h₀, rfl⟩ := map_after_eq_ok h
    have := ih h₀ hclosed
    cases hraw : b₀.raw <;> simp_all
  | case1 | case4 =>
    cases h
    cases hclosed
  | case3 | case7 => cases h

/-- A special character is written as itself. -/
theorem raw_of_tokenBody {s : Strictness} {position : Nat} {c d : Char} {t : Text} {b : TokenBody}
    (h : tokenBody s position d t = .ok b) (hkind : TokenKind.ofFirst d = .special c) :
    b.raw = [c] := by
  have hd : d = c := by
    unfold TokenKind.ofFirst at hkind
    grind
  subst hd
  rw [tokenBody, hkind] at h
  cases h
  rfl

/-- A special character is written as such. -/
theorem raw_of_isSpecial {t : Token} (h : t.Spelled) {c : Char} (hc : t.isSpecial c = true) :
    t.raw = [c] := by
  obtain ⟨d, raw, -, -, hkind, hread⟩ := h
  have hk := Token.isSpecial_iff.1 hc
  exact raw_of_tokenBody (hread 0 [] (by simp [hk])) (hkind.trans hk)

/-- An atom has no special characters in it. -/
theorem isSpecial_eq_false_of_tokenBody {s : Strictness} {position : Nat} {c : Char} {t : Text}
    {b : TokenBody} (h : tokenBody s position c t = .ok b)
    (hkind : TokenKind.ofFirst c = .atom) : ∀ d ∈ b.raw, isSpecial d = false := by
  rw [tokenBody, hkind] at h
  simp only at h
  split at h
  · cases h
  · obtain ⟨b₀, h₀, rfl⟩ := map_after_eq_ok h
    rw [TokenBody.raw_after, List.singleton_append, List.forall_mem_cons]
    exact ⟨ofFirst_eq_atom_iff.1 hkind, fun d hd ↦ (eq_false_of_atomBody h₀ d hd).2⟩

/-- An atom is a character that may begin one and the rest of an atom. -/
theorem exists_atomBody_of_atom {t : Token} (h : t.Spelled) (hkind : t.kind = .atom) :
    ∃ c b, t.raw = c :: b.raw ∧ isBlankChar c = false ∧ isSpecial c = false ∧
      Strictness.strict.refuses c = false ∧ ∃ position u, atomBody .strict position u = .ok b := by
  obtain ⟨c, raw, hraw, hblank, hfirst, hread⟩ := h
  rw [hkind] at hfirst
  have hbody := hread 0 [] fun _ ↦ by simp [EndsAtom]
  rw [tokenBody, hfirst] at hbody
  simp only at hbody
  split at hbody
  · cases hbody
  · rename_i hrefuses
    obtain ⟨b, hatom, hb⟩ := map_after_eq_ok hbody
    have hraw' : c :: b.raw = t.raw := congrArg TokenBody.raw hb
    exact ⟨c, b, hraw'.symm, hblank, ofFirst_eq_atom_iff.1 hfirst, by simpa using hrefuses, _, _,
      hatom⟩

/-- An atom has no special character. -/
theorem isSpecial_eq_false_of_atom {t : Token} (h : t.Spelled) (hkind : t.kind = .atom) :
    ∀ c ∈ t.raw, isSpecial c = false := by
  obtain ⟨c, raw, -, -, hfirst, hread⟩ := h
  have hbody := hread 0 [] fun _ ↦ by simp [EndsAtom]
  exact isSpecial_eq_false_of_tokenBody hbody (hfirst.trans hkind)

/-- A domain literal ends with its bracket. -/
theorem getLast_raw_of_domainLiteral {t : Token} (h : t.Spelled)
    (hkind : t.kind = .domainLiteral) : t.raw.getLast? = some ']' := by
  obtain ⟨c, raw, hraw, -, hfirst, hread⟩ := h
  rw [hkind] at hfirst
  have hbody := hread 0 [] (by simp [hkind])
  rw [tokenBody, hfirst] at hbody
  obtain ⟨b₀, h₀, hb⟩ := map_after_eq_ok hbody
  obtain ⟨hliteral, hclosed⟩ := bind_closedOr_strict_eq_ok_iff.1 h₀
  have hraw' : c :: b₀.raw = t.raw := congrArg TokenBody.raw hb
  have := getLast_raw_of_literalBody hliteral hclosed
  rw [← hraw', List.getLast?_cons, this]
  rfl

/-! ### Without the blanks after a token -/

/-- The token as it is written in an address, without blanks after it. -/
def Token.tight (t : Token) : Token :=
  { t with gap := [] }

/-- The blanks after the last token do not count. -/
theorem WellSpelled.tight_last {us : List Token} {t : Token} (h : WellSpelled (us ++ [t])) :
    WellSpelled (us ++ [t.tight]) := by
  have hlast : WellSpelled [t.tight] :=
    .singleton (h.spelled t (by simp)) (by simp [Token.tight])
  refine h.left_of_append.append hlast fun v hv u hu ↦ ?_
  cases hu
  exact (List.isChain_append.1 h.apart).2.2 v hv t rfl

/-- What a stretch was written as does not depend on the blanks after it. -/
theorem sourceOf_tight_last (us : List Token) (t : Token) :
    sourceOf (us ++ [t.tight]) = sourceOf (us ++ [t]) := by
  rw [sourceOf_concat, sourceOf_concat, Token.tight]

/-- Without blanks after its last token a stretch is written as it stood. -/
theorem writtenOf_tight_last (us : List Token) (t : Token) :
    writtenOf (us ++ [t.tight]) = sourceOf (us ++ [t]) := by
  rw [sourceOf_concat]
  simp [Token.tight]

/-! ### Groups -/

/-- What is a group is told by the kinds of its tokens. -/
theorem StrictGroup.congr {us ts : List Token} (h : StrictGroup ts) (hk : SameKinds us ts) :
    StrictGroup us := by
  obtain ⟨hphrase, hcolon, hmembers, hsemi⟩ := h
  obtain ⟨phrase', _, rfl, hp, hk⟩ := exists_of_sameKinds_append hk
  obtain ⟨colon', _, rfl, hc, hk⟩ := exists_of_sameKinds_cons hk
  obtain ⟨members', _, rfl, hm, hk⟩ := exists_of_sameKinds_append hk
  obtain ⟨semi', _, rfl, hs, hnil⟩ := exists_of_sameKinds_cons hk
  rw [eq_nil_of_sameKinds hnil]
  exact .intro (hphrase.congr (sameKinds_wordsOf hp)) ((Token.isSpecial_congr hc ':').trans hcolon)
    (hmembers.congr (sameKinds_wordsOf hm)) ((Token.isSpecial_congr hs ';').trans hsemi)

/-- A phrase has no special characters but periods, with its comments neither. -/
theorem isSpecial_eq_false_of_phrase {ts : List Token} (h : Phrase (wordsOf ts)) {c : Char}
    (hc : '.' ≠ c) : ∀ t ∈ ts, t.isSpecial c = false := by
  intro t ht
  by_cases hcomment : t.isComment = true
  · exact Token.isSpecial_eq_false_of_isComment hcomment c
  · exact h.isSpecial_eq_false hc t (List.mem_filter.2 ⟨ht, by simpa using hcomment⟩)

/-- The first token of a phrase with its comments is one of these or belongs to the name. -/
theorem exists_head_of_phrase {ts : List Token} (h : Phrase (wordsOf ts)) :
    ∃ t us, ts = t :: us ∧ t.isSpecial ':' = false := by
  cases ts with
  | nil => exact absurd rfl h.1
  | cons t us =>
    exact ⟨t, us, rfl, isSpecial_eq_false_of_phrase h (by decide) t List.mem_cons_self⟩

/-- A group is told by its text from other addresses. -/
theorem StrictGroup.isGroupText {ts : List Token} (h : StrictGroup ts)
    (hspelled : ∀ t ∈ ts, t.Spelled) : Address.isGroupText (sourceOf ts) = true := by
  obtain ⟨hphrase, hcolon, hmembers, hsemi⟩ := h
  rename_i phrase members colon semicolon
  have hcolonRaw := raw_of_isSpecial (hspelled colon (by simp)) hcolon
  have hsemiRaw := raw_of_isSpecial (hspelled semicolon (by simp)) hsemi
  obtain ⟨t, phrase', rfl, ht⟩ := exists_head_of_phrase hphrase
  obtain ⟨c, raw, hraw, -, hkind, -⟩ := hspelled t (by simp)
  have hc : c ≠ ':' := by
    rintro rfl
    have : t.isSpecial ':' = true := Token.isSpecial_iff.2 hkind.symm
    rw [this] at ht
    cases ht
  have hsource : sourceOf (t :: phrase' ++ colon :: (members ++ [semicolon])) =
      c :: (raw ++ t.gap ++ writtenOf phrase' ++ ':' :: (colon.gap ++ writtenOf members)) ++
        [';'] := by
    have heq : t :: phrase' ++ colon :: (members ++ [semicolon]) =
        (t :: phrase' ++ colon :: members) ++ [semicolon] := by simp
    rw [heq, sourceOf_concat, hsemiRaw]
    simp [hraw, hcolonRaw]
  rw [hsource, Address.isGroupText, List.getLast?_concat]
  simp [hc]

/-- A group is written as it stood in its text. -/
theorem exists_tokens_of_strictGroup [MultiByte.Codec] {ts : List Token} (h : StrictGroup ts)
    (hts : WellSpelled ts) :
    ∃ us, WellSpelled us ∧ writtenOf us = (groupOf ts).format ∧
      ∀ position, ReadsAs (placed position us) (groupOf ts) := by
  have hformat : (groupOf ts).format = sourceOf ts := by
    have := h.isGroupText hts.spelled
    simp [Address.format, Address.render, Address.isGroup, groupOf, this]
  obtain ⟨us, semicolon, rfl, hsemi⟩ := h.exists_eq_concat
  have hkinds : SameKinds (us ++ [semicolon.tight]) (us ++ [semicolon]) := by
    simp [SameKinds, Token.tight]
  -- only the blanks after the semicolon are not written
  refine ⟨us ++ [semicolon.tight], hts.tight_last, ?_, ?_⟩
  · rw [hformat, writtenOf_tight_last]
  · intro position
    have := ReadsAs.group (h.congr ((sameKinds_placed position _).trans hkinds))
    rwa [groupOf, sourceOf_placed, sourceOf_tight_last] at this

/-! ### Paths -/

/-- Tokens without blanks after them are written as their texts. -/
theorem writtenOf_map_tight (ts : List Token) : writtenOf (ts.map Token.tight) = rawOf ts := by
  simp [writtenOf, rawOf, List.flatMap_map, Token.tight]

theorem rawOf_map_tight (ts : List Token) : rawOf (ts.map Token.tight) = rawOf ts := by
  simp [rawOf, List.flatMap_map, Token.tight]

theorem sameKinds_map_tight (ts : List Token) : SameKinds (ts.map Token.tight) ts := by
  simp [SameKinds, Token.tight]

/-- A route and an addr-spec can be written without blanks. -/
theorem wellSpelled_map_tight {route spec : List Token} (hroute : RouteOrNone route)
    (hspec : AddrSpec spec) (h : ∀ t ∈ route ++ spec, t.Spelled) :
    WellSpelled ((route ++ spec).map Token.tight) := by
  refine ⟨fun t ht ↦ ?_, fun t ht ↦ ?_, (List.isChain_map _).2 ?_⟩
  · obtain ⟨u, hu, rfl⟩ := List.mem_map.1 ht
    exact h u hu
  · obtain ⟨u, -, rfl⟩ := List.mem_map.1 ht
    simp [Token.tight]
  · exact (hroute.isChain_append hspec).imp fun t u htu ht hu _ ↦ htu ht hu

/-- A dotted run ends with an item. -/
theorem exists_eq_concat_of_dotted {isItem : Token → Bool} {ts : List Token}
    (h : Dotted isItem ts) : ∃ us t, ts = us ++ [t] ∧ isItem t = true := by
  induction h with
  | @item t ht => exact ⟨[], t, rfl, ht⟩
  | @cons t dot ts _ _ _ ih =>
    obtain ⟨us, u, rfl, hu⟩ := ih
    exact ⟨t :: dot :: us, u, rfl, hu⟩

/-- An addr-spec ends with a part of its domain. -/
theorem Grammar.AddrSpec.exists_eq_concat {spec : List Token} (h : AddrSpec spec) :
    ∃ us t, spec = us ++ [t] ∧ t.isSubDomain = true := by
  cases h with
  | @intro name sign _ _ _ hdomain =>
    obtain ⟨us, t, rfl, ht⟩ := exists_eq_concat_of_dotted hdomain
    exact ⟨name ++ sign :: us, t, by simp, ht⟩

/-- A part of a domain does not end with a semicolon. -/
theorem getLast_raw_ne_of_isSubDomain {t : Token} (h : t.Spelled) (ht : t.isSubDomain = true) :
    ∃ us c, t.raw = us ++ [c] ∧ c ≠ ';' := by
  simp only [Token.isSubDomain, Bool.or_eq_true, beq_iff_eq] at ht
  rcases ht with hkind | hkind
  · obtain ⟨c, raw, hraw, -⟩ := id h
    obtain ⟨us, d, hlast⟩ := List.eq_nil_or_concat t.raw |>.resolve_left (by simp [hraw])
    refine ⟨us, d, by simpa using hlast, ?_⟩
    rintro rfl
    have := isSpecial_eq_false_of_atom h hkind ';' (by simp [hlast])
    revert this
    decide
  · obtain ⟨us, hlast⟩ := List.getLast?_eq_some_iff.1 (getLast_raw_of_domainLiteral h hkind)
    exact ⟨us, ']', hlast, by decide⟩

/-- A path does not end like a group. -/
theorem isGroupText_rawOf (route : List Token) {spec : List Token} (hspec : AddrSpec spec)
    (h : ∀ t ∈ spec, t.Spelled) : Address.isGroupText (rawOf (route ++ spec)) = false := by
  obtain ⟨us, t, rfl, ht⟩ := hspec.exists_eq_concat
  obtain ⟨raw, c, hraw, hc⟩ := getLast_raw_ne_of_isSubDomain (h t (by simp)) ht
  have hlast : rawOf (route ++ (us ++ [t])) = rawOf (route ++ us) ++ raw ++ [c] := by
    simp [rawOf, hraw]
  rw [Address.isGroupText, hlast, List.getLast?_concat]
  simp [hc]

/-- A route has a colon, so an address with one stands in brackets. -/
theorem needsBrackets_of_route {route spec : List Token} (hroute : Route route)
    (hspec : AddrSpec spec) (h : ∀ t ∈ route ++ spec, t.Spelled) :
    Address.needsBrackets (rawOf (route ++ spec)) = true := by
  obtain ⟨_, _, hhops⟩ := hroute
  obtain ⟨body, colon, rfl, hcolon, -⟩ := hhops.stretches
  have hraw := raw_of_isSpecial (h colon (by simp)) hcolon
  rw [Address.needsBrackets, isGroupText_rawOf _ hspec fun t ht ↦
    h t (List.mem_append_right _ ht)]
  simp [rawOf, hraw]

/-! ### Mailboxes -/

/-- Tokens are comments or not at any place. -/
theorem isComment_placed {ts : List Token} (h : ∀ t ∈ ts, t.isComment = false) (position : Nat) :
    ∀ t ∈ placed position ts, t.isComment = false := by
  induction ts generalizing position with
  | nil => simp [placed]
  | cons t ts ih =>
    rw [List.forall_mem_cons] at h
    exact List.forall_mem_cons.2 ⟨h.1, ih h.2 _⟩

/-- Without comments all tokens are words. -/
theorem wordsOf_eq_self {ts : List Token} (h : ∀ t ∈ ts, t.isComment = false) :
    wordsOf ts = ts :=
  List.filter_eq_self.2 fun t ht ↦ by simp [h t ht]

/-- Without comments there is no name in them. -/
theorem nameOfComments_eq_absent {ts : List Token} (h : ∀ t ∈ ts, t.isComment = false) :
    nameOfComments ts = .absent := by
  have hnone : ts.find? (fun t ↦ t.isComment && !(Text.trim t.value).isEmpty) = none := by
    rw [List.find?_eq_none]
    intro t ht
    simp [h t ht]
  rw [nameOfComments, hnone]

/-- A phrase has neither comments nor domain literals. -/
theorem Grammar.PhraseOrNone.kind_ne {ws : List Token} (h : PhraseOrNone ws) :
    ∀ t ∈ ws, t.kind ≠ .comment ∧ t.kind ≠ .domainLiteral := by
  rcases h with rfl | h
  · simp
  · intro t ht
    have := h.2 t ht
    simp only [Token.isWord, Token.isSpecial, Bool.or_eq_true, beq_iff_eq] at this
    rcases this with (hk | hk) | hk <;> simp [hk]

/-- A mailbox as it is written with angle brackets, `phrase` being what stands before them. -/
def bracketedTokens (phrase path : List Token) : List Token :=
  phrase ++ .ofSpecial '<' [] :: (path.map Token.tight ++ [.ofSpecial '>' []])

variable {phrase route spec : List Token}

/-- A name, an opening bracket, a route and an addr-spec, and a closing bracket can be read again,
as each of these ends with a special character or begins with one where it meets the next. -/
theorem wellSpelled_bracketedTokens (hphrase : WellSpelled phrase) (hroute : RouteOrNone route)
    (hspec : AddrSpec spec) (h : ∀ t ∈ route ++ spec, t.Spelled) :
    WellSpelled (bracketedTokens phrase (route ++ spec)) := by
  have hleft : WellSpelled [.ofSpecial '<' []] :=
    .singleton (spelled_ofSpecial (by decide) (by decide) []) (by simp [Token.ofSpecial])
  have hright : WellSpelled [.ofSpecial '>' []] :=
    .singleton (spelled_ofSpecial (by decide) (by decide) []) (by simp [Token.ofSpecial])
  have hclosed := (wellSpelled_map_tight hroute hspec h).append hright fun t _ u hu ↦ by
    cases hu
    exact apart_of_isSpecial_right (c := '>') rfl
  have hopened := hleft.append hclosed fun t ht u _ ↦ by
    cases ht
    exact apart_of_isSpecial_left (c := '<') rfl
  exact hphrase.append hopened fun t _ u hu ↦ by
    cases hu
    exact apart_of_isSpecial_right (c := '<') rfl

/-- What is written with angle brackets is read as a mailbox with that name. -/
theorem readsAs_bracketedTokens (hphrase : PhraseOrNone phrase) (hroute : RouteOrNone route)
    (hspec : AddrSpec spec) (hcomments : ∀ t ∈ route ++ spec, t.isComment = false)
    (position : Nat) :
    ReadsAs (placed position (bracketedTokens phrase (route ++ spec)))
      ⟨rawOf (route ++ spec),
        if phrase.isEmpty then .absent
        else .written (phraseText (placed position phrase)) false⟩ := by
  have hno : ∀ t ∈ placed position (bracketedTokens phrase (route ++ spec)),
      t.isComment = false := by
    refine isComment_placed (fun t ht ↦ ?_) position
    simp only [bracketedTokens, List.mem_append, List.mem_cons, List.mem_map, List.not_mem_nil,
      or_false] at ht
    rcases ht with ht | rfl | ⟨u, hu, rfl⟩ | rfl
    · simpa [Token.isComment] using (hphrase.kind_ne t ht).1
    · rfl
    · exact hcomments u (List.mem_append.2 hu)
    · rfl
  -- the tokens stand at other places and without blanks, which no production looks at
  have hmailbox : ∃ path, Mailbox
      (wordsOf (placed position (bracketedTokens phrase (route ++ spec))))
      (placed position phrase) path ∧ rawOf path = rawOf (route ++ spec) := by
    rw [wordsOf_eq_self hno, bracketedTokens, placed_append, placed, placed_append,
      List.map_append, placed_append]
    refine ⟨_, .bracketed (hphrase.congr (sameKinds_placed _ _)) rfl
      (hroute.congr ((sameKinds_placed _ _).trans (sameKinds_map_tight _)))
      (hspec.congr ((sameKinds_placed _ _).trans (sameKinds_map_tight _))) rfl, ?_⟩
    simp [rawOf_placed, rawOf_map_tight]
  obtain ⟨path, hmailbox, hpath⟩ := hmailbox
  have hreads := ReadsAs.mailbox hmailbox
  rw [mailboxAddress, nameOfComments_eq_absent hno, hpath] at hreads
  cases phrase with
  | nil => exact hreads
  | cons t ts => exact hreads

/-- A plain addr-spec is read as a mailbox without a name. -/
theorem readsAs_map_tight (hspec : AddrSpec spec) (hcomments : ∀ t ∈ spec, t.isComment = false)
    (position : Nat) :
    ReadsAs (placed position (spec.map Token.tight)) ⟨rawOf spec, .absent⟩ := by
  have hno : ∀ t ∈ placed position (spec.map Token.tight), t.isComment = false := by
    refine isComment_placed (fun t ht ↦ ?_) position
    obtain ⟨u, hu, rfl⟩ := List.mem_map.1 ht
    exact hcomments u hu
  have hspec' := hspec.congr ((sameKinds_placed position _).trans (sameKinds_map_tight spec))
  have hreads : ReadsAs (placed position (spec.map Token.tight))
      (mailboxAddress (placed position (spec.map Token.tight)) []
        (placed position (spec.map Token.tight))) := by
    refine .mailbox ?_
    rw [wordsOf_eq_self hno]
    exact .bare hspec'
  rwa [mailboxAddress, nameOfComments_eq_absent hno, rawOf_placed, rawOf_map_tight] at hreads

/-- A path after a name is written as tokens that read as a mailbox, whose name is what the phrase
says. -/
theorem exists_tokens_of_path {name : Text} (hname : ∀ c ∈ name, IsWritten c)
    (hroute : RouteOrNone route) (hspec : AddrSpec spec) (h : ∀ t ∈ route ++ spec, t.Spelled)
    (hcomments : ∀ t ∈ route ++ spec, t.isComment = false) :
    ∃ us, WellSpelled us ∧
      writtenOf us = Address.render ⟨rawOf (route ++ spec), .absent⟩ (some name) ∧
      ∀ position, ReadsAs (placed position us)
        ⟨rawOf (route ++ spec), .written (rereadName name) false⟩ := by
  obtain ⟨phrase, hphrase, hgrammar, hwritten, hphraseText⟩ := exists_phrase_quotePhrase hname
  have hgroup := isGroupText_rawOf route hspec fun t ht ↦
    h t (List.mem_append_right _ ht)
  have hrender : Address.render ⟨rawOf (route ++ spec), .absent⟩ (some name) =
      quotePhrase name ++ [' ', '<'] ++ rawOf (route ++ spec) ++ ['>'] := by
    simp [Address.render, Address.isGroup, hgroup, -rawOf_append]
  refine ⟨_, wellSpelled_bracketedTokens hphrase hroute hspec h, ?_, fun position ↦ ?_⟩
  · rw [hrender]
    simp [bracketedTokens, hwritten, writtenOf_map_tight, Token.ofSpecial]
  · have hreads := readsAs_bracketedTokens (Or.inr hgrammar) hroute hspec hcomments position
    rw [hphraseText, List.isEmpty_eq_false_iff.2 hgrammar.1] at hreads
    exact hreads

/-- A mailbox with a printable name is written as tokens that read as it. -/
theorem exists_tokens_of_named [MultiByte.Codec] {raw : Text} (hraw : ∀ c ∈ raw, Printable c)
    (hroute : RouteOrNone route) (hspec : AddrSpec spec) (h : ∀ t ∈ route ++ spec, t.Spelled)
    (hcomments : ∀ t ∈ route ++ spec, t.isComment = false) :
    ∃ us, WellSpelled us ∧
      writtenOf us = Address.format ⟨rawOf (route ++ spec), .written raw false⟩ ∧
      ∀ position, ReadsAs (placed position us) ⟨rawOf (route ++ spec), .written raw false⟩ := by
  obtain ⟨us, hus, hwritten, hreads⟩ := exists_tokens_of_path
    (fun c hc ↦ (hraw c hc).isWritten) hroute hspec h hcomments
  have hencoded : DisplayName.encoded (.written raw false) = some raw := by
    rw [DisplayName.encoded, if_pos (isAscii_of_printable hraw)]
  rw [rereadName_of_printable hraw] at hreads
  refine ⟨us, hus, hwritten.trans ?_, hreads⟩
  rw [Address.format, Address.encodedPersonal, hencoded]
  rfl

/-- So is one without a name. -/
theorem exists_tokens_of_unnamed [MultiByte.Codec] (hroute : RouteOrNone route)
    (hspec : AddrSpec spec) (h : ∀ t ∈ route ++ spec, t.Spelled)
    (hcomments : ∀ t ∈ route ++ spec, t.isComment = false) :
    ∃ us, WellSpelled us ∧ writtenOf us = Address.format ⟨rawOf (route ++ spec), .absent⟩ ∧
      ∀ position, ReadsAs (placed position us) ⟨rawOf (route ++ spec), .absent⟩ := by
  have hgroup := isGroupText_rawOf route hspec fun t ht ↦
    h t (List.mem_append_right _ ht)
  have hformat : Address.format ⟨rawOf (route ++ spec), .absent⟩ =
      Address.formatSpec (rawOf (route ++ spec)) := by
    simp [Address.format, Address.encodedPersonal, DisplayName.encoded, Address.render,
      Address.isGroup, hgroup, -rawOf_append]
  rw [hformat, Address.formatSpec]
  by_cases hbrackets : Address.needsBrackets (rawOf (route ++ spec)) = true
  · rw [if_pos hbrackets]
    have hnil : WellSpelled [] := ⟨by simp, by simp, .nil⟩
    refine ⟨_, wellSpelled_bracketedTokens hnil hroute hspec h, ?_, fun position ↦ ?_⟩
    · simp [bracketedTokens, writtenOf_map_tight, Token.ofSpecial]
    · exact readsAs_bracketedTokens (Or.inl rfl) hroute hspec hcomments position
  · rw [if_neg hbrackets]
    rcases hroute with rfl | hroute
    · exact ⟨_, wellSpelled_map_tight (Or.inl rfl) hspec h, writtenOf_map_tight _,
        readsAs_map_tight hspec hcomments⟩
    · exact absurd (needsBrackets_of_route hroute hspec h) hbrackets

/-- The path of a mailbox is made of tokens of its text, of which none is a comment. -/
theorem exists_path_of_mailbox {ts path : List Token} (h : Mailbox (wordsOf ts) phrase path)
    (hts : WellSpelled ts) :
    ∃ route spec, path = route ++ spec ∧ RouteOrNone route ∧ AddrSpec spec ∧
      (∀ t ∈ route ++ spec, t.Spelled) ∧ ∀ t ∈ route ++ spec, t.isComment = false := by
  have hmem : ∀ t ∈ wordsOf ts, t ∈ ts ∧ t.isComment = false := by
    intro t ht
    simpa using List.mem_filter.1 ht
  obtain ⟨route, spec, rfl, hroute, hspec⟩ := h.exists_path
  exact ⟨route, spec, rfl, hroute, hspec,
    fun t ht ↦ hts.spelled t (hmem t (h.path_subset ht)).1,
    fun t ht ↦ (hmem t (h.path_subset ht)).2⟩

/-- What the strict reading found is written as tokens that read as it again. -/
theorem exists_tokens_of_readsAs [MultiByte.Codec] {ts : List Token} {a : Address}
    (h : ReadsAs ts a) (hts : WellSpelled ts)
    (hprintable : ∀ u ∈ ts, u.kind ≠ .domainLiteral → ∀ c ∈ u.value, Printable c) :
    ∃ us, WellSpelled us ∧ writtenOf us = a.format ∧
      ∀ position, ReadsAs (placed position us) a := by
  cases h with
  | group h => exact exists_tokens_of_strictGroup h hts
  | @mailbox phrase path hmailbox =>
    have hmem : ∀ t ∈ wordsOf ts, t ∈ ts := fun t ht ↦ (List.mem_filter.1 ht).1
    obtain ⟨route, spec, rfl, hroute, hspec, hspelled, hcomments⟩ :=
      exists_path_of_mailbox hmailbox hts
    rw [mailboxAddress]
    by_cases hphrase : phrase = []
    · rw [if_pos (by simp [hphrase])]
      rcases printable_nameOfComments hprintable with hname | ⟨raw, hname, hraw⟩
      · rw [hname]
        exact exists_tokens_of_unnamed hroute hspec hspelled hcomments
      · rw [hname]
        exact exists_tokens_of_named hraw hroute hspec hspelled hcomments
    · rw [if_neg (by simpa using hphrase)]
      refine exists_tokens_of_named (forall_mem_phraseText (by decide) fun u hu ↦ ?_) hroute hspec
        hspelled hcomments
      exact hprintable u (hmem u (hmailbox.phrase_subset hu)) (hmailbox.phraseOrNone.kind_ne u hu).2

end InternetMail
