import InternetMail.Proofs.Address.ClosedTokens
import InternetMail.Proofs.Address.InOrder
import InternetMail.Proofs.Text.Lowercase

/-!
# Addresses that are read alone as themselves

An address can be written down again whatever it is, but it need not be read as itself then. Of the
addresses that were read from incoming mail, some are broken in a way that their text keeps: a
quoted string that was left open takes in the bracket or the comma that comes after it, `a>b` closes
its brackets too early, and an address without any text is nothing at all. `StandsAlone a` says of
the text of `a`, in the form that it is written in, that it has nothing of this, and
`exists_parseList_format_iff` says that then, and only then, `a` is read from what it is written as,
as one address that is equal to it and with nothing to put right.

There are three forms, and each of them has its own condition:

* an address in angle brackets, which has a name or needs the brackets, must fit in between them
  (`exists_parseList_brackets_iff`): its tokens are closed, none of them closes the brackets, and if
  the first of them is the sign of a route, a colon must come before the last;
* a group, which is written as it is, must be one group in order and nothing else
  (`exists_parseList_group_iff`);
* an address without brackets must not be empty, nor have blanks (`exists_parseList_plain_iff`).

That nothing else of the text is lost is not asked for: if a part of it were, then what was read
would be shorter, and so would its lower case be, by which addresses are compared
(`Text.eq_of_sublist_of_lower_eq`).
-/

namespace InternetMail

open Reported

variable {us ts P : List Token} {t : Token} {as : List Address} {a b : Address} {x pre : Text}

/-! ### The only address of a list -/

/-- An element of a list without an address has nothing but comments. -/
theorem wordsOf_eq_nil_of_mailboxesOf (h : mailboxesOf .parseHeader ts = pure []) :
    wordsOf ts = [] := by
  by_contra hne
  have hempty : (wordsOf ts).isEmpty = false := by simpa using hne
  rw [mailboxesOf] at h
  simp only [hempty, Bool.false_eq_true, if_false] at h
  split at h <;> simp [bind_eq_pure_iff, pure_eq_pure_iff] at h

/-- A list that ends with neither a comma nor a comment has an address. -/
theorem CleanList.ne_nil (h : CleanList .parseHeader (us ++ [t]) as)
    (hcomma : t.isSpecial ',' = false) (hcomment : t.isComment = false) : as ≠ [] := by
  generalize hts : us ++ [t] = ts at h
  induction h generalizing us with
  | last _ h =>
    rintro rfl
    have hnil := wordsOf_eq_nil_of_mailboxesOf h
    simp [← hts, wordsOf, hcomment] at hnil
  | @comma vs ts comma as bs _ _ hcomma' _ _ ih =>
    rcases List.eq_nil_or_concat' ts with rfl | ⟨ts, u, rfl⟩
    · obtain ⟨-, rfl⟩ := List.append_singleton_inj.1 hts
      rw [hcomma] at hcomma'
      cases hcomma'
    · rw [← List.cons_append, ← List.append_assoc] at hts
      obtain ⟨-, rfl⟩ := List.append_singleton_inj.1 hts
      exact fun hnil ↦ ih rfl (List.append_eq_nil_iff.1 hnil).2
  | group _ _ _ => exact List.cons_ne_nil _ _

/-- If a list with one address does not end with a comma or a comment, that address is made up by
what stands behind some commas and comments. -/
theorem CleanList.exists_of_singleton (h : CleanList .parseHeader (us ++ [t]) [b])
    (hcomma : t.isSpecial ',' = false) (hcomment : t.isComment = false) :
    ∃ vs ws, us ++ [t] = vs ++ ws ∧ (∀ v ∈ vs, v.isComment = true ∨ v.isSpecial ',' = true) ∧
      (Unbroken (endsElement false) false ws ∧ mailboxesOf .parseHeader ws = pure [b] ∨
        CleanGroup .parseHeader ws b) := by
  generalize hts : us ++ [t] = ts at h
  generalize has : [b] = as at h
  induction h generalizing us with
  | last hu h =>
    subst has
    exact ⟨[], _, rfl, by simp, Or.inl ⟨hu, h⟩⟩
  | @comma vs ts comma as bs _ _ hcomma' h hlist ih =>
    rcases List.eq_nil_or_concat' ts with rfl | ⟨ts, u, rfl⟩
    · obtain ⟨-, rfl⟩ := List.append_singleton_inj.1 hts
      rw [hcomma] at hcomma'
      cases hcomma'
    · rw [← List.cons_append, ← List.append_assoc] at hts
      obtain ⟨-, rfl⟩ := List.append_singleton_inj.1 hts
      have hne := hlist.ne_nil hcomma hcomment
      -- all addresses in front would be one too many
      have hnil : as = [] ∧ bs = [b] := by
        cases as with
        | nil => exact ⟨rfl, has.symm⟩
        | cons a as =>
          obtain ⟨-, hnil⟩ := List.cons.inj has
          exact absurd (List.append_eq_nil_iff.1 hnil.symm).2 hne
      obtain ⟨rfl, rfl⟩ := hnil
      obtain ⟨vs', ws, hws, hvs, hb⟩ := ih rfl rfl
      refine ⟨vs ++ comma :: vs', ws, by simp [hws], ?_, hb⟩
      refine List.forall_mem_append.2 ⟨fun v hv ↦ Or.inl ?_, List.forall_mem_cons.2
        ⟨Or.inr hcomma', hvs⟩⟩
      have hnone := List.filter_eq_nil_iff.1 (wordsOf_eq_nil_of_mailboxesOf h) v hv
      simpa using hnone
  | @group vs ts a as hgroup hlist _ =>
    obtain ⟨rfl, rfl⟩ := List.cons.inj has
    rcases List.eq_nil_or_concat' ts with rfl | ⟨ts, u, rfl⟩
    · exact ⟨[], vs, by simp, by simp, Or.inr hgroup⟩
    · rw [← List.append_assoc] at hts
      obtain ⟨-, rfl⟩ := List.append_singleton_inj.1 hts
      exact absurd rfl (hlist.ne_nil hcomma hcomment)

/-- If the first token is neither a comma nor a comment, then none of these stand in front. -/
theorem eq_nil_of_cons_eq_append {vs ws : List Token} (h : t :: ts = vs ++ ws)
    (hcomment : t.isComment = false) (hcomma : t.isSpecial ',' = false)
    (hvs : ∀ v ∈ vs, v.isComment = true ∨ v.isSpecial ',' = true) : vs = [] := by
  cases vs with
  | nil => rfl
  | cons v vs =>
    obtain ⟨rfl, -⟩ := List.cons.inj h
    simpa [hcomment, hcomma] using hvs t List.mem_cons_self

/-! ### In angle brackets -/

/-- The tokens of a text that stands in angle brackets as one address: they are closed, do not close
the brackets, and go on behind the colon of a route, and blanks and comments are no part of the
text. -/
structure StandsInBrackets (x : Text) (ts : List Token) : Prop where
  tokens : tokenize .parseHeader x = .ok ts
  closed : ∀ t ∈ ts, t.closed = true
  open_ : ∀ u ∈ wordsOf ts, u.isSpecial '>' = false
  colon : ∀ u ∈ (wordsOf ts).head?, u.isSpecial '@' = true →
    ∃ v ∈ (wordsOf ts).dropLast, v.isSpecial ':' = true
  text : rawOf (wordsOf ts) = x

/-- A word of a name is no comment. -/
theorem Token.isComment_eq_false_of_isWord {t : Token} (h : t.isWord = true) :
    t.isComment = false := by
  unfold isWord at h
  unfold isComment
  cases hk : t.kind <;> simp_all

/-- A group ends with its semicolon. -/
theorem CleanGroup.exists_eq_concat {s : Strictness} (h : CleanGroup s ts a) :
    ∃ us semicolon, ts = us ++ [semicolon] ∧ semicolon.isSpecial ';' = true := by
  obtain ⟨-, -, -, -, -, hsemi, -⟩ := h
  rename_i phrase members colon semicolon
  exact ⟨phrase ++ colon :: members, semicolon, by simp, hsemi⟩

/-- Where a text stands has no bearing on what it is in angle brackets. -/
theorem bracketed_map_moved (d : Nat) (left : Token) (ws : List Token) (t : Text) :
    bracketed .parseHeader left (ws.map (Token.moved d)) = .ok t ↔
      bracketed .parseHeader left ws = .ok t := by
  rw [← (relocates_moved d).bracketed_map left ws t, bracketed_eq_ok_iff, bracketed_eq_ok_iff]

section

variable {left right : Token} (hP : ∀ t ∈ P, t.isWord = true) (hleft : left.isSpecial '<' = true)
  (hright : right.isSpecial '>' = true)

include hP hleft

/-- Nothing stands in front of words and an angle bracket behind them, as the first token is one of
these. -/
theorem eq_nil_of_brackets_eq_append {vs ws : List Token} (h : P ++ left :: us = vs ++ ws)
    (hvs : ∀ v ∈ vs, v.isComment = true ∨ v.isSpecial ',' = true) : vs = [] := by
  cases P with
  | nil =>
    exact eq_nil_of_cons_eq_append h (Token.isComment_eq_false_of_isSpecial hleft)
      (Token.isSpecial_eq_false hleft (by decide)) hvs
  | cons w P =>
    have hw := hP w List.mem_cons_self
    exact eq_nil_of_cons_eq_append h (Token.isComment_eq_false_of_isWord hw)
      (Token.isSpecial_eq_false_of_isWord hw ',') hvs

include hright

/-- Words and angle brackets behind them are one element. -/
theorem unbroken_words_brackets (hopen : ∀ u ∈ wordsOf ts, u.isSpecial '>' = false) :
    Unbroken (endsElement false) false (P ++ left :: (ts ++ [right])) := by
  have hsep := isSeparator_endsElement false
  have hopen' : ∀ u ∈ ts, u.isSpecial '>' = false := by
    intro u hu
    by_cases hcomment : u.isComment = true
    · exact Token.isSpecial_eq_false_of_isComment hcomment '>'
    · exact hopen u (List.mem_filter.2 ⟨hu, by simpa using hcomment⟩)
  obtain ⟨hu, hclosed⟩ : Unbroken (endsElement false) false P ∧ _ = false := unbroken_of_forall
    (fun t ht ↦ hsep.eq_false fun c _ ↦ Token.isSpecial_eq_false_of_isWord (hP t ht) c)
    (fun t ht ↦ Token.isSpecial_eq_false_of_isWord (hP t ht) '<')
    fun t ht ↦ Token.isSpecial_eq_false_of_isWord (hP t ht) '>'
  exact (unbroken_brackets hsep hu hclosed hleft hopen' hright).1

/-- Words and angle brackets behind them are one mailbox, or no list of one address at all. -/
theorem cleanList_brackets_iff :
    CleanList .parseHeader (P ++ left :: (ts ++ [right])) [b] ↔
      (∀ u ∈ wordsOf ts, u.isSpecial '>' = false) ∧
        ∃ spec, bracketed .parseHeader left (wordsOf ts) = .ok spec ∧
          (if P.isEmpty then ⟨spec, nameOfComments (P ++ left :: (ts ++ [right]))⟩
            else ⟨spec, .written (phraseText P) false⟩ : Address) = b := by
  have hwords : wordsOf (P ++ left :: (ts ++ [right])) = P ++ left :: (wordsOf ts ++ [right]) := by
    rw [wordsOf_append, wordsOf_cons_of_isSpecial hleft, wordsOf_append,
      wordsOf_cons_of_isSpecial hright, wordsOf_nil,
      wordsOf_eq_self fun t ht ↦ Token.isComment_eq_false_of_isWord (hP t ht)]
  have hphrase : ∀ t ∈ P, t.isSpecial '<' = false := fun t ht ↦
    Token.isSpecial_eq_false_of_isWord (hP t ht) '<'
  have hread : mailboxesOf .parseHeader (P ++ left :: (ts ++ [right])) = pure [b] ↔ _ :=
    mailboxesOf_parseHeader_brackets hwords hphrase hleft
  constructor
  · intro h
    have heq : P ++ left :: (ts ++ [right]) = (P ++ left :: ts) ++ [right] := by simp
    obtain ⟨vs, ws, hws, hvs, hb⟩ := CleanList.exists_of_singleton (heq ▸ h)
      (Token.isSpecial_eq_false hright (by decide)) (Token.isComment_eq_false_of_isSpecial hright)
    obtain rfl := eq_nil_of_brackets_eq_append hP hleft (heq.trans hws) hvs
    rw [← heq, List.nil_append] at hws
    subst hws
    rcases hb with ⟨-, hb⟩ | hgroup
    · obtain ⟨a, ha, hab⟩ := hread.1 hb
      obtain rfl := (List.cons.inj hab).1
      obtain ⟨inner, right', hafter, hopen, -, hspec⟩ := bracketMailbox_parseHeader_eq_pure_iff.1 ha
      obtain ⟨rfl, -⟩ := List.append_singleton_inj.1 hafter
      exact ⟨hopen, hspec⟩
    · obtain ⟨us, semicolon, hus, hsemi⟩ := hgroup.exists_eq_concat
      rw [heq] at hus
      obtain ⟨-, rfl⟩ := List.append_singleton_inj.1 hus
      cases hright.symm.trans (Token.isSpecial_eq_false hsemi (by decide))
  · rintro ⟨hopen, hspec⟩
    refine .last (unbroken_words_brackets hP hleft hright hopen) (hread.2 ⟨b, ?_, rfl⟩)
    exact bracketMailbox_parseHeader_eq_pure_iff.2 ⟨_, right, rfl, hopen, hright, hspec⟩

/-- The text of that mailbox is what the brackets hold, wherever they stand. -/
theorem exists_cleanList_brackets_iff (d : Nat) {t : Text} :
    (∃ b, CleanList .parseHeader (P ++ left :: (ts ++ [right]).map (Token.moved d)) [b] ∧
      b.spec = t) ↔
      (∀ u ∈ wordsOf ts, u.isSpecial '>' = false) ∧
        bracketed .parseHeader left (wordsOf ts) = .ok t := by
  have hf := relocates_moved d
  have hopen : (∀ u ∈ (wordsOf ts).map (Token.moved d), u.isSpecial '>' = false) ↔
      ∀ u ∈ wordsOf ts, u.isSpecial '>' = false := by
    simp [hf.isSpecial]
  simp only [List.map_append, List.map_singleton, hf.wordsOf_map, bracketed_map_moved, hopen,
    cleanList_brackets_iff hP hleft ((hf.isSpecial '>' right).trans hright)]
  constructor
  · rintro ⟨b, ⟨hopen, spec, hspec, rfl⟩, rfl⟩
    rw [apply_ite Address.spec, ite_self]
    exact ⟨hopen, hspec⟩
  · rintro ⟨hopen, hspec⟩
    exact ⟨_, ⟨hopen, t, hspec, rfl⟩, by rw [apply_ite Address.spec, ite_self]⟩

end

/-- The words of tokens, without the blanks between them, stand in order in what these were written
as. -/
theorem rawOf_wordsOf_sublist (ts : List Token) : (rawOf (wordsOf ts)).Sublist (writtenOf ts) := by
  induction ts with
  | nil => exact List.Sublist.refl []
  | cons t ts ih =>
    rw [writtenOf_cons, List.append_assoc, wordsOf, List.filter_cons]
    split
    · exact (List.Sublist.refl t.raw).append (ih.trans (List.sublist_append_right _ _))
    · exact ih.trans ((List.sublist_append_right _ _).trans (List.sublist_append_right _ _))

/-- Nothing is written in the tokens of a text that does not stand in it. -/
theorem writtenOf_sublist_of_tokenize {s : Strictness} (h : tokenize s x = .ok ts) :
    (writtenOf ts).Sublist x := by
  rw [(tiles_of_tokenize h).eq_append]
  exact List.sublist_append_right _ _

/-- No word of a text is empty. -/
theorem raw_ne_nil_of_mem_wordsOf {s : Strictness} (h : tokenize s x = .ok ts) :
    ∀ u ∈ wordsOf ts, u.raw ≠ [] := fun _ hu ↦
  raw_ne_nil_of_tokensFrom h (List.mem_filter.1 hu).1

/-- A text in angle brackets, behind what is read as words, is one address with that text exactly if
it stands there as one. -/
theorem exists_parseList_brackets_iff (hpre : tokenize .parseHeader pre = .ok P)
    (hP : ∀ t ∈ P, t.closed = true ∧ t.isWord = true) :
    (∃ b, Address.parseList .parseHeader (pre ++ '<' :: (x ++ ['>'])) = pure [b] ∧
      Text.lower b.spec = Text.lower x) ↔ ∃ ts, StandsInBrackets x ts := by
  have hwords : ∀ t ∈ P, t.isWord = true := fun t ht ↦ (hP t ht).2
  obtain ⟨left, d, hleft, -, hread⟩ := exists_tokenize_append_cons (c := '<') (by decide)
    (by decide) hpre (fun t ht ↦ (hP t ht).1) (x ++ ['>'])
  constructor
  · rintro ⟨b, hb, hlower⟩
    obtain ⟨vs, hvs, hclosed, hlist⟩ := parseList_eq_pure_iff_cleanList.1 hb
    obtain ⟨ts', ⟨hts', hts'Closed⟩, rfl⟩ := (hread vs).1 ⟨hvs, hclosed⟩
    obtain ⟨ts, right, rfl, hright, hts⟩ :=
      exists_tokenize_of_concat (e := '>') (by decide) (by decide) (by decide) hts' hts'Closed
    have htsClosed := (List.forall_mem_append.1 hts'Closed).1
    obtain ⟨hopen, hspec⟩ := (exists_cleanList_brackets_iff hwords hleft hright d).1 ⟨b, hlist, rfl⟩
    -- the address takes in all of the text, for otherwise its lower case would be shorter
    have hsub := (rawOf_wordsOf_sublist ts).trans (writtenOf_sublist_of_tokenize hts)
    have htext : b.spec = x := by
      refine Text.eq_of_sublist_of_lower_eq ?_ hlower
      rcases eq_or_of_bracketed hspec with h | h
      · exact h ▸ hsub
      · exact h ▸ List.nil_sublist x
    have hraw : rawOf (wordsOf ts) = x := by
      rcases eq_or_of_bracketed hspec with h | h
      · exact h.symm.trans htext
      · rw [← htext, h] at hsub
        rw [List.sublist_nil.1 hsub, ← h, htext]
    rw [htext, ← hraw, bracketed_eq_rawOf_iff left (raw_ne_nil_of_mem_wordsOf hts)] at hspec
    exact ⟨ts, hts, htsClosed, hopen, hspec, hraw⟩
  · rintro ⟨ts, hts, htsClosed, hopen, hcolon, hraw⟩
    obtain ⟨right, hright, hrightClosed, hconcat⟩ :=
      exists_tokenize_concat (c := '>') (by decide) (by decide) hts htsClosed
    obtain ⟨hwhole, hclosed⟩ := (hread _).2
      ⟨_, ⟨hconcat, by simpa [or_imp, forall_and] using ⟨htsClosed, hrightClosed⟩⟩, rfl⟩
    have hspec := (bracketed_eq_rawOf_iff left (raw_ne_nil_of_mem_wordsOf hts)).2 hcolon
    obtain ⟨b, hlist, heq⟩ :=
      (exists_cleanList_brackets_iff hwords hleft hright d).2 ⟨hopen, hspec⟩
    refine ⟨b, parseList_eq_pure_iff_cleanList.2 ⟨_, hwhole, hclosed, hlist⟩, ?_⟩
    rw [heq, hraw]

/-! ### As a group -/

/-- The tokens of a text that stands alone as a group: they are closed and a group in order, which
is all of the text. -/
structure StandsAsGroup (x : Text) (ts : List Token) : Prop where
  tokens : tokenize .parseHeader x = .ok ts
  closed : ∀ t ∈ ts, t.closed = true
  group : GroupInOrder ts
  text : sourceOf ts = x

/-- A list with one address that ends with a semicolon is a group, behind some commas and comments.
-/
theorem CleanList.exists_group {semicolon : Token}
    (h : CleanList .parseHeader (us ++ [semicolon]) [b]) (hsemi : semicolon.isSpecial ';' = true) :
    ∃ vs ws, us ++ [semicolon] = vs ++ ws ∧ CleanGroup .parseHeader ws b := by
  have hcomma := Token.isSpecial_eq_false hsemi (show ';' ≠ ',' by decide)
  have hcomment := Token.isComment_eq_false_of_isSpecial hsemi
  obtain ⟨vs, ws, hws, hvs, ⟨hu, hb⟩ | hgroup⟩ := h.exists_of_singleton hcomma hcomment
  · -- the semicolon would be inside angle brackets that are not closed
    rcases List.eq_nil_or_concat' ws with rfl | ⟨ws, w, rfl⟩
    · rw [List.append_nil] at hws
      simpa [hcomma, hcomment] using hvs semicolon (by simp [← hws])
    · rw [← List.append_assoc] at hws
      obtain ⟨-, rfl⟩ := List.append_singleton_inj.1 hws
      have hends : endsElement false semicolon = true := by simp [endsElement, hsemi]
      have hopen := (unbroken_append.1 hu).2.1 hends
      have hclosed := bracketAfterAll_of_mailboxesOf hb
      rw [bracketAfterAll_append, hopen] at hclosed
      simp [bracketAfter, Token.isSpecial_eq_false hsemi (show ';' ≠ '<' by decide),
        Token.isSpecial_eq_false hsemi (show ';' ≠ '>' by decide)] at hclosed
  · exact ⟨vs, ws, hws, hgroup⟩

/-- Nothing stands in front of tokens whose text is as long as all that was read. -/
theorem eq_nil_of_length_le_sourceOf {s : Strictness} {vs ws : List Token}
    (h : tokenize s x = .ok (vs ++ ws)) (hle : x.length ≤ (sourceOf ws).length) : vs = [] := by
  cases vs with
  | nil => rfl
  | cons v vs =>
    have hpos := List.length_pos_iff.2 (raw_ne_nil_of_tokensFrom h (u := v) (by simp))
    have hwritten := (writtenOf_sublist_of_tokenize h).length_le
    have hsource := (sourceOf_sublist ws).length_le
    simp only [writtenOf_append, writtenOf_cons, List.length_append] at hwritten
    omega

/-- A text that is all in its tokens does not begin with blanks. -/
theorem isBlankChar_head_of_sourceOf_eq {s : Strictness} (h : tokenize s x = .ok ts)
    (htext : sourceOf ts = x) : ∀ c ∈ x.head?, isBlankChar c = false := by
  intro c hc
  have hlength := congrArg List.length (tiles_of_tokenize h).eq_append
  have hsource := (sourceOf_sublist ts).length_le
  rw [List.length_append, ← htext] at hlength
  have hlead : (sourceOf ts).takeWhile isBlankChar = [] := by
    rw [← List.length_eq_zero_iff]
    omega
  obtain ⟨y, rfl⟩ := List.head?_eq_some_iff.1 hc
  simpa [htext] using hlead

/-- A text that ends with a semicolon is one address with that text exactly if it is one group.
Blanks in front of the group are part of the text too, and would be left out. -/
theorem exists_parseList_group_iff (hlast : x.getLast? = some ';') :
    (∃ b, Address.parseList .parseHeader (Run.strip isBlankChar x) = pure [b] ∧
      Text.lower b.spec = Text.lower x) ↔ ∃ ts, StandsAsGroup x ts := by
  constructor
  · rintro ⟨b, hb, hlower⟩
    obtain ⟨z, rfl⟩ := List.getLast?_eq_some_iff.1 hlast
    have hsub := Run.strip_sublist isBlankChar (z ++ [';'])
    obtain ⟨vs, hvs, hclosed, hlist⟩ := parseList_eq_pure_iff_cleanList.1 hb
    have hstrip : Run.strip isBlankChar (z ++ [';']) = z.dropWhile isBlankChar ++ [';'] :=
      Run.strip_append_cons z [] (by decide)
    rw [hstrip] at hvs hsub
    obtain ⟨us, semicolon, rfl, hsemi, -⟩ :=
      exists_tokenize_of_concat (e := ';') (by decide) (by decide) (by decide) hvs hclosed
    obtain ⟨vs, ws, hws, hgroup⟩ := hlist.exists_group hsemi
    rw [hws] at hvs hclosed
    obtain ⟨horder, rfl⟩ := cleanGroup_parseHeader_iff.1 hgroup
    -- the group takes in all of the text, for otherwise its lower case would be shorter
    have hsource := (sourceOf_sublist ws).trans (List.sublist_append_right (writtenOf vs) _)
    have hwritten := writtenOf_sublist_of_tokenize hvs
    rw [writtenOf_append] at hwritten
    have htext := Text.eq_of_sublist_of_lower_eq ((hsource.trans hwritten).trans hsub) hlower
    have hwhole : z.dropWhile isBlankChar ++ [';'] = z ++ [';'] :=
      hsub.antisymm (htext ▸ hsource.trans hwritten)
    rw [hwhole] at hvs
    obtain rfl := eq_nil_of_length_le_sourceOf hvs (congrArg List.length htext).ge
    exact ⟨ws, hvs, hclosed, horder, htext⟩
  · rintro ⟨ts, hts, hclosed, hgroup, htext⟩
    have hlist := CleanList.group (cleanGroup_parseHeader_iff.2 ⟨hgroup, rfl⟩)
      (.last trivial rfl : CleanList .parseHeader [] [])
    rw [List.append_nil] at hlist
    have hend : ∀ c ∈ x.getLast?, isBlankChar c = false := by
      simp [hlast, isBlankChar]
    rw [Run.strip_eq_self_of_ends (isBlankChar_head_of_sourceOf_eq hts htext) hend]
    exact ⟨groupOf ts, parseList_eq_pure_iff_cleanList.2 ⟨ts, hts, hclosed, hlist⟩,
      by rw [groupOf, htext]⟩

/-! ### Without brackets -/

/-- If no token has blanks in it, leaving out the blanks leaves just the tokens. -/
theorem filter_writtenOf (hraw : ∀ t ∈ ts, ∀ c ∈ t.raw, isBlankChar c = false)
    (hgap : ∀ t ∈ ts, ∀ c ∈ t.gap, isBlankChar c = true) :
    (writtenOf ts).filter (!isBlankChar ·) = rawOf ts := by
  induction ts with
  | nil => rfl
  | cons t ts ih =>
    rw [List.forall_mem_cons] at hraw hgap
    have hkeep : t.raw.filter (!isBlankChar ·) = t.raw :=
      List.filter_eq_self.2 fun c hc ↦ by simp [hraw.1 c hc]
    have hdrop : t.gap.filter (!isBlankChar ·) = [] :=
      List.filter_eq_nil_iff.2 fun c hc ↦ by simp [hgap.1 c hc]
    rw [writtenOf_cons, List.filter_append, List.filter_append, hkeep, hdrop, ih hraw.2 hgap.2,
      List.append_nil]
    rfl

/-- The blanks of such a text are in front of its tokens and between them. -/
theorem filter_of_tokenize {s : Strictness} (h : tokenize s x = .ok ts)
    (hraw : ∀ t ∈ ts, ∀ c ∈ t.raw, isBlankChar c = false) :
    x.filter (!isBlankChar ·) = rawOf ts := by
  have hlead : (x.takeWhile isBlankChar).filter (!isBlankChar ·) = [] :=
    List.filter_eq_nil_iff.2 fun c hc ↦ by simp [List.mem_takeWhile_imp hc]
  rw [← filter_writtenOf hraw fun t ht ↦ blank_of_tokensFrom h ht]
  nth_rewrite 1 [(tiles_of_tokenize h).eq_append]
  rw [List.filter_append, hlead, List.nil_append]

/-- As no token is empty, tokens are without text only if there are none. -/
theorem rawOf_eq_nil_iff_of_tokenize {s : Strictness} (h : tokenize s x = .ok ts) :
    rawOf ts = [] ↔ ts = [] := by
  constructor
  · intro hnil
    cases ts with
    | nil => rfl
    | cons t ts =>
      have hne := raw_ne_nil_of_tokensFrom h (u := t) (by simp)
      simp [rawOf, hne] at hnil
  · rintro rfl
    rfl

/-- The special characters that an address without brackets does not have. -/
def bracketing : Text := ['(', ')', '<', '>', ',', ';', ':', '"', '[', ']']

/-- A text of atoms, signs and periods is one address that leaves out its blanks, unless there is
nothing else. -/
theorem parseList_plain (hx : ∀ c ∈ x, c ∉ bracketing) :
    ∃ name, Address.parseList .parseHeader x =
      pure (if x.filter (!isBlankChar ·) = [] then []
        else [⟨x.filter (!isBlankChar ·), name⟩]) := by
  obtain ⟨ts, hts, hkinds⟩ := exists_tokenize_plain fun c hc hmem ↦
    hx c hc (Run.forall_mem_of_all (P := fun d ↦ d ∈ bracketing) (by decide) c hmem)
  have hspecial : ∀ {c : Char}, c ∈ bracketing → ∀ t ∈ ts, t.isSpecial c = false := by
    intro c hc t ht
    rcases (hkinds t ht).2 with hatom | ⟨d, hd, -, hk⟩
    · simp [Token.isSpecial, hatom]
    · exact Token.isSpecial_eq_false hk fun hdc ↦ hx d hd (hdc ▸ hc)
  have hcomment : ∀ t ∈ ts, t.isComment = false := by
    intro t ht
    rcases (hkinds t ht).2 with hatom | ⟨d, -, -, hk⟩
    · simp [Token.isComment, hatom]
    · exact Token.isComment_eq_false_of_isSpecial hk
  have hraw : ∀ t ∈ ts, ∀ c ∈ t.raw, isBlankChar c = false := by
    intro t ht
    rcases (hkinds t ht).2 with hatom | ⟨d, -, -, hk⟩
    · exact isBlankChar_eq_false_of_atom hts ht hatom
    · have hhead := isBlankChar_head_raw hts ht
      rw [raw_of_tokensFrom hts ht hk] at hhead ⊢
      simpa using hhead
  have hwords := wordsOf_eq_self hcomment
  -- without separators and brackets all tokens are one mailbox
  have hu : Unbroken (endsElement false) false ts := (unbroken_of_forall
    (fun t ht ↦ (isSeparator_endsElement false).eq_false fun c hc ↦
      hspecial (Run.forall_mem_of_all (P := fun d ↦ d ∈ bracketing) (by decide) c hc) t ht)
    (hspecial (by decide)) (hspecial (by decide))).1
  have hlist := mailboxesOf_parseHeader_plain (hwords.symm ▸ hspecial (by decide))
  refine ⟨nameOfComments ts, parseList_eq_pure_iff_cleanList.2
    ⟨ts, hts, fun t ht ↦ (hkinds t ht).1, .last hu ?_⟩⟩
  rw [hlist, hwords, filter_of_tokenize hts hraw]
  simp only [rawOf_eq_nil_iff_of_tokenize hts]

/-- A text of atoms, signs and periods is one address with that text exactly if it is there and has
no blanks. -/
theorem exists_parseList_plain_iff (hx : ∀ c ∈ x, c ∉ bracketing) :
    (∃ b, Address.parseList .parseHeader (Run.strip isBlankChar x) = pure [b] ∧
      Text.lower b.spec = Text.lower x) ↔ x ≠ [] ∧ ∀ c ∈ x, isBlankChar c = false := by
  have hsub := Run.strip_sublist isBlankChar x
  obtain ⟨name, hread⟩ := parseList_plain fun c hc ↦ hx c (hsub.subset hc)
  rw [hread]
  constructor
  · rintro ⟨b, hb, hlower⟩
    have hb := pure_eq_pure_iff.1 hb
    split at hb
    · cases hb
    · rename_i hne
      cases hb
      have htext := Text.eq_of_sublist_of_lower_eq (List.filter_sublist.trans hsub) hlower
      rw [htext] at hne
      refine ⟨hne, fun c hc ↦ ?_⟩
      rw [← htext] at hc
      simpa using (List.mem_filter.1 hc).2
  · rintro ⟨hne, hblank⟩
    have hkeep : x.filter (!isBlankChar ·) = x :=
      List.filter_eq_self.2 fun c hc ↦ by simp [hblank c hc]
    rw [Run.strip_eq_self hblank, hkeep, if_neg hne]
    exact ⟨_, rfl, rfl⟩

/-! ### Addresses -/

namespace Address

/-- What is written without brackets has none of the characters that would call for them. -/
theorem not_mem_bracketing_of_plain (h : a.isGroup = false)
    (hbrackets : needsBrackets a.spec = false) : ∀ c ∈ a.spec, c ∉ bracketing := by
  rw [isGroup] at h
  rw [needsBrackets, h] at hbrackets
  simpa [bracketing] using hbrackets

variable [MultiByte.Codec]

/-- The address is read alone as itself, from what it is written as, with nothing to put right. A
group is written as it is. Any other address stands in angle brackets if it has a name or needs
them; if not, it must not be empty and have no blanks. -/
inductive StandsAlone (a : Address) : Prop
  | group {ts : List Token} : a.isGroup = true → StandsAsGroup a.spec ts → StandsAlone a
  | brackets {ts : List Token} : a.isGroup = false →
      (a.encodedPersonal ≠ none ∨ needsBrackets a.spec = true) → StandsInBrackets a.spec ts →
      StandsAlone a
  | plain : a.isGroup = false → a.encodedPersonal = none → needsBrackets a.spec = false →
      a.spec ≠ [] → (∀ c ∈ a.spec, isBlankChar c = false) → StandsAlone a

/-- A group is written as it is. -/
theorem format_of_isGroup (h : a.isGroup = true) : a.format = a.spec := by
  simp [format, render, h]

/-- Without a name, an address that needs no brackets is written as it is. -/
theorem format_of_plain (h : a.isGroup = false) (hname : a.encodedPersonal = none)
    (hbrackets : needsBrackets a.spec = false) : a.format = a.spec := by
  simp [format, render, h, hname, formatSpec, hbrackets]

/-- In angle brackets an address stands behind the words of its name. -/
theorem exists_format_eq_of_brackets (h : a.isGroup = false)
    (hbrackets : a.encodedPersonal ≠ none ∨ needsBrackets a.spec = true) :
    ∃ pre P, a.format = pre ++ '<' :: (a.spec ++ ['>']) ∧ tokenize .parseHeader pre = .ok P ∧
      (∀ t ∈ P, t.closed = true ∧ t.isWord = true) ∧
      ∀ c ∈ pre.head?, isBlankChar c = false := by
  cases hname : a.encodedPersonal with
  | some name =>
    obtain ⟨P, hP, hwords⟩ := exists_tokenize_quotePhrase name
    refine ⟨quotePhrase name ++ [' '], P, by simp [format, render, h, hname], hP, hwords, ?_⟩
    have hne : quotePhrase name ≠ [] := by
      rw [quotePhrase]
      split <;> simp_all [inQuotes]
    rw [List.head?_append_of_ne_nil _ hne]
    exact isBlankChar_head_quotePhrase name
  | none =>
    have hneeds := hbrackets.resolve_left (by simp [hname])
    refine ⟨[], [], by simp [format, render, h, hname, formatSpec, hneeds], ?_, by simp, by simp⟩
    rw [tokenize, List.dropWhile_nil, tokensFrom]

/-- The condition for a group is the one of the three that can hold of it. -/
theorem standsAlone_iff_of_isGroup (h : a.isGroup = true) :
    a.StandsAlone ↔ ∃ ts, StandsAsGroup a.spec ts := by
  constructor
  · rintro (⟨-, hts⟩ | ⟨hgroup, -, -⟩ | ⟨hgroup, -, -, -, -⟩)
    · exact ⟨_, hts⟩
    all_goals
      rw [h] at hgroup
      cases hgroup
  · rintro ⟨ts, hts⟩
    exact .group h hts

/-- The condition for an address in angle brackets is the one of the three that can hold of it. -/
theorem standsAlone_iff_of_brackets (h : a.isGroup = false)
    (hbrackets : a.encodedPersonal ≠ none ∨ needsBrackets a.spec = true) :
    a.StandsAlone ↔ ∃ ts, StandsInBrackets a.spec ts := by
  constructor
  · rintro (⟨hgroup, -⟩ | ⟨-, -, hts⟩ | ⟨-, hname, hneeds, -, -⟩)
    · rw [h] at hgroup
      cases hgroup
    · exact ⟨_, hts⟩
    · simp [hname, hneeds] at hbrackets
  · rintro ⟨ts, hts⟩
    exact .brackets h hbrackets hts

/-- The condition for an address without brackets is the one of the three that can hold of it. -/
theorem standsAlone_iff_of_plain (h : a.isGroup = false) (hname : a.encodedPersonal = none)
    (hneeds : needsBrackets a.spec = false) :
    a.StandsAlone ↔ a.spec ≠ [] ∧ ∀ c ∈ a.spec, isBlankChar c = false := by
  constructor
  · rintro (⟨hgroup, -⟩ | ⟨-, hbrackets, -⟩ | ⟨-, -, -, hne, hblank⟩)
    · rw [h] at hgroup
      cases hgroup
    · simp [hname, hneeds] at hbrackets
    · exact ⟨hne, hblank⟩
  · rintro ⟨hne, hblank⟩
    exact .plain h hname hneeds hne hblank

/-- **An address is read alone as itself, from what it is written as, exactly if it stands alone.**
White space in its text, what its brackets cannot hold and what is left open are all that keep it
from that. -/
theorem exists_parseList_format_iff :
    (∃ b, parseList .parseHeader (Run.strip isBlankChar a.format) = pure [b] ∧ (b == a) = true) ↔
      a.StandsAlone := by
  have hequal (b : Address) : (b == a) = true ↔ Text.lower b.spec = Text.lower a.spec := by
    show (b.key == a.key) = true ↔ b.key = a.key
    exact beq_iff_eq
  simp only [hequal]
  cases hgroup : a.isGroup with
  | true =>
    have hlast : a.spec.getLast? = some ';' := by
      rw [isGroup, isGroupText, Bool.and_eq_true, Bool.and_eq_true, beq_iff_eq] at hgroup
      exact hgroup.1.1
    rw [standsAlone_iff_of_isGroup hgroup, format_of_isGroup hgroup,
      exists_parseList_group_iff hlast]
  | false =>
    by_cases hbrackets : a.encodedPersonal ≠ none ∨ needsBrackets a.spec = true
    · obtain ⟨pre, P, hformat, hP, hwords, hhead⟩ := exists_format_eq_of_brackets hgroup hbrackets
      have hstrip : Run.strip isBlankChar a.format = a.format := by
        rw [hformat]
        refine Run.strip_eq_self_of_ends ?_ ?_
        · cases pre with
          | nil => simp [isBlankChar]
          | cons c pre => simpa using hhead
        · rw [← List.cons_append, ← List.append_assoc, List.getLast?_concat]
          simp [isBlankChar]
      rw [standsAlone_iff_of_brackets hgroup hbrackets, hstrip, hformat,
        exists_parseList_brackets_iff hP hwords]
    · simp only [ne_eq, not_or, not_not, Bool.not_eq_true] at hbrackets
      obtain ⟨hname, hneeds⟩ := hbrackets
      rw [standsAlone_iff_of_plain hgroup hname hneeds, format_of_plain hgroup hname hneeds,
        exists_parseList_plain_iff (not_mem_bracketing_of_plain hgroup hneeds)]

end Address

end InternetMail
