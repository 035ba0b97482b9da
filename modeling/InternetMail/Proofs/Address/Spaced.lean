import InternetMail.Proofs.Address.Joining
import InternetMail.Proofs.Address.Rendering

/-!
# Addresses with only white space between them

Between the strict reading and that of incoming mail, white space separates bare addresses as a
comma does (`outcome_parseList_spaced`). A blank is such a separator if neither of the tokens beside
it is a special character. In an addr-spec one of two tokens always is, whatever blanks stand in it,
and its first and last tokens never are, so that the runs between such blanks are the addr-specs
again (`gapRuns_flatten`).

`SpacedList` says this of tokens: addr-specs and commas, with a comma or a blank after each
addr-spec but the last. A text is put in front of others with its tokens as they are, and theirs
behind the blanks between (`exists_tokenize_append`).

Putting two texts next to each other with a blank between them is the step that everything goes by
(`ReadsSpaced.append`): the tokens of both are those of the whole, but the last token of the first
has other blanks after it and the tokens of the second stand further on. Neither matters to what is
read (`Relocates`). A text with commas in it may be put next to another one as well, and so
`SpacedList` has both separators, though the result is about blanks.
-/

namespace InternetMail

open Reported Grammar

variable {us ts : List Token} {as bs : List Address}

/-! ### Runs between blanks -/

/-- A blank stands between the two stretches. -/
def Gapped (us ts : List Token) : Prop :=
  ∀ t ∈ us.getLast?, ∀ u ∈ ts.head?, t.stop < u.start

/-- Whether there is a gap is seen from the last token of the first part. -/
theorem Gapped.right_of_append {vs : List Token} (h : Gapped (vs ++ us) ts) : Gapped us ts :=
  fun t ht u hu ↦ h t (by rw [List.getLast?_append, Option.mem_def.1 ht]; rfl) u hu

/-- A token that is no special character in particular is none at all. -/
theorem Token.isAnySpecial_eq_false {t : Token} (h : ∀ c, t.isSpecial c = false) :
    t.isAnySpecial = false := by
  unfold isAnySpecial
  split
  · rename_i c hkind
    have hc := h c
    rw [isSpecial_iff.2 hkind] at hc
    cases hc
  · rfl

/-- An addr-spec begins with a word. -/
theorem Grammar.AddrSpec.exists_eq_cons (h : AddrSpec ts) :
    ∃ t us, ts = t :: us ∧ t.isWord = true := by
  obtain ⟨hname, -, -⟩ := h
  cases hname with
  | item ht => exact ⟨_, _, rfl, ht⟩
  | cons ht _ _ => exact ⟨_, _, rfl, ht⟩

/-- A run goes on while one of two tokens is special, and ends at the first gap between two that are
not. -/
theorem gapRuns_append {t u : Token} (hus : (us ++ [t]).IsChain OneSpecial)
    (hgap : t.stop < u.start) (ht : t.isAnySpecial = false) (hu : u.isAnySpecial = false) :
    gapRuns (us ++ t :: u :: ts) = (us ++ [t]) :: gapRuns (u :: ts) := by
  induction us with
  | nil => simp [gapRuns, hgap, ht, hu]
  | cons v us ih =>
    have hrest := ih hus.tail
    obtain ⟨w, ws, hws⟩ : ∃ w ws, us ++ [t] = w :: ws := List.exists_cons_of_ne_nil (by simp)
    have hwhole : us ++ t :: u :: ts = w :: (ws ++ u :: ts) := by
      rw [← List.cons_append, ← hws, List.append_assoc, List.singleton_append]
    rw [List.cons_append, hws] at hus
    have hone := (List.isChain_cons_cons.1 hus).1
    have hnot : ¬(decide (v.stop < w.start) && !v.isAnySpecial && !w.isAnySpecial) = true := by
      rcases hone with h | h <;> simp [h]
    rw [hwhole] at hrest
    rw [List.cons_append, hwhole, gapRuns, if_neg hnot, hrest]
    rfl

/-- Addr-specs with blanks between them are the runs between these blanks. -/
theorem gapRuns_flatten {specs : List (List Token)} (hne : specs ≠ [])
    (hspecs : ∀ spec ∈ specs, AddrSpec spec) (hgaps : specs.IsChain Gapped) :
    gapRuns specs.flatten = specs := by
  induction specs with
  | nil => exact absurd rfl hne
  | cons spec specs ih =>
    rw [List.forall_mem_cons] at hspecs
    cases specs with
    | nil =>
      rw [List.flatten_singleton, gapRuns_of_isChain hspecs.1.ne_nil hspecs.1.isChain_oneSpecial]
    | cons next specs =>
      have hrest := ih (by simp) hspecs.2 hgaps.tail
      obtain ⟨us, t, rfl, ht⟩ := hspecs.1.exists_eq_concat
      obtain ⟨u, vs, rfl, hu⟩ := (hspecs.2 next List.mem_cons_self).exists_eq_cons
      have hgap : t.stop < u.start := (List.isChain_cons_cons.1 hgaps).1 t (by simp) u rfl
      rw [List.flatten_cons, List.cons_append] at hrest
      rw [List.flatten_cons, List.flatten_cons, List.cons_append, List.append_assoc,
        List.singleton_append, gapRuns_append hspecs.1.isChain_oneSpecial hgap
          (Token.isAnySpecial_eq_false (Token.isSpecial_eq_false_of_isSubDomain ht))
          (Token.isAnySpecial_eq_false (Token.isSpecial_eq_false_of_isWord hu)), hrest]

/-- The address of an addr-spec. -/
def specAddress (ts : List Token) : Address :=
  ⟨rawOf ts, .absent⟩

/-- There is no comment in an addr-spec. -/
theorem Grammar.AddrSpec.isComment_eq_false (h : AddrSpec ts) :
    ∀ t ∈ ts, t.isComment = false := by
  obtain ⟨hname, hsign, hdomain⟩ := h
  have hitem : ∀ {isItem : Token → Bool} {us : List Token}, Dotted isItem us →
      (∀ t, isItem t = true → t.isComment = false) → ∀ t ∈ us, t.isComment = false :=
    fun hus hitem t ht ↦ (hus.mem t ht).elim (hitem t) Token.isComment_eq_false_of_isSpecial
  refine List.forall_mem_append.2 ⟨hitem hname fun t ht ↦ ?_, List.forall_mem_cons.2
    ⟨Token.isComment_eq_false_of_isSpecial hsign, hitem hdomain fun t ht ↦ ?_⟩⟩
  · cases hk : t.kind <;> simp_all [Token.isWord, Token.isComment]
  · cases hk : t.kind <;> simp_all [Token.isSubDomain, Token.isComment]

/-- Addr-specs with blanks between them are read one by one. -/
theorem mailboxesOf_flatten {specs : List (List Token)} (hspecs : ∀ spec ∈ specs, AddrSpec spec)
    (hgaps : specs.IsChain Gapped) :
    mailboxesOf .nonStrict specs.flatten = pure (specs.map specAddress) := by
  have hwords : ∀ t ∈ specs.flatten, t.isComment = false := by
    intro t ht
    obtain ⟨spec, hspec, ht⟩ := List.mem_flatten.1 ht
    exact (hspecs spec hspec).isComment_eq_false t ht
  match specs with
  | [] => rfl
  | [spec] =>
    have hspec := hspecs spec (by simp)
    rw [List.flatten_singleton] at hwords ⊢
    have hmailbox : Mailbox (wordsOf spec) [] spec := by
      rw [wordsOf_eq_self hwords]
      exact .bare hspec
    rw [mailboxesOf_of_mailbox hmailbox, mailboxAddress, nameOfComments_eq_absent hwords]
    rfl
  -- at least two addr-specs: no bracket, and a sign in each run
  | spec :: next :: specs =>
    have hbracket : (spec :: next :: specs).flatten.dropWhile (!·.isSpecial '<') = [] := by
      rw [Run.dropWhile_eq_nil_iff]
      intro t ht
      obtain ⟨spec', hspec, ht⟩ := List.mem_flatten.1 ht
      simp [(hspecs spec' hspec).isSpecial_eq_false (c := '<') (by decide) (by decide) t ht]
    have hsigns : (spec :: next :: specs).all (·.any (·.isSpecial '@')) = true := by
      rw [List.all_eq_true]
      intro spec' hspec
      obtain ⟨-, hsign, -⟩ := hspecs spec' hspec
      simp [hsign]
    have hruns : addressRuns? (spec :: next :: specs).flatten = some (spec :: next :: specs) := by
      rw [addressRuns?, gapRuns_flatten (by simp) hspecs hgaps]
      simp only [hsigns]
      simp
    have hne : (spec :: next :: specs).flatten.isEmpty = false := by
      simp [(hspecs spec (by simp)).ne_nil]
    rw [mailboxesOf, wordsOf_eq_self hwords]
    simp only [hne, hbracket, hruns, Bool.false_eq_true, if_false, if_true]
    rw [mapM_eq_pure_iff, List.forall₂_map_right_iff, List.forall₂_same]
    intro spec' hspec
    rw [addrSpec_of_addrSpec (hspecs spec' hspec)]
    rfl

/-! ### Addr-specs and commas -/

/-- Tokens of addr-specs and commas, and the addresses that they are: after an addr-spec the list
ends, or there is a comma or a blank. -/
inductive SpacedList : List Token → List Address → Prop
  | nil : SpacedList [] []
  | comma {comma : Token} {ts : List Token} {as : List Address} : comma.isSpecial ',' = true →
      SpacedList ts as → SpacedList (comma :: ts) as
  | spec {us ts : List Token} {as : List Address} : AddrSpec us →
      (∀ u ∈ ts.head?, u.isSpecial ',' = true ∨ Gapped us [u]) → SpacedList ts as →
      SpacedList (us ++ ts) (specAddress us :: as)

/-- Addr-specs that were read before a comma or the end are the mailboxes of one element. -/
theorem SpacedList.cleanList (h : SpacedList ts as) (specs : List (List Token))
    (hspecs : ∀ spec ∈ specs, AddrSpec spec) (hgaps : specs.IsChain Gapped)
    (hlast : ∀ spec ∈ specs.getLast?, ∀ u ∈ ts.head?, u.isSpecial ',' = true ∨ Gapped spec [u]) :
    CleanList .nonStrict (specs.flatten ++ ts) (specs.map specAddress ++ as) := by
  have hunbroken : ∀ {specs : List (List Token)}, (∀ spec ∈ specs, AddrSpec spec) →
      Unbroken (endsElement false) false specs.flatten ∧
        bracketAfterAll false specs.flatten = false := by
    intro specs hspecs
    induction specs with
    | nil => exact ⟨trivial, rfl⟩
    | cons spec specs ih =>
      rw [List.forall_mem_cons] at hspecs
      obtain ⟨hu, hclosed⟩ := hspecs.1.unbroken (isSeparator_endsElement false)
      rw [List.flatten_cons, unbroken_append, bracketAfterAll_append, hclosed]
      exact ⟨⟨hu, (ih hspecs.2).1⟩, (ih hspecs.2).2⟩
  induction h generalizing specs with
  | nil =>
    rw [List.append_nil, List.append_nil]
    exact .last (hunbroken hspecs).1 (mailboxesOf_flatten hspecs hgaps)
  | comma hcomma _ ih =>
    exact .comma (hunbroken hspecs).1 (hunbroken hspecs).2 hcomma
      (mailboxesOf_flatten hspecs hgaps) (ih [] (by simp) (by simp) (by simp))
  | @spec us ts as hus hnext _ ih =>
    have hmore := ih (specs ++ [us]) ?_ ?_ (by simpa using hnext)
    · simpa using hmore
    · simpa [or_imp, forall_and] using ⟨hspecs, hus⟩
    · refine hgaps.append (.singleton us) fun spec hspec _ hus' t ht u hu ↦ ?_
      cases hus'
      -- an addr-spec does not begin with a comma
      obtain ⟨v, vs, rfl, hv⟩ := hus.exists_eq_cons
      obtain rfl : v = u := by simpa using hu
      refine ((hlast spec hspec v rfl).resolve_left ?_) t ht v rfl
      simp [Token.isSpecial_eq_false_of_isWord hv]

/-- Where the tokens stand and the blanks after them do not matter. -/
theorem Relocates.spacedList_map {d : Nat} {f : Token → Token} (hf : Relocates d f) :
    SpacedList (ts.map f) as ↔ SpacedList ts as := by
  -- neither the addresses nor the gaps depend on the place
  have haddress : ∀ us, specAddress (us.map f) = specAddress us := by
    intro us
    rw [specAddress, specAddress, hf.rawOf_map]
  have hnext : ∀ us ts : List Token,
      (∀ u ∈ (ts.map f).head?, u.isSpecial ',' = true ∨ Gapped (us.map f) [u]) ↔
        ∀ u ∈ ts.head?, u.isSpecial ',' = true ∨ Gapped us [u] := by
    intro us ts
    simp [Gapped, List.head?_map, List.getLast?_map, hf.isSpecial, hf.stop_lt_start_iff]
  constructor
  · generalize hws : ts.map f = ws
    intro h
    induction h generalizing ts with
    | nil =>
      obtain rfl := List.map_eq_nil_iff.1 hws
      exact .nil
    | comma hcomma _ ih =>
      obtain ⟨comma, ts, rfl, rfl, hts⟩ := List.map_eq_cons_iff.1 hws
      exact .comma ((hf.isSpecial ',' comma).symm.trans hcomma) (ih hts)
    | spec hus hparted _ ih =>
      obtain ⟨us, ts, rfl, rfl, rfl⟩ := List.map_eq_append_iff.1 hws
      rw [haddress]
      exact .spec (hus.congr (hf.sameKinds us).symm) ((hnext us ts).1 hparted) (ih rfl)
  · intro h
    induction h with
    | nil => exact .nil
    | comma hcomma _ ih => exact .comma ((hf.isSpecial ',' _).trans hcomma) ih
    | @spec us ts _ hus hparted _ ih =>
      rw [List.map_append, ← haddress]
      exact .spec (hus.congr (hf.sameKinds us)) ((hnext us ts).2 hparted) ih

/-- Behind a blank a list goes on with another one. -/
theorem SpacedList.append (hus : SpacedList us as) (hts : SpacedList ts bs)
    (hgap : Gapped us ts) : SpacedList (us ++ ts) (as ++ bs) := by
  induction hus with
  | nil => exact hts
  | @comma comma us as hcomma _ ih =>
    have hgap : Gapped ([comma] ++ us) ts := hgap
    exact .comma hcomma (ih hgap.right_of_append)
  | @spec vs us as hvs hparted _ ih =>
    rw [List.append_assoc]
    refine .spec hvs (fun u hu ↦ ?_) (ih hgap.right_of_append)
    cases us with
    | nil =>
      -- the addr-spec is the last one, and the blank is that between the lists
      rw [List.append_nil] at hgap
      refine Or.inr fun t ht u' hu' ↦ hgap t ht u' ?_
      cases hu'
      exact hu
    | cons v us => exact hparted u hu

/-! ### What the strict reading finds -/

/-- A list without comments, angle brackets and groups is addr-specs and commas. -/
theorem StrictList.spacedList (h : StrictList ts as)
    (hplain : ∀ t ∈ ts, t.isComment = false ∧ t.isSpecial '<' = false)
    (hspelled : ∀ t ∈ ts, t.Spelled) (hgroup : ∀ a ∈ as, a.isGroup = false) :
    SpacedList ts as := by
  -- without comments and brackets a mailbox is its addr-spec
  have hmailbox : ∀ {us phrase path : List Token},
      (∀ t ∈ us, t.isComment = false ∧ t.isSpecial '<' = false) →
      Mailbox (wordsOf us) phrase path →
      AddrSpec us ∧ mailboxAddress us phrase path = specAddress us := by
    intro us phrase path hus h
    have hcomments : ∀ t ∈ us, t.isComment = false := fun t ht ↦ (hus t ht).1
    rw [wordsOf_eq_self hcomments, mailbox_iff_of_forall fun t ht ↦ (hus t ht).2] at h
    obtain ⟨hspec, rfl, rfl⟩ := h
    refine ⟨hspec, ?_⟩
    rw [mailboxAddress, nameOfComments_eq_absent hcomments]
    rfl
  induction h with
  | none hws =>
    rw [wordsOf_eq_self fun t ht ↦ (hplain t ht).1] at hws
    subst hws
    exact .nil
  | @comma us ts comma as hws hcomma _ ih =>
    simp only [List.forall_mem_append, List.forall_mem_cons] at hplain hspelled
    rw [wordsOf_eq_self fun t ht ↦ (hplain.1 t ht).1] at hws
    subst hws
    exact .comma hcomma (ih hplain.2.2 hspelled.2.2 hgroup)
  | @last ts phrase path h =>
    obtain ⟨hspec, haddress⟩ := hmailbox hplain h
    have hlist : SpacedList (ts ++ []) [specAddress ts] := .spec hspec (by simp) .nil
    rwa [List.append_nil, ← haddress] at hlist
  | @mailbox us ts phrase path comma as h hcomma _ ih =>
    simp only [List.forall_mem_append, List.forall_mem_cons] at hplain hspelled hgroup
    obtain ⟨hspec, haddress⟩ := hmailbox hplain.1 h
    rw [haddress]
    refine .spec hspec ?_ (.comma hcomma (ih hplain.2.2 hspelled.2.2 hgroup.2))
    rintro _ ⟨⟩
    exact Or.inl hcomma
  | @group us ts as h _ _ =>
    rw [List.forall_mem_append] at hspelled
    rw [List.forall_mem_cons] at hgroup
    -- a group would have been told to be one
    have := h.isGroupText hspelled.1
    rw [← Bool.not_eq_true] at hgroup
    exact absurd this hgroup.1

/-! ### Texts -/

/-- Blanks after a token move the next one away from it. -/
theorem Consecutive.stop_lt_start {position : Nat} {t u : Token}
    (h : Consecutive position (us ++ t :: u :: ts)) (hgap : t.gap ≠ []) : t.stop < u.start := by
  have ht := h.start_eq
  rw [← List.singleton_append, ← List.append_assoc] at h
  have hu := h.start_eq
  obtain ⟨c, gap, hgap⟩ := List.exists_cons_of_ne_nil hgap
  have hpos := Char.utf8Size_pos c
  simp only [writtenOf_append, writtenOf_cons, writtenOf_nil, Text.utf8Size_append, hgap,
    Text.utf8Size_cons, Text.utf8Size_nil] at hu
  rw [Token.stop]
  omega

variable {s : Strictness} {x sep y : Text}

/-- Behind blanks the tokens of a text follow on those of another one. -/
theorem exists_tokenize_append (hx : tokenize s x = .ok us) (husClosed : ∀ u ∈ us, u.closed = true)
    (hus : us ≠ []) (hy : tokenize s y = .ok ts) (htsClosed : ∀ u ∈ ts, u.closed = true)
    (hsep : ∀ c ∈ sep, isBlankChar c = true) (hne : sep ≠ []) :
    ∃ ws w gap d, us = ws ++ [w] ∧ gap ≠ [] ∧
      tokenize s (x ++ (sep ++ y)) = .ok (ws ++ w.before gap :: ts.map (Token.moved d)) := by
  obtain ⟨lead, x, rfl, hlead, hxhead⟩ := exists_blanks_append x
  obtain ⟨lead', z, rfl, hlead', hzhead⟩ := exists_blanks_append y
  rw [tokenize_append hlead hxhead] at hx
  rw [tokenize_append hlead' hzhead] at hy
  have hnil : x ≠ [] := by
    rintro rfl
    rw [tokensFrom] at hx
    cases hx
    exact hus rfl
  -- the last token of the first text ends at the first blank
  have hends : EndsAtom (sep ++ lead' ++ z) := by
    obtain ⟨e, sep, rfl⟩ := List.exists_cons_of_ne_nil hne
    rintro _ ⟨⟩
    rw [hsep e List.mem_cons_self, Bool.true_or]
  obtain ⟨ws, w, rfl, hwhole⟩ := tokensFrom_append hx husClosed hnil 0
    (List.forall_mem_append.2 ⟨hsep, hlead'⟩) hzhead hends
  obtain ⟨hrest, -⟩ := (tokensFrom_add_eq_ok_iff (Text.utf8Size lead')
    (Text.utf8Size lead + Text.utf8Size x + Text.utf8Size sep)).2 ⟨ts, ⟨hy, htsClosed⟩, rfl⟩
  -- the second text begins where the first and the blanks end
  have hposition : Text.utf8Size lead' +
      (Text.utf8Size lead + Text.utf8Size x + Text.utf8Size sep) =
      Text.utf8Size lead + 0 + Text.utf8Size (x ++ (sep ++ lead')) := by
    simp only [Text.utf8Size_append]
    omega
  have hzero : Token.moved 0 = id := rfl
  have hhead : ∀ c ∈ (x ++ (sep ++ lead' ++ z)).head?, isBlankChar c = false := by
    obtain ⟨e, x, rfl⟩ := List.exists_cons_of_ne_nil hnil
    simpa using hxhead
  rw [hposition] at hrest
  rw [hrest, hzero, List.map_id, Nat.add_zero] at hwhole
  refine ⟨ws, w, w.gap ++ (sep ++ lead'),
    Text.utf8Size lead + Text.utf8Size x + Text.utf8Size sep, rfl, by simp [hne], ?_⟩
  rw [List.append_assoc, ← List.append_assoc sep, tokenize_append hlead hhead, hwhole]
  simp [Except.map]

/-- The text is taken apart into addr-specs and commas. -/
def ReadsSpaced (x : Text) (as : List Address) : Prop :=
  ∃ ts, tokenize .nonStrict x = .ok ts ∧ SpacedList ts as

/-- Nothing but the empty list is made up of no tokens. -/
theorem SpacedList.eq_nil (h : SpacedList [] as) : as = [] := by
  generalize hws : ([] : List Token) = ws at h
  cases h with
  | nil => rfl
  | comma => cases hws
  | spec hus => exact absurd (List.append_eq_nil_iff.1 hws.symm).1 hus.ne_nil

/-- **Two texts with blanks between them** are read as the addresses of both, one after the other.
-/
theorem ReadsSpaced.append (hx : ReadsSpaced x as) (has : as ≠ []) (hy : ReadsSpaced y bs)
    (hsep : ∀ c ∈ sep, isBlankChar c = true) (hne : sep ≠ []) :
    ReadsSpaced (x ++ (sep ++ y)) (as ++ bs) := by
  obtain ⟨us, hus, husList⟩ := hx
  obtain ⟨ts, hts, htsList⟩ := hy
  have hnil : us ≠ [] := by
    rintro rfl
    exact has husList.eq_nil
  obtain ⟨ws, w, gap, d, rfl, hgap, hwhole⟩ := exists_tokenize_append hus
    (closed_of_tokenize (by decide) hus) hnil hts (closed_of_tokenize (by decide) hts) hsep hne
  have htight : (ws ++ [w.before gap]).map Token.tight = (ws ++ [w]).map Token.tight := by
    simp [Token.tight, Token.before]
  have hfirst : SpacedList (ws ++ [w.before gap]) as := by
    rw [← relocates_tight.spacedList_map, htight, relocates_tight.spacedList_map]
    exact husList
  have hgapped : Gapped (ws ++ [w.before gap]) (ts.map (Token.moved d)) := by
    intro t ht u hu
    rw [List.getLast?_concat] at ht
    cases ht
    obtain ⟨vs, hvs⟩ := List.head?_eq_some_iff.1 hu
    have hcons := (tiles_of_tokenize hwhole).consecutive
    rw [hvs] at hcons
    exact hcons.stop_lt_start hgap
  refine ⟨_, hwhole, ?_⟩
  rw [List.append_cons]
  exact hfirst.append ((relocates_moved d).spacedList_map.2 htsList) hgapped

/-- A text that the strict reading takes for one address, which is no group and stands in it without
comments and angle brackets. -/
structure IsBare (x : Text) (a : Address) : Prop where
  reads : outcome (Address.parse .strict x) = .ok a
  plain : ∀ ts ∈ (tokenize .strict x).toOption,
    ∀ t ∈ ts, t.isComment = false ∧ t.isSpecial '<' = false
  not_group : a.isGroup = false

instance (x : Text) (a : Address) : Decidable (IsBare x a) :=
  decidable_of_iff (outcome (Address.parse .strict x) = .ok a ∧
      (∀ ts ∈ (tokenize .strict x).toOption,
        ∀ t ∈ ts, t.isComment = false ∧ t.isSpecial '<' = false) ∧ a.isGroup = false)
    ⟨fun ⟨hreads, hplain, hgroup⟩ ↦ ⟨hreads, hplain, hgroup⟩,
      fun ⟨hreads, hplain, hgroup⟩ ↦ ⟨hreads, hplain, hgroup⟩⟩

/-- A text with one bare address is such a text. -/
theorem IsBare.readsSpaced {a : Address} (h : IsBare x a) : ReadsSpaced x [a] := by
  obtain ⟨ts, hts, hlist⟩ := outcome_parse_strict.1 h.reads
  have hplain := h.plain ts (by rw [hts]; rfl)
  exact ⟨ts, tokenize_of_le (by decide) hts, hlist.spacedList hplain
    (wellSpelled_of_tokenize hts).spelled (by simpa using h.not_group)⟩

/-- Each of the texts is read without a report, at the looser level as well. -/
theorem IsBare.parseList {a : Address} (h : IsBare x a) :
    Address.parseList .nonStrict x = pure [a] :=
  parseList_of_strict (outcome_parseList.2 (outcome_parse.1 h.reads)) .nonStrict

/-- Bare addresses have no names. -/
theorem ReadsSpaced.name_eq_absent (h : ReadsSpaced x as) : ∀ a ∈ as, a.name = .absent := by
  obtain ⟨ts, -, hlist⟩ := h
  induction hlist with
  | nil => simp
  | comma _ _ ih => exact ih
  | spec _ _ _ ih => exact List.forall_mem_cons.2 ⟨rfl, ih⟩

/-- What is made up of addr-specs with blanks or commas between them is read silently. -/
theorem ReadsSpaced.parseList (h : ReadsSpaced x as) :
    Address.parseList .nonStrict x = pure as := by
  obtain ⟨ts, hts, hlist⟩ := h
  exact parseList_eq_pure_iff_cleanList.2 ⟨ts, hts, closed_of_tokenize (by decide) hts,
    hlist.cleanList [] (by simp) (by simp) (by simp)⟩

/-! ### Main statement -/

/-- **White space separates bare addresses as a comma does.** Each text is one address to the strict
reading, and whatever blanks separate them, they are read as these addresses, just as they are with
commas between them. -/
theorem outcome_parseList_spaced {first : Text} {rest : List (Text × Text)} {a : Address}
    (hfirst : IsBare first a) (hrest : List.Forall₂ (fun p b ↦ IsBare p.2 b) rest as)
    (hsep : ∀ p ∈ rest, p.1 ≠ [] ∧ ∀ c ∈ p.1, isBlankChar c = true) :
    outcome (Address.parseList .nonStrict (first ++ rest.flatMap fun p ↦ p.1 ++ p.2)) =
        .ok (a :: as) ∧
      outcome (Address.parseList .nonStrict (Text.joined [',', ' '] (first :: rest.map (·.2)))) =
        .ok (a :: as) ∧
      ∀ b ∈ a :: as, b.name = .absent := by
  have hblanks : ReadsSpaced (first ++ rest.flatMap fun p ↦ p.1 ++ p.2) (a :: as) := by
    induction hrest generalizing first a with
    | nil => simpa using hfirst.readsSpaced
    | cons hp _ ih =>
      rw [List.forall_mem_cons] at hsep
      rw [List.flatMap_cons, List.append_assoc]
      exact hfirst.readsSpaced.append (by simp) (ih hp hsep.2) hsep.1.2 hsep.1.1
  have hcommas : Address.parseList .nonStrict
      (Text.joined [',', ' '] (first :: rest.map (·.2))) = pure (a :: as) := by
    clear hsep hblanks
    induction hrest generalizing first a with
    | nil => exact hfirst.parseList
    | @cons p b rest as hp _ ih =>
      have hblank : ∀ c ∈ [' '], isBlankChar c = true := by simp [isBlankChar]
      have htail := parseList_pad hblank (List.forall_mem_nil _) (ih hp)
      have hwhole := parseList_comma hfirst.parseList htail
      rw [List.map_cons, Text.joined_cons _ _ (by simp)]
      simpa using hwhole
  exact ⟨by rw [hblanks.parseList, outcome_pure], by rw [hcommas, outcome_pure],
    hblanks.name_eq_absent⟩

/-- Blanks in a quoted local part, around a period and an at sign and in a domain literal do not
count. -/
theorem outcome_parseList_spaced_inner_blanks :
    outcome (Address.parseList .nonStrict "\"x @ y\"@b\r\n\tc . d @ e f@[1 . 2]".toList) =
        .ok [⟨"\"x @ y\"@b".toList, .absent⟩, ⟨"c.d@e".toList, .absent⟩,
          ⟨"f@[1 . 2]".toList, .absent⟩] ∧
      outcome (Address.parseList .nonStrict "\"x @ y\"@b, c . d @ e, f@[1 . 2]".toList) =
        .ok [⟨"\"x @ y\"@b".toList, .absent⟩, ⟨"c.d@e".toList, .absent⟩,
          ⟨"f@[1 . 2]".toList, .absent⟩] := by
  have hfirst : IsBare "\"x @ y\"@b".toList ⟨"\"x @ y\"@b".toList, .absent⟩ := by decide +kernel
  have hrest : List.Forall₂ (fun p b ↦ IsBare p.2 b)
      [("\r\n\t".toList, "c . d @ e".toList), (" ".toList, "f@[1 . 2]".toList)]
      [⟨"c.d@e".toList, .absent⟩, ⟨"f@[1 . 2]".toList, .absent⟩] :=
    .cons (by decide +kernel) (.cons (by decide +kernel) .nil)
  have h := outcome_parseList_spaced hfirst hrest (List.forall_mem_cons.2
    ⟨⟨by decide, Run.forall_mem_of_all (by decide)⟩,
      List.forall_mem_singleton.2 ⟨by decide, Run.forall_mem_of_all (by decide)⟩⟩)
  exact ⟨h.1, h.2.1⟩

end InternetMail
