import InternetMail.Proofs.Address.LineBreaks
import InternetMail.Proofs.Address.Relocation
import InternetMail.Proofs.Silent

/-!
# The characters of addresses that were read

Nothing is read that was not there. What tokens say stands in the text that they were read from, and
so does what addresses are made of, but for the space that parts two words of a name and the
semicolon that a group is closed with (`madeOf_of_parseList`). That is so at any strictness, and
whatever has to be put right. A text without line feeds is therefore read as addresses that are
written without line feeds (`MadeOf.ne_lineFeed_format`): a name that is not ASCII is written as
encoded words, and these are on one line.

That is said for any property of characters that a space and a semicolon have: if all characters of
the text have it, all characters of the addresses do (`Address.MadeOf`). With the property that
always holds it says nothing about characters, but still that a name is one that was read, and with
"is no line feed" it says that an address cannot get out of the field it is written in.
-/

namespace InternetMail

open Reported

variable {p q : Char → Prop} {s : Strictness} {t : Text} {ts : List Token} {as : List Address}
variable {a : Address}

/-! ### What tokens say -/

/-- Nothing is put in where characters are dropped. -/
theorem Kept.subset {value : Text} (h : Kept t value) : value ⊆ t := by
  induction h with
  | nil => exact List.nil_subset _
  | keep c _ ih => exact List.cons_subset_cons c ih
  | drop _ _ ih => exact List.subset_cons_of_subset _ ih

theorem value_subset_of_literalBody {position : Nat} {b : TokenBody}
    (h : literalBody s position t = .ok b) : b.value ⊆ t := by
  fun_induction literalBody s position t generalizing b with
  | case5 position c _ _ _ d t ih =>
    obtain ⟨b₀, h₀, rfl⟩ := map_after_eq_ok h
    exact List.cons_subset_cons c (List.cons_subset_cons d (ih h₀))
  | case6 position c t _ _ _ _ ih =>
    obtain ⟨b₀, h₀, rfl⟩ := map_after_eq_ok h
    have hrest := ih h₀
    exact List.subset_cons_of_subset c hrest
  | case8 position c t _ _ _ _ _ ih =>
    obtain ⟨b₀, h₀, rfl⟩ := map_after_eq_ok h
    exact List.cons_subset_cons c (ih h₀)
  | _ => cases h <;> simp

/-- What a token says stands in what it is read from. -/
theorem value_subset_of_tokenBody {position : Nat} {c : Char} {b : TokenBody}
    (h : tokenBody s position c t = .ok b) : b.value ⊆ c :: t := by
  unfold tokenBody at h
  split at h
  · obtain ⟨b₀, h₀, rfl⟩ := map_after_eq_ok h
    exact List.subset_cons_of_subset c (kept_of_quotedBody (bind_closedOr_eq_ok h₀)).subset
  · obtain ⟨b₀, h₀, rfl⟩ := map_after_eq_ok h
    exact List.subset_cons_of_subset c (kept_of_commentBody (bind_closedOr_eq_ok h₀)).subset
  · obtain ⟨b₀, h₀, rfl⟩ := map_after_eq_ok h
    exact List.cons_subset_cons c (value_subset_of_literalBody (bind_closedOr_eq_ok h₀))
  · cases h
    simp
  · split at h
    · cases h
    · obtain ⟨b₀, h₀, rfl⟩ := map_after_eq_ok h
      refine List.cons_subset_cons c ?_
      rw [value_eq_raw_of_atomBody h₀, ← raw_append_rest_of_atomBody h₀]
      exact List.subset_append_left _ _

/-- All characters of a token: as it was written, in the blanks behind it, and as it is read. -/
def Token.characters (u : Token) : Text :=
  u.raw ++ u.gap ++ u.value

/-- The characters of a token were all in the text that it was taken from. -/
theorem characters_subset_of_tokenize (h : tokenize s t = .ok ts) : ∀ u ∈ ts, u.characters ⊆ t := by
  intro u hu
  obtain ⟨c, x, b, hsuffix, hb, hread⟩ := exists_tokenBody_of_mem h hu
  have hwhole := raw_append_rest_of_tokenBody hb
  have hraw : b.raw ⊆ c :: x := hwhole ▸ List.subset_append_left b.raw b.rest
  have hrest : b.rest ⊆ c :: x := hwhole ▸ List.subset_append_right b.raw b.rest
  have hgap := List.Subset.trans (List.takeWhile_subset isBlankChar) hrest
  have hvalue := value_subset_of_tokenBody hb
  rw [hread]
  exact List.Subset.trans (List.append_subset.2 ⟨List.append_subset.2 ⟨hraw, hgap⟩, hvalue⟩)
    (hsuffix.trans (List.dropWhile_suffix _)).subset

/-! ### What mailboxes say -/

/-- The address is made of characters that have the property, and its name is as it was read. -/
structure Address.MadeOf (p : Char → Prop) (a : Address) : Prop where
  spec : ∀ c ∈ a.spec, p c
  name : a.name = .absent ∨ ∃ raw, a.name = .written raw false ∧ ∀ c ∈ raw, p c

/-- A weaker property will do. -/
theorem Address.MadeOf.imp (h : a.MadeOf p) (hpq : ∀ c, p c → q c) : a.MadeOf q :=
  ⟨fun c hc ↦ hpq c (h.spec c hc),
    h.name.imp id fun ⟨raw, hname, hraw⟩ ↦ ⟨raw, hname, fun c hc ↦ hpq c (hraw c hc)⟩⟩

/-- The runs between blanks are all there is. -/
theorem flatten_gapRuns (ts : List Token) : (gapRuns ts).flatten = ts := by
  fun_induction gapRuns ts with
  | case1 | case2 => rfl
  | case3 t u ts hgap ih => rw [List.flatten_cons, ih, List.singleton_append]
  | case4 t u ts hgap hnil ih => simp [hnil] at ih
  | case5 t u ts hgap run runs hruns ih =>
    rw [hruns] at ih
    rw [List.flatten_cons, List.cons_append, ← List.flatten_cons, ih]

/-- A run that is an address of its own is a stretch of the words. -/
theorem subset_of_addressRuns? {ws run : List Token} {runs : List (List Token)}
    (h : addressRuns? ws = some runs) (hrun : run ∈ runs) : run ⊆ ws := by
  obtain rfl : runs = gapRuns ws := by
    rw [addressRuns?] at h
    grind
  intro u hu
  have hmem := List.mem_flatten_of_mem hrun hu
  rwa [flatten_gapRuns] at hmem

section

variable (hspace : p ' ') (hts : ∀ u ∈ ts, ∀ c ∈ u.characters, p c)

include hts

theorem forall_mem_rawOf : ∀ c ∈ rawOf ts, p c := by
  intro c hc
  obtain ⟨u, hu, hcu⟩ := List.mem_flatMap.1 hc
  exact hts u hu c (by simp [Token.characters, hcu])

theorem forall_mem_sourceOf : ∀ c ∈ sourceOf ts, p c := by
  intro c hc
  obtain ⟨u, hu, hcu⟩ := List.mem_flatMap.1 ((sourceOf_sublist ts).subset hc)
  exact hts u hu c (List.mem_append_left _ hcu)

/-- An address without brackets is made of the characters of its words. -/
theorem forall_mem_of_addrSpec {ws : List Token} {spec : Text} (hws : ws ⊆ ts)
    (h : addrSpec s ws = .ok spec) : ∀ c ∈ spec, p c := by
  rw [eq_rawOf_of_addrSpec h]
  exact forall_mem_rawOf fun u hu ↦ hts u (hws hu)

/-- So are simple addresses with only blanks between them. -/
theorem madeOf_of_runs {runs : List (List Token)} (hruns : ∀ run ∈ runs, run ⊆ ts)
    (h : outcome (runs.mapM fun run ↦ (do return ⟨← addrSpec s run, .absent⟩ : Parsing Address)) =
      .ok as) : ∀ a ∈ as, a.MadeOf p := by
  have hall := outcome_mapM_eq_ok_iff.1 h
  clear h
  induction hall with
  | nil => simp
  | cons hread _ ih =>
    rw [List.forall_mem_cons] at hruns
    simp only [outcome_bind, outcome_pure, outcome_liftExcept, bind_eq_ok_iff,
      Except.ok.injEq] at hread
    obtain ⟨spec, hspec, rfl⟩ := hread
    have hfirst := forall_mem_of_addrSpec hts hruns.1 hspec
    exact List.forall_mem_cons.2 ⟨⟨hfirst, Or.inl rfl⟩, ih hruns.2⟩

/-- The name that comments give is made of their characters. -/
theorem nameOfComments_eq_or_forall :
    nameOfComments ts = .absent ∨
      ∃ raw, nameOfComments ts = .written raw false ∧ ∀ c ∈ raw, p c :=
  nameOfComments_eq_or fun u hu _ c hc ↦
    hts u hu c (List.mem_append_right _ (mem_of_mem_trim hc))

include hspace

/-- A mailbox with angle brackets is made of the characters of its tokens. -/
theorem madeOf_of_bracketMailbox {phrase after : List Token} {bracket : Token}
    (hphrase : phrase ⊆ ts) (hafter : after ⊆ ts)
    (h : outcome (bracketMailbox s ts phrase bracket after) = .ok a) : a.MadeOf p := by
  obtain ⟨spec, hspec, rfl⟩ := exists_bracketed_of_bracketMailbox h
  have htext : ∀ c ∈ spec, p c := by
    rcases eq_or_of_bracketed hspec with rfl | rfl
    · exact forall_mem_rawOf fun u hu ↦ hts u (hafter (List.takeWhile_subset _ hu))
    · exact List.forall_mem_nil _
  split
  · exact ⟨htext, nameOfComments_eq_or_forall hts⟩
  · exact ⟨htext, Or.inr ⟨_, rfl, forall_mem_phraseText hspace fun u hu c hc ↦
      hts u (hphrase hu) c (List.mem_append_right _ hc)⟩⟩

/-- What is read between two separators is made of the characters that stand there. -/
theorem madeOf_of_mailboxesOf (h : outcome (mailboxesOf s ts) = .ok as) :
    ∀ a ∈ as, a.MadeOf p := by
  have hwords : wordsOf ts ⊆ ts := List.filter_subset_self ts
  rw [mailboxesOf] at h
  split at h
  · cases h
    simp
  split at h
  · rename_i bracket after hd
    simp only [outcome_bind, outcome_pure, bind_eq_ok_iff, Except.ok.injEq] at h
    obtain ⟨a, ha, rfl⟩ := h
    have hafter : after ⊆ wordsOf ts := fun u hu ↦
      List.dropWhile_subset _ (hd ▸ List.mem_cons_of_mem _ hu)
    simpa using madeOf_of_bracketMailbox hspace hts
      (List.Subset.trans (List.takeWhile_subset _) hwords) (List.Subset.trans hafter hwords) ha
  split at h
  · rename_i runs hruns
    have hsome : addressRuns? (wordsOf ts) = some runs := by
      split at hruns
      · exact hruns
      · cases hruns
    exact madeOf_of_runs hts
      (fun run hrun ↦ List.Subset.trans (subset_of_addressRuns? hsome hrun) hwords) h
  · simp only [outcome_bind, outcome_pure, outcome_liftExcept, bind_eq_ok_iff,
      Except.ok.injEq] at h
    obtain ⟨spec, hspec, rfl⟩ := h
    have htext := forall_mem_of_addrSpec hts hwords hspec
    exact List.forall_mem_singleton.2 ⟨htext, nameOfComments_eq_or_forall hts⟩

end

/-! ### Lists -/

namespace Element

/-- The tokens of an element. -/
def tokens : Element → List Token
  | .mailboxes ts => ts
  | .group phrase colon members close => phrase ++ colon :: members ++ close.toList

/-- The elements of a list are made of its tokens. -/
theorem forall_mem_tokens_of_splitFrom {P : Token → Prop} {pending : List Token}
    {opening : Option Opening} {bracket : Bool} {es : List Element}
    (h : outcome (splitFrom s pending opening bracket ts) = .ok es)
    (hpending : ∀ u ∈ pending, P u) (hts : ∀ u ∈ ts, P u)
    (hopening : ∀ g ∈ opening, (∀ u ∈ g.phrase, P u) ∧ P g.colon) :
    ∀ e ∈ es, ∀ u ∈ e.tokens, P u := by
  fun_induction splitFrom s pending opening bracket ts generalizing es with
  | case1 pending bracket =>
    cases h
    simpa [tokens] using hpending
  | case2 => cases h
  | case3 pending bracket g =>
    cases h
    simp only [Option.mem_some_iff, forall_eq'] at hopening
    simpa [tokens, or_imp, forall_and] using ⟨hopening.1, hopening.2, hpending⟩
  | case4 => cases h
  -- a colon opens a group: its phrase is what was pending
  | case5 pending bracket t ts hcolon ih =>
    rw [List.forall_mem_cons] at hts
    exact ih h (List.forall_mem_nil P) hts.2 (by simpa using ⟨hpending, hts.1⟩)
  | case6 pending bracket t ts _ hsemi g ih =>
    rw [List.forall_mem_cons] at hts
    simp only [Option.mem_some_iff, forall_eq'] at hopening
    simp only [outcome_bind, outcome_pure, bind_eq_ok_iff, Except.ok.injEq] at h
    obtain ⟨es, hes, rfl⟩ := h
    refine List.forall_mem_cons.2 ⟨?_, ih hes (List.forall_mem_nil P) hts.2 (by simp)⟩
    simpa [tokens, or_imp, forall_and] using ⟨hopening.1, hopening.2, hpending, hts.1⟩
  | case7 => cases h
  -- a stray semicolon ends an element, with a notice
  | case8 =>
    rename_i putRight _ ih
    rw [List.forall_mem_cons] at hts
    simp only [putRight, outcome_bind, outcome_pure, outcome_note, bind_eq_ok_iff,
      Except.ok.injEq] at h
    obtain ⟨-, -, es, hes, rfl⟩ := h
    exact List.forall_mem_cons.2 ⟨hpending, ih hes (List.forall_mem_nil P) hts.2 (by simp)⟩
  | case9 =>
    rename_i ih
    rw [List.forall_mem_cons] at hts
    simp only [outcome_bind, outcome_pure, bind_eq_ok_iff, Except.ok.injEq] at h
    obtain ⟨es, hes, rfl⟩ := h
    exact List.forall_mem_cons.2 ⟨hpending, ih hes (List.forall_mem_nil P) hts.2 (by simp)⟩
  | case10 pending opening bracket t ts _ _ _ ih =>
    rw [List.forall_mem_cons] at hts
    exact ih h (List.forall_mem_append.2 ⟨hpending, by simpa using hts.1⟩) hts.2 hopening

end Element

section

variable (hspace : p ' ') (hsemi : p ';') (hts : ∀ u ∈ ts, ∀ c ∈ u.characters, p c)

include hsemi hts

/-- A group is made of the characters of its tokens, and of the semicolon that it may lack. -/
theorem madeOf_of_groupAddress {phrase members : List Token} {colon : Token} {close : Option Token}
    (heq : phrase ++ colon :: members ++ close.toList = ts)
    (h : outcome (groupAddress s phrase colon members close) = .ok a) : a.MadeOf p := by
  rw [groupAddress] at h
  simp only [outcome_bind, outcome_pure, bind_eq_ok_iff, Except.ok.injEq] at h
  obtain ⟨-, -, -, -, rfl⟩ := h
  refine ⟨List.forall_mem_append.2 ⟨heq ▸ forall_mem_sourceOf hts, ?_⟩, Or.inl rfl⟩
  split
  · simpa using hsemi
  · exact List.forall_mem_nil _

include hspace

/-- The addresses of a list are made of the characters of its tokens. -/
theorem madeOf_of_addressList (h : outcome (addressList s ts) = .ok as) :
    ∀ a ∈ as, a.MadeOf p := by
  simp only [addressList, outcome_bind, bind_eq_ok_iff] at h
  obtain ⟨es, hes, has⟩ := h
  have htokens := Element.forall_mem_tokens_of_splitFrom hes (List.forall_mem_nil _) hts (by simp)
  clear hes
  induction es generalizing as with
  | nil =>
    cases has
    simp
  | cons e es ih =>
    rw [List.forall_mem_cons] at htokens
    obtain ⟨as₁, as₂, h₁, h₂, rfl⟩ := outcome_addressesOf_cons.1 has
    refine List.forall_mem_append.2 ⟨?_, ih h₂ htokens.2⟩
    cases e with
    | mailboxes us => exact madeOf_of_mailboxesOf hspace htokens.1 h₁
    | group phrase colon members close =>
      simp only [Element.addresses, outcome_bind, outcome_pure, bind_eq_ok_iff,
        Except.ok.injEq] at h₁
      obtain ⟨a, ha, rfl⟩ := h₁
      simpa using madeOf_of_groupAddress hsemi htokens.1 rfl ha

end

/-- **Addresses are made of the text that they were read from**, but for the space that parts two
words of a name and the semicolon that a group is closed with. -/
theorem madeOf_of_parseList (h : outcome (Address.parseList s t) = .ok as) :
    ∀ a ∈ as, a.MadeOf fun c ↦ c ∈ t ∨ c = ' ' ∨ c = ';' := by
  obtain ⟨ts, hts, has⟩ := outcome_parseList.1 h
  exact madeOf_of_addressList (by simp) (by simp)
    (fun u hu c hc ↦ Or.inl (characters_subset_of_tokenize hts u hu hc)) has

/-! ### Written addresses -/

/-- Addresses without line feeds are written without them. -/
theorem Address.MadeOf.ne_lineFeed_format [MultiByte.Codec] (h : a.MadeOf (· ≠ '\n')) :
    ∀ c ∈ a.format, c ≠ '\n' := by
  refine forall_mem_format (Run.forall_mem_of_all (by decide)) h.spec fun name heq ↦ ?_
  rw [Address.encodedPersonal] at heq
  rcases h.name with hname | ⟨raw, hname, hraw⟩
  · rw [hname] at heq
    cases heq
  · rw [hname] at heq
    rcases eq_or_ne_lineFeed_of_encoded heq with rfl | hline
    · exact hraw
    · exact hline

end InternetMail
