import InternetMail.Proofs.Address.Derivation
import InternetMail.Proofs.Address.Joining

/-!
# What groups open up to

A group is one address, whose text is the whole group. Nothing but that text tells it from a
mailbox, and its members are looked for in it only when they are asked for, by another search than
the one that found the group in its list: the first colon outside angle brackets, and the last
semicolon.

In what the strict reading found, the two agree. The text of a group is read as its tokens again, at
another place, and there the search stops at the group's own colon and semicolon
(`outcome_groupMembers`). So a group opens up to what the text between these two is read as, and a
mailbox to nothing (`forall₂_opensAs_of_parseList`).

This is about ASCII text. White space of other scripts is part of an atom to the strict reading, but
is trimmed before the text of a group is looked at, so that `:a@b;` is no group after such a space,
though it was found as one.

The two searches can come apart in two ways only, and the strict reading excludes both. A colon
could stand in front of the group's own, but a phrase has none; and a semicolon could stand behind
the group's own, but the text ends with that. What is left is that the search starts from a text,
which is trimmed and read from the start. Trimming changes nothing (`StrictGroup.trim_sourceOf`), as
the first and the last characters of the group are no white space, and reading gives the same tokens
at places that are counted from the start of the group.
-/

namespace InternetMail

open Reported Grammar

/-! ### White space at the ends of tokens -/

/-- White space in ASCII text is blanks, and controls that the strict reading refuses. -/
theorem isWhite_eq_false_of_isAscii {c : Char} (hascii : c.toNat < 128)
    (hblank : isBlankChar c = false) (hrefuses : Strictness.strict.refuses c = false) :
    isWhite c = false := by
  have htable : ∀ c : Char, c.toNat < 128 → isBlankChar c = false →
      Strictness.strict.refuses c = false → isWhite c = false :=
    Text.forall_of_ascii _ (by decide)
  exact htable c hascii hblank hrefuses

/-- No special character is white space. -/
theorem isWhite_eq_false_of_isSpecial {c : Char} (h : isSpecial c = true) : isWhite c = false := by
  have hall : ∀ d ∈ ['(', ')', '<', '>', '@', ',', ';', ':', '\\', '"', '.', '[', ']'],
      isWhite d = false :=
    Run.forall_mem_of_all (by decide)
  exact hall c (by simpa [isSpecial] using h)

/-- What is in an atom was not refused. -/
theorem refuses_eq_false_of_atomBody {s : Strictness} {position : Nat} {t : Text} {b : TokenBody}
    (h : atomBody s position t = .ok b) : ∀ c ∈ b.raw, s.refuses c = false := by
  fun_induction atomBody s position t generalizing b with
  | case4 position c t hends hrefuses ih =>
    obtain ⟨b₀, h₀, rfl⟩ := map_after_eq_ok h
    exact List.forall_mem_cons.2 ⟨by simpa using hrefuses, ih h₀⟩
  | _ => cases h <;> simp

section

variable {t : Token} (h : t.Spelled) (hascii : Text.isAscii t.raw = true)

include h hascii

/-- An atom of ASCII has no white space in it, as it has no control character. -/
theorem isWhite_eq_false_of_atom (hkind : t.kind = .atom) : ∀ c ∈ t.raw, isWhite c = false := by
  obtain ⟨c, b, hraw, hblank, -, hrefuses, _, _, hatom⟩ := exists_atomBody_of_atom h hkind
  have hsmall : ∀ d ∈ t.raw, d.toNat < 128 := by simpa [Text.isAscii] using hascii
  rw [hraw, List.forall_mem_cons] at hsmall ⊢
  exact ⟨isWhite_eq_false_of_isAscii hsmall.1 hblank hrefuses, fun d hd ↦
    isWhite_eq_false_of_isAscii (hsmall.2 d hd) (eq_false_of_atomBody hatom d hd).1
      (refuses_eq_false_of_atomBody hatom d hd)⟩

/-- No token begins with white space. -/
theorem isWhite_head_raw : ∀ c ∈ t.raw.head?, isWhite c = false := by
  by_cases hkind : t.kind = .atom
  · exact fun c hc ↦ isWhite_eq_false_of_atom h hascii hkind c (List.mem_of_mem_head? hc)
  · obtain ⟨c, raw, hraw, hc⟩ := exists_raw_of_spelled h hkind
    simpa [hraw] using isWhite_eq_false_of_isSpecial hc

/-- And no part of a domain ends with any. -/
theorem isWhite_getLast_raw (ht : t.isSubDomain = true) :
    ∀ c ∈ t.raw.getLast?, isWhite c = false := by
  intro c hc
  simp only [Token.isSubDomain, Bool.or_eq_true, beq_iff_eq] at ht
  rcases ht with hkind | hkind
  · exact isWhite_eq_false_of_atom h hascii hkind c (List.mem_of_mem_getLast? hc)
  · rw [getLast_raw_of_domainLiteral h hkind] at hc
    cases hc
    decide

end

/-! ### Text that is trimmed -/

/-- Nothing is trimmed from the text of a group. -/
theorem StrictGroup.trim_sourceOf {ts : List Token} (h : StrictGroup ts)
    (hspelled : ∀ t ∈ ts, t.Spelled) (hascii : ∀ t ∈ ts, Text.isAscii t.raw = true) :
    Text.trim (sourceOf ts) = sourceOf ts := by
  obtain ⟨us, semicolon, rfl, hsemi⟩ := h.exists_eq_concat
  have hraw := raw_of_isSpecial (hspelled semicolon (by simp)) hsemi
  refine Run.strip_eq_self_of_ends ?_ ?_
  · cases us with
    | nil =>
      have := isWhite_head_raw (hspelled semicolon (by simp)) (hascii semicolon (by simp))
      exact this
    | cons t us =>
      have ht := isWhite_head_raw (hspelled t (by simp)) (hascii t (by simp))
      obtain ⟨c, raw, hc, -⟩ := hspelled t (by simp)
      rw [sourceOf_concat]
      simpa [hc] using ht
  · rw [sourceOf_concat, hraw, List.getLast?_concat]
    intro c hc
    cases hc
    decide

/-- A path does not end like a group after it was trimmed either. -/
theorem isGroupText_trim_rawOf (route : List Token) {spec : List Token} (hspec : AddrSpec spec)
    (h : ∀ t ∈ spec, t.Spelled) (hascii : ∀ t ∈ spec, Text.isAscii t.raw = true) :
    Address.isGroupText (Text.trim (rawOf (route ++ spec))) = false := by
  obtain ⟨us, t, rfl, ht⟩ := hspec.exists_eq_concat
  have hspelled := h t (by simp)
  obtain ⟨raw, c, hraw, hc⟩ := getLast_raw_ne_of_isSubDomain hspelled ht
  have hwhite := isWhite_getLast_raw hspelled (hascii t (by simp)) ht c (by simp [hraw])
  have hlast : rawOf (route ++ (us ++ [t])) = (rawOf (route ++ us) ++ raw) ++ c :: [] := by
    simp [rawOf, hraw]
  rw [Text.trim, hlast, Run.strip_append_cons _ _ hwhite, Address.isGroupText]
  simp [Run.stripEnd, hc]

/-! ### Looking for the members -/

/-- A group is taken apart at its first colon outside brackets. -/
theorem groupParts?_append_cons {us ts : List Token} {bracket : Bool} {colon : Token}
    (hu : Unbroken (·.isSpecial ':') bracket us) (hclosed : bracketAfterAll bracket us = false)
    (hcolon : colon.isSpecial ':' = true) :
    groupParts? bracket (us ++ colon :: ts) = some (us, colon, ts) := by
  induction us generalizing bracket with
  | nil =>
    rw [bracketAfterAll_nil] at hclosed
    simp [groupParts?, hcolon, hclosed]
  | cons u us ih =>
    obtain ⟨hsep, hu⟩ := hu
    have hnot : ¬(u.isSpecial ':' && !bracket) = true := by
      cases bracket <;> simp_all
    rw [List.cons_append, groupParts?, if_neg hnot, ih hu hclosed]
    rfl

/-- If a semicolon is the last token, everything else is in front of it. -/
theorem beforeLastSemicolon?_concat (ts : List Token) {semicolon : Token}
    (h : semicolon.isSpecial ';' = true) : beforeLastSemicolon? (ts ++ [semicolon]) = some ts := by
  simp [beforeLastSemicolon?, h]

/-- The search for the members of a group finds its own colon and semicolon. -/
theorem outcome_groupMembers {s : Strictness} {phrase members : List Token}
    {colon semicolon : Token} {as : List Address} (hphrase : Phrase (wordsOf phrase))
    (hcolon : colon.isSpecial ':' = true) (hsemi : semicolon.isSpecial ';' = true)
    (h : outcome (addressList s members) = .ok as) :
    outcome (groupMembers s (phrase ++ colon :: (members ++ [semicolon]))) = .ok (some as) := by
  have hsep : IsSeparator (·.isSpecial ':') := fun _ h ↦ Or.inr (Or.inl h)
  have hp := PhraseOrNone.unbroken hsep (Or.inr hphrase)
  rw [unbroken_wordsOf hsep, bracketAfterAll_wordsOf] at hp
  simp only [groupMembers, groupParts?_append_cons hp.1 hp.2 hcolon,
    beforeLastSemicolon?_concat members hsemi, outcome_bind, outcome_liftExcept, outcome_pure,
    bind_eq_ok_iff]
  exact ⟨(), checkGroupName_of_phrase hphrase s colon, as, h, rfl⟩

/-! ### The members where they stand -/

/-- The members of a group are a list of addresses. -/
theorem Grammar.Members.exists_strictList {ws ts : List Token} (h : Members ws)
    (hts : wordsOf ts = ws) : ∃ as, StrictList ts as := by
  induction h generalizing ts with
  | last h =>
    rcases h with rfl | ⟨phrase, path, h⟩
    · exact ⟨[], .none hts⟩
    · exact ⟨_, .last (hts ▸ h)⟩
  | cons h hcomma _ ih =>
    obtain ⟨us, ts, rfl, rfl, hrest⟩ := exists_of_wordsOf_eq_append_cons hts
    obtain ⟨as, has⟩ := ih hrest
    rcases h with hnil | ⟨phrase, path, h⟩
    · exact ⟨as, .comma hnil hcomma has⟩
    · exact ⟨_, .mailbox h hcomma has⟩

/-- The members of an address: its text is read again, if it looks like a group. -/
theorem outcome_membersOf_eq_ok_iff {s : Strictness} {t : Text} {ms : Option (List Address)} :
    outcome (Address.membersOf s t) = .ok ms ↔ ∃ ts, tokenize s t = .ok ts ∧
      outcome (if Address.isGroupText (Text.trim t) then groupMembers s ts
        else pure none) = .ok ms :=
  outcome_readingOf_eq_ok_iff

/-- A group opens up to what the text between its colon and its semicolon is read as. -/
theorem exists_members_groupOf {phrase members : List Token} {colon semicolon : Token}
    (h : WellSpelled (phrase ++ colon :: (members ++ [semicolon])))
    (hascii : ∀ t ∈ phrase ++ colon :: (members ++ [semicolon]), Text.isAscii t.raw = true)
    (hphrase : Phrase (wordsOf phrase)) (hcolon : colon.isSpecial ':' = true)
    (hmembers : Members (wordsOf members)) (hsemi : semicolon.isSpecial ';' = true) :
    ∃ as, outcome (Address.parseList .strict (colon.gap ++ writtenOf members)) = .ok as ∧
      outcome ((groupOf (phrase ++ colon :: (members ++ [semicolon]))).members true) =
        .ok (some as) := by
  have hgroup := StrictGroup.intro hphrase hcolon hmembers hsemi
  have hrest := h.right_of_append
  have hwell : WellSpelled members := hrest.tail.left_of_append
  have hgap := hrest.blank colon List.mem_cons_self
  obtain ⟨as, has⟩ := (hmembers.congr (sameKinds_wordsOf
    (sameKinds_placed (Text.utf8Size colon.gap) members))).exists_strictList rfl
  refine ⟨as, outcome_parseList_strict.2 ⟨_, ?_, has⟩,
    (outcome_membersOf_eq_ok_iff (s := .strict)).2 ?_⟩
  · rw [tokenize_append hgap hwell.head_writtenOf]
    exact tokensFrom_writtenOf hwell _
  · -- the text of the group is read as its tokens, with the members `d` octets further on
    have heq : phrase ++ colon :: (members ++ [semicolon]) =
        (phrase ++ colon :: members) ++ [semicolon] := by simp
    have htokens := tokenize_writtenOf (heq ▸ h).tight_last
    rw [writtenOf_tight_last, ← heq, List.append_assoc, List.cons_append, placed_append, placed,
      placed_append] at htokens
    refine ⟨_, htokens, ?_⟩
    rw [groupOf, hgroup.trim_sourceOf h.spelled hascii, hgroup.isGroupText h.spelled, if_pos rfl]
    refine outcome_groupMembers
      (hphrase.congr (sameKinds_wordsOf (sameKinds_placed 0 phrase))) hcolon hsemi ?_
    rw [Token.next, Nat.add_comm, placed_add]
    have := (cleanList_of_strictList has .strict).map_moved
    exact congrArg outcome (addressList_eq_pure_iff.2 (this _))

/-- A mailbox opens up to nothing. -/
theorem outcome_members_of_path {route spec : List Token} (hroute : RouteOrNone route)
    (hspec : AddrSpec spec) (h : ∀ t ∈ route ++ spec, t.Spelled)
    (hascii : ∀ t ∈ route ++ spec, Text.isAscii t.raw = true) (name : DisplayName) :
    outcome (Address.members true ⟨rawOf (route ++ spec), name⟩) = .ok none := by
  have htokens := tokenize_writtenOf (wellSpelled_map_tight hroute hspec h)
  rw [writtenOf_map_tight] at htokens
  refine (outcome_membersOf_eq_ok_iff (s := .strict)).2 ⟨_, htokens, ?_⟩
  rw [isGroupText_trim_rawOf route hspec (fun t ht ↦ h t (List.mem_append_right _ ht))
    fun t ht ↦ hascii t (List.mem_append_right _ ht)]
  rfl

/-! ### Main statement -/

/-- What the address opens up to that the text `t`, whose tokens are `ts`, has for an item of its
list. The colon of a group is the first one outside its name, and `body` is what stands between it
and the semicolon that ends the group. -/
inductive Grammar.Item.OpensAs (t : Text) (ts : List Token) : Item → Address → Prop
  | mailbox {path : List Token} {a : Address} : a.spec = rawOf path → a.isGroup = false →
      outcome (a.members true) = .ok none → OpensAs t ts (.mailbox path) a
  | group {before phrase members after : List Token} {colon semicolon : Token} {body : Text}
      {a : Address} {as : List Address} :
      ts = before ++ (phrase ++ colon :: (members ++ [semicolon])) ++ after →
      (∀ u ∈ phrase, u.isSpecial ':' = false) → colon.isSpecial ':' = true →
      semicolon.isSpecial ';' = true →
      a.spec = sourceOf (phrase ++ colon :: (members ++ [semicolon])) →
      IsSlice t colon.stop semicolon.start body →
      outcome (Address.parseList .strict body) = .ok as → a.isGroup = true →
      outcome (a.members true) = .ok (some as) →
      OpensAs t ts (.group (wordsOf (phrase ++ colon :: (members ++ [semicolon])))) a

/-- **What stands in a list opens up as the grammar says**: a group to its members, and a mailbox to
nothing. -/
theorem Grammar.Item.StandsIn.opensAs {lead t : Text} {ts : List Token} {item : Item} {a : Address}
    (h : StandsIn ts item a) (htiles : Tiles lead ts t) (hts : WellSpelled ts)
    (hascii : ∀ u ∈ ts, Text.isAscii u.raw = true) : OpensAs t ts item a := by
  cases h with
  | @mailbox before us after phrase path heq hmailbox =>
    subst heq
    obtain ⟨route, spec, rfl, hroute, hspec, hspelled, -⟩ :=
      exists_path_of_mailbox hmailbox hts.left_of_append.right_of_append
    have hmem (u : Token) (hu : u ∈ route ++ spec) : u ∈ before ++ us ++ after :=
      List.mem_append_left _ (List.mem_append_right _
        (List.mem_of_mem_filter (hmailbox.path_subset hu)))
    exact .mailbox rfl
      (isGroupText_rawOf route hspec fun u hu ↦ hspelled u (List.mem_append_right _ hu))
      (outcome_members_of_path hroute hspec hspelled (fun u hu ↦ hascii u (hmem u hu)) _)
  | @group before us after heq _ hgroup =>
    subst heq
    have hus := hts.left_of_append.right_of_append
    have husAscii (u : Token) (hu : u ∈ us) : Text.isAscii u.raw = true :=
      hascii u (List.mem_append_left _ (List.mem_append_right _ hu))
    have hisGroup := hgroup.isGroupText hus.spelled
    obtain ⟨hphrase, hcolon, hmembers, hsemi⟩ := hgroup
    rename_i phrase members colon semicolon
    obtain ⟨as, has, hopens⟩ :=
      exists_members_groupOf hus husAscii hphrase hcolon hmembers hsemi
    have heq : before ++ (phrase ++ colon :: (members ++ [semicolon])) ++ after =
        (before ++ phrase) ++ colon :: (members ++ semicolon :: after) := by simp
    exact .group rfl (isSpecial_eq_false_of_phrase hphrase (by decide)) hcolon hsemi rfl
      (heq ▸ htiles).isSlice_between has hisGroup hopens

/-- The tokens of ASCII text are ASCII. -/
theorem Tiles.isAscii_raw {lead t : Text} {ts : List Token} (h : Tiles lead ts t)
    (ht : Text.isAscii t = true) : ∀ u ∈ ts, Text.isAscii u.raw = true := by
  intro u hu
  obtain ⟨before, after, rfl, -⟩ := h.isSlice_raw hu
  simp only [Text.isAscii, List.all_append, Bool.and_eq_true] at ht ⊢
  exact ht.1.2

/-- **Groups open up to their members.** In ASCII text that the strict reading accepts, an address
is told to be a group exactly if it comes from a group of the derivation. Then its members are what
the strict reading makes of the text between the colon and the semicolon of that group, each with
its text and its display name. Any other address opens up to nothing. -/
theorem forall₂_opensAs_of_parseList {t : Text} (hascii : Text.isAscii t = true) {as : List Address}
    (has : outcome (Address.parseList .strict t) = .ok as) :
    ∃ ts, tokenize .strict t = .ok ts ∧ (∃ items, Addresses (wordsOf ts) items) ∧
      ∀ items, Addresses (wordsOf ts) items → List.Forall₂ (Item.OpensAs t ts) items as := by
  obtain ⟨ts, hts, hlist⟩ := outcome_parseList_strict.1 has
  have htiles := tiles_of_tokenize hts
  refine ⟨ts, hts, hlist.exists_addresses, fun items hitems ↦ ?_⟩
  obtain ⟨as', has', hstands⟩ := hitems.exists_standsIn [] rfl (by simp)
  -- the reading finds one list, whatever the derivation
  cases has.symm.trans (outcome_parseList_strict.2 ⟨ts, hts, has'⟩)
  exact hstands.imp fun _ _ h ↦
    h.opensAs htiles (wellSpelled_of_tokenize hts) (htiles.isAscii_raw hascii)

/-- A group with colons and semicolons in quotes, a comment, a route and a literal, and a mailbox
that ends almost like one. -/
theorem forall₂_opensAs_quoted_semicolons :
    ∃ t as ts items,
      t = "\"a:;\" (;) g: <@r:u@[;]>, ; y@[:;]".toList ∧
      Text.isAscii t = true ∧ outcome (Address.parseList .strict t) = .ok as ∧
      tokenize .strict t = .ok ts ∧ Addresses (wordsOf ts) items ∧
      List.Forall₂ (Item.OpensAs t ts) items as ∧ as.map Address.isGroup = [true, false] := by
  have hascii : Text.isAscii
      "\"a:;\" (;) g: <@r:u@[;]>, ; y@[:;]".toList = true := by
    decide +kernel
  have has : outcome (Address.parseList .strict
      "\"a:;\" (;) g: <@r:u@[;]>, ; y@[:;]".toList) =
      .ok [⟨"\"a:;\" (;) g: <@r:u@[;]>, ;".toList, .absent⟩,
        ⟨"y@[:;]".toList, .absent⟩] := by
    decide +kernel
  obtain ⟨ts, hts, ⟨items, hitems⟩, hall⟩ := forall₂_opensAs_of_parseList hascii has
  exact ⟨_, _, ts, items, rfl, hascii, has, hts, hitems, hall items hitems, by decide +kernel⟩

/-- White space of another script is part of the name to the reading of a list, but is trimmed in
front of a group. -/
example :
    outcome (Address.parseList .strict "\u3000:a@b;".toList) =
      .ok [⟨"\u3000:a@b;".toList, .absent⟩] ∧
    outcome (Address.members true ⟨"\u3000:a@b;".toList, .absent⟩) = .ok none := by
  decide +kernel

end InternetMail
