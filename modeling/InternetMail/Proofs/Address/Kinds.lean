import InternetMail.Proofs.Address.Grammar
import Mathlib.Data.List.Chain

/-!
# Kinds of the tokens of a derivation

Whether tokens are derivable is a matter of their kinds alone: tokens of the same kinds in the same
order are derived as the same (`Grammar.AddrSpec.congr` and its kin). And no two words stand side by
side in a route or an addr-spec (`Grammar.RouteOrNone.isChain_append`).

The reader writes what it read as one text, and reads that again. There tokens have the kinds they
had, at other places and with other blanks between them, so what the grammar derived it derives
again. That the lists are parallel is what the inductions go by (`exists_of_sameKinds_append`). The
second part is what keeps such a text from being read with fewer tokens: two words without a blank
between them would run together, and within a route or an addr-spec there is always a special
character in between.
-/

namespace InternetMail

/-- The tokens are of the same kinds in the same order. -/
def SameKinds (us ts : List Token) : Prop :=
  us.map Token.kind = ts.map Token.kind

theorem Token.isSpecial_congr {t u : Token} (h : u.kind = t.kind) (c : Char) :
    u.isSpecial c = t.isSpecial c := by
  simp [isSpecial, h]

theorem Token.isWord_congr {t u : Token} (h : u.kind = t.kind) : u.isWord = t.isWord := by
  simp [isWord, h]

theorem Token.isSubDomain_congr {t u : Token} (h : u.kind = t.kind) :
    u.isSubDomain = t.isSubDomain := by
  simp [isSubDomain, h]

/-- Comments are told by their kind, so they are left out at the same places. -/
theorem sameKinds_wordsOf {us ts : List Token} (h : SameKinds us ts) :
    SameKinds (wordsOf us) (wordsOf ts) := by
  have hwords : ∀ ts, (wordsOf ts).map Token.kind = (ts.map Token.kind).filter (· != .comment) := by
    intro ts
    rw [List.filter_map]
    rfl
  rw [SameKinds, hwords, hwords, h]

/-- What is of the kinds of two stretches is two stretches of these kinds. -/
theorem exists_of_sameKinds_append {us ts₁ ts₂ : List Token} (h : SameKinds us (ts₁ ++ ts₂)) :
    ∃ us₁ us₂, us = us₁ ++ us₂ ∧ SameKinds us₁ ts₁ ∧ SameKinds us₂ ts₂ := by
  rw [SameKinds, List.map_append] at h
  exact List.map_eq_append_iff.1 h

theorem exists_of_sameKinds_cons {us ts : List Token} {t : Token} (h : SameKinds us (t :: ts)) :
    ∃ u us', us = u :: us' ∧ u.kind = t.kind ∧ SameKinds us' ts := by
  rw [SameKinds, List.map_cons] at h
  exact List.map_eq_cons_iff.1 h

theorem eq_nil_of_sameKinds {us : List Token} (h : SameKinds us []) : us = [] :=
  List.map_eq_nil_iff.1 h

namespace Grammar

variable {us ts : List Token}

/-- Items and periods may be replaced, as long as an item is told by its kind. -/
theorem Dotted.congr {isItem : Token → Bool}
    (hitem : ∀ {t u : Token}, u.kind = t.kind → isItem u = isItem t) (h : Dotted isItem ts)
    (hk : SameKinds us ts) : Dotted isItem us := by
  induction h generalizing us with
  | item ht =>
    obtain ⟨u, _, rfl, hu, hnil⟩ := exists_of_sameKinds_cons hk
    rw [eq_nil_of_sameKinds hnil]
    exact .item ((hitem hu).trans ht)
  | cons ht hdot _ ih =>
    obtain ⟨u, _, rfl, hu, hk⟩ := exists_of_sameKinds_cons hk
    obtain ⟨dot', us, rfl, hd, hk⟩ := exists_of_sameKinds_cons hk
    exact .cons ((hitem hu).trans ht) ((Token.isSpecial_congr hd '.').trans hdot) (ih hk)

theorem Domain.congr (h : Domain ts) (hk : SameKinds us ts) : Domain us :=
  Dotted.congr Token.isSubDomain_congr h hk

theorem AddrSpec.congr (h : AddrSpec ts) (hk : SameKinds us ts) : AddrSpec us := by
  obtain ⟨hname, hsign, hdomain⟩ := h
  obtain ⟨name', rest, rfl, hn, hk⟩ := exists_of_sameKinds_append hk
  obtain ⟨sign', domain', rfl, hs, hd⟩ := exists_of_sameKinds_cons hk
  exact .intro (hname.congr Token.isWord_congr hn) ((Token.isSpecial_congr hs '@').trans hsign)
    (hdomain.congr hd)

theorem Phrase.congr (h : Phrase ts) (hk : SameKinds us ts) : Phrase us := by
  refine ⟨fun hnil ↦ h.1 (eq_nil_of_sameKinds ?_), fun u hu ↦ ?_⟩
  · rw [hnil] at hk
    exact hk.symm
  · have hmem : u.kind ∈ us.map Token.kind := List.mem_map_of_mem hu
    rw [hk] at hmem
    obtain ⟨t, ht, hkind⟩ := List.mem_map.1 hmem
    rw [Token.isWord_congr hkind.symm, Token.isSpecial_congr hkind.symm]
    exact h.2 t ht

/-- The hops of a route are derived from their kinds, one by one. -/
theorem Hops.congr (h : Hops ts) (hk : SameKinds us ts) : Hops us := by
  induction h generalizing us with
  | colon ht =>
    obtain ⟨u, _, rfl, hu, hnil⟩ := exists_of_sameKinds_cons hk
    rw [eq_nil_of_sameKinds hnil]
    exact .colon ((Token.isSpecial_congr hu ':').trans ht)
  | empty hcomma _ ih =>
    obtain ⟨u, us, rfl, hu, hk⟩ := exists_of_sameKinds_cons hk
    exact .empty ((Token.isSpecial_congr hu ',').trans hcomma) (ih hk)
  | hop hcomma hsign hdomain _ ih =>
    obtain ⟨u, _, rfl, hu, hk⟩ := exists_of_sameKinds_cons hk
    obtain ⟨s, _, rfl, hs, hk⟩ := exists_of_sameKinds_cons hk
    obtain ⟨domain', us, rfl, hd, hk⟩ := exists_of_sameKinds_append hk
    exact .hop ((Token.isSpecial_congr hu ',').trans hcomma)
      ((Token.isSpecial_congr hs '@').trans hsign) (hdomain.congr hd) (ih hk)

theorem RouteOrNone.congr (h : RouteOrNone ts) (hk : SameKinds us ts) : RouteOrNone us := by
  rcases h with rfl | ⟨hsign, hdomain, hhops⟩
  · exact Or.inl (eq_nil_of_sameKinds hk)
  · obtain ⟨s, _, rfl, hs, hk⟩ := exists_of_sameKinds_cons hk
    obtain ⟨domain', hops', rfl, hd, hk⟩ := exists_of_sameKinds_append hk
    exact Or.inr (.intro ((Token.isSpecial_congr hs '@').trans hsign) (hdomain.congr hd)
      (hhops.congr hk))

theorem PhraseOrNone.congr (h : PhraseOrNone ts) (hk : SameKinds us ts) : PhraseOrNone us := by
  rcases h with rfl | h
  · exact Or.inl (eq_nil_of_sameKinds hk)
  · exact Or.inr (h.congr hk)

/-- A mailbox is derived from its kinds, with or without brackets. -/
theorem MailboxOrNone.congr (h : MailboxOrNone ts) (hk : SameKinds us ts) : MailboxOrNone us := by
  rcases h with rfl | ⟨phrase, path, hspec | ⟨hphrase, hleft, hroute, hspec, hright⟩⟩
  · exact Or.inl (eq_nil_of_sameKinds hk)
  · exact Or.inr ⟨[], us, .bare (hspec.congr hk)⟩
  · obtain ⟨phrase', _, rfl, hp, hk⟩ := exists_of_sameKinds_append hk
    obtain ⟨left', _, rfl, hl, hk⟩ := exists_of_sameKinds_cons hk
    obtain ⟨_, _, rfl, hk, hr⟩ := exists_of_sameKinds_append hk
    obtain ⟨route', spec', rfl, hroute', hspec'⟩ := exists_of_sameKinds_append hk
    obtain ⟨right', _, rfl, hr, hnil⟩ := exists_of_sameKinds_cons hr
    rw [eq_nil_of_sameKinds hnil]
    exact Or.inr ⟨_, _, .bracketed (hphrase.congr hp) ((Token.isSpecial_congr hl '<').trans hleft)
      (hroute.congr hroute') (hspec.congr hspec') ((Token.isSpecial_congr hr '>').trans hright)⟩

/-- The members of a group are too, mailbox by mailbox. -/
theorem Members.congr (h : Members ts) (hk : SameKinds us ts) : Members us := by
  induction h generalizing us with
  | last h => exact .last (h.congr hk)
  | cons h hcomma _ ih =>
    obtain ⟨us₁, _, rfl, h₁, hk⟩ := exists_of_sameKinds_append hk
    obtain ⟨u, us, rfl, hu, hk⟩ := exists_of_sameKinds_cons hk
    exact .cons (h.congr h₁) ((Token.isSpecial_congr hu ',').trans hcomma) (ih hk)

/-! ### Atoms side by side -/

/-- One of the two tokens is no atom. -/
def NotBothAtoms (t u : Token) : Prop :=
  t.kind = .atom → u.kind ≠ .atom

/-- Between two stretches stands a token that is no atom. -/
theorem isChain_append_cons {t : Token} {c : Char} (hus : us.IsChain NotBothAtoms)
    (ht : t.isSpecial c = true) (hts : ts.IsChain NotBothAtoms) :
    (us ++ t :: ts).IsChain NotBothAtoms := by
  have hk := Token.isSpecial_iff.1 ht
  refine hus.append (hts.cons fun u _ h ↦ ?_) fun u _ v hv _ ↦ ?_
  · simp [hk] at h
  · cases hv
    simp [hk]

/-- Between two items is a period. -/
theorem Dotted.isChain {isItem : Token → Bool} (h : Dotted isItem ts) :
    ts.IsChain NotBothAtoms := by
  induction h with
  | item _ => exact .singleton _
  | @cons t dot ts _ hdot _ ih => exact isChain_append_cons (.singleton t) hdot ih

/-- Between the local part and the domain is a sign. -/
theorem AddrSpec.isChain (h : AddrSpec ts) : ts.IsChain NotBothAtoms := by
  obtain ⟨hname, hsign, hdomain⟩ := h
  exact isChain_append_cons hname.isChain hsign (Dotted.isChain hdomain)

/-- Each hop begins with a sign or a comma and the last ends with a colon, so that something can
stand on either side. -/
theorem Hops.isChain_append {ws : List Token} (h : Hops ws) (hus : us.IsChain NotBothAtoms)
    (hts : ts.IsChain NotBothAtoms) : (us ++ (ws ++ ts)).IsChain NotBothAtoms := by
  induction h generalizing us with
  | colon ht => exact isChain_append_cons hus ht hts
  | empty hcomma _ ih => exact isChain_append_cons hus hcomma (ih .nil)
  | @hop comma sign domain ws hcomma hsign hdomain _ ih =>
    have htail := isChain_append_cons .nil hsign (ih (Dotted.isChain hdomain))
    rw [← List.append_assoc domain] at htail
    exact isChain_append_cons hus hcomma htail

/-- In a route and an addr-spec no two atoms stand side by side. -/
theorem RouteOrNone.isChain_append (h : RouteOrNone us) (hspec : AddrSpec ts) :
    (us ++ ts).IsChain NotBothAtoms := by
  rcases h with rfl | ⟨hsign, hdomain, hhops⟩
  · exact hspec.isChain
  · have htail := hhops.isChain_append (Dotted.isChain hdomain) hspec.isChain
    rw [← List.append_assoc] at htail
    exact isChain_append_cons .nil hsign htail

end Grammar

end InternetMail
