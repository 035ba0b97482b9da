import InternetMail.Proofs.Address.CleanList
import InternetMail.Proofs.Address.Levels

/-!
# What the strict reading accepts, the others do

The strict reading refuses most. A text that it reads is taken apart into the same tokens at any
strictness, all of them closed, and these make up the same addresses without anything to report
(`parseList_of_strict`).

The looser readings do more: they look for addresses that stand side by side with only blanks
between them, and put right what is open or missing. So it has to be shown for each of these that it
does nothing where the strict reading succeeds. Addresses side by side are not found in an
addr-spec, since one of two neighbours in it is a special character (`gapRuns_of_isChain`), and
nothing is put right because nothing is open or missing. The strict checks are replaced by looser
ones, which ask for less (`checkLooseAddrSpec_of_addrSpec`).
-/

namespace InternetMail

open Reported Grammar

/-! ### Mailboxes -/

/-- One of the two tokens is a special character. -/
def OneSpecial (t u : Token) : Prop :=
  t.isAnySpecial = true ∨ u.isAnySpecial = true

theorem Token.isAnySpecial_of_isSpecial {t : Token} {c : Char} (h : t.isSpecial c = true) :
    t.isAnySpecial = true := by
  simp [isAnySpecial, isSpecial_iff.1 h]

/-- Two such chains with a special character between them are one. -/
theorem isChain_oneSpecial_append_cons {us ts : List Token} {t : Token}
    (hus : us.IsChain OneSpecial) (ht : t.isAnySpecial = true) (hts : ts.IsChain OneSpecial) :
    (us ++ t :: ts).IsChain OneSpecial := by
  refine hus.append (hts.cons fun u _ ↦ Or.inl ht) fun u _ v hv ↦ ?_
  cases hv
  exact Or.inr ht

/-- In a dotted run every other token is a period. -/
theorem Grammar.Dotted.isChain_oneSpecial {isItem : Token → Bool} {ts : List Token}
    (h : Dotted isItem ts) : ts.IsChain OneSpecial := by
  induction h with
  | item _ => exact .singleton _
  | @cons t dot ts _ hdot _ ih =>
    exact isChain_oneSpecial_append_cons (.singleton t) (Token.isAnySpecial_of_isSpecial hdot) ih

/-- So it is in an addr-spec, with the sign in the middle. -/
theorem Grammar.AddrSpec.isChain_oneSpecial {ts : List Token} (h : AddrSpec ts) :
    ts.IsChain OneSpecial := by
  obtain ⟨hname, hsign, hdomain⟩ := h
  exact isChain_oneSpecial_append_cons hname.isChain_oneSpecial
    (Token.isAnySpecial_of_isSpecial hsign) (Dotted.isChain_oneSpecial hdomain)

/-- Blanks do not separate tokens one of which is a special character. -/
theorem gapRuns_of_isChain {ts : List Token} (hne : ts ≠ []) (h : ts.IsChain OneSpecial) :
    gapRuns ts = [ts] := by
  fun_induction gapRuns ts with
  | case1 => exact absurd rfl hne
  | case2 => rfl
  | case3 t u ts hgap ih =>
    have hone := (List.isChain_cons_cons.1 h).1
    simp_all [OneSpecial]
  | case4 t u ts hgap hnil ih =>
    rw [ih (by simp) h.tail] at hnil
    cases hnil
  | case5 t u ts hgap run runs hcons ih =>
    rw [ih (by simp) h.tail] at hcons
    cases hcons
    rfl

/-- The special characters of an addr-spec are those that it may have at any strictness. -/
theorem checkLooseAddrSpec_of_addrSpec {ws : List Token} (h : AddrSpec ws) :
    checkLooseAddrSpec ws = .ok () := by
  have hnone : ws.find? (fun t ↦ t.isAnySpecial && !t.isSpecial '.' && !t.isSpecial '@') =
      none := by
    rw [List.find?_eq_none]
    intro t ht hother
    simp only [Bool.and_eq_true, Bool.not_eq_true'] at hother
    obtain ⟨⟨hany, hdot⟩, hsign⟩ := hother
    cases hkind : t.kind with
    | special c =>
      have hc : t.isSpecial c = true := Token.isSpecial_iff.2 hkind
      have hdot : '.' ≠ c := by
        rintro rfl
        rw [hc] at hdot
        cases hdot
      have hsign : '@' ≠ c := by
        rintro rfl
        rw [hc] at hsign
        cases hsign
      rw [h.isSpecial_eq_false hdot hsign t ht] at hc
      cases hc
    | _ => simp [Token.isAnySpecial, hkind] at hany
  cases h with
  | @intro name sign domain hname hsign hdomain =>
    obtain ⟨t, name, rfl⟩ := List.exists_cons_of_ne_nil hname.ne_nil
    have ht := hname.isSpecial_eq_false (c := '@') (by decide) t List.mem_cons_self
    rw [checkLooseAddrSpec, hnone]
    simp [ht]

/-- An addr-spec is one at any strictness. -/
theorem addrSpec_of_addrSpec {ws : List Token} (h : AddrSpec ws) (s : Strictness) :
    addrSpec s ws = .ok (rawOf ws) := by
  cases s with
  | parseHeader => rfl
  | nonStrict =>
    rw [addrSpec, checkLooseAddrSpec_of_addrSpec h]
    rfl
  | strict => exact (addrSpec_strict_eq_ok_iff h.ne_nil).2 ⟨h, rfl⟩

/-- So is what stands inside angle brackets. -/
theorem bracketed_of_path {route spec : List Token} (hroute : RouteOrNone route)
    (hspec : AddrSpec spec) (bracket : Token) (s : Strictness) :
    bracketed s bracket (route ++ spec) = .ok (rawOf (route ++ spec)) := by
  obtain ⟨hsplit, hcheck⟩ := splitRoute_append hroute hspec
  have hne : spec.isEmpty = false := by simpa using hspec.ne_nil
  rw [bracketed, bind_eq_ok_iff]
  refine ⟨_, hsplit, ?_⟩
  simp only [hcheck, hne, addrSpec_of_addrSpec hspec s, rawOf_append]
  split <;> rfl

/-- What the grammar derives as a mailbox is read as one at any strictness. -/
theorem mailboxesOf_of_mailbox {ts phrase path : List Token}
    (h : Mailbox (wordsOf ts) phrase path) (s : Strictness) :
    mailboxesOf s ts = pure [mailboxAddress ts phrase path] := by
  generalize hws : wordsOf ts = ws at h
  cases h with
  | bare hspec =>
    have hne : path.isEmpty = false := by simpa using hspec.ne_nil
    have hd : path.dropWhile (!·.isSpecial '<') = [] := by
      simpa using hspec.isSpecial_eq_false (c := '<') (by decide) (by decide)
    have hruns : (if s = .nonStrict then addressRuns? path else none) = none := by
      split
      · simp [addressRuns?, gapRuns_of_isChain hspec.ne_nil hspec.isChain_oneSpecial]
      · rfl
    rw [mailboxesOf, hws]
    simp only [hne, hd, hruns, addrSpec_of_addrSpec hspec s]
    rfl
  | @bracketed _ route spec left right hphrase hleft hroute hspec hright =>
    have hb : ∀ t ∈ phrase, (!t.isSpecial '<') = true := by
      simpa using hphrase.isSpecial_eq_false (c := '<') (by decide)
    have hl : (!left.isSpecial '<') = false := by simpa using hleft
    have hi : ∀ t ∈ route ++ spec, (!t.isSpecial '>') = true := by
      simpa using hroute.isSpecial_append_eq_false hspec
    have hr : (!right.isSpecial '>') = false := by simpa using hright
    have hne : (phrase ++ left :: (route ++ spec ++ [right])).isEmpty = false := by simp
    rw [mailboxesOf, hws]
    simp only [hne, Run.dropWhile_append_cons _ hb hl, Run.takeWhile_append_cons _ hb hl,
      bracketMailbox, Run.dropWhile_append_cons _ hi hr, Run.takeWhile_append_cons _ hi hr,
      bracketed_of_path hroute hspec]
    rcases hphrase with rfl | hphrase
    · rfl
    · have hname : phrase.isEmpty = false := by simpa using hphrase.1
      simp only [hname, mailboxAddress, (checkPhrase_eq_ok_iff hphrase.1).2 hphrase]
      cases s <;> rfl

/-! ### Lists -/

/-- A mailbox of the strict grammar is read at any strictness, without a report. -/
theorem exists_mailboxesOf {ts : List Token} (h : MailboxOrNone (wordsOf ts)) (s : Strictness) :
    ∃ as, mailboxesOf s ts = pure as := by
  rcases h with hnil | ⟨phrase, path, h⟩
  · exact ⟨[], by rw [mailboxesOf, hnil]; rfl⟩
  · exact ⟨_, mailboxesOf_of_mailbox h s⟩

/-- A phrase names a group at any strictness. -/
theorem checkGroupName_of_phrase {phrase : List Token} (h : Phrase (wordsOf phrase))
    (s : Strictness) (colon : Token) : checkGroupName s phrase colon = .ok () := by
  have hne : (wordsOf phrase).isEmpty = false := by simpa using h.1
  rw [checkGroupName, hne, (checkPhrase_eq_ok_iff h.1).2 h]
  split <;> rfl

/-- A group by the grammar is one at any strictness. -/
theorem cleanGroup_of_strictGroup {ts : List Token} (h : StrictGroup ts) (s : Strictness) :
    CleanGroup s ts (groupOf ts) := by
  obtain ⟨hphrase, hcolon, hmembers, hsemi⟩ := h
  rename_i phrase members colon semicolon
  have hp := PhraseOrNone.unbroken (isSeparator_endsElement false) (Or.inr hphrase)
  have hm := hmembers.unbroken
  rw [unbroken_wordsOf (isSeparator_endsElement false), bracketAfterAll_wordsOf] at hp
  rw [unbroken_wordsOf (isSeparator_endsElement true), bracketAfterAll_wordsOf] at hm
  have hall : ∃ as, mailboxesOfAll s (splitMailboxes false members) = pure as :=
    exists_mailboxesOfAll_iff.2 fun run hrun ↦
      exists_mailboxesOf (forall_splitMailboxes_iff.2 hmembers run hrun) s
  exact .intro hp.1 hp.2 hcolon hm.1 hm.2 hsemi
    (groupAddress_eq_pure_iff.2 ⟨checkGroupName_of_phrase hphrase s colon, hall, rfl⟩)

/-- **A list of the strict grammar is clean at any strictness.** -/
theorem cleanList_of_strictList {ts : List Token} {as : List Address} (h : StrictList ts as)
    (s : Strictness) : CleanList s ts as := by
  have hsep := isSeparator_endsElement false
  have hnone : ∀ us : List Token, wordsOf us = [] →
      (Unbroken (endsElement false) false us ∧ bracketAfterAll false us = false) ∧
        mailboxesOf s us = pure [] := by
    intro us hus
    refine ⟨⟨(unbroken_wordsOf hsep).1 ?_, ?_⟩, ?_⟩
    · rw [hus]
      trivial
    · rw [← bracketAfterAll_wordsOf, hus]
      rfl
    · rw [mailboxesOf, hus]
      rfl
  have hsome : ∀ us phrase path : List Token, Mailbox (wordsOf us) phrase path →
      Unbroken (endsElement false) false us ∧ bracketAfterAll false us = false := by
    intro us phrase path h
    have hu := h.unbroken hsep
    rwa [unbroken_wordsOf hsep, bracketAfterAll_wordsOf] at hu
  induction h with
  | none hws => exact .last (hnone _ hws).1.1 (hnone _ hws).2
  | comma hws hcomma _ ih =>
    obtain ⟨⟨hu, hclosed⟩, has⟩ := hnone _ hws
    exact .comma hu hclosed hcomma has ih
  | last h => exact .last (hsome _ _ _ h).1 (mailboxesOf_of_mailbox h s)
  | mailbox h hcomma _ ih =>
    obtain ⟨hu, hclosed⟩ := hsome _ _ _ h
    exact .comma hu hclosed hcomma (mailboxesOf_of_mailbox h s) ih
  | group h _ ih => exact .group (cleanGroup_of_strictGroup h s) ih

/-- So it is read as the same addresses. -/
theorem addressList_of_strict {ts : List Token} {as : List Address}
    (h : outcome (addressList .strict ts) = .ok as) (s : Strictness) :
    addressList s ts = pure as :=
  (cleanList_of_strictList (outcome_addressList_strict.1 h) s).addressList

/-! ### Texts -/

/-- A token is closed exactly if it does not have to be closed for the writer. -/
theorem recovery?_eq_none_iff_of_tokensFrom {s : Strictness} {position : Nat} {t : Text}
    {ts : List Token} (h : tokensFrom s position t = .ok ts) :
    ∀ u ∈ ts, u.recovery? = none ↔ u.closed = true := by
  intro u hu
  obtain ⟨c, x, b, -, hb, hread⟩ := exists_tokenBody_of_mem h hu
  rw [hread]
  rcases closed_or_of_tokenBody hb with hclosed | ⟨-, hk | hk⟩
  · simp [Token.recovery?, hclosed]
  · simp [Token.recovery?, hk]
  · simp [Token.recovery?, hk]

/-- Tokens are read without a report exactly if all of them are closed. -/
theorem readTokens_eq_pure_iff {s : Strictness} {t : Text} {ts : List Token} :
    readTokens s t = pure ts ↔ tokenize s t = .ok ts ∧ ∀ u ∈ ts, u.closed = true := by
  have hnotes : ∀ rs : List Recovery, (rs.forM note : Parsing Unit) = pure () ↔ rs = [] := by
    intro rs
    cases rs with
    | nil => simp [List.forM]
    | cons r rs => simp [List.forM, bind_eq_pure_iff, note_ne_pure]
  simp only [readTokens, bind_eq_pure_iff, liftExcept_eq_pure_iff, pure_eq_pure_iff, hnotes,
    exists_const, List.filterMap_eq_nil_iff]
  constructor
  · rintro ⟨_, hts, hnone, rfl⟩
    exact ⟨hts, fun u hu ↦ (recovery?_eq_none_iff_of_tokensFrom hts u hu).1 (hnone u hu)⟩
  · rintro ⟨hts, hclosed⟩
    exact ⟨ts, hts, fun u hu ↦ (recovery?_eq_none_iff_of_tokensFrom hts u hu).2 (hclosed u hu), rfl⟩

/-- A text is read without anything to report exactly if all its tokens are closed and nothing has
to be put right among them. -/
theorem parseList_eq_pure_iff {s : Strictness} {t : Text} {as : List Address} :
    Address.parseList s t = pure as ↔
      ∃ ts, tokenize s t = .ok ts ∧ (∀ u ∈ ts, u.closed = true) ∧ addressList s ts = pure as := by
  rw [Address.parseList, readingOf, restate_eq_pure_iff, bind_eq_pure_iff]
  simp only [readTokens_eq_pure_iff, and_assoc]

/-- What the strict reading accepts is read as the same list at any strictness, without anything to
report. -/
theorem parseList_of_strict {t : Text} {as : List Address}
    (h : outcome (Address.parseList .strict t) = .ok as) (s : Strictness) :
    Address.parseList s t = pure as := by
  obtain ⟨ts, hts, has⟩ := outcome_parseList.1 h
  exact parseList_eq_pure_iff.2 ⟨ts, tokenize_of_le s.le_strict hts,
    closed_of_tokenize (by decide) hts, addressList_of_strict has s⟩

end InternetMail
