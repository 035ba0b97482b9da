import InternetMail.Proofs.Address.StrictList
import InternetMail.Proofs.Address.Tiling
import Mathlib.Data.List.Forall2

/-!
# The strict reading and its grammar

The strict reading accepts a text exactly when its tokens, without the comments, are derivable, and
then it finds one address for each mailbox and each group of the derivation, in order
(`parseList_strict_iff_derives`). The address of a mailbox is the source of its route and addr-spec;
that of a group is the source of the whole element, the comments in front of the group among it,
since an element begins right after a comma or a semicolon (`Grammar.Item.IsAddress`).

No derivation is privileged: the second half is about every derivation of the tokens.

The grammar derives tokens without comments, and a group has its comments in its text, so the two
sides have to be lined up: `Grammar.Item.StandsIn` says where an item of the derivation stands in
the list with its comments. A derivation of the same tokens gives the same list, and the addresses
are read off that, whichever derivation it was.
-/

namespace InternetMail

open Grammar

/-- The address that the text `t`, whose tokens are `ts`, has for an item of its list. -/
inductive Grammar.Item.IsAddress (t : Text) (ts : List Token) : Item → Address → Prop
  | mailbox {path : List Token} {a : Address} : a.spec = rawOf path →
      (∀ u ∈ path, IsSlice t u.start u.stop u.raw) → IsAddress t ts (.mailbox path) a
  | group {tokens before element after : List Token} {first last : Token} {a : Address} :
      ts = before ++ element ++ after → wordsOf element = tokens →
      (∀ u ∈ before.getLast?, (u.isSpecial ',' || u.isSpecial ';') = true) →
      element.head? = some first → element.getLast? = some last → last.isSpecial ';' = true →
      IsSlice t first.start last.stop a.spec → IsAddress t ts (.group tokens) a

/-! ### From the tokens with comments to those without -/

theorem StrictGroup.group {ts : List Token} (h : StrictGroup ts) : Group (wordsOf ts) := by
  obtain ⟨hphrase, hcolon, hmembers, hsemi⟩ := h
  rw [wordsOf_append, wordsOf_cons_of_isSpecial hcolon, wordsOf_append,
    wordsOf_cons_of_isSpecial hsemi]
  exact .intro hphrase hcolon hmembers hsemi

/-- What the strict reading accepts is derivable. -/
theorem StrictList.exists_addresses {ts : List Token} {as : List Address} (h : StrictList ts as) :
    ∃ items, Addresses (wordsOf ts) items := by
  induction h with
  | none hws => exact ⟨[], hws ▸ .empty⟩
  | comma hws hcomma _ ih =>
    obtain ⟨items, hitems⟩ := ih
    rw [wordsOf_append, hws, List.nil_append, wordsOf_cons_of_isSpecial hcomma]
    exact ⟨items, .comma hcomma hitems⟩
  | last hmailbox => exact ⟨_, .last hmailbox⟩
  | mailbox hmailbox hcomma _ ih =>
    obtain ⟨items, hitems⟩ := ih
    rw [wordsOf_append, wordsOf_cons_of_isSpecial hcomma]
    exact ⟨_, .mailbox hmailbox hcomma hitems⟩
  | group hgroup _ ih =>
    obtain ⟨items, hitems⟩ := ih
    rw [wordsOf_append]
    exact ⟨_, .group hgroup.group hitems⟩

/-! ### And back -/

/-- A derived group stands in front of what follows it, with comments at will but none between. -/
theorem exists_strictGroup {us ws ts : List Token} (hgroup : Group us)
    (hts : wordsOf ts = us ++ ws) :
    ∃ element rest, ts = element ++ rest ∧ StrictGroup element ∧ wordsOf element = us ∧
      wordsOf rest = ws := by
  obtain ⟨hphrase, hcolon, hmembers, hsemi⟩ := hgroup
  rw [List.append_assoc, List.cons_append, List.append_assoc, List.singleton_append] at hts
  obtain ⟨phrase', rest, rfl, rfl, hrest⟩ := exists_of_wordsOf_eq_append_cons hts
  obtain ⟨members', rest', rfl, rfl, rfl⟩ := exists_of_wordsOf_eq_append_cons hrest
  refine ⟨_, rest', ?_, .intro hphrase hcolon hmembers hsemi, ?_, rfl⟩
  · simp
  · simp [wordsOf_cons_of_isSpecial hcolon, wordsOf_cons_of_isSpecial hsemi]

/-- Where an item stands among the tokens of a list, and the address that it is there. A group
begins where what is in front of it ended. -/
inductive Grammar.Item.StandsIn (ts : List Token) : Item → Address → Prop
  | mailbox {before us after phrase path : List Token} : ts = before ++ us ++ after →
      Mailbox (wordsOf us) phrase path →
      StandsIn ts (.mailbox path) (mailboxAddress us phrase path)
  | group {before us after : List Token} : ts = before ++ us ++ after →
      (∀ u ∈ before.getLast?, (u.isSpecial ',' || u.isSpecial ';') = true) → StrictGroup us →
      StandsIn ts (.group (wordsOf us)) (groupOf us)

/-- What is derivable is accepted, with an address for each derived item. In front of the list may
stand other tokens, `before`, if they end an element. -/
theorem Grammar.Addresses.exists_standsIn {ws : List Token} {items : List Item}
    (h : Addresses ws items) (before : List Token) {ts : List Token} (hts : wordsOf ts = ws)
    (hbefore : ∀ u ∈ before.getLast?, (u.isSpecial ',' || u.isSpecial ';') = true) :
    ∃ as, StrictList ts as ∧ List.Forall₂ (Item.StandsIn (before ++ ts)) items as := by
  -- what an item takes goes over to `before`, with the separator that ends it
  induction h generalizing before ts with
  | empty => exact ⟨[], .none hts, .nil⟩
  | @comma comma ws items hcomma _ ih =>
    rw [← List.nil_append (comma :: ws)] at hts
    obtain ⟨us, ts, rfl, hus, hrest⟩ := exists_of_wordsOf_eq_append_cons hts
    have heq : before ++ (us ++ comma :: ts) = (before ++ us ++ [comma]) ++ ts := by simp
    obtain ⟨as, has, hitems⟩ := ih (before ++ us ++ [comma]) hrest (by simp [hcomma])
    exact ⟨as, .comma hus hcomma has, heq ▸ hitems⟩
  | @last ws phrase path hmailbox =>
    subst hts
    have heq : before ++ ts = before ++ ts ++ [] := by simp
    exact ⟨_, .last hmailbox, .cons (.mailbox heq hmailbox) .nil⟩
  | @mailbox us phrase path ws comma items hmailbox hcomma _ ih =>
    obtain ⟨us, ts, rfl, rfl, hrest⟩ := exists_of_wordsOf_eq_append_cons hts
    have heq : before ++ (us ++ comma :: ts) = (before ++ us ++ [comma]) ++ ts := by simp
    obtain ⟨as, has, hitems⟩ := ih (before ++ us ++ [comma]) hrest (by simp [hcomma])
    have hstands := (List.append_assoc before us (comma :: ts)).symm
    exact ⟨_, .mailbox hmailbox hcomma has, .cons (.mailbox hstands hmailbox) (heq ▸ hitems)⟩
  | @group us ws items hgroup _ ih =>
    obtain ⟨element, rest, rfl, hstrict, rfl, hrest⟩ := exists_strictGroup hgroup hts
    obtain ⟨inner, semicolon, heq, hsemi⟩ := hstrict.exists_eq_concat
    obtain ⟨as, has, hitems⟩ := ih (before ++ element) hrest (by simp [heq, hsemi])
    rw [← List.append_assoc]
    exact ⟨_, .group hstrict has, .cons (.group rfl hbefore hstrict) hitems⟩

theorem Grammar.Item.StandsIn.isAddress {lead t : Text} {ts : List Token} {item : Item}
    {a : Address} (h : StandsIn ts item a) (htiles : Tiles lead ts t) : IsAddress t ts item a := by
  cases h with
  | @mailbox before us after phrase path heq hmailbox =>
    refine .mailbox rfl fun u hu ↦ htiles.isSlice_raw ?_
    have hmem := List.mem_of_mem_filter (hmailbox.path_subset hu)
    simp [heq, hmem]
  | @group before us after heq hbefore hstrict =>
    obtain ⟨inner, semicolon, rfl, hsemi⟩ := hstrict.exists_eq_concat
    obtain ⟨first, hfirst⟩ : ∃ first, (inner ++ [semicolon]).head? = some first := by
      cases inner <;> simp
    rw [heq] at htiles
    exact .group heq rfl hbefore hfirst (by simp) hsemi (htiles.isSlice_sourceOf hfirst)

/-- So each derived item has its address in the text. -/
theorem Grammar.Addresses.exists_strictList {ws : List Token} {items : List Item}
    (h : Addresses ws items) {lead t : Text} (before : List Token) {ts : List Token}
    (hts : wordsOf ts = ws) (htiles : Tiles lead (before ++ ts) t)
    (hbefore : ∀ u ∈ before.getLast?, (u.isSpecial ',' || u.isSpecial ';') = true) :
    ∃ as, StrictList ts as ∧ List.Forall₂ (Item.IsAddress t (before ++ ts)) items as := by
  obtain ⟨as, has, hitems⟩ := h.exists_standsIn before hts hbefore
  exact ⟨as, has, hitems.imp fun _ _ hitem ↦ hitem.isAddress htiles⟩

/-! ### Main statement -/

/-- **The strict reading accepts exactly its grammar.** A text is accepted if and only if its tokens
without comments are derivable as a list. When it is, the result has one address for each mailbox
and group of any derivation, in order. -/
theorem parseList_strict_iff_derives (t : Text) :
    ((∃ as, Reported.outcome (Address.parseList .strict t) = .ok as) ↔
      ∃ ts items, tokenize .strict t = .ok ts ∧ Addresses (wordsOf ts) items) ∧
    ∀ as ts items, Reported.outcome (Address.parseList .strict t) = .ok as →
      tokenize .strict t = .ok ts → Addresses (wordsOf ts) items →
      List.Forall₂ (Item.IsAddress t ts) items as := by
  refine ⟨⟨?_, ?_⟩, ?_⟩
  · rintro ⟨as, has⟩
    obtain ⟨ts, hts, hlist⟩ := outcome_parseList_strict.1 has
    obtain ⟨items, hitems⟩ := hlist.exists_addresses
    exact ⟨ts, items, hts, hitems⟩
  · rintro ⟨ts, items, hts, hitems⟩
    obtain ⟨as, has, -⟩ :=
      hitems.exists_strictList [] rfl (tiles_of_tokenize hts) (by simp)
    exact ⟨as, outcome_parseList_strict.2 ⟨ts, hts, has⟩⟩
  · intro as ts items has hts hitems
    obtain ⟨as', has', hall⟩ :=
      hitems.exists_strictList [] rfl (tiles_of_tokenize hts) (by simp)
    have heq := has.symm.trans (outcome_parseList_strict.2 ⟨ts, hts, has'⟩)
    cases heq
    exact hall

/-- A group with a comment in front of it, and a mailbox right after its semicolon. -/
theorem forall₂_isAddress_group_then_mailbox :
    ∃ as ts items, Reported.outcome (Address.parseList .strict "(c) g: a@b, ;d@e".toList) = .ok as ∧
      tokenize .strict "(c) g: a@b, ;d@e".toList = .ok ts ∧ Addresses (wordsOf ts) items ∧
      List.Forall₂ (Item.IsAddress "(c) g: a@b, ;d@e".toList ts) items as ∧
      as.map Address.spec = ["(c) g: a@b, ;".toList, "d@e".toList] := by
  have has : Reported.outcome (Address.parseList .strict "(c) g: a@b, ;d@e".toList) =
      .ok [⟨"(c) g: a@b, ;".toList, .absent⟩, ⟨"d@e".toList, .absent⟩] := by
    decide +kernel
  obtain ⟨ts, items, hts, hitems⟩ :=
    (parseList_strict_iff_derives "(c) g: a@b, ;d@e".toList).1.1 ⟨_, has⟩
  exact ⟨_, ts, items, has, hts, hitems,
    (parseList_strict_iff_derives _).2 _ ts items has hts hitems, rfl⟩

end InternetMail
