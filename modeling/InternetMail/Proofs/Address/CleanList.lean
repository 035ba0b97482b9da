import InternetMail.Proofs.Address.StrictList
import InternetMail.Proofs.Silent

/-!
# Lists in which nothing has to be put right

`CleanList s ts as` says how tokens make up the addresses of a list, at the strictness `s`, without
anything to report: an element between commas, or a group with its semicolon, and the rest. That is
exactly how such a list is read (`addressList_eq_pure_iff`), and lists of this sort can be put
together: with a comma between them, two lists are one (`CleanList.append`).

A reading that reports nothing and fails nowhere is written as an equation, `addressList s ts = pure
as`: a value and no notices. Taken apart step by step, that says of each part that it has nothing to
report either. So the lemmas are those of the strict reading with `pure` for success
(`addressList_comma`, `addressList_group`), and hold at every strictness. A semicolon outside of
groups, a group without one and a second colon are reported or refused (`split_semicolon_ne_pure`
and its kin), and so are not clean.
-/

namespace InternetMail

open Reported

variable {s : Strictness} {us ts : List Token} {as bs : List Address}

/-- The tokens of a group, and the address that it is. -/
inductive CleanGroup (s : Strictness) : List Token → Address → Prop
  | intro {phrase members : List Token} {colon semicolon : Token} {a : Address} :
      Unbroken (endsElement false) false phrase → bracketAfterAll false phrase = false →
      colon.isSpecial ':' = true → Unbroken (endsElement true) false members →
      bracketAfterAll false members = false → semicolon.isSpecial ';' = true →
      groupAddress s phrase colon members (some semicolon) = pure a →
      CleanGroup s (phrase ++ colon :: (members ++ [semicolon])) a

/-- The tokens of a list, and the addresses that they make up. -/
inductive CleanList (s : Strictness) : List Token → List Address → Prop
  | last {ts : List Token} {as : List Address} : Unbroken (endsElement false) false ts →
      mailboxesOf s ts = pure as → CleanList s ts as
  | comma {us ts : List Token} {comma : Token} {as bs : List Address} :
      Unbroken (endsElement false) false us → bracketAfterAll false us = false →
      comma.isSpecial ',' = true → mailboxesOf s us = pure as → CleanList s ts bs →
      CleanList s (us ++ comma :: ts) (as ++ bs)
  | group {us ts : List Token} {a : Address} {as : List Address} : CleanGroup s us a →
      CleanList s ts as → CleanList s (us ++ ts) (a :: as)

/-! ### What a group is made of -/

/-- Mailboxes one after another are read silently if each of them is. -/
theorem exists_mailboxesOfAll_iff {s : Strictness} {runs : List (List Token)} :
    (∃ as, mailboxesOfAll s runs = pure as) ↔ ∀ run ∈ runs, ∃ as, mailboxesOf s run = pure as := by
  induction runs with
  | nil => simp [mailboxesOfAll, pure_eq_pure_iff]
  | cons run runs ih =>
    rw [List.forall_mem_cons, ← ih]
    simp only [mailboxesOfAll, bind_eq_pure_iff, pure_eq_pure_iff]
    constructor
    · rintro ⟨_, as, has, bs, hbs, -⟩
      exact ⟨⟨as, has⟩, bs, hbs⟩
    · rintro ⟨⟨as, has⟩, bs, hbs⟩
      exact ⟨as ++ bs, as, has, bs, hbs, rfl⟩

/-- What makes up a group without a report: a name that passes, members that are read silently, and
a semicolon. The text of the group is that of all its tokens. -/
theorem groupAddress_eq_pure_iff {phrase members : List Token} {colon semicolon : Token}
    {a : Address} :
    groupAddress s phrase colon members (some semicolon) = pure a ↔
      checkGroupName s phrase colon = .ok () ∧
        (∃ as, mailboxesOfAll s (splitMailboxes false members) = pure as) ∧
        groupOf (phrase ++ colon :: (members ++ [semicolon])) = a := by
  simp [groupAddress, groupOf, bind_eq_pure_iff, pure_eq_pure_iff, liftExcept_eq_pure_iff,
    Unique.exists_iff]

/-! ### A list by its first element -/

/-- The addresses of elements are read silently if those of each are. -/
theorem addressesOf_cons_eq_pure_iff {e : Element} {es : List Element} {cs : List Address} :
    addressesOf s (e :: es) = pure cs ↔
      ∃ as bs, e.addresses s = pure as ∧ addressesOf s es = pure bs ∧ as ++ bs = cs := by
  simp only [addressesOf, bind_eq_pure_iff, pure_eq_pure_iff, exists_and_left]

/-- A list without separators is one element. -/
theorem addressList_of_unbroken (h : Unbroken (endsElement false) false us) :
    addressList s us = pure as ↔ mailboxesOf s us = pure as := by
  simp [addressList, Element.split_of_unbroken h, addressesOf, Element.addresses, bind_eq_pure_iff,
    pure_eq_pure_iff]

/-- A list with a comma: its first element and the rest, both read silently. -/
theorem addressList_comma {comma : Token} {cs : List Address}
    (h : Unbroken (endsElement false) false us) (hclosed : bracketAfterAll false us = false)
    (hcomma : comma.isSpecial ',' = true) :
    addressList s (us ++ comma :: ts) = pure cs ↔
      ∃ as bs, mailboxesOf s us = pure as ∧ addressList s ts = pure bs ∧ as ++ bs = cs := by
  rw [addressList, Element.split_comma h hclosed hcomma]
  simp only [addressList, bind_eq_pure_iff, pure_eq_pure_iff]
  constructor
  · rintro ⟨_, ⟨es, hes, rfl⟩, has⟩
    obtain ⟨as, bs, h₁, h₂, rfl⟩ := addressesOf_cons_eq_pure_iff.1 has
    exact ⟨as, bs, h₁, ⟨es, hes, h₂⟩, rfl⟩
  · rintro ⟨as, bs, h₁, ⟨es, hes, h₂⟩, rfl⟩
    exact ⟨_, ⟨es, hes, rfl⟩, addressesOf_cons_eq_pure_iff.2 ⟨as, bs, h₁, h₂, rfl⟩⟩

/-- A list that begins with a group: the group and the rest, both read silently. -/
theorem addressList_group {phrase : List Token} {colon semicolon : Token} {cs : List Address}
    (hphrase : Unbroken (endsElement false) false phrase)
    (hphraseClosed : bracketAfterAll false phrase = false) (hcolon : colon.isSpecial ':' = true)
    (h : Unbroken (endsElement true) false us) (hclosed : bracketAfterAll false us = false)
    (hsemi : semicolon.isSpecial ';' = true) :
    addressList s (phrase ++ colon :: (us ++ semicolon :: ts)) = pure cs ↔
      ∃ a bs, groupAddress s phrase colon us (some semicolon) = pure a ∧
        addressList s ts = pure bs ∧ a :: bs = cs := by
  rw [addressList, Element.split_colon hphrase hphraseClosed hcolon,
    Element.splitFrom_semicolon h hclosed hsemi]
  simp only [addressList, bind_eq_pure_iff, pure_eq_pure_iff]
  constructor
  · rintro ⟨_, ⟨es, hes, rfl⟩, has⟩
    obtain ⟨as, bs, h₁, h₂, rfl⟩ := addressesOf_cons_eq_pure_iff.1 has
    simp only [Element.addresses, bind_eq_pure_iff, pure_eq_pure_iff] at h₁
    obtain ⟨a, ha, rfl⟩ := h₁
    exact ⟨a, bs, ha, ⟨es, hes, h₂⟩, rfl⟩
  · rintro ⟨a, bs, ha, ⟨es, hes, h₂⟩, rfl⟩
    refine ⟨_, ⟨es, hes, rfl⟩, addressesOf_cons_eq_pure_iff.2 ⟨[a], bs, ?_, h₂, rfl⟩⟩
    simp only [Element.addresses, bind_eq_pure_iff]
    exact ⟨a, ha, rfl⟩

/-! ### What has to be put right or is refused -/

/-- A semicolon without a group. -/
theorem split_semicolon_ne_pure {semicolon : Token} (h : Unbroken (endsElement false) false us)
    (hclosed : bracketAfterAll false us = false) (hsemi : semicolon.isSpecial ';' = true)
    (es : List Element) : Element.split s (us ++ semicolon :: ts) ≠ pure es := by
  have hk := Token.isSpecial_iff.1 hsemi
  rw [Element.split, Element.splitFrom_append s none h, hclosed, List.nil_append]
  cases s <;> simp [Element.splitFrom, Token.isSpecial, hk, bind_eq_pure_iff, note_ne_pure,
    throw_ne_pure]

/-- A group in a group. -/
theorem splitFrom_colon_ne_pure {opening : Element.Opening} {colon : Token}
    (h : Unbroken (endsElement true) false us) (hclosed : bracketAfterAll false us = false)
    (hcolon : colon.isSpecial ':' = true) (es : List Element) :
    Element.splitFrom s [] (some opening) false (us ++ colon :: ts) ≠ pure es := by
  have hk := Token.isSpecial_iff.1 hcolon
  rw [Element.splitFrom_append s (some opening) h, hclosed, List.nil_append]
  simp [Element.splitFrom, Token.isSpecial, hk, throw_ne_pure]

/-- A group without its semicolon. -/
theorem splitFrom_ne_pure_of_unbroken {opening : Element.Opening}
    (h : Unbroken (endsElement true) false us) (es : List Element) :
    Element.splitFrom s [] (some opening) false us ≠ pure es := by
  have := Element.splitFrom_append s (some opening) h [] []
  simp only [List.append_nil, List.nil_append] at this
  rw [this, Element.splitFrom]
  cases s <;> simp [bind_eq_pure_iff, note_ne_pure, throw_ne_pure]

/-! ### Lists and how they are read -/

/-- What is read silently is clean. By induction on the list, at its first separator. -/
theorem CleanList.of_addressList (h : addressList s ts = pure as) : CleanList s ts as := by
  induction ts using elements_induction generalizing as with
  | unbroken us hu => exact .last hu ((addressList_of_unbroken hu).1 h)
  | ended us t ts hu hclosed ht hcolon ih =>
    have ht' : t.isSpecial ';' = true ∨ t.isSpecial ',' = true := by
      simpa [endsElement, hcolon] using ht
    rcases ht' with hsemi | hcomma
    · rw [addressList, bind_eq_pure_iff] at h
      obtain ⟨es, hes, -⟩ := h
      exact absurd hes (split_semicolon_ne_pure hu hclosed hsemi es)
    · obtain ⟨as₁, as₂, h₁, h₂, rfl⟩ := (addressList_comma hu hclosed hcomma).1 h
      exact .comma hu hclosed hcomma h₁ (ih h₂)
  | leftOpen us colon members hu hclosed hcolon hm =>
    rw [addressList, Element.split_colon hu hclosed hcolon, bind_eq_pure_iff] at h
    obtain ⟨es, hes, -⟩ := h
    exact absurd hes (splitFrom_ne_pure_of_unbroken hm es)
  | nested us colon members second ts hu hclosed hcolon hm hmclosed hsecond =>
    rw [addressList, Element.split_colon hu hclosed hcolon, bind_eq_pure_iff] at h
    obtain ⟨es, hes, -⟩ := h
    exact absurd hes (splitFrom_colon_ne_pure hm hmclosed hsecond es)
  | group us colon members semicolon ts hu hclosed hcolon hm hmclosed hsemi ih =>
    obtain ⟨a, as', ha, hts, rfl⟩ := (addressList_group hu hclosed hcolon hm hmclosed hsemi).1 h
    simpa using CleanList.group (.intro hu hclosed hcolon hm hmclosed hsemi ha) (ih hts)

/-- What is clean is read silently. -/
theorem CleanList.addressList (h : CleanList s ts as) : addressList s ts = pure as := by
  induction h with
  | last hu h => exact (addressList_of_unbroken hu).2 h
  | comma hu hclosed hcomma h _ ih =>
    exact (addressList_comma hu hclosed hcomma).2 ⟨_, _, h, ih, rfl⟩
  | @group us ts a as hgroup _ ih =>
    obtain ⟨hp, hpclosed, hcolon, hm, hmclosed, hsemi, ha⟩ := hgroup
    have hlist := (addressList_group hp hpclosed hcolon hm hmclosed hsemi).2 ⟨_, _, ha, ih, rfl⟩
    simpa using hlist

/-- A list is read without anything to report exactly as it is made up. -/
theorem addressList_eq_pure_iff : addressList s ts = pure as ↔ CleanList s ts as :=
  ⟨CleanList.of_addressList, CleanList.addressList⟩

/-! ### One list after another -/

/-- Without an opening bracket none is open. -/
theorem bracketAfterAll_of_forall (h : ∀ t ∈ ts, t.isSpecial '<' = false) :
    bracketAfterAll false ts = false := by
  induction ts with
  | nil => rfl
  | cons t ts ih =>
    rw [List.forall_mem_cons] at h
    have ht : bracketAfter false t = false := by simp [bracketAfter, h.1]
    rw [bracketAfterAll_cons, ht, ih h.2]

/-- Behind a closing bracket none is open. -/
theorem bracketAfterAll_concat {bracket : Bool} {right : Token}
    (hright : right.isSpecial '>' = true) :
    bracketAfterAll bracket (us ++ [right]) = false := by
  have hno := Token.isSpecial_eq_false hright (show '>' ≠ '<' by decide)
  rw [bracketAfterAll_append, bracketAfterAll_cons, bracketAfterAll_nil]
  simp [bracketAfter, hright, hno]

/-- A bracket that is not closed, or not at the end, has to be put right. -/
theorem exists_right_of_bracketMailbox {phrase after : List Token} {left : Token} {a : Address}
    (h : bracketMailbox s ts phrase left after = pure a) :
    ∃ inner right, after = inner ++ [right] ∧ (∀ t ∈ inner, t.isSpecial '>' = false) ∧
      right.isSpecial '>' = true := by
  cases hd : after.dropWhile (!·.isSpecial '>') with
  | nil => cases s <;> simp [bracketMailbox, hd, bind_eq_pure_iff, note_ne_pure, throw_ne_pure] at h
  | cons right rest =>
    cases rest with
    | nil =>
      obtain ⟨hafter, hinner, hright⟩ := Run.dropWhile_eq_cons_iff.1 ⟨hd, rfl⟩
      exact ⟨_, right, hafter, by simpa using hinner, by simpa using hright⟩
    | cons extra rest =>
      cases s <;> simp [bracketMailbox, hd, bind_eq_pure_iff, note_ne_pure, throw_ne_pure] at h

/-- What is read between two separators closes its bracket. -/
theorem bracketAfterAll_of_mailboxesOf (h : mailboxesOf s ts = pure as) :
    bracketAfterAll false ts = false := by
  rw [← bracketAfterAll_wordsOf]
  rw [mailboxesOf] at h
  generalize wordsOf ts = ws at h
  cases hd : ws.dropWhile (!·.isSpecial '<') with
  | nil => exact bracketAfterAll_of_forall (by simpa using hd)
  | cons left after =>
    obtain ⟨hws, -, -⟩ := Run.dropWhile_eq_cons_iff.1 ⟨hd, rfl⟩
    have hne : ws.isEmpty = false := by
      rw [hws]
      simp
    simp only [hne, hd, Bool.false_eq_true, if_false, bind_eq_pure_iff] at h
    obtain ⟨a, ha, -⟩ := h
    obtain ⟨inner, right, rfl, -, hright⟩ := exists_right_of_bracketMailbox ha
    rw [hws, ← List.cons_append, ← List.append_assoc]
    exact bracketAfterAll_concat hright

/-- With a comma between them, two lists are one. -/
theorem CleanList.append {comma : Token} (hus : CleanList s us as)
    (hcomma : comma.isSpecial ',' = true) (hts : CleanList s ts bs) :
    CleanList s (us ++ comma :: ts) (as ++ bs) := by
  induction hus with
  | last hu h => exact .comma hu (bracketAfterAll_of_mailboxesOf h) hcomma h hts
  | comma hu hclosed hcomma' h _ ih =>
    rw [List.append_assoc, List.append_assoc]
    exact .comma hu hclosed hcomma' h ih
  | group hgroup _ ih =>
    rw [List.append_assoc]
    exact .group hgroup ih

end InternetMail
