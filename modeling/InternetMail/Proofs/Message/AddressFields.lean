import InternetMail.Proofs.Address.Joining
import InternetMail.Proofs.Address.Written
import InternetMail.Proofs.Message.ValueText
import InternetMail.Proofs.Message.Wire

/-!
# Address fields

A folded list of items is read item by item: if each of them is read on its own without anything to
report, then so is the whole list, folded at whatever column, and its addresses are those of the
items in their order (`parseList_valueText_foldList`). So a field that was replaced by addresses is
read as what each of them is read as alone (`Message.exists_addresses_setAddresses`).

A folded list survives the wire if its items do (`wireSafe_foldList_iff`), so a message does after
its addresses were replaced if each of them goes on after its line feeds
(`Message.wireSafe_setAddresses_iff`).

A list is folded where the column says, so what is read is not the list that is joined by commas but
one with line breaks in it. These are taken out when the value is read, and what is left are blanks
behind the commas (`parseList_valueText_comma`). So the induction is over the items, for any column
and any number of characters that are used already.
-/

namespace InternetMail

open Reported

variable {s : Strictness}

/-! ### Values with a comma -/

/-- A value is read up to a comma outside of everything, and behind it. -/
theorem parseList_valueText_comma {t u : Text} {as bs : List Address}
    (ht : Address.parseList s (valueText t) = pure as)
    (hu : Address.parseList s (valueText u) = pure bs) :
    Address.parseList s (valueText (t ++ ',' :: u)) = pure (as ++ bs) := by
  have hcomma : isBlankChar ',' = false := by decide
  rw [valueText_eq_strip] at ht hu ⊢
  rw [Text.unfolded_append_cons (by decide), Run.strip_append_cons _ _ hcomma]
  obtain ⟨after, hafter, heq⟩ :=
    Run.exists_eq_stripEnd_append isBlankChar ((Text.unfolded t).dropWhile isBlankChar)
  obtain ⟨before, hbefore, heq'⟩ :=
    Run.exists_stripEnd_eq_append_strip isBlankChar (Text.unfolded u)
  rw [heq, heq', ← Run.strip]
  have hnone : ∀ c ∈ ([] : Text), isBlankChar c = true := by simp
  have hleft := parseList_pad hnone hafter ht
  have hright := parseList_pad hbefore hnone hu
  rw [List.nil_append] at hleft
  rw [List.append_nil] at hright
  exact parseList_comma hleft hright

/-! ### Folded lists -/

/-- The rest of a list that has begun, item by item. -/
theorem parseList_valueText_foldRest (column : Nat) {items : List Text}
    {lists : List (List Address)}
    (h : List.Forall₂ (fun item as ↦ Address.parseList s (valueText item) = pure as) items lists)
    (used : Nat) {first : Text} {as : List Address}
    (hfirst : Address.parseList s (valueText first) = pure as) :
    Address.parseList s (valueText (first ++ foldRest column used items)) =
      pure (as ++ lists.flatten) := by
  induction h generalizing used first as with
  | nil => simpa [foldRest] using hfirst
  | @cons item bs items lists hitem _ ih =>
    obtain ⟨gap, used', hgap, -, hfold⟩ := exists_foldRest_cons column used item items
    have hrest : Address.parseList s (valueText (gap ++ (item ++ foldRest column used' items))) =
        pure (bs ++ lists.flatten) := by
      rw [valueText_append_of_blank hgap]
      exact ih used' hitem
    rw [hfold, List.flatten_cons]
    exact parseList_valueText_comma hfirst hrest

/-- A folded list is read as its items are, one after another. -/
theorem parseList_valueText_foldList (used column : Nat) {items : List Text}
    {lists : List (List Address)}
    (h : List.Forall₂ (fun item as ↦ Address.parseList s (valueText item) = pure as) items lists) :
    Address.parseList s (valueText (foldList used column items)) = pure lists.flatten := by
  cases h with
  | nil =>
    have hempty : valueText [] = [] := rfl
    rw [foldList, hempty]
    exact (parseList_blank (by simp)).2 rfl
  | @cons item as items lists hitem hitems =>
    obtain ⟨gap, used', hgap, -, hfold⟩ := exists_foldList_cons used column item items
    rw [hfold, valueText_append_of_blank hgap, List.flatten_cons]
    exact parseList_valueText_foldRest column hitems used' hitem

/-! ### Folded lists on the wire -/

/-- A text without blanks around it begins with no fold. -/
theorem Bare.any_head {t : Text} (h : Bare t) : t.head?.any isFoldChar = false := by
  cases t with
  | nil => rfl
  | cons c t =>
    rw [List.head?_cons, Option.any_some, ← Bool.not_eq_true, isFoldChar, Bool.or_eq_true,
      beq_iff_eq, beq_iff_eq]
    have := h.head c rfl
    rintro (rfl | rfl) <;> exact absurd this (by decide)

/-- A printable text has no line feeds. -/
theorem continued_of_printable {t : Text} (h : ∀ c ∈ t, Printable c) : t.Continued := by
  refine Text.continued_of_forall fun c hc ↦ ?_
  rintro rfl
  exact absurd (h _ hc) (by decide)

/-- An item in a list goes on after its line feeds as it does alone, as what follows it is no fold.
-/
theorem continued_item_iff {gap : Text} (hgap : gap.Continued) (item : Text)
    (column used : Nat) (items : List Text) :
    Text.Continued (gap ++ (item ++ foldRest column used items)) ↔
      item.Continued ∧ Text.Continued (foldRest column used items) := by
  refine ⟨fun h ↦ ?_, fun ⟨hitem, hrest⟩ ↦ hgap.append (hitem.append hrest)⟩
  have h := h.right_of_append
  refine ⟨?_, h.right_of_append⟩
  cases items with
  | nil => simpa [foldRest] using h
  | cons next items =>
    obtain ⟨_, _, -, -, hfold⟩ := exists_foldRest_cons column used next items
    rw [hfold] at h
    exact h.left_of_append_cons (by decide)

/-- A list goes on after its line feeds if its items do. The line breaks of the folding have a fold
behind them. -/
theorem continued_foldRest_iff (column used : Nat) (items : List Text) :
    Text.Continued (foldRest column used items) ↔ ∀ item ∈ items, item.Continued := by
  induction items generalizing used with
  | nil => simp [foldRest, Followed]
  | cons item items ih =>
    obtain ⟨gap, used', -, hgap, hfold⟩ := exists_foldRest_cons column used item items
    have hcontinued : Text.Continued (',' :: gap) := by
      rcases hgap with rfl | rfl <;> decide
    rw [hfold, ← List.cons_append, continued_item_iff hcontinued, ih, List.forall_mem_cons]

/-- Folding breaks lines only before blanks of its own. -/
theorem wireSafe_foldList_iff (used column : Nat) {items : List Text}
    (hhead : ∀ item ∈ items, item.head?.any isFoldChar = false) :
    (foldList used column items).WireSafe ↔ ∀ item ∈ items, item.Continued := by
  cases items with
  | nil => simp [foldList, show Text.WireSafe [] by decide]
  | cons item items =>
    obtain ⟨gap, used', -, hgap, hfold⟩ := exists_foldList_cons used column item items
    have hcontinued : gap.Continued := by
      rcases hgap with rfl | rfl <;> decide
    rw [hfold, List.forall_mem_cons, ← continued_foldRest_iff column used',
      ← continued_item_iff hcontinued]
    refine ⟨fun h ↦ h.breaks, fun h ↦ ⟨?_, h⟩⟩
    -- the value begins with the first item, or with the break before it
    rcases hgap with rfl | rfl
    · rfl
    cases item with
    | cons c item => exact hhead (c :: item) List.mem_cons_self
    | nil =>
      cases items with
      | nil => rfl
      | cons next items =>
        obtain ⟨_, _, -, -, hfold'⟩ := exists_foldRest_cons column used' next items
        simp [hfold', isFoldChar]

namespace Message

variable {m : Message} {n : HeaderName} {value : Text} {as : List Address}

/-- A field value is read by what it says, also if that is nothing. -/
theorem addressesOf_eq_pure_iff :
    m.addressesOf n value = pure as ↔
      Address.parseList m.settings.headerStrictness (valueText value) = pure as := by
  rw [addressesOf]
  split
  · rename_i hnil
    rw [List.isEmpty_iff.1 hnil, parseList_blank (by simp)]
    exact pure_eq_pure_iff.trans eq_comm
  · rw [Attempt.summarized, restate_eq_pure_iff]

/-- What is read of a field value is what is read of what it says, whatever comes up. -/
theorem outcome_addressesOf_eq_ok_iff :
    outcome (m.addressesOf n value) = .ok as ↔
      outcome (Address.parseList m.settings.headerStrictness (valueText value)) = .ok as := by
  rw [addressesOf]
  split
  · rename_i hnil
    rw [List.isEmpty_iff.1 hnil, (parseList_blank (by simp)).2 rfl]
  · rw [Attempt.summarized, outcome_restate, mapError_eq_ok_iff]

/-- The addresses of a field with one value. -/
theorem addresses_eq_pure_of_getAll (hvalue : m.headers.getAll n = [value])
    (h : Address.parseList m.settings.headerStrictness (valueText value) = pure as) :
    m.addresses n = pure as := by
  have hall : (m.headers.getAll n).mapM (m.addressesOf n) = pure [as] := by
    rw [hvalue, mapM_eq_pure_iff]
    exact .cons (addressesOf_eq_pure_iff.2 h) .nil
  rw [addresses, bind_eq_pure_iff]
  exact ⟨[as], hall, by simp⟩

/-- No addresses are read of a name without values. -/
theorem addresses_filled (h : m.headers.entries.keys.Nodup) :
    addresses { m with headers := m.headers.filled } n = m.addresses n := by
  rw [addresses, addresses, HeaderMap.getAll_filled h]
  rfl

/-! ### Replacing a field -/

/-- Asking for the name does not change how an address is written. -/
theorem format_askEncoded [MultiByte.Codec] (a : Address) :
    a.askEncoded.value.format = a.format := by
  have hask : a.ask.value.format = a.format := by
    simp [Address.format, Address.render, Address.isGroup]
  unfold Address.askEncoded
  split
  · split
    · rfl
    · exact hask
  · rfl

/-- The message with its field replaced by the folded list. The addresses are asked for their
written forms on the way, and keep these. -/
theorem value_setAddresses [MultiByte.Codec] (hne : as ≠ []) :
    (m.setAddresses n as).value =
      { m with
        headers := m.headers.set n
          (foldList (n.text.length + 2) m.settings.foldColumn (as.map Address.format)) } := by
  have hnonempty : as.isEmpty = false := by simpa using hne
  have hformats :
      (as.mapM Address.askEncoded).value.map Address.format = as.map Address.format := by
    rw [value_mapM, List.map_map]
    exact List.map_congr_left fun a _ ↦ format_askEncoded a
  rw [setAddresses, hnonempty, ← hformats]
  rfl

/-- Replacing addresses leaves the settings as they are. -/
theorem settings_setAddresses [MultiByte.Codec] :
    (m.setAddresses n as).value.settings = m.settings := by
  cases as with
  | nil => rfl
  | cons a as => rw [value_setAddresses (List.cons_ne_nil a as)]

/-- The list is written on lines of one field, so the message survives the wire just if none of the
addresses breaks out of its own. -/
theorem wireSafe_setAddresses_iff [MultiByte.Codec] (hm : m.WireSafe)
    (hbare : ∀ a ∈ as, Bare a.format) :
    (m.setAddresses n as).value.WireSafe ↔ ∀ a ∈ as, a.format.Continued := by
  by_cases hne : as = []
  · subst hne
    have hremoved : (m.headers.remove n).WireSafe := HeaderMap.WireSafe.remove hm n
    exact iff_of_true hremoved (by simp)
  have hhead : ∀ item ∈ as.map Address.format, item.head?.any isFoldChar = false := by
    intro item hitem
    obtain ⟨a, ha, rfl⟩ := List.mem_map.1 hitem
    exact (hbare a ha).any_head
  rw [value_setAddresses hne, WireSafe, HeaderMap.wireSafe_set_iff hm,
    wireSafe_foldList_iff _ _ hhead, List.forall_mem_map]

/-- What a field is read as after it was replaced by addresses: each of them as it is read alone. -/
theorem exists_addresses_setAddresses [MultiByte.Codec] {R : Address → Address → Prop}
    (h : ∀ a ∈ as, ∃ b, m.addressesOf n a.format = pure [b] ∧ R b a) :
    ∃ bs, (m.setAddresses n as).value.addresses n = pure bs ∧ List.Forall₂ R bs as := by
  by_cases hne : as = []
  · subst hne
    refine ⟨[], ?_, .nil⟩
    have hremoved : (m.setAddresses n []).value = { m with headers := m.headers.remove n } := rfl
    rw [hremoved, addresses, HeaderMap.getAll_remove_self]
    rfl
  have hread : ∃ bs : List Address, List.Forall₂ (fun item b ↦
      Address.parseList m.settings.headerStrictness (valueText item) = pure [b])
        (as.map Address.format) bs ∧ List.Forall₂ R bs as := by
    clear hne
    induction as with
    | nil => exact ⟨[], .nil, .nil⟩
    | cons a as ih =>
      rw [List.forall_mem_cons] at h
      obtain ⟨b, hb, hR⟩ := h.1
      obtain ⟨bs, hbs, hall⟩ := ih h.2
      exact ⟨b :: bs, .cons (addressesOf_eq_pure_iff.1 hb) hbs, .cons hR hall⟩
  obtain ⟨bs, hbs, hall⟩ := hread
  refine ⟨bs, ?_, hall⟩
  have hsingle : List.Forall₂ (fun item cs ↦
      Address.parseList m.settings.headerStrictness (valueText item) = pure cs)
        (as.map Address.format) (bs.map fun b ↦ [b]) := List.forall₂_map_right_iff.2 hbs
  have hlist := parseList_valueText_foldList (n.text.length + 2) m.settings.foldColumn hsingle
  rw [← List.flatMap_def, List.flatMap_singleton'] at hlist
  rw [value_setAddresses hne]
  exact addresses_eq_pure_of_getAll HeaderMap.getAll_set_self hlist

end Message

end InternetMail
