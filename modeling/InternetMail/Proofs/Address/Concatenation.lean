import InternetMail.Proofs.Address.Joining

/-!
# Lists put together by their readings

Only incoming mail is put right. At the other two strictnesses a reader refuses what is broken, so
that a list which is read at all is read without anything to report (`parseList_silent`). Its
brackets and its groups are then closed, and a text that goes on behind it finds nothing open: with
blanks and a comma between them, two texts are read as the one list and then the other
(`outcome_parseList_append`).

Nothing of this is claimed for incoming mail, where a quoted string, a bracket or a group that is
left open takes in the comma and what stands behind it.

That a reader is silent is shown by its steps, one lemma for each function, and each of them is
short: where something would have to be put right, the strictness is asked for first. A silent
reading of a list is a clean list (`CleanList`), and two clean lists with a comma between them are
one.
-/

namespace InternetMail

open Reported

variable {s : Strictness}

/-! ### Elements -/

/-- A group without its semicolon and a semicolon without a group are refused. -/
theorem Element.splitFrom_silent (hs : s ≠ .parseHeader) (pending : List Token)
    (opening : Option Opening) (bracket : Bool) (ts : List Token) :
    Silent (splitFrom s pending opening bracket ts) := by
  fun_induction splitFrom s pending opening bracket ts with
  | case1 => exact .pure _
  | case2 | case7 => exact .throw_bind _ _
  | case3 | case8 => contradiction
  | case4 => exact .throw _
  | case5 | case10 =>
    rename_i ih
    exact ih
  | case6 | case9 =>
    rename_i ih
    exact .bind ih fun _ ↦ .pure _

/-- A bracket that is not closed is refused, and so is what stands behind one that is. -/
theorem bracketMailbox_silent (hs : s ≠ .parseHeader) (all phrase : List Token) (bracket : Token)
    (after : List Token) : Silent (bracketMailbox s all phrase bracket after) := by
  rw [bracketMailbox]
  simp only [hs, ne_eq, not_false_eq_true, if_true]
  split
  · exact .throw_bind _ _
  · refine .bind (.liftExcept _) fun spec ↦ ?_
    split
    · exact .pure _
    · split
      · exact .bind (.liftExcept _) fun _ ↦ .pure _
      · exact .pure _
  · exact .throw_bind _ _

/-- What stands between two separators is read silently or refused. -/
theorem mailboxesOf_silent (hs : s ≠ .parseHeader) (ts : List Token) :
    Silent (mailboxesOf s ts) := by
  simp only [mailboxesOf]
  split
  · exact .pure _
  split
  · exact .bind (bracketMailbox_silent hs _ _ _ _) fun _ ↦ .pure _
  split
  · exact .mapM (fun _ ↦ .bind (.liftExcept _) fun _ ↦ .pure _) _
  · exact .bind (.liftExcept _) fun _ ↦ .pure _

/-- So are the members of a group. -/
theorem mailboxesOfAll_silent (hs : s ≠ .parseHeader) (runs : List (List Token)) :
    Silent (mailboxesOfAll s runs) := by
  induction runs with
  | nil => exact .pure _
  | cons ts runs ih =>
    exact .bind (mailboxesOf_silent hs ts) fun _ ↦ .bind ih fun _ ↦ .pure _

/-- So is a group: one without a semicolon is refused. -/
theorem groupAddress_silent (hs : s ≠ .parseHeader) (phrase : List Token) (colon : Token)
    (members : List Token) (close : Option Token) :
    Silent (groupAddress s phrase colon members close) :=
  .bind (.liftExcept _) fun _ ↦ .bind (mailboxesOfAll_silent hs _) fun _ ↦ .pure _

/-- So are all elements. -/
theorem addressesOf_silent (hs : s ≠ .parseHeader) (es : List Element) :
    Silent (addressesOf s es) := by
  induction es with
  | nil => exact .pure _
  | cons e es ih =>
    have hfirst : Silent (e.addresses s) := by
      cases e with
      | mailboxes ts => exact mailboxesOf_silent hs ts
      | group phrase colon members close =>
        exact .bind (groupAddress_silent hs _ _ _ _) fun _ ↦ .pure _
    exact .bind hfirst fun _ ↦ .bind ih fun _ ↦ .pure _

/-- So is a list. -/
theorem addressList_silent (hs : s ≠ .parseHeader) (ts : List Token) :
    Silent (addressList s ts) :=
  .bind (Element.splitFrom_silent hs _ _ _ ts) fun es ↦ addressesOf_silent hs es

/-! ### Texts -/

/-- But in incoming mail, a list that is read is read without anything to report. -/
theorem parseList_silent (hs : s ≠ .parseHeader) (t : Text) : Silent (Address.parseList s t) := by
  intro as has
  obtain ⟨ts, hts, has⟩ := outcome_parseList.1 has
  exact parseList_eq_pure_iff.2
    ⟨ts, hts, closed_of_tokenize hs hts, addressList_silent hs ts has⟩

/-- **With blanks and a comma between them, two lists are one**, each address with its text and its
display name as before. -/
theorem outcome_parseList_append (hs : s ≠ .parseHeader) {x y before after : Text}
    (hbefore : ∀ c ∈ before, isBlankChar c = true) (hafter : ∀ c ∈ after, isBlankChar c = true)
    {as bs : List Address} (hx : outcome (Address.parseList s x) = .ok as)
    (hy : outcome (Address.parseList s y) = .ok bs) :
    outcome (Address.parseList s (x ++ (before ++ ',' :: after) ++ y)) = .ok (as ++ bs) := by
  have hnone : ∀ c ∈ ([] : Text), isBlankChar c = true := by simp
  have hx := parseList_pad hnone hbefore (parseList_silent hs x hx)
  have hy := parseList_pad hafter hnone (parseList_silent hs y hy)
  have hxy := parseList_comma hx hy
  simp only [List.nil_append, List.append_nil] at hxy
  simpa [List.append_assoc] using congrArg outcome hxy

/-- A bracket that strays into a phrase, and after the comma a group and two addresses with only a
blank between them. -/
theorem outcome_parseList_append_stray_bracket :
    outcome (Address.parseList .nonStrict
      "j > k <a@b>\r\n ,\tg: <x@y>, (n,) z; \"a,\"@d e@f".toList) =
      .ok [⟨"a@b".toList, .written "j > k".toList false⟩, ⟨"g: <x@y>, (n,) z;".toList, .absent⟩,
        ⟨"\"a,\"@d".toList, .absent⟩, ⟨"e@f".toList, .absent⟩] := by
  have hx : outcome (Address.parseList .nonStrict "j > k <a@b>".toList) =
      .ok [⟨"a@b".toList, .written "j > k".toList false⟩] := by
    decide +kernel
  have hy : outcome (Address.parseList .nonStrict "g: <x@y>, (n,) z; \"a,\"@d e@f".toList) =
      .ok [⟨"g: <x@y>, (n,) z;".toList, .absent⟩, ⟨"\"a,\"@d".toList, .absent⟩,
        ⟨"e@f".toList, .absent⟩] := by
    decide +kernel
  have hxy : "j > k <a@b>\r\n ,\tg: <x@y>, (n,) z; \"a,\"@d e@f".toList =
      "j > k <a@b>".toList ++ ("\r\n ".toList ++ ',' :: "\t".toList) ++
        "g: <x@y>, (n,) z; \"a,\"@d e@f".toList := by
    decide +kernel
  rw [hxy]
  exact outcome_parseList_append (by decide) (Run.forall_mem_of_all (by decide))
    (Run.forall_mem_of_all (by decide)) hx hy

end InternetMail
