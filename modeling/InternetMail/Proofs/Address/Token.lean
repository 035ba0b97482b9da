import InternetMail.Address.Mailbox

/-!
# Kinds of tokens

A token is a word, a part of a domain, a comment or one special character, and what it is settles
what it is not. `wordsOf` leaves the comments out and nothing else.
-/

namespace InternetMail

namespace Token

/-- A token is a given special character if that is its kind. -/
theorem isSpecial_iff {t : Token} {c : Char} : t.isSpecial c = true ↔ t.kind = .special c := by
  simp [isSpecial]

/-- A token that is one special character is no other. -/
theorem isSpecial_eq_false {t : Token} {c d : Char} (hc : t.isSpecial c = true) (h : c ≠ d) :
    t.isSpecial d = false := by
  simpa [isSpecial, isSpecial_iff.1 hc] using h

/-- A word is no special character. -/
theorem isSpecial_eq_false_of_isWord {t : Token} (h : t.isWord = true) (c : Char) :
    t.isSpecial c = false := by
  unfold isWord at h
  unfold isSpecial
  cases hk : t.kind <;> simp_all

theorem isSpecial_eq_false_of_isSubDomain {t : Token} (h : t.isSubDomain = true) (c : Char) :
    t.isSpecial c = false := by
  unfold isSubDomain at h
  unfold isSpecial
  cases hk : t.kind <;> simp_all

theorem isSpecial_eq_false_of_isComment {t : Token} (h : t.isComment = true) (c : Char) :
    t.isSpecial c = false := by
  unfold isComment at h
  unfold isSpecial
  cases hk : t.kind <;> simp_all

theorem isComment_eq_false_of_isSpecial {t : Token} {c : Char} (h : t.isSpecial c = true) :
    t.isComment = false := by
  rw [← Bool.not_eq_true]
  intro hc
  rw [isSpecial_eq_false_of_isComment hc] at h
  cases h

end Token

/-! ### Words -/

@[simp]
theorem wordsOf_nil : wordsOf [] = [] := rfl

@[simp]
theorem wordsOf_append (ts us : List Token) : wordsOf (ts ++ us) = wordsOf ts ++ wordsOf us :=
  List.filter_append ..

/-- A special character is no comment, and is not left out. -/
theorem wordsOf_cons_of_isSpecial {t : Token} {c : Char} (h : t.isSpecial c = true)
    (ts : List Token) : wordsOf (t :: ts) = t :: wordsOf ts := by
  simp [wordsOf, Token.isComment_eq_false_of_isSpecial h]

/-- A word of a list stands in it, with comments at will between what comes before and after. -/
theorem exists_of_wordsOf_eq_append_cons {ts us ws : List Token} {t : Token}
    (h : wordsOf ts = us ++ t :: ws) :
    ∃ us' ts', ts = us' ++ t :: ts' ∧ wordsOf us' = us ∧ wordsOf ts' = ws := by
  obtain ⟨us₁, rest, rfl, hus, hrest⟩ := List.filter_eq_append_iff.1 h
  obtain ⟨us₂, ts', rfl, hus₂, -, hts⟩ := List.filter_eq_cons_iff.1 hrest
  refine ⟨us₁ ++ us₂, ts', by simp, ?_, hts⟩
  rw [wordsOf_append, wordsOf, wordsOf, hus, List.filter_eq_nil_iff.2 hus₂, List.append_nil]

end InternetMail
