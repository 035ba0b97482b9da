import InternetMail.Proofs.Header.Folding
import InternetMail.Proofs.TransferEncoding

/-!
# What quoted-printable does to line breaks

Quoted-printable has a form for all octets, and gives them back with each LF that does not stand
right after a CR made CR LF, and with nothing else changed (`Octets.completed`), unless their last
octet is a CR: that is taken for the first half of a line break, and lost
(`TransferEncoding.decode_encode_quotedPrintable`).

The result is said octet by octet and not by lines, so that it can be compared with the body:
`Octets.completed` goes over the octets and keeps in mind whether the last one was a CR. A CR at the
very end is the only octet that is lost, since the line that it ends is not followed by an LF and is
written as if it were.
-/

namespace InternetMail

namespace Octets

/-- The octets with each LF in them that does not stand right after a CR made CR LF; `afterReturn`
tells whether a CR stands right before them. -/
def completedFrom (afterReturn : Bool) : Octets → Octets
  | [] => []
  | b :: bs =>
    (if b == 0x0a && !afterReturn then [0x0d, 0x0a] else [b]) ++ completedFrom (b == 0x0d) bs

/-- The octets with each LF in them that does not stand right after a CR made CR LF. -/
def completed (bs : Octets) : Octets :=
  completedFrom false bs

/-- What stands before the octets matters only to an LF that they begin with. -/
theorem completedFrom_true {bs : Octets} (h : bs.head? ≠ some 0x0a) :
    completedFrom true bs = completed bs := by
  cases bs with
  | nil => rfl
  | cons b bs =>
    have hb : (b == 0x0a) = false := beq_false_of_ne fun hb ↦ h (congrArg some hb)
    rw [completed, completedFrom, completedFrom, hb]
    rfl

theorem completed_cons {b : UInt8} {bs : Octets} (hfeed : b ≠ 0x0a)
    (hbreak : b = 0x0d → bs.head? ≠ some 0x0a) : completed (b :: bs) = b :: completed bs := by
  rw [completed, completedFrom, beq_false_of_ne hfeed]
  by_cases hb : b = 0x0d
  · subst hb
    exact congrArg (0x0d :: ·) (completedFrom_true (hbreak rfl))
  · rw [beq_false_of_ne hb]
    rfl

theorem completedFrom_concat_return (afterReturn : Bool) (bs : Octets) :
    completedFrom afterReturn (bs ++ [0x0d]) = completedFrom afterReturn bs ++ [0x0d] := by
  induction bs generalizing afterReturn with
  | nil => rfl
  | cons b bs ih => rw [List.cons_append, completedFrom, completedFrom, ih, List.append_assoc]

/-- A CR at the end is missed where it is dropped, since it was not completed. -/
theorem completed_dropEnding_eq_iff {bs : Octets} :
    completed (Run.dropEnding [0x0d] bs) = completed bs ↔ bs.getLast? ≠ some 0x0d := by
  obtain rfl | ⟨bs, b, rfl⟩ := List.eq_nil_or_concat' bs
  · simp [Run.dropEnding]
  · rw [List.getLast?_concat, Ne, Option.some.injEq]
    by_cases hb : b = 0x0d
    · subst hb
      rw [dropEnding_append, completed, completed, completedFrom_concat_return]
      simp
    · rcases dropEnding_eq_or (bs ++ [b]) [0x0d] with heq | heq
      · simp [heq, hb]
      · exact absurd (List.append_inj_right' heq rfl) (by simpa using hb)

end Octets

namespace QuotedPrintable

/-- The line breaks that are written are those of the body without a CR at its end. -/
theorem endedLines_eq_completed (body : Octets) :
    endedLines body = Octets.completed (Run.dropEnding [0x0d] body) := by
  have hfeed : ∀ bs : Octets, (0x0a : UInt8) = 0x0d → bs ≠ [] := fun _ h ↦ absurd h (by decide)
  fun_induction endedLines body with
  | case1 => rfl
  | case2 => rfl
  | case3 bs ih =>
    rw [dropEnding_cons fun _ ↦ List.cons_ne_nil 0x0a bs, dropEnding_cons (hfeed bs), ih]
    rfl
  | case4 bs ih =>
    rw [dropEnding_cons (hfeed bs), ih]
    rfl
  | case5 b bs hend hbreak hnotfeed ih =>
    have hhead : b = 0x0d → (Run.dropEnding [0x0d] bs).head? ≠ some 0x0a := by
      intro hb hhead
      obtain ⟨rest, hrest⟩ := List.head?_eq_some_iff.1 hhead
      -- an LF that is left stood there before
      rcases dropEnding_eq_or bs [0x0d] with heq | heq
      · exact hbreak rest hb (heq ▸ hrest)
      · rw [hrest] at heq
        exact hbreak _ hb heq
    rw [dropEnding_cons hend, ih, Octets.completed_cons hnotfeed hhead]

end QuotedPrintable

namespace TransferEncoding

/-- **Quoted-printable changes line breaks alone**, and loses a CR at the end. There is a form for
all octets, and it is read as these with each LF that does not stand right after a CR made CR LF,
but without a CR that was the last of them. -/
theorem decode_encode_quotedPrintable (body : Octets) :
    ∃ form, quotedPrintable.encode body = .ok form ∧
      quotedPrintable.decode form = .ok (Octets.completed (Run.dropEnding [0x0d] body)) ∧
      (quotedPrintable.decode form = .ok (Octets.completed body) ↔ body.getLast? ≠ some 0x0d) := by
  have hdecode : quotedPrintable.decode (QuotedPrintable.encode body) =
      .ok (Octets.completed (Run.dropEnding [0x0d] body)) := by
    rw [decode, QuotedPrintable.decode_encode, QuotedPrintable.endedLines_eq_completed]
  refine ⟨QuotedPrintable.encode body, rfl, hdecode, ?_⟩
  rw [hdecode, Except.ok.injEq, Octets.completed_dropEnding_eq_iff]

/-- A CR at the end of some octets, where no LF follows it, is lost. -/
theorem decode_encode_quotedPrintable_last_return :
    ¬∃ form, quotedPrintable.encode [0x61, 0x61, 0xfc, 0x61, 0x0d] = .ok form ∧
      quotedPrintable.decode form = .ok (Octets.completed [0x61, 0x61, 0xfc, 0x61, 0x0d]) := by
  rintro ⟨form, hform, hread⟩
  obtain rfl := Except.ok.inj hform
  revert hread
  decide

end TransferEncoding

end InternetMail
