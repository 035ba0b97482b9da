import InternetMail.Proofs.Run
import InternetMail.Proofs.Text.Octet
import InternetMail.QuotedPrintable.Escape
import Mathlib.Data.List.Basic

/-!
# Quoted-printable bodies read back

A body is read as it was written but for its line breaks: each comes back as CR LF, and a CR at the
very end is lost (`decode_encode`). So it comes back as it was just if each LF in it stands right
after a CR and none is its last octet (`endedLines_eq_self_iff`).

Where it does not, the body and what comes back part at a first octet, an LF there being read as a
CR or the last CR as nothing (`endedLines_eq_self_or_exists`).

Decoding takes lines one by one and encoding writes them so, hence it is the lines of the body that
both go by (`decode_joinLines`), and what is lost and gained is at their ends. To be compared with
the body it is said once more octet by octet (`endedLines`, `joinLines_stretches`).
-/

namespace InternetMail.QuotedPrintable

/-- The body with each of its line breaks written as CR LF, and without a CR at its end. -/
def endedLines : Octets → Octets
  | [] => []
  | [0x0d] => []
  | 0x0d :: 0x0a :: bs => 0x0d :: 0x0a :: endedLines bs
  | 0x0a :: bs => 0x0d :: 0x0a :: endedLines bs
  | b :: bs => b :: endedLines bs

/-- Each LF in the body stands right after a CR, and no CR stands at the end. -/
structure Keeps (body : Octets) : Prop where
  returned : ∀ us rest, body = us ++ 0x0a :: rest → us.getLast? = some 0x0d
  last : body.getLast? ≠ some 0x0d

/-! ### Lines -/

/-- An octet that is kept as it is begins no escape. -/
theorem isPlain_ne : ∀ last b, isPlain last b = true → (b == 0x3d) = false := by
  have hplain : ∀ b, (isPlain true b = true → (b == 0x3d) = false) ∧
      (isPlain false b = true → (b == 0x3d) = false) :=
    Octet.forall_of_digits _ (by decide)
  rintro (_ | _) b
  · exact (hplain b).2
  · exact (hplain b).1

/-- An octet that begins no escape stands for itself. -/
theorem decode_cons {b : UInt8} (h : (b == 0x3d) = false) (bs : Octets) :
    decode (b :: bs) = b :: decode bs := by
  rw [decode.eq_def]
  simp only [h, Bool.false_eq_true, if_false]

/-- An escaped octet is read as that octet. -/
theorem decode_escape (b : UInt8) (rest : Octets) :
    decode (escape b ++ rest) = b :: decode rest := by
  have hdigit : ∀ b : UInt8, Octet.hexDigit (b / 16) ≠ 0x0d ∧ Octet.hexDigit (b / 16) ≠ 0x0a :=
    Octet.forall_of_digits _ (by decide)
  obtain ⟨hreturn, hfeed⟩ := hdigit b
  show decode (0x3d :: Octet.hexDigit (b / 16) :: Octet.hexDigit (b % 16) :: rest) = _
  rw [decode.eq_def]
  simp only [beq_self_eq_true, if_true]
  split
  · rename_i heq
    exact absurd (List.cons.inj heq).1 hreturn
  · rename_i heq
    exact absurd (List.cons.inj heq).1 hfeed
  · rename_i heq
    obtain ⟨hhigh, heq⟩ := List.cons.inj heq
    obtain ⟨hlow, rfl⟩ := List.cons.inj heq
    rw [← hhigh, ← hlow, escaped_digits]
  · rename_i heq
    exact absurd heq (by simp)
  · rename_i heq
    exact absurd heq (by simp)

/-- What is written for one octet is read as that octet, whatever follows. -/
theorem decode_form_append (last : Bool) (b : UInt8) (rest : Octets) :
    decode ((if isPlain last b then [b] else escape b) ++ rest) = b :: decode rest := by
  split
  · rename_i hplain
    exact decode_cons (isPlain_ne last b hplain) rest
  · exact decode_escape b rest

/-- A line is read as it was written, its soft breaks dropped. -/
theorem decode_encodeLineFrom_append (column : Nat) (line rest : Octets) :
    decode (encodeLineFrom column line ++ rest) = line ++ decode rest := by
  fun_induction encodeLineFrom column line with
  | case1 => rfl
  | case2 column b bs form hlong ih =>
    show decode (0x3d :: 0x0d :: 0x0a :: (form ++ encodeLineFrom form.length bs ++ rest)) = _
    rw [decode.eq_def]
    show decode (form ++ encodeLineFrom form.length bs ++ rest) = _
    rw [List.append_assoc, decode_form_append, ih]
    rfl
  | case3 column b bs form hshort ih =>
    rw [List.append_assoc, decode_form_append, ih]
    rfl

/-- A line break stands between a line and those after it. -/
theorem joinLines_cons (line : Octets) {lines : List Octets} (h : lines ≠ []) :
    joinLines (line :: lines) = line ++ [0x0d, 0x0a] ++ joinLines lines := by
  obtain ⟨next, lines, rfl⟩ := List.exists_cons_of_ne_nil h
  rfl

/-- Lines are read one by one, with the line breaks between them. -/
theorem decode_joinLines (lines : List Octets) :
    decode (joinLines (lines.map encodeLine)) =
      joinLines (lines.map (Run.dropEnding [0x0d])) := by
  induction lines with
  | nil => rfl
  | cons line lines ih =>
    by_cases hlast : lines = []
    · subst hlast
      have hline := decode_encodeLineFrom_append 0 (Run.dropEnding [0x0d] line) []
      rwa [List.append_nil, show decode [] = [] from rfl, List.append_nil] at hline
    · have hmap : ∀ f : Octets → Octets, lines.map f ≠ [] := fun f ↦ by simpa using hlast
      rw [List.map_cons, List.map_cons, joinLines_cons _ (hmap _), joinLines_cons _ (hmap _),
        List.append_assoc, encodeLine, decode_encodeLineFrom_append, List.append_assoc, ← ih]
      -- neither octet of a line break begins an escape
      rw [List.cons_append, decode_cons rfl, List.cons_append, decode_cons rfl]
      rfl

/-! ### Bodies -/

/-- An octet in front of a line does not change how the line ends, unless it is a CR and all of the
line. -/
theorem dropEnding_cons {b : UInt8} {line : Octets} (h : b = 0x0d → line ≠ []) :
    Run.dropEnding [0x0d] (b :: line) = b :: Run.dropEnding [0x0d] line := by
  rcases List.eq_nil_or_concat' line with rfl | ⟨line, c, rfl⟩
  · have hb : (0x0d == b) = false := beq_false_of_ne fun hb ↦ h hb.symm rfl
    simp [Run.dropEnding, List.isSuffixOf, List.isPrefixOf, hb]
  · by_cases hc : c = 0x0d
    · subst hc
      simp [Run.dropEnding, List.isSuffixOf, List.isPrefixOf]
    · have hc : (0x0d == c) = false := beq_false_of_ne (Ne.symm hc)
      simp [Run.dropEnding, List.isSuffixOf, List.isPrefixOf, hc]

/-- Lines that are put together with CR LF between them, each less the CR at its end. -/
theorem joinLines_stretches (body : Octets) :
    joinLines ((Run.stretches (· == 0x0a) body).map (Run.dropEnding [0x0d])) =
      endedLines body := by
  have hne : ∀ bs : Octets,
      (Run.stretches (· == 0x0a) bs).map (Run.dropEnding [0x0d]) ≠ [] := by
    intro bs
    simpa using Run.stretches_ne_nil _ _
  fun_induction endedLines body with
  | case1 => rfl
  | case2 => rfl
  | case3 bs ih =>
    have hreturn : ∀ u ∈ ([0x0d] : Octets), (u == 0x0a) = false :=
      Run.forall_mem_of_all (by decide)
    have hfirst : Run.stretches (· == 0x0a) (0x0d :: 0x0a :: bs) =
        [0x0d] :: Run.stretches (· == 0x0a) bs :=
      Run.stretches_append_cons hreturn rfl
    rw [hfirst, List.map_cons, joinLines_cons _ (hne bs), ih]
    rfl
  | case4 bs ih =>
    have hnone : ∀ u ∈ ([] : Octets), (u == 0x0a) = false := by simp
    have hfirst : Run.stretches (· == 0x0a) (0x0a :: bs) = [] :: Run.stretches (· == 0x0a) bs :=
      Run.stretches_append_cons hnone rfl
    rw [hfirst, List.map_cons, joinLines_cons _ (hne bs), ih]
    rfl
  | case5 b bs hend hbreak hfeed ih =>
    obtain ⟨run, runs, hruns⟩ := List.exists_cons_of_ne_nil (Run.stretches_ne_nil (· == 0x0a) bs)
    have hb : (b == 0x0a) = false := by simpa using hfeed
    -- a CR with nothing after it on its line would end the body, or stand before an LF
    have hrun : b = 0x0d → run ≠ [] := by
      rintro rfl rfl
      cases bs with
      | nil => exact hend rfl rfl
      | cons c bs =>
        obtain rfl : c = 0x0a := by simpa using Run.head_of_stretches_eq_nil_cons hruns
        exact hbreak bs rfl rfl
    rw [← ih, Run.stretches, hruns]
    simp only [hb, Bool.false_eq_true, if_false, List.map_cons, dropEnding_cons hrun]
    cases runs <;> rfl

/-- A body is read as it was written, with its line breaks as CR LF. -/
theorem decode_encode (body : Octets) : decode (encode body) = endedLines body := by
  rw [encode, decode_joinLines, joinLines_stretches]

/-! ### Bodies that come back -/

/-- The last octet of a longer list is another only if it is the first and stands alone. -/
theorem getLast?_cons_ne {b c : UInt8} {us : Octets} (hus : us.getLast? ≠ some c)
    (h : us = [] → b ≠ c) : (b :: us).getLast? ≠ some c := by
  cases hlast : us.getLast? with
  | none => simpa [List.getLast?_cons, hlast] using h (List.getLast?_eq_none_iff.1 hlast)
  | some d => simpa [List.getLast?_cons, hlast] using hus

/-- A body comes back, or there is a first octet in which it does not. -/
theorem endedLines_eq_self_or_exists (body : Octets) :
    endedLines body = body ∨
      (∃ us rest out, body = us ++ 0x0a :: rest ∧ us.getLast? ≠ some 0x0d ∧
        endedLines body = us ++ 0x0d :: out) ∨
      ∃ us, body = us ++ [0x0d] ∧ endedLines body = us := by
  fun_induction endedLines body with
  | case1 => exact Or.inl rfl
  | case2 => exact Or.inr (Or.inr ⟨[], rfl, rfl⟩)
  | case3 bs ih =>
    obtain h | ⟨us, rest, out, rfl, hlast, h⟩ | ⟨us, rfl, h⟩ := ih
    · exact Or.inl (by rw [h])
    · refine Or.inr (Or.inl ⟨0x0d :: 0x0a :: us, rest, out, rfl, ?_, by rw [h]; rfl⟩)
      exact getLast?_cons_ne (getLast?_cons_ne hlast fun _ ↦ by decide) (by simp)
    · exact Or.inr (Or.inr ⟨0x0d :: 0x0a :: us, rfl, by rw [h]⟩)
  | case4 bs ih => exact Or.inr (Or.inl ⟨[], bs, _, rfl, by simp, rfl⟩)
  | case5 b bs hend hbreak hfeed ih =>
    obtain h | ⟨us, rest, out, rfl, hlast, h⟩ | ⟨us, rfl, h⟩ := ih
    · exact Or.inl (by rw [h])
    · refine Or.inr (Or.inl ⟨b :: us, rest, out, rfl, ?_, by rw [h]; rfl⟩)
      refine getLast?_cons_ne hlast ?_
      rintro rfl rfl
      exact hbreak rest rfl rfl
    · exact Or.inr (Or.inr ⟨b :: us, rfl, by rw [h]⟩)

theorem keeps_nil : Keeps [] :=
  ⟨fun us rest h ↦ by simp at h, by simp⟩

/-- A body without CR and LF keeps what it has of these. -/
theorem keeps_of_forall {body : Octets} (h : ∀ b ∈ body, b ≠ 0x0d ∧ b ≠ 0x0a) : Keeps body := by
  refine ⟨?_, fun hlast ↦ (h _ (List.mem_of_getLast? hlast)).1 rfl⟩
  rintro us rest rfl
  exact absurd rfl (h 0x0a (by simp)).2

/-- A whole line break can stand in front of what is kept. -/
theorem Keeps.break_cons {bs : Octets} (h : Keeps bs) : Keeps (0x0d :: 0x0a :: bs) := by
  refine ⟨fun us rest heq ↦ ?_, getLast?_cons_ne (getLast?_cons_ne h.last (by simp)) (by simp)⟩
  match us, heq with
  | [], heq => cases heq
  | [_], heq =>
    obtain ⟨rfl, -⟩ := List.cons.inj heq
    rfl
  | _ :: _ :: us, heq =>
    have hlast := h.returned us rest (List.cons.inj (List.cons.inj heq).2).2
    rw [List.getLast?_cons, List.getLast?_cons, hlast]
    rfl

/-- So can an octet that is no line feed, unless it is a CR with nothing behind it. -/
theorem Keeps.cons {b : UInt8} {bs : Octets} (hend : bs = [] → b ≠ 0x0d) (hfeed : b ≠ 0x0a)
    (h : Keeps bs) : Keeps (b :: bs) := by
  refine ⟨fun us rest heq ↦ ?_, getLast?_cons_ne h.last hend⟩
  cases us with
  | nil => exact absurd (List.cons.inj heq).1 hfeed
  | cons c us =>
    have hlast := h.returned us rest (List.cons.inj heq).2
    rw [List.getLast?_cons, hlast]
    rfl

/-- A body comes back as it was just if its line breaks are CR LF and it does not end with a CR. -/
theorem endedLines_eq_self_iff {body : Octets} : endedLines body = body ↔ Keeps body := by
  constructor
  · fun_induction endedLines body with
    | case1 => exact fun _ ↦ keeps_nil
    | case2 => exact fun h ↦ (nomatch h)
    | case3 bs ih => exact fun h ↦ (ih (List.cons.inj (List.cons.inj h).2).2).break_cons
    | case4 bs ih => exact fun h ↦ absurd (List.cons.inj h).1 (by decide)
    | case5 b bs hend hbreak hfeed ih =>
      intro h
      refine (ih (List.cons.inj h).2).cons ?_ fun hb ↦ ?_
      · rintro rfl rfl
        exact hend rfl rfl
      · exact hfeed hb
  · intro h
    obtain heq | ⟨us, rest, -, rfl, hlast, -⟩ | ⟨us, rfl, -⟩ := endedLines_eq_self_or_exists body
    · exact heq
    · exact absurd (h.returned us rest rfl) hlast
    · exact absurd (List.getLast?_concat ..) h.last

instance (body : Octets) : Decidable (Keeps body) :=
  decidable_of_iff _ endedLines_eq_self_iff

end InternetMail.QuotedPrintable
