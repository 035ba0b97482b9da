import InternetMail.Proofs.Header.Folding
import InternetMail.Proofs.TransferEncoding

/-!
# What is chosen for a body gets through

The encoding that is chosen for a body makes of it what every mail transport passes on as it is:
TAB, CR, LF and printable ASCII, in lines that are not too long (`encode_forText_and_forOctets`). A
body that is left as it is was looked at for that. Base64 and quoted-printable write lines of their
own (`InShortLines`), with CR LF between them and nothing else of either octet, and leave no blank
at the end of a line.

A text is left as it is, or put in quoted-printable or Base64, and octets whose line breaks are not
whole are put in Base64 at once. Which of the two encodings it is does not matter here. So the
result is put together from two facts: a body that is left as it is passes the tests that were made
of it (`of_forText_eq_sevenBit`), and both encodings write lines that pass them whatever the body is
(`sevenBit_or_exists_inShortLines`). A line is looked at between line feeds, and so has the CR of
its break at its end, which is what `unreturned` takes off.
-/

namespace InternetMail

/-- A TAB, a space, or a visible ASCII character. -/
def Octet.isInLine (b : UInt8) : Bool :=
  b == 0x09 || (0x20 ≤ b && b ≤ 0x7e)

/-- What may stand in a line, and the octets of line breaks. -/
def Octet.isTransportable (b : UInt8) : Bool :=
  isInLine b || b == 0x0a || b == 0x0d

namespace TransferEncoding

open QuotedPrintable (joinLines)

/-! ### Lines of a form -/

/-- The lines that end at each LF, where those before the last lose the CR before it. -/
def unreturned : List Octets → List Octets
  | [] => []
  | [line] => [line]
  | line :: lines => Run.dropEnding [0x0d] line :: unreturned lines

/-- The lines of a form without their line breaks. -/
def bareLines (form : Octets) : List Octets :=
  unreturned (Run.stretches (· == 0x0a) form)

/-- The first of several lines loses its CR. -/
theorem unreturned_cons (line : Octets) {lines : List Octets} (h : lines ≠ []) :
    unreturned (line :: lines) = Run.dropEnding [0x0d] line :: unreturned lines := by
  obtain ⟨next, lines, rfl⟩ := List.exists_cons_of_ne_nil h
  rfl

/-- Lines that are joined in two parts are joined with a break between these. -/
theorem joinLines_append {ls ms : List Octets} (hls : ls ≠ []) (hms : ms ≠ []) :
    joinLines (ls ++ ms) = joinLines ls ++ [0x0d, 0x0a] ++ joinLines ms := by
  induction ls with
  | nil => exact absurd rfl hls
  | cons l ls ih =>
    rw [List.cons_append, QuotedPrintable.joinLines_cons l (by simp [hms])]
    by_cases hnil : ls = []
    · rw [hnil]
      rfl
    · rw [ih hnil, QuotedPrintable.joinLines_cons l hnil]
      simp

/-- What is put before the first line stands before all of them. -/
theorem joinLines_append_cons (front line : Octets) (lines : List Octets) :
    joinLines ((front ++ line) :: lines) = front ++ joinLines (line :: lines) := by
  cases lines with
  | nil => rfl
  | cons next lines => simp [joinLines]

section Joined

variable {lines : List Octets}

/-- Cutting at each LF gives the lines with a CR after each but the last. -/
theorem stretches_joinLines_cons {line : Octets} (hlines : lines ≠ [])
    (hline : ∀ b ∈ line, b ≠ 0x0a) :
    Run.stretches (· == 0x0a) (joinLines (line :: lines)) =
      (line ++ [0x0d]) :: Run.stretches (· == 0x0a) (joinLines lines) := by
  have heq : joinLines (line :: lines) = (line ++ [0x0d]) ++ 0x0a :: joinLines lines := by
    rw [QuotedPrintable.joinLines_cons line hlines]
    simp
  rw [heq]
  refine Run.stretches_append_cons (fun b hb ↦ beq_false_of_ne ?_) rfl
  rcases List.mem_append.1 hb with hb | hb
  · exact hline b hb
  · rw [List.mem_singleton.1 hb]
    decide

/-- Lines that are joined are the lines of what they make. -/
theorem bareLines_joinLines (hlines : lines ≠ []) (h : ∀ line ∈ lines, ∀ b ∈ line, b ≠ 0x0a) :
    bareLines (joinLines lines) = lines := by
  induction lines with
  | nil => exact absurd rfl hlines
  | cons line lines ih =>
    rw [List.forall_mem_cons] at h
    by_cases hnil : lines = []
    · subst hnil
      rw [bareLines, joinLines, Run.stretches_of_forall fun b hb ↦ beq_false_of_ne (h.1 b hb)]
      rfl
    · rw [bareLines, stretches_joinLines_cons hnil h.1,
        unreturned_cons _ (Run.stretches_ne_nil _ _), dropEnding_append]
      exact congrArg (line :: ·) (ih hnil h.2)

/-- Up to its LF, a line is longer by a CR at most. -/
theorem length_le_of_mem_stretches (hlines : lines ≠ [])
    (h : ∀ line ∈ lines, ∀ b ∈ line, b ≠ 0x0a) {n : Nat} (hn : ∀ line ∈ lines, line.length ≤ n) :
    ∀ run ∈ Run.stretches (· == 0x0a) (joinLines lines), run.length ≤ n + 1 := by
  induction lines with
  | nil => exact absurd rfl hlines
  | cons line lines ih =>
    rw [List.forall_mem_cons] at h hn
    by_cases hnil : lines = []
    · subst hnil
      rw [joinLines, Run.stretches_of_forall fun b hb ↦ beq_false_of_ne (h.1 b hb),
        List.forall_mem_singleton]
      exact hn.1.trans n.le_succ
    · rw [stretches_joinLines_cons hnil h.1, List.forall_mem_cons]
      exact ⟨by simpa using hn.1, ih hnil h.2 hn.2⟩

/-- The only CR and LF of joined lines are those between them. -/
theorem keeps_joinLines (h : ∀ line ∈ lines, ∀ b ∈ line, b ≠ 0x0d ∧ b ≠ 0x0a) :
    QuotedPrintable.Keeps (joinLines lines) := by
  induction lines with
  | nil => exact QuotedPrintable.keeps_nil
  | cons line lines ih =>
    rw [List.forall_mem_cons] at h
    by_cases hnil : lines = []
    · rw [hnil]
      exact QuotedPrintable.keeps_of_forall h.1
    · have hrest := (ih h.2).break_cons
      rw [QuotedPrintable.joinLines_cons line hnil, List.append_assoc]
      obtain ⟨hline, -⟩ := h
      induction line with
      | nil => exact hrest
      | cons b line ihline =>
        rw [List.forall_mem_cons] at hline
        exact (ihline hline.2).cons (by simp) hline.1.2

/-- Joined lines are transportable if the octets in them are: the breaks are. -/
theorem isTransportable_of_mem_joinLines (h : ∀ line ∈ lines, ∀ b ∈ line, Octet.isInLine b = true) :
    ∀ b ∈ joinLines lines, Octet.isTransportable b = true := by
  have hline : ∀ line : Octets, (∀ b ∈ line, Octet.isInLine b = true) →
      ∀ b ∈ line, Octet.isTransportable b = true := by
    intro line h b hb
    rw [Octet.isTransportable, h b hb]
    rfl
  induction lines with
  | nil => simp [joinLines]
  | cons line lines ih =>
    rw [List.forall_mem_cons] at h
    by_cases hnil : lines = []
    · rw [hnil]
      exact hline line h.1
    · rw [QuotedPrintable.joinLines_cons line hnil, List.forall_mem_append, List.forall_mem_append]
      exact ⟨⟨hline line h.1, Run.forall_mem_of_all (by decide)⟩, ih h.2⟩

end Joined

/-! ### Short lines -/

/-- A line as base64 and quoted-printable write it. -/
structure IsShortLine (line : Octets) : Prop where
  isInLine : ∀ b ∈ line, Octet.isInLine b = true
  length_le : line.length ≤ 76
  last : ∀ b ∈ line.getLast?, b ≠ 0x20 ∧ b ≠ 0x09

/-- The form is such lines, with CR LF between them. -/
def InShortLines (form : Octets) : Prop :=
  ∃ lines, lines ≠ [] ∧ (∀ line ∈ lines, IsShortLine line) ∧ form = joinLines lines

/-- The empty line is short and ends with no blank. -/
theorem isShortLine_nil : IsShortLine [] :=
  ⟨by simp, by simp, by simp⟩

/-- A short line has no line break in it. -/
theorem IsShortLine.ne_break {line : Octets} (h : IsShortLine line) :
    ∀ b ∈ line, b ≠ 0x0d ∧ b ≠ 0x0a := by
  have hbreak : ∀ b, Octet.isInLine b = true → b ≠ 0x0d ∧ b ≠ 0x0a :=
    Octet.forall_of_digits _ (by decide)
  exact fun b hb ↦ hbreak b (h.isInLine b hb)

/-- Forms in short lines with CR LF between them are in short lines. -/
theorem inShortLines_joinLines {forms : List Octets} (hne : forms ≠ [])
    (h : ∀ form ∈ forms, InShortLines form) : InShortLines (joinLines forms) := by
  induction forms with
  | nil => exact absurd rfl hne
  | cons form forms ih =>
    rw [List.forall_mem_cons] at h
    by_cases hnil : forms = []
    · rw [hnil]
      exact h.1
    · obtain ⟨ls, hls, hshort, hform⟩ := h.1
      obtain ⟨ms, hms, hshort', hforms⟩ := ih hnil h.2
      refine ⟨ls ++ ms, by simp [hls], List.forall_mem_append.2 ⟨hshort, hshort'⟩, ?_⟩
      rw [QuotedPrintable.joinLines_cons form hnil, joinLines_append hls hms, hform, hforms]

/-! ### Base64 -/

/-- Pieces of at most so many items have no more. -/
theorem length_le_of_mem_pieces {α : Type} {n : Nat} (hn : 0 < n) (xs : List α) :
    ∀ piece ∈ Run.pieces n xs, piece.length ≤ n := by
  fun_induction Run.pieces n xs with
  | case1 => simp
  | case2 x xs h => omega
  | case3 x xs h ih =>
    refine List.forall_mem_cons.2 ⟨?_, ih⟩
    rw [List.length_cons, List.length_take]
    omega

/-- Base64 is lines, of which the last is empty. -/
theorem inShortLines_base64Lines (body : Octets) : InShortLines (base64Lines body) := by
  have hsymbol : ∀ n < 64, Octet.isInLine (Base64.symbol n) = true ∧
      Base64.symbol n ≠ 0x20 ∧ Base64.symbol n ≠ 0x09 := by decide
  have hmem : ∀ b ∈ Base64.encode body,
      Octet.isInLine b = true ∧ b ≠ 0x20 ∧ b ≠ 0x09 := by
    intro b hb
    obtain rfl | ⟨n, hn, rfl⟩ := Base64.eq_of_mem_encode body b hb
    · decide
    · exact hsymbol n hn
  have hpiece : ∀ piece ∈ Run.pieces base64LineLimit (Base64.encode body),
      IsShortLine piece := by
    intro piece hpiece
    have hsub : ∀ b ∈ piece, b ∈ Base64.encode body := by
      intro b hb
      rw [← Run.flatten_pieces base64LineLimit (Base64.encode body)]
      exact List.mem_flatten.2 ⟨piece, hpiece, hb⟩
    exact ⟨fun b hb ↦ (hmem b (hsub b hb)).1,
      length_le_of_mem_pieces (by decide) _ piece hpiece,
      fun b hb ↦ (hmem b (hsub b (List.mem_of_mem_getLast? hb))).2⟩
  have hjoin : ∀ pieces : List Octets,
      pieces.flatMap (· ++ [0x0d, 0x0a]) = joinLines (pieces ++ [[]]) := by
    intro pieces
    induction pieces with
    | nil => rfl
    | cons piece pieces ih =>
      rw [List.flatMap_cons, List.cons_append, QuotedPrintable.joinLines_cons piece (by simp), ih]
  exact ⟨_, by simp, List.forall_mem_append.2 ⟨hpiece, by simpa using isShortLine_nil⟩,
    hjoin _⟩

/-! ### Quoted-printable -/

/-- What is written for one octet, `last` telling whether it ends a line. -/
theorem form_facts (last : Bool) (b : UInt8) (form : Octets)
    (hform : form = if QuotedPrintable.isPlain last b then [b] else QuotedPrintable.escape b) :
    (∀ c ∈ form, Octet.isInLine c = true) ∧ form ≠ [] ∧ form.length ≤ 3 ∧
      (last = true → ∀ c ∈ form.getLast?, c ≠ 0x20 ∧ c ≠ 0x09) := by
  have hplain : ∀ b, (QuotedPrintable.isPlain last b = true → Octet.isInLine b = true) ∧
      (QuotedPrintable.isPlain true b = true → b ≠ 0x20 ∧ b ≠ 0x09) := by
    cases last <;> exact Octet.forall_of_digits _ (by decide)
  have hescape : ∀ b, (QuotedPrintable.escape b).all (fun c ↦
      Octet.isInLine c && c != 0x20 && c != 0x09) = true :=
    Octet.forall_of_digits _ (by decide)
  simp only [List.all_eq_true, Bool.and_eq_true, bne_iff_ne, and_assoc] at hescape
  subst hform
  split
  · rename_i h
    refine ⟨by simpa using (hplain b).1 h, by simp, by simp, ?_⟩
    rintro rfl
    simpa using (hplain b).2 h
  · exact ⟨fun c hc ↦ (hescape b c hc).1, by simp [QuotedPrintable.escape],
      by simp [QuotedPrintable.escape],
      fun _ c hc ↦ (hescape b c (List.mem_of_mem_getLast? hc)).2⟩

/-- An octet before a line, which is empty only if that octet is the last. -/
theorem IsShortLine.form_append {b : UInt8} {bs form line : Octets}
    (hform : form = if QuotedPrintable.isPlain bs.isEmpty b then [b] else QuotedPrintable.escape b)
    (h : IsShortLine line) (hlength : form.length + line.length ≤ 76)
    (hend : line = [] → bs = []) : IsShortLine (form ++ line) := by
  obtain ⟨hin, hne, -, hlast⟩ := form_facts bs.isEmpty b form hform
  refine ⟨List.forall_mem_append.2 ⟨hin, h.isInLine⟩, by simpa using hlength, ?_⟩
  by_cases hnil : line = []
  · rw [hnil, List.append_nil]
    exact hlast (by simp [hend hnil])
  · rw [List.getLast?_append_of_ne_nil _ hnil]
    exact h.last

/-- From column `column` on the rest of a line ends at column 76 or with a soft break there, and all
lines after it are short. -/
theorem exists_encodeLineFrom (column : Nat) (bs : Octets) (hcolumn : column ≤ 75) :
    ∃ line lines, QuotedPrintable.encodeLineFrom column bs = joinLines (line :: lines) ∧
      IsShortLine line ∧ column + line.length ≤ 76 ∧ (line = [] → bs = []) ∧
      ∀ l ∈ lines, IsShortLine l := by
  fun_induction QuotedPrintable.encodeLineFrom column bs with
  | case1 column => exact ⟨[], [], rfl, isShortLine_nil, by simp; omega, fun _ ↦ rfl, by simp⟩
  | case2 column b bs form hlong ih =>
    obtain ⟨-, -, hthree, -⟩ := form_facts bs.isEmpty b form rfl
    obtain ⟨line, lines, heq, hline, hlength, hend, hlines⟩ := ih (by omega)
    have hbreak : IsShortLine [0x3d] :=
      ⟨by simp [Octet.isInLine], by simp, by simp⟩
    refine ⟨[0x3d], (form ++ line) :: lines, ?_, hbreak, Nat.succ_le_succ hcolumn, by simp,
      List.forall_mem_cons.2 ⟨hline.form_append rfl hlength hend, hlines⟩⟩
    have hsoft : joinLines ([0x3d] :: (form ++ line) :: lines) =
        [0x3d, 0x0d, 0x0a] ++ joinLines ((form ++ line) :: lines) := rfl
    rw [heq, hsoft, joinLines_append_cons, List.append_assoc]
  | case3 column b bs form hshort ih =>
    obtain ⟨-, hne, -, -⟩ := form_facts bs.isEmpty b form rfl
    have hlimit : QuotedPrintable.lineLimit = 76 := rfl
    obtain ⟨line, lines, heq, hline, hlength, hend, hlines⟩ := ih (by omega)
    refine ⟨form ++ line, lines, ?_, hline.form_append rfl (by omega) hend, ?_, by simp [hne],
      hlines⟩
    · rw [heq, joinLines_append_cons]
    · rw [List.length_append]
      omega

/-- **Quoted-printable writes short lines** with nothing but visible characters and blanks in them,
none of these at an end. -/
theorem inShortLines_encode (body : Octets) : InShortLines (QuotedPrintable.encode body) := by
  refine inShortLines_joinLines (by simpa using Run.stretches_ne_nil _ body) fun form hform ↦ ?_
  obtain ⟨stretch, -, rfl⟩ := List.mem_map.1 hform
  obtain ⟨line, lines, heq, hline, -, -, hlines⟩ :=
    exists_encodeLineFrom 0 (Run.dropEnding [0x0d] stretch) (by omega)
  exact ⟨line :: lines, by simp, List.forall_mem_cons.2 ⟨hline, hlines⟩, heq⟩

/-! ### Bodies as they are -/

/-- A body for which no encoding is needed is short lines of ASCII without controls. -/
theorem of_forText_eq_sevenBit {body : Octets} (h : forText body = sevenBit) :
    (∀ b ∈ body, Octet.isTransportable b = true) ∧
      ∀ line ∈ Run.stretches (· == 0x0a) body, line.length ≤ 998 := by
  have hoctet : ∀ b, (!Octet.isAscii b || isUnsafeControl b) = false →
      Octet.isTransportable b = true :=
    Octet.forall_of_digits _ (by decide)
  simp only [forText] at h
  split at h
  · rename_i hnone
    simp only [Bool.and_eq_true, beq_iff_eq, List.countP_eq_zero, Bool.not_eq_true',
      List.any_eq_false, decide_eq_true_eq, Nat.not_lt] at hnone
    exact ⟨fun b hb ↦ hoctet b (Bool.eq_false_iff.2 (hnone.1 b hb)), hnone.2⟩
  · split at h <;> cases h

/-- An encoding that is chosen leaves a body as it is only if nothing speaks against it, and writes
it in short lines otherwise. -/
theorem sevenBit_or_exists_inShortLines {e : TransferEncoding} {body : Octets}
    (he : e = forText body ∨ e = forOctets body) :
    (e = sevenBit ∧ forText body = sevenBit) ∨
      ∃ form, e.encode body = .ok form ∧ InShortLines form := by
  have htext : forText body = sevenBit ∨
      ∃ form, (forText body).encode body = .ok form ∧ InShortLines form := by
    simp only [forText]
    split
    · exact Or.inl rfl
    · split
      · exact Or.inr ⟨_, rfl, inShortLines_encode body⟩
      · exact Or.inr ⟨_, rfl, inShortLines_base64Lines body⟩
  have hchosen : e = base64 ∨ e = forText body := by
    rcases he with rfl | rfl
    · exact Or.inr rfl
    · unfold forOctets
      split
      · exact Or.inl rfl
      · exact Or.inr rfl
  rcases hchosen with rfl | rfl
  · exact Or.inr ⟨_, rfl, inShortLines_base64Lines body⟩
  · exact htext.imp (fun h ↦ ⟨h, h⟩) id

/-! ### Main statement -/

/-- **What is chosen for a body gets through.** The encoding that is chosen for a text or for octets
has a form for them, of TAB, LF, CR and printable ASCII alone, in which no line up to its LF is
longer than 998 octets. In base64 and quoted-printable, no line is longer than 76 octets without its
line break, and a CR stands before each LF; in quoted-printable no line, the last one included, ends
with a space or a TAB. -/
theorem encode_forText_and_forOctets {e : TransferEncoding} {body : Octets}
    (he : e = forText body ∨ e = forOctets body) :
    ∃ form, e.encode body = .ok form ∧ (∀ b ∈ form, Octet.isTransportable b = true) ∧
      (∀ line ∈ Run.stretches (· == 0x0a) form, line.length ≤ 998) ∧
      (e = base64 ∨ e = quotedPrintable →
        (∀ line ∈ bareLines form, line.length ≤ 76) ∧
        ∀ us rest, form = us ++ 0x0a :: rest → us.getLast? = some 0x0d) ∧
      (e = quotedPrintable →
        ∀ line ∈ bareLines form, ∀ b ∈ line.getLast?, b ≠ 0x20 ∧ b ≠ 0x09) := by
  rcases sevenBit_or_exists_inShortLines he with ⟨rfl, hseven⟩ | ⟨form, hform, hshort⟩
  · obtain ⟨hoctets, hlines⟩ := of_forText_eq_sevenBit hseven
    exact ⟨body, rfl, hoctets, hlines, by simp, by simp⟩
  · obtain ⟨lines, hne, hlines, rfl⟩ := hshort
    have hfeed : ∀ line ∈ lines, ∀ b ∈ line, b ≠ 0x0a :=
      fun line hline b hb ↦ ((hlines line hline).ne_break b hb).2
    have hlength : ∀ run ∈ Run.stretches (· == 0x0a) (joinLines lines), run.length ≤ 77 :=
      length_le_of_mem_stretches hne hfeed fun line hline ↦ (hlines line hline).length_le
    have hkeeps := keeps_joinLines fun line hline ↦ (hlines line hline).ne_break
    have hbare : bareLines (joinLines lines) = lines := bareLines_joinLines hne hfeed
    refine ⟨joinLines lines, hform,
      isTransportable_of_mem_joinLines fun line hline ↦ (hlines line hline).isInLine,
      fun run hrun ↦ (hlength run hrun).trans (by decide), fun _ ↦ ⟨?_, hkeeps.returned⟩,
      fun _ ↦ ?_⟩
    · rw [hbare]
      exact fun line hline ↦ (hlines line hline).length_le
    · rw [hbare]
      exact fun line hline ↦ (hlines line hline).last

/-- A text with a blank before a CR that ends no line, and one that has to be cut at column 76. -/
theorem encode_forText_and_forOctets_long_line :
    ∃ e form, e = forText (0x20 :: 0x0d :: 0x0d :: 0x0a :: 0xfc :: List.replicate 75 0x20) ∧
      e = quotedPrintable ∧
      e.encode (0x20 :: 0x0d :: 0x0d :: 0x0a :: 0xfc :: List.replicate 75 0x20) = .ok form ∧
      (∀ b ∈ form, Octet.isTransportable b = true) ∧
      (bareLines form).map List.length = [4, 76, 5] ∧
      ∀ line ∈ bareLines form, ∀ b ∈ line.getLast?, b ≠ 0x20 ∧ b ≠ 0x09 := by
  have he : quotedPrintable =
      forText (0x20 :: 0x0d :: 0x0d :: 0x0a :: 0xfc :: List.replicate 75 0x20) := by
    decide +kernel
  obtain ⟨form, hform, hoctets, -, -, hlast⟩ := encode_forText_and_forOctets (Or.inl he)
  refine ⟨_, form, he, rfl, hform, hoctets, ?_, hlast rfl⟩
  obtain rfl := Except.ok.inj hform
  decide +kernel

end TransferEncoding

end InternetMail
