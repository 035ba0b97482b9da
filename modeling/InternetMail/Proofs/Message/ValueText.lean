import InternetMail.Message.Fields
import InternetMail.Proofs.EncodedWord.Spacing
import InternetMail.Proofs.Header.Folding
import Mathlib.Data.List.Basic
import Mathlib.Data.List.Induction

/-!
# What header values say

A value is unfolded and trimmed as octets and read as UTF-8 then. On the characters of the value it
comes to the same: its line breaks are left out, and then the blanks around it
(`valueText_eq_strip`).

Both readings take line breaks and blanks away, and those are ASCII. An octet of such a character is
no part of another one, so that it makes no difference whether this is done before the octets are
read as UTF-8 or after that. What is proved of values from there on is about characters only.
-/

namespace InternetMail

/-- The text without its line breaks; a CR that no LF follows stays. -/
def Text.unfolded : Text → Text
  | '\r' :: '\n' :: t => unfolded t
  | '\n' :: t => unfolded t
  | c :: t => c :: unfolded t
  | [] => []

/-! ### Characters and their octets -/

/-- Blanks are the same among octets and among ASCII characters. -/
theorem isBlank_ofNat : ∀ n < 0x80,
    Octet.isBlank (UInt8.ofNat n) = isBlankChar (Char.ofNat n) := by
  decide

/-- Each octet of a character is blank if the character is, and otherwise none. -/
theorem isBlank_eq_of_mem_encodeChar {c : Char} :
    ∀ b ∈ String.utf8EncodeChar c, Octet.isBlank b = isBlankChar c := by
  by_cases hc : c.toNat < 0x80
  · rw [encodeChar_of_ascii hc]
    simpa using isBlank_ofNat c.toNat hc
  · obtain ⟨b₀, bs, heq, hbs⟩ := encodeChar_of_not_ascii (Nat.le_of_not_lt hc)
    have hblank : isBlankChar c = false := by
      rw [← Bool.not_eq_true, isBlankChar]
      simp only [Bool.or_eq_true, beq_iff_eq]
      rintro (((rfl | rfl) | rfl) | rfl) <;> exact hc (by decide)
    rw [heq, hblank]
    intro b hb
    have hb := hbs b hb
    rw [← Bool.not_eq_true, Octet.isBlank]
    simp only [Bool.or_eq_true, beq_iff_eq]
    rintro (((rfl | rfl) | rfl) | rfl) <;> exact absurd hb (by decide)

/-- Only CR and LF have the octets of these. -/
theorem eq_of_mem_encodeChar {c : Char} :
    ∀ b ∈ String.utf8EncodeChar c, (b = 0x0d → c = '\r') ∧ (b = 0x0a → c = '\n') := by
  intro b hb
  constructor <;> rintro rfl <;> exact (eq_toChar_of_mem_encodeChar hb (by decide)).1

/-! ### Unfolding -/

/-- Unfolding the octets of a text is unfolding the text. -/
theorem unfold_encode (t : Text) : unfold (Utf8.encode t) = Utf8.encode (Text.unfolded t) := by
  induction t using Text.unfolded.induct with
  | case1 t ih => exact ih
  | case2 t ih => exact ih
  | case3 c t hcrlf hlf ih =>
    rw [Text.unfolded, Utf8.encode_cons, Utf8.encode_cons, ← ih]
    · by_cases hcr : c = '\r'
      · -- a CR stays, for what comes after it does not begin with an LF
        subst hcr
        have hcrEncoded : String.utf8EncodeChar '\r' = [0x0d] := rfl
        rw [hcrEncoded, List.singleton_append, unfold.eq_3]
        · rfl
        · intro bs _ hbs
          cases t with
          | nil => cases hbs
          | cons d t =>
            obtain ⟨b, ds, hd⟩ := List.exists_cons_of_ne_nil (@String.utf8EncodeChar_ne_nil d)
            rw [Utf8.encode_cons, hd, List.cons_append] at hbs
            obtain ⟨rfl, -⟩ := List.cons.inj hbs
            obtain rfl := (eq_of_mem_encodeChar (c := d) 0x0a (by simp [hd])).2 rfl
            exact hcrlf t rfl rfl
        · decide
      · refine unfold_append_of_forall (fun b hb ↦ ⟨?_, ?_⟩) _
        · exact fun h ↦ hcr ((eq_of_mem_encodeChar b hb).1 h)
        · exact fun h ↦ hlf ((eq_of_mem_encodeChar b hb).2 h)
    · exact hcrlf
    · exact hlf
  | case4 => rfl

/-! ### Trimming -/

/-- Blanks in front are dropped alike. -/
theorem dropWhile_encode (t : Text) :
    (Utf8.encode t).dropWhile Octet.isBlank = Utf8.encode (t.dropWhile isBlankChar) := by
  induction t with
  | nil => rfl
  | cons c t ih =>
    have hoctets := isBlank_eq_of_mem_encodeChar (c := c)
    rw [Utf8.encode_cons]
    by_cases hc : isBlankChar c = true
    · rw [List.dropWhile_append_of_pos (by simpa [hc] using hoctets), ih,
        List.dropWhile_cons_of_pos hc]
    · obtain ⟨b, bs, hd⟩ := List.exists_cons_of_ne_nil (@String.utf8EncodeChar_ne_nil c)
      have hb := hoctets b (by simp [hd])
      rw [List.dropWhile_cons_of_neg hc, Utf8.encode_cons, hd, List.cons_append,
        List.dropWhile_cons_of_neg (by simpa [hb] using hc)]

/-- And so are those at the end. -/
theorem stripEnd_encode (t : Text) :
    Run.stripEnd Octet.isBlank (Utf8.encode t) = Utf8.encode (Run.stripEnd isBlankChar t) := by
  induction t using List.reverseRecOn with
  | nil => rfl
  | append_singleton t c ih =>
    have hoctets := isBlank_eq_of_mem_encodeChar (c := c)
    have hwritten : Utf8.encode (t ++ [c]) = Utf8.encode t ++ String.utf8EncodeChar c := by
      rw [Utf8.encode_append, Utf8.encode_cons]
      exact congrArg _ (List.append_nil _)
    by_cases hc : isBlankChar c = true
    · rw [hwritten, Run.stripEnd_append_of_forall _ (by simpa [hc] using hoctets), ih,
        Run.stripEnd_append_of_forall _ (by simpa using hc)]
    · obtain ⟨bs, b, hd⟩ :=
        (List.eq_nil_or_concat' _).resolve_left (@String.utf8EncodeChar_ne_nil c)
      have hb : Octet.isBlank b = false := by
        rw [hoctets b (by simp [hd])]
        simpa using hc
      rw [Run.stripEnd_append_cons t [] (by simpa using hc), hwritten, hd, ← List.append_assoc,
        Run.stripEnd_append_cons _ [] hb, Run.stripEnd_nil, Run.stripEnd_nil, hwritten, hd,
        List.append_assoc]

/-- So trimming the octets is trimming the text. -/
theorem trim_encode (t : Text) :
    Octets.trim (Utf8.encode t) = Utf8.encode (Run.strip isBlankChar t) := by
  rw [Octets.trim, Run.strip, dropWhile_encode, stripEnd_encode, Run.strip]

/-- **What a value says**: its characters without line breaks, and without the blanks around the
rest. -/
theorem valueText_eq_strip (t : Text) : valueText t = Run.strip isBlankChar (Text.unfolded t) := by
  rw [valueText, unfold_encode, trim_encode, Utf8.decodeLossy_encode]

/-! ### Values put together -/

theorem isLineBreak_eq_false_iff {c : Char} : isLineBreak c = false ↔ c ≠ '\r' ∧ c ≠ '\n' := by
  simp [isLineBreak]

/-- Line breaks are blanks. -/
theorem isLineBreak_of_isBlankChar {c : Char} (h : isBlankChar c = false) :
    isLineBreak c = false := by
  simp only [isBlankChar, Bool.or_eq_false_iff, beq_eq_false_iff_ne] at h
  exact isLineBreak_eq_false_iff.2 ⟨h.1.2, h.2⟩

/-- A character that is no line break stays. -/
theorem Text.unfolded_cons {c : Char} (hc : isLineBreak c = false) (t : Text) :
    unfolded (c :: t) = c :: unfolded t := by
  obtain ⟨hcr, hlf⟩ := isLineBreak_eq_false_iff.1 hc
  rw [unfolded]
  · exact fun _ h _ ↦ hcr h
  · exact hlf

/-- What stands on either side of a character that does not break a line is unfolded on its own. -/
theorem Text.unfolded_append_cons {c : Char} (hc : isLineBreak c = false) (t u : Text) :
    unfolded (t ++ c :: u) = unfolded t ++ c :: unfolded u := by
  induction t using Text.unfolded.induct with
  | case1 t ih => exact ih
  | case2 t ih => exact ih
  | case3 d t hcrlf hlf ih =>
    rw [List.cons_append, unfolded, unfolded, ih, List.cons_append]
    · exact hcrlf
    · exact hlf
    · rintro t' rfl ht
      cases t with
      | nil => exact (isLineBreak_eq_false_iff.1 hc).2 (List.cons.inj ht).1
      | cons e t =>
        obtain ⟨rfl, -⟩ := List.cons.inj ht
        exact hcrlf t rfl rfl
    · exact hlf
  | case4 => exact unfolded_cons hc u

/-- What has no line breaks stays in front of what is unfolded. -/
theorem Text.unfolded_append_of_forall {t : Text} (h : ∀ c ∈ t, isLineBreak c = false) (u : Text) :
    unfolded (t ++ u) = t ++ unfolded u := by
  induction t with
  | nil => rfl
  | cons c t ih =>
    rw [List.forall_mem_cons] at h
    rw [List.cons_append, unfolded_cons h.1, ih h.2, List.cons_append]

/-- Unfolding leaves out, and puts nothing in. -/
theorem Text.unfolded_sublist (t : Text) : (unfolded t).Sublist t := by
  induction t using Text.unfolded.induct with
  | case1 t ih => exact (ih.cons _).cons _
  | case2 t ih => exact ih.cons _
  | case3 c t hcrlf hlf ih =>
    rw [unfolded]
    · exact ih.cons_cons c
    · exact hcrlf
    · exact hlf
  | case4 => exact List.Sublist.refl []

/-- Every LF is left out, whatever stands in front of it. -/
theorem Text.ne_lineFeed_unfolded (t : Text) : ∀ c ∈ unfolded t, c ≠ '\n' := by
  induction t using Text.unfolded.induct with
  | case1 t ih => exact ih
  | case2 t ih => exact ih
  | case3 c t hcrlf hlf ih =>
    rw [unfolded]
    · exact List.forall_mem_cons.2 ⟨hlf, ih⟩
    · exact hcrlf
    · exact hlf
  | case4 => exact List.forall_mem_nil _

/-- Unfolding leaves a text as it is just if it has no LF. -/
theorem Text.unfolded_eq_self_iff {t : Text} : unfolded t = t ↔ '\n' ∉ t := by
  constructor
  · intro h hmem
    rw [← h] at hmem
    exact ne_lineFeed_unfolded t _ hmem rfl
  · intro h
    induction t using Text.unfolded.induct with
    | case1 t ih => simp at h
    | case2 t ih => simp at h
    | case3 c t hcrlf hlf ih =>
      rw [unfolded, ih fun hmem ↦ h (List.mem_cons_of_mem c hmem)]
      · exact hcrlf
      · exact hlf
    | case4 => rfl

/-- A text without line breaks is left as it is. -/
theorem Text.unfolded_of_forall {t : Text} (h : ∀ c ∈ t, isLineBreak c = false) :
    unfolded t = t :=
  unfolded_eq_self_iff.2 fun hmem ↦ Bool.false_ne_true (h _ hmem).symm

/-- No value says a line feed. -/
theorem ne_lineFeed_valueText (t : Text) : ∀ c ∈ valueText t, c ≠ '\n' := by
  rw [valueText_eq_strip]
  exact fun c hc ↦ Text.ne_lineFeed_unfolded t c ((Run.strip_sublist isBlankChar _).subset hc)

/-- A value without line feeds says all of itself but the blanks at its ends. -/
theorem valueText_of_forall {t : Text} (h : ∀ c ∈ t, c ≠ '\n') :
    valueText t = Run.strip isBlankChar t := by
  rw [valueText_eq_strip, Text.unfolded_eq_self_iff.2 fun hmem ↦ h _ hmem rfl]

/-- A value without line breaks, and without blanks at its ends, is what it says. -/
theorem valueText_eq_self {t : Text} (h : ∀ c ∈ t, isLineBreak c = false)
    (hhead : ∀ c ∈ t.head?, isBlankChar c = false)
    (hlast : ∀ c ∈ t.getLast?, isBlankChar c = false) : valueText t = t := by
  rw [valueText_eq_strip, Text.unfolded_of_forall h, Run.strip_eq_self_of_ends hhead hlast]

/-- A blank in front of a value does not count. -/
theorem valueText_cons_of_blank {c : Char} (hc : isBlankChar c = true) (t : Text) :
    valueText (c :: t) = valueText t := by
  have hblank : ∀ d ∈ [c], isBlankChar d = true := by simpa using hc
  have hpad : ∀ u, Run.strip isBlankChar (c :: u) = Run.strip isBlankChar u := fun u ↦
    Run.strip_append_of_forall u hblank
  rw [valueText_eq_strip, valueText_eq_strip]
  by_cases hcrlf : ∃ u, c = '\r' ∧ t = '\n' :: u
  · obtain ⟨u, rfl, rfl⟩ := hcrlf
    rfl
  · by_cases hlf : c = '\n'
    · subst hlf
      rfl
    · rw [Text.unfolded, hpad]
      · exact fun u hcr ht ↦ hcrlf ⟨u, hcr, ht⟩
      · exact hlf

/-- Blanks in front of a value say nothing, folded or not. -/
theorem valueText_append_of_blank {gap : Text} (hgap : ∀ c ∈ gap, isBlankChar c = true)
    (t : Text) : valueText (gap ++ t) = valueText t := by
  induction gap with
  | nil => rfl
  | cons c gap ih =>
    rw [List.forall_mem_cons] at hgap
    rw [List.cons_append, valueText_cons_of_blank hgap.1, ih hgap.2]

end InternetMail
