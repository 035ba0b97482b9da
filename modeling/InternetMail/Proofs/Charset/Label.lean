import InternetMail.Proofs.Charset.Name
import InternetMail.Proofs.Message.ValueText

/-!
# Labels with something around them

A label may stand between quotes, with white space around these and inside them: what stands on
either side of the bare label is a wrapping (`Charset.IsWrapping`), and any other wrapping does as
well (`Charset.resolve_eq_ok_iff`). Unfolding takes line breaks out of the wrapping and leaves the
bare label as it is, so a label means the same charset unfolded (`Charset.resolve_unfolded`).

The label is found by taking the wrapping off, white space from both ends, a quote from either end,
and white space again, and by looking up what is left in lower case. No label has a quote or white
space in it, which is what makes the bare label of a text unique (`IsBare`).
-/

namespace InternetMail.Charset

variable {label bare u v : Text} {charset : Charset}

/-- White space, quotes and white space again. -/
def IsWrapping (u : Text) : Prop :=
  ∃ w q w', u = w ++ q ++ w' ∧ (∀ c ∈ w, isWhite c = true) ∧ (∀ c ∈ q, c = '"') ∧
    ∀ c ∈ w', isWhite c = true

/-- The bare text means the charset in any case, and has no white space and no quotes. -/
structure IsBare (bare : Text) (charset : Charset) : Prop where
  ne_nil : bare ≠ []
  mem : ∀ c ∈ bare, isWhite c = false ∧ c ≠ '"'
  ofLabel? : ofLabel? (String.ofList bare.foldAscii) = some charset

/-! ### Bare labels -/

/-- A character whose lower case stands in a label is no white space and no quote. -/
theorem isWhite_of_isLabelChar_toLower {c : Char} (h : isLabelChar c.toLower = true) :
    isWhite c = false ∧ c ≠ '"' := by
  have hascii : c.toNat < 0x80 := by
    by_contra hc
    rw [Text.toLower_of_not_ascii hc] at h
    simp only [isLabelChar, Bool.and_eq_true, decide_eq_true_eq] at h
    omega
  have htable : ∀ c : Char, c.toNat < 0x80 → isLabelChar c.toLower = true →
      isWhite c = false ∧ c ≠ '"' :=
    Text.forall_of_ascii _ (by decide)
  exact htable c hascii h

theorem isBare_of_ofLabel? (h : Charset.ofLabel? (String.ofList bare.foldAscii) = some charset) :
    IsBare bare charset := by
  obtain ⟨hne, hall⟩ := isLabelChar_of_ofLabel? h
  refine ⟨by simpa [Text.foldAscii] using hne, fun c hc ↦ ?_, h⟩
  exact isWhite_of_isLabelChar_toLower (hall c.toLower (List.mem_map_of_mem hc))

/-! ### Wrappings -/

theorem isWrapping_reverse (h : IsWrapping u) : IsWrapping u.reverse := by
  obtain ⟨w, q, w', rfl, hw, hq, hw'⟩ := h
  refine ⟨w'.reverse, q.reverse, w.reverse, ?_, ?_, ?_, ?_⟩
  · simp only [List.reverse_append, List.append_assoc]
  · simpa using hw'
  · simpa using hq
  · simpa using hw

/-- Nothing is left of a wrapping. -/
theorem dropWhile_of_isWrapping (h : IsWrapping u) :
    ((u.dropWhile isWhite).dropWhile (· == '"')).dropWhile isWhite = [] := by
  obtain ⟨w, q, w', rfl, hw, hq, hw'⟩ := h
  have hquotes : (w'.dropWhile (· == '"')).dropWhile isWhite = [] :=
    List.dropWhile_eq_nil_iff.2 fun c hc ↦ hw' c (List.dropWhile_sublist _ |>.subset hc)
  rw [List.append_assoc, List.dropWhile_append_of_pos hw]
  cases q with
  | nil =>
    rw [List.nil_append, List.dropWhile_eq_nil_iff.2 hw']
    rfl
  | cons c q =>
    obtain rfl : c = '"' := hq c List.mem_cons_self
    have hhead : ('"' :: q ++ w').dropWhile isWhite = '"' :: q ++ w' :=
      List.dropWhile_cons_of_neg (by decide)
    rw [hhead, List.dropWhile_append_of_pos (by simpa using hq), hquotes]

theorem stripEnd_of_isWrapping (h : IsWrapping v) :
    Run.stripEnd isWhite (Run.stripEnd (· == '"') (Run.stripEnd isWhite v)) = [] := by
  simp only [Run.stripEnd, List.reverse_reverse, dropWhile_of_isWrapping (isWrapping_reverse h),
    List.reverse_nil]

/-- A label means what its bare part does. -/
theorem resolve_eq_ok_iff : resolve label = .ok charset ↔
    ∃ u bare v, label = u ++ bare ++ v ∧ IsWrapping u ∧ IsBare bare charset ∧ IsWrapping v := by
  constructor
  · intro h
    obtain ⟨w, w', hw, hw', hlabel⟩ := Run.exists_eq_append_strip_append isWhite label
    obtain ⟨q, q', hq, hq', hquoted⟩ :=
      Run.exists_eq_append_strip_append (· == '"') (Text.trim label)
    obtain ⟨x, x', hx, hx', hinner⟩ :=
      Run.exists_eq_append_strip_append isWhite (Run.strip (· == '"') (Text.trim label))
    have hbare : IsBare (Text.trim (Run.strip (· == '"') (Text.trim label))) charset := by
      apply isBare_of_ofLabel?
      rw [resolve] at h
      split at h
      · cases h
        assumption
      · cases h
    refine ⟨w ++ q ++ x, _, x' ++ q' ++ w', ?_, ⟨w, q, x, rfl, hw, by simpa using hq, hx⟩, hbare,
      x', q', w', rfl, hx', by simpa using hq', hw'⟩
    calc label = w ++ Text.trim label ++ w' := hlabel
      _ = w ++ (q ++ Run.strip (· == '"') (Text.trim label) ++ q') ++ w' := by rw [← hquoted]
      _ = w ++ (q ++ (x ++ Text.trim (Run.strip (· == '"') (Text.trim label)) ++ x') ++ q') ++
          w' := congrArg (fun t ↦ w ++ (q ++ t ++ q') ++ w') hinner
      _ = _ := by simp only [List.append_assoc]
  · rintro ⟨u, bare, v, rfl, hu, hbare, hv⟩
    have hwhite : ∀ c ∈ bare, isWhite c = false := fun c hc ↦ (hbare.mem c hc).1
    have hquote : ∀ c ∈ bare, (c == '"') = false := fun c hc ↦ by simpa using (hbare.mem c hc).2
    have hstrip : Text.trim (Run.strip (· == '"') (Text.trim (u ++ bare ++ v))) = bare := by
      rw [Text.trim, Text.trim, Run.strip_append_append u v hbare.ne_nil hwhite,
        Run.strip_append_append _ _ hbare.ne_nil hquote,
        Run.strip_append_append _ _ hbare.ne_nil hwhite, dropWhile_of_isWrapping hu,
        stripEnd_of_isWrapping hv, List.nil_append, List.append_nil]
    simp only [resolve, hstrip, hbare.ofLabel?]

/-! ### Line breaks -/

theorem isWrapping_unfolded (h : IsWrapping u) : IsWrapping (Text.unfolded u) := by
  obtain ⟨w, q, w', rfl, hw, hq, hw'⟩ := h
  have hwhite : ∀ {t : Text}, (∀ c ∈ t, isWhite c = true) →
      ∀ c ∈ Text.unfolded t, isWhite c = true :=
    fun ht c hc ↦ ht c ((Text.unfolded_sublist _).subset hc)
  cases q with
  | nil =>
    refine ⟨Text.unfolded (w ++ w'), [], [], by simp, hwhite fun c hc ↦ ?_, by simp, by simp⟩
    rcases List.mem_append.1 hc with hc | hc
    · exact hw c hc
    · exact hw' c hc
  | cons c q =>
    obtain rfl : c = '"' := hq c List.mem_cons_self
    have hbreak : ∀ c ∈ q, isLineBreak c = false := by
      intro c hc
      rw [hq c (List.mem_cons_of_mem _ hc)]
      decide
    refine ⟨Text.unfolded w, '"' :: q, Text.unfolded w', ?_, hwhite hw, hq, hwhite hw'⟩
    rw [List.append_assoc, List.cons_append, Text.unfolded_append_cons (by decide),
      Text.unfolded_append_of_forall hbreak, List.append_assoc, List.cons_append]

/-- White space is all that line breaks can be in a label. -/
theorem resolve_unfolded (h : resolve label = .ok charset) :
    resolve (Text.unfolded label) = .ok charset := by
  obtain ⟨u, bare, v, rfl, hu, hbare, hv⟩ := resolve_eq_ok_iff.1 h
  have hbreak : ∀ c ∈ bare, isLineBreak c = false := by
    intro c hc
    apply isLineBreak_of_isBlankChar
    rw [← Bool.not_eq_true]
    exact fun hblank ↦ absurd (isWhite_of_isBlankChar hblank) (by simp [(hbare.mem c hc).1])
  refine resolve_eq_ok_iff.2 ⟨Text.unfolded u, bare, Text.unfolded v, ?_, isWrapping_unfolded hu,
    hbare, isWrapping_unfolded hv⟩
  obtain ⟨c, cs, rfl⟩ := List.exists_cons_of_ne_nil hbare.ne_nil
  rw [List.forall_mem_cons] at hbreak
  rw [List.append_assoc, List.cons_append, Text.unfolded_append_cons hbreak.1,
    Text.unfolded_append_of_forall hbreak.2, List.append_assoc, List.cons_append]

end InternetMail.Charset
