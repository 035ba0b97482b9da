import InternetMail.Proofs.ContentType.Reading
import InternetMail.Proofs.Message.ValueText

/-!
# Content types as header values

A content type that is written as a header value may have line breaks in the values of its
parameters. Reading the value unfolds it, so that these are left out
(`ContentType.parse_valueText_format`); all else about a well-formed content type is read as it was
written.

Only the values can have line breaks. Unfolding leaves out what stands between the quotes of a value
and nothing else, so a value that is unfolded in the text is the text of the value unfolded
(`Writes.unfolded`), and this may be written in quotes although it needs none any more. Trimming
does nothing, as neither the first character of the names nor the last of a value is a blank.
-/

namespace InternetMail

namespace ContentType

/-- The content type without the line breaks in its values. -/
def unfolded (ct : ContentType) : ContentType :=
  { ct with parameters := ct.parameters.map fun p ↦ (p.1, Text.unfolded p.2) }

/-! ### Values -/

/-- No character that needs no quotes is a blank. -/
theorem isBlankChar_of_needsQuotes {value : Text} (h : needsQuotes value = false) :
    ∀ c ∈ value, isBlankChar c = false := by
  rw [needsQuotes, Bool.or_eq_false_iff, List.any_eq_false] at h
  intro c hc
  rw [← Bool.not_eq_true, isBlankChar]
  simp only [Bool.or_eq_true, beq_iff_eq]
  rintro (((rfl | rfl) | rfl) | rfl) <;> exact h.2 _ hc (by decide)

/-- Backslashes stand before no line break, so these are left out the same of what they escape. -/
theorem unfolded_escaped (value : Text) :
    Text.unfolded (escaped value) = escaped (Text.unfolded value) := by
  induction value using Text.unfolded.induct with
  | case1 t ih => exact ih
  | case2 t ih => exact ih
  | case3 c t hcrlf hlf ih =>
    have hcons : ∀ u, escaped (c :: u) =
        (if c == '"' || c == '\\' then ['\\', c] else [c]) ++ escaped u := fun _ ↦ rfl
    rw [Text.unfolded, hcons, hcons, ← ih]
    · by_cases hcr : c = '\r'
      · -- a CR stays, for what comes after it does not begin with an LF
        subst hcr
        show Text.unfolded ('\r' :: escaped t) = '\r' :: Text.unfolded (escaped t)
        rw [Text.unfolded]
        · intro u _ hu
          cases t with
          | nil => cases hu
          | cons d t =>
            have hd : (if d == '"' || d == '\\' then ['\\', d] else [d]) ++ escaped t = '\n' :: u :=
              hu
            split at hd
            · cases hd
            · exact hcrlf t rfl (by rw [(List.cons.inj hd).1])
        · decide
      · apply Text.unfolded_append_of_forall
        have hc : isLineBreak c = false := isLineBreak_eq_false_iff.2 ⟨hcr, hlf⟩
        split
        · simpa [hc] using show isLineBreak '\\' = false by decide
        · simpa using hc
    · exact hcrlf
    · exact hlf
  | case4 => rfl

/-- A value in quotes, with something behind it. -/
theorem quoteValue_append (value t : Text) :
    quoteValue value ++ t = '"' :: (escaped value ++ '"' :: t) := by
  show '"' :: (escaped value ++ ['"']) ++ t = _
  rw [List.cons_append, List.append_assoc]
  rfl

/-! ### Parameters -/

/-- The values of parameters that are written in a text are unfolded with it. -/
theorem Writes.unfolded {ps : Entries Text Text} {t : Text} (h : Writes ps t) :
    Writes (ps.map fun p ↦ (p.1, Text.unfolded p.2)) (Text.unfolded t) := by
  induction h with
  | nil => exact .nil
  | @cons name value form ps t hname hform hps ih =>
    have hopen : ∀ c ∈ [';', ' '] ++ name ++ ['='], isLineBreak c = false := by
      simp only [List.forall_mem_append]
      exact ⟨⟨Run.forall_mem_of_all (by decide), fun c hc ↦ isLineBreak_of_isBlankChar
        (isTokenChar_facts (hname.token.2 c hc)).1.2⟩, Run.forall_mem_of_all (by decide)⟩
    obtain ⟨form', hform', hunfolded⟩ : ∃ form', IsForm (Text.unfolded value) form' ∧
        Text.unfolded (form ++ t) = form' ++ Text.unfolded t := by
      cases hform with
      | quoted =>
        refine ⟨_, .quoted, ?_⟩
        rw [quoteValue_append, quoteValue_append, Text.unfolded_cons (by decide),
          Text.unfolded_append_cons (by decide), unfolded_escaped]
      | plain hplain =>
        have hbreak : ∀ c ∈ value, isLineBreak c = false := fun c hc ↦
          isLineBreak_of_isBlankChar (isBlankChar_of_needsQuotes hplain c hc)
        rw [Text.unfolded_of_forall hbreak]
        exact ⟨value, .plain hplain, Text.unfolded_append_of_forall hbreak t⟩
    have hsplit : [';', ' '] ++ name ++ '=' :: form ++ t =
        [';', ' '] ++ name ++ ['='] ++ (form ++ t) := by
      simp only [List.append_assoc, List.cons_append, List.nil_append]
    have hjoin : [';', ' '] ++ name ++ ['='] ++ (form' ++ Text.unfolded t) =
        [';', ' '] ++ name ++ '=' :: form' ++ Text.unfolded t := by
      simp only [List.append_assoc, List.cons_append, List.nil_append]
    rw [hsplit, Text.unfolded_append_of_forall hopen, hunfolded, hjoin]
    exact .cons hname hform' ih

/-- No form of a value ends with a blank. -/
theorem IsForm.exists_last {value form : Text} (h : IsForm value form) :
    ∃ t c, form = t ++ [c] ∧ isBlankChar c = false := by
  cases h with
  | quoted => exact ⟨'"' :: escaped value, '"', rfl, by decide⟩
  | plain hplain =>
    rcases List.eq_nil_or_concat' value with rfl | ⟨t, c, rfl⟩
    · cases hplain
    · exact ⟨t, c, rfl, isBlankChar_of_needsQuotes hplain c (by simp)⟩

/-- No text of parameters ends with a blank. -/
theorem Writes.getLast {ps : Entries Text Text} {t : Text} (h : Writes ps t) :
    ∀ c ∈ t.getLast?, isBlankChar c = false := by
  induction h with
  | nil => simp
  | @cons name value form ps t hname hform hps ih =>
    rcases List.eq_nil_or_concat' t with rfl | ⟨t, c, rfl⟩
    · obtain ⟨u, c, rfl, hc⟩ := hform.exists_last
      rw [List.append_nil, ← List.cons_append, ← List.append_assoc, List.getLast?_concat]
      simpa using hc
    · rw [← List.append_assoc, List.getLast?_concat]
      simpa using ih

/-! ### Content types -/

/-- The names of a type have no blanks in them. -/
theorem WellFormed.isBlankChar_of_mem_base {ct : ContentType} (h : ct.WellFormed) :
    ∀ c ∈ ct.base, isBlankChar c = false := by
  rw [base, List.forall_mem_append, List.forall_mem_cons]
  exact ⟨fun c hc ↦ (isTokenChar_facts (h.primary.token.2 c hc)).1.2, by decide,
    fun c hc ↦ (isTokenChar_facts (h.sub.token.2 c hc)).1.2⟩

/-- A content type has no blanks at its ends, so unfolding is all that reading its value does. -/
theorem valueText_format {ct : ContentType} (h : ct.WellFormed) :
    valueText ct.format = ct.base ++ Text.unfolded (ct.parameters.flatMap formatParameter) := by
  have hbase := h.isBlankChar_of_mem_base
  have hbreak : ∀ c ∈ ct.base, isLineBreak c = false := fun c hc ↦
    isLineBreak_of_isBlankChar (hbase c hc)
  have hwrites := (writes_flatMap h.parameters).unfolded
  rw [valueText_eq_strip, format, Text.unfolded_append_of_forall hbreak]
  refine Run.strip_eq_self_of_ends (fun c hc ↦ ?_) fun c hc ↦ ?_
  · obtain ⟨d, t, hd⟩ := List.exists_cons_of_ne_nil h.primary.token.1
    rw [base, hd] at hc
    obtain rfl : d = c := by simpa using hc
    exact hbase d (by simp [base, hd])
  · rw [List.getLast?_append] at hc
    cases hlast : (Text.unfolded (ct.parameters.flatMap formatParameter)).getLast? with
    | none =>
      rw [hlast] at hc
      exact hbase c (List.mem_of_getLast? hc)
    | some d =>
      rw [hlast] at hc
      obtain rfl : d = c := by simpa using hc
      exact hwrites.getLast d hlast

/-- Leaving line breaks out of the values leaves a type well-formed. -/
theorem WellFormed.unfolded {ct : ContentType} (h : ct.WellFormed) : ct.unfolded.WellFormed := by
  refine ⟨h.primary, h.sub, fun p hp ↦ ?_, ?_⟩
  · obtain ⟨q, hq, rfl⟩ := List.mem_map.1 hp
    exact h.parameters q hq
  · rw [ContentType.unfolded, Entries.keys, List.map_map]
    exact h.nodup

/-- A content type that was written as a header value is read as it is, but for the line breaks in
the values of its parameters. -/
theorem parse_valueText_format {ct : ContentType} (h : ct.WellFormed) :
    parse (valueText ct.format) = .ok ct.unfolded := by
  rw [valueText_format h]
  exact parse_of_writes h.unfolded (writes_flatMap h.parameters).unfolded

/-! ### Values without line feeds -/

/-- Unfolding leaves a content type as it is just if no value has an LF. -/
theorem unfolded_eq_self_iff {ct : ContentType} :
    ct.unfolded = ct ↔ ∀ p ∈ ct.parameters, '\n' ∉ p.2 := by
  obtain ⟨primary, sub, ps⟩ := ct
  have hmap : ps.map (fun p ↦ (p.1, Text.unfolded p.2)) = ps ↔
      ∀ p ∈ ps, (p.1, Text.unfolded p.2) = p := by
    simpa using List.map_inj_left (l := ps) (f := fun p ↦ (p.1, Text.unfolded p.2)) (g := id)
  simp only [unfolded, ContentType.mk.injEq, true_and, hmap, Prod.ext_iff,
    Text.unfolded_eq_self_iff]

/-- No form of a value has an LF that the value does not have. -/
theorem IsForm.lineFeed_not_mem {value form : Text} (h : IsForm value form)
    (hvalue : '\n' ∉ value) : '\n' ∉ form := by
  cases h with
  | quoted =>
    have hescaped : '\n' ∉ escaped value := by
      rw [escaped, List.mem_flatMap]
      rintro ⟨c, hc, hmem⟩
      have hne : '\n' ≠ c := by
        rintro rfl
        exact hvalue hc
      split at hmem <;> simp [hne] at hmem
    rw [quoteValue, ← escaped]
    simp [hescaped]
  | plain => exact hvalue

/-- Parameters without line feeds are written without any. -/
theorem Writes.lineFeed_not_mem {ps : Entries Text Text} {t : Text} (h : Writes ps t)
    (hps : ∀ p ∈ ps, '\n' ∉ p.2) : '\n' ∉ t := by
  induction h with
  | nil => simp
  | @cons name value form ps t hname hform _ ih =>
    rw [List.forall_mem_cons] at hps
    have hform := hform.lineFeed_not_mem hps.1
    have hname : '\n' ∉ name := fun hmem ↦
      absurd (isTokenChar_facts (hname.token.2 _ hmem)).1.2 (by decide)
    simp [hname, hform, ih hps.2]

/-- A content type without line feeds in its values survives the wire. -/
theorem WellFormed.wireSafe_format {ct : ContentType} (h : ct.WellFormed)
    (hps : ∀ p ∈ ct.parameters, '\n' ∉ p.2) : ct.format.WireSafe := by
  have hbase := h.isBlankChar_of_mem_base
  refine ⟨?_, Text.continued_of_forall fun c hc ↦ ?_⟩
  · obtain ⟨c, t, hc⟩ := List.exists_cons_of_ne_nil h.primary.token.1
    have hblank := hbase c (by simp [base, hc])
    simp only [isBlankChar, Bool.or_eq_false_iff] at hblank
    simp [format, base, hc, isFoldChar, hblank]
  · rintro rfl
    rw [format, List.mem_append] at hc
    rcases hc with hc | hc
    · exact absurd (hbase _ hc) (by decide)
    · exact (writes_flatMap h.parameters).lineFeed_not_mem hps hc

end ContentType

end InternetMail
