import InternetMail.EncodedWord.Text
import InternetMail.Proofs.Run
import InternetMail.Proofs.Text.Octet
import InternetMail.Proofs.Text.Utf8

/-!
# Words and the white space between them

Words that stand apart in a text (`SpacedBy`) are its words (`SpacedBy.exists_spacedWords`), and a
text is its words and the white space around them (`flatMap_spacedWords`). White space between words
that is folded in any way (`Respaced`) keeps them apart when the line breaks in it are taken out
(`SpacedBy.unfold`).

`SpacedBy p words t` says how the text is put together, and the reader of words takes it apart from
the front. So the induction is on the words, and needs that each of them is not empty and has no
white space in it. The white space in front and at the end is part of the text too, and belongs to
no word.
-/

namespace InternetMail

/-- Spaces, TABs and line breaks, with a space or a TAB among them. -/
structure IsFoldingSpace (space : Text) : Prop where
  pieces : ∃ ps : List Text, ps.flatten = space ∧
    ∀ p ∈ ps, p = [' '] ∨ p = ['\t'] ∨ p = ['\r', '\n']
  blank : ' ' ∈ space ∨ '\t' ∈ space

/-- A text with folding white space in place of each of its spaces. -/
inductive Respaced : Text → Text → Prop
  | nil : Respaced [] []
  | keep {c : Char} {t t' : Text} : c ≠ ' ' → Respaced t t' → Respaced (c :: t) (c :: t')
  | space {space t t' : Text} : IsFoldingSpace space → Respaced t t' →
      Respaced (' ' :: t) (space ++ t')

/-- Words one after another, with what `p` holds of between them. -/
inductive SpacedBy (p : Text → Prop) : List Text → Text → Prop
  | single (word : Text) : SpacedBy p [word] word
  | cons (word : Text) {space t : Text} {words : List Text} : p space → SpacedBy p words t →
      SpacedBy p (word :: words) (word ++ (space ++ t))

/-- White space, and some. -/
def IsGap (space : Text) : Prop :=
  space ≠ [] ∧ ∀ c ∈ space, isSpaceChar c = true

/-- A word is not empty and has no white space in it. -/
def IsWord (word : Text) : Prop :=
  word ≠ [] ∧ ∀ c ∈ word, isSpaceChar c = false

/-- All spaces may be replaced by the same folding white space. -/
theorem respaced_replaceChar {space : Text} (hspace : IsFoldingSpace space) (t : Text) :
    Respaced t (Text.replaceChar ' ' space t) := by
  induction t with
  | nil => exact .nil
  | cons c t ih =>
    rw [Text.replaceChar, List.flatMap_cons]
    by_cases hc : c = ' '
    · subst hc
      exact .space hspace ih
    · rw [if_neg (by simpa using hc)]
      exact .keep hc ih

/-! ### The words of a text -/

/-- White space alone has no words. -/
theorem spacedWords_of_eq_nil {t : Text} (h : t.dropWhile isSpaceChar = []) :
    spacedWords t = ([], t) := by
  rw [spacedWords.eq_def]
  split
  · rfl
  · rename_i heq
    rw [h] at heq
    cases heq

/-- The first word is the run behind the white space in front, and the others are those of the rest.
-/
theorem spacedWords_of_eq_cons {t rest : Text} {c : Char}
    (h : t.dropWhile isSpaceChar = c :: rest) :
    spacedWords t =
      (⟨t.takeWhile isSpaceChar, (c :: rest).takeWhile (!isSpaceChar ·)⟩ ::
        (spacedWords ((c :: rest).dropWhile (!isSpaceChar ·))).1,
      (spacedWords ((c :: rest).dropWhile (!isSpaceChar ·))).2) := by
  rw [spacedWords.eq_def]
  split
  · rename_i heq
    rw [h] at heq
    cases heq
  · rename_i heq
    rw [h] at heq
    cases heq
    rfl

/-- The first word ends where white space begins or the text ends. -/
theorem spacedWords_append {space word : Text} (hspace : ∀ c ∈ space, isSpaceChar c = true)
    (hword : IsWord word) (rest : Text) (hrest : ∀ c ∈ rest.head?, isSpaceChar c = true) :
    spacedWords (space ++ (word ++ rest)) =
      (⟨space, word⟩ :: (spacedWords rest).1, (spacedWords rest).2) := by
  obtain ⟨c, cs, rfl⟩ := List.exists_cons_of_ne_nil hword.1
  have hc : isSpaceChar c = false := hword.2 c List.mem_cons_self
  have htake : (space ++ (c :: cs ++ rest)).takeWhile isSpaceChar = space :=
    Run.takeWhile_append_cons (cs ++ rest) hspace hc
  have hdrop : (space ++ (c :: cs ++ rest)).dropWhile isSpaceChar = c :: (cs ++ rest) :=
    Run.dropWhile_append_cons (cs ++ rest) hspace hc
  have hinside : ∀ d ∈ c :: cs, (!isSpaceChar d) = true := fun d hd ↦ by simp [hword.2 d hd]
  have hends : (c :: cs ++ rest).takeWhile (!isSpaceChar ·) = c :: cs ∧
      (c :: cs ++ rest).dropWhile (!isSpaceChar ·) = rest := by
    cases rest with
    | nil =>
      rw [List.append_nil, List.takeWhile_eq_self_iff.2 hinside]
      exact ⟨rfl, (Run.dropWhile_eq_nil_iff _ _).2 hinside⟩
    | cons d ds =>
      have hd : (!isSpaceChar d) = false := by simpa using hrest d rfl
      exact ⟨Run.takeWhile_append_cons ds hinside hd, Run.dropWhile_append_cons ds hinside hd⟩
  rw [List.cons_append] at hends
  rw [spacedWords_of_eq_cons hdrop, hends.1, hends.2, htake]

/-- Words that stand apart are the words of their text; white space before the first stands with it.
-/
theorem SpacedBy.exists_spacedWords {words : List Text} {t : Text} (h : SpacedBy IsGap words t)
    (hwords : ∀ word ∈ words, IsWord word) (space : Text)
    (hspace : ∀ c ∈ space, isSpaceChar c = true) :
    ∃ w ws, spacedWords (space ++ t) = (w :: ws, []) ∧ (w :: ws).map SpacedWord.word = words ∧
      w.space = space := by
  induction h generalizing space with
  | single word =>
    have hword : IsWord word := hwords word List.mem_cons_self
    have hfirst := spacedWords_append hspace hword [] (by simp)
    rw [List.append_nil, spacedWords_of_eq_nil List.dropWhile_nil] at hfirst
    exact ⟨⟨space, word⟩, [], hfirst, rfl, rfl⟩
  | @cons word gap t words hgap h ih =>
    rw [List.forall_mem_cons] at hwords
    obtain ⟨w, ws, htail, hws, -⟩ := ih hwords.2 gap hgap.2
    obtain ⟨c, cs, rfl⟩ := List.exists_cons_of_ne_nil hgap.1
    have hc : ∀ d ∈ (c :: cs ++ t).head?, isSpaceChar d = true := by
      rintro _ ⟨⟩
      exact hgap.2 c List.mem_cons_self
    have hfirst := spacedWords_append hspace hwords.1 (c :: cs ++ t) hc
    rw [htail] at hfirst
    exact ⟨⟨space, word⟩, w :: ws, hfirst, by rw [List.map_cons, hws], rfl⟩

/-- A text is its words and the white space around them. -/
theorem flatMap_spacedWords (t : Text) :
    ((spacedWords t).1.flatMap fun w ↦ w.space ++ w.word) ++ (spacedWords t).2 = t := by
  induction t using spacedWords.induct with
  | case1 t h => rw [spacedWords_of_eq_nil h, List.flatMap_nil, List.nil_append]
  | case2 t c rest h _ words after _ ih =>
    simp only [spacedWords_of_eq_cons h, List.flatMap_cons, List.append_assoc]
    rw [ih, List.takeWhile_append_dropWhile, ← h, List.takeWhile_append_dropWhile]

/-- Every word of a text stands somewhere in it. -/
theorem infix_of_mem_spacedWords {t : Text} {w : SpacedWord} (h : w ∈ (spacedWords t).1) :
    w.word <:+: t := by
  obtain ⟨us, vs, hsplit⟩ := List.append_of_mem h
  have ht := flatMap_spacedWords t
  rw [hsplit, List.flatMap_append, List.flatMap_cons] at ht
  refine ⟨(us.flatMap fun w ↦ w.space ++ w.word) ++ w.space,
    (vs.flatMap fun w ↦ w.space ++ w.word) ++ (spacedWords t).2, ?_⟩
  simpa only [List.append_assoc] using ht

/-- The text begins with a word. -/
theorem SpacedBy.exists_first {p : Text → Prop} {words : List Text} {t : Text}
    (h : SpacedBy p words t) : ∃ word ∈ words, word <+: t := by
  cases h with
  | single => exact ⟨t, List.mem_cons_self, List.prefix_refl t⟩
  | cons word _ _ => exact ⟨word, List.mem_cons_self, List.prefix_append word _⟩

/-- And it ends with one. -/
theorem SpacedBy.exists_last {p : Text → Prop} {words : List Text} {t : Text}
    (h : SpacedBy p words t) : ∃ word ∈ words, word <:+ t := by
  induction h with
  | single word => exact ⟨word, List.mem_cons_self, List.suffix_refl word⟩
  | @cons word space t words _ _ ih =>
    obtain ⟨last, hlast, us, rfl⟩ := ih
    exact ⟨last, List.mem_cons_of_mem word hlast, word ++ (space ++ us), by simp⟩

/-! ### Folding -/

/-- What stands before the first space is kept. -/
theorem Respaced.exists_append {us t e : Text} (hus : ∀ c ∈ us, c ≠ ' ')
    (h : Respaced (us ++ t) e) : ∃ t', e = us ++ t' ∧ Respaced t t' := by
  induction us generalizing e with
  | nil => exact ⟨e, rfl, h⟩
  | cons u us ih =>
    rw [List.forall_mem_cons] at hus
    rw [List.cons_append] at h
    cases h with
    | keep _ h =>
      obtain ⟨t', rfl, ht'⟩ := ih hus.2 h
      exact ⟨t', rfl, ht'⟩
    | space _ _ => exact absurd rfl hus.1

/-- Words that were apart by spaces are apart by what these were replaced by. -/
theorem Respaced.spacedBy {words : List Text} {e : Text} (hne : words ≠ [])
    (hwords : ∀ word ∈ words, ∀ c ∈ word, c ≠ ' ') (h : Respaced (Text.joined [' '] words) e) :
    SpacedBy IsFoldingSpace words e := by
  induction words generalizing e with
  | nil => exact absurd rfl hne
  | cons word words ih =>
    rw [List.forall_mem_cons] at hwords
    cases words with
    | nil =>
      rw [Text.joined, ← List.append_nil word] at h
      obtain ⟨t', rfl, ht'⟩ := h.exists_append hwords.1
      cases ht'
      rw [List.append_nil]
      exact .single word
    | cons next words =>
      have hrest := List.cons_ne_nil next words
      rw [Text.joined_cons _ _ hrest, List.append_assoc] at h
      obtain ⟨t', rfl, ht'⟩ := h.exists_append hwords.1
      cases ht' with
      | keep hc _ => exact absurd rfl hc
      | space hspace ht' => exact .cons word hspace (ih hrest hwords.2 ht')

/-- Words that are joined by spaces stand apart. -/
theorem spacedBy_joined {words : List Text} (hne : words ≠ []) :
    SpacedBy IsGap words (Text.joined [' '] words) := by
  have hgap : IsGap [' '] := ⟨List.cons_ne_nil _ _, Run.forall_mem_of_all (by decide)⟩
  induction words with
  | nil => exact absurd rfl hne
  | cons word words ih =>
    cases words with
    | nil => exact .single word
    | cons next words =>
      have hrest := List.cons_ne_nil next words
      rw [Text.joined_cons _ _ hrest, List.append_assoc]
      exact .cons word hgap (ih hrest)

/-- What is in a joined text is in a word or between two. -/
theorem mem_joined {between : Text} {words : List Text} {c : Char}
    (h : c ∈ Text.joined between words) : c ∈ between ∨ ∃ word ∈ words, c ∈ word := by
  fun_induction Text.joined between words with
  | case1 => cases h
  | case2 word => exact Or.inr ⟨word, by simp, h⟩
  | case3 word words _ ih =>
    rcases List.mem_append.1 h with h | h
    · exact (List.mem_append.1 h).elim (fun h ↦ Or.inr ⟨word, by simp, h⟩) Or.inl
    · exact (ih h).imp id fun ⟨w, hw, hc⟩ ↦ ⟨w, List.mem_cons_of_mem word hw, hc⟩

/-- The stretches of a text stand apart by the characters that it is cut at. -/
theorem spacedBy_stretches (p : Char → Bool) (t : Text) :
    SpacedBy (fun space ↦ ∃ c, space = [c] ∧ p c = true) (Run.stretches p t) t := by
  induction t with
  | nil => exact .single []
  | cons c t ih =>
    unfold Run.stretches
    split
    · rename_i hc
      exact .cons [] ⟨c, rfl, hc⟩ ih
    · split
      · rename_i hnil
        exact absurd hnil (Run.stretches_ne_nil _ _)
      · rename_i run runs hs
        rw [hs] at ih
        cases ih with
        | single => exact .single (c :: t)
        | cons _ hspace h => exact .cons (c :: run) hspace h

/-! ### Taking the line breaks out -/

/-- Unfolding leaves octets that are no line breaks as they are. -/
theorem unfold_append_of_forall {us : Octets} (h : ∀ u ∈ us, u ≠ 0x0d ∧ u ≠ 0x0a) (bs : Octets) :
    unfold (us ++ bs) = us ++ unfold bs := by
  induction us with
  | nil => rfl
  | cons u us ih =>
    rw [List.forall_mem_cons] at h
    rw [List.cons_append, unfold.eq_3]
    · rw [ih h.2, List.cons_append]
    · rintro bs' rfl -
      exact h.1.1 rfl
    · rintro rfl
      exact h.1.2 rfl

/-- Of a piece of folding white space, a space or a TAB stays. -/
theorem unfold_encode_piece {p : Text} (h : p = [' '] ∨ p = ['\t'] ∨ p = ['\r', '\n'])
    (bs : Octets) :
    unfold (Utf8.encode p ++ bs) =
      Utf8.encode (p.filter fun c ↦ c == ' ' || c == '\t') ++ unfold bs := by
  rcases h with rfl | rfl | rfl
  · have hspace : ∀ u ∈ ([0x20] : Octets), u ≠ 0x0d ∧ u ≠ 0x0a :=
      Run.forall_mem_of_all (by decide)
    exact unfold_append_of_forall hspace bs
  · have htab : ∀ u ∈ ([0x09] : Octets), u ≠ 0x0d ∧ u ≠ 0x0a :=
      Run.forall_mem_of_all (by decide)
    exact unfold_append_of_forall htab bs
  · rfl

/-- Of folding white space, the spaces and TABs stay. -/
theorem IsFoldingSpace.exists_unfold {space : Text} (h : IsFoldingSpace space) :
    ∃ gap, IsGap gap ∧ ∀ bs, unfold (Utf8.encode space ++ bs) = Utf8.encode gap ++ unfold bs := by
  refine ⟨space.filter fun c ↦ c == ' ' || c == '\t', ⟨?_, fun c hc ↦ ?_⟩, ?_⟩
  · rw [Ne, List.filter_eq_nil_iff]
    intro hnone
    rcases h.blank with hmem | hmem
    · exact hnone ' ' hmem rfl
    · exact hnone '\t' hmem rfl
  · have hblank := (List.mem_filter.1 hc).2
    simp only [Bool.or_eq_true, beq_iff_eq] at hblank
    rcases hblank with rfl | rfl <;> rfl
  · obtain ⟨ps, rfl, hps⟩ := h.pieces
    -- the pieces one by one: what is left of them need not have a blank
    clear h
    intro bs
    induction ps with
    | nil => rfl
    | cons p ps ih =>
      rw [List.forall_mem_cons] at hps
      rw [List.flatten_cons, Utf8.encode_append, List.append_assoc, unfold_encode_piece hps.1,
        ih hps.2, List.filter_append, Utf8.encode_append, List.append_assoc]

/-- Words stay as they are and stay apart when line breaks are taken out between them. -/
theorem SpacedBy.exists_unfold {words : List Text} {e : Text} (h : SpacedBy IsFoldingSpace words e)
    (hwords : ∀ word ∈ words, ∀ b ∈ Utf8.encode word, b ≠ 0x0d ∧ b ≠ 0x0a) :
    ∃ t, SpacedBy IsGap words t ∧ unfold (Utf8.encode e) = Utf8.encode t := by
  induction h with
  | single word =>
    have hword := unfold_append_of_forall (hwords word List.mem_cons_self) []
    rw [List.append_nil] at hword
    exact ⟨word, .single word, hword.trans (List.append_nil _)⟩
  | @cons word space e words hspace _ ih =>
    rw [List.forall_mem_cons] at hwords
    obtain ⟨t, ht, hunfold⟩ := ih hwords.2
    obtain ⟨gap, hgap, hfold⟩ := hspace.exists_unfold
    refine ⟨word ++ (gap ++ t), .cons word hgap ht, ?_⟩
    rw [Utf8.encode_append, Utf8.encode_append, unfold_append_of_forall hwords.1, hfold, hunfold,
      Utf8.encode_append, Utf8.encode_append]

end InternetMail
