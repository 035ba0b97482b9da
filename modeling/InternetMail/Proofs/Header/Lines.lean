import InternetMail.Header.Map
import InternetMail.Proofs.Run

/-!
# Lines, and the block of lines that a source holds

A source is read line by line up to the first line of blanks. What that gives is said here of the
octets alone: the lines before that one (`Octets.block`), the line of blanks itself
(`Octets.blankLine`) and what follows it (`Octets.afterBlock`). Where the reads of the source were
cut does not matter (`exists_readBlock`).

A source may fail after the octets that it gives. What counts is whether it does so before the line
of blanks has come to its end (`Source.HasBlock`): if it does, nothing is read at all
(`exists_readBlock_eq_error`), not even the lines that were given before.

A line ends with its LF, so what is left unread at the end of a source is the last line only if it
has none. Reading a line takes reads from the source until an LF is in them, and the rest of the
last read is kept for the next line; that it makes no difference where reads are cut is the same as
that only their octets put together matter (`exists_line`), and this is proved for one line and then
for the block.
-/

namespace InternetMail

namespace Octets

/-- The lines that the octets are made of, each with its LF, which the last may lack. -/
def lines : Octets → List Octets
  | [] => []
  | b :: bs =>
    if b == 0x0a then [b] :: lines bs
    else
      match lines bs with
      | [] => [[b]]
      | line :: rest => (b :: line) :: rest

/-- Whether there is something else than blanks in a line. -/
def hasContent (line : Octets) : Bool :=
  !line.all Octet.isBlank

/-- The lines before the first line of blanks. -/
def block (bs : Octets) : Octets :=
  ((lines bs).takeWhile hasContent).flatten

/-- The first line of blanks; nothing if the octets end without one. -/
def blankLine (bs : Octets) : Octets :=
  ((lines bs).dropWhile hasContent).head?.getD []

/-- What follows the first line of blanks. -/
def afterBlock (bs : Octets) : Octets :=
  ((lines bs).dropWhile hasContent).tail.flatten

variable {us bs line : Octets}

theorem isEmpty_trim (bs : Octets) : bs.trim.isEmpty = !hasContent bs := by
  rw [Bool.eq_iff_iff, List.isEmpty_iff, trim, Run.strip_eq_nil_iff, hasContent, Bool.not_not,
    List.all_eq_true]

/-! ### Lines -/

theorem flatten_lines (bs : Octets) : (lines bs).flatten = bs := by
  induction bs with
  | nil => rfl
  | cons b bs ih =>
    unfold lines
    split
    · rw [List.flatten_cons, ih, List.singleton_append]
    · split
      · rename_i hnil
        rw [hnil] at ih
        rw [← ih]
        rfl
      · rename_i hcons
        rw [hcons, List.flatten_cons] at ih
        rw [List.flatten_cons, List.cons_append, ih]

/-- A line ends at the first LF. -/
theorem lines_append_lineFeed (hus : ∀ u ∈ us, (u != 0x0a) = true) (bs : Octets) :
    lines (us ++ 0x0a :: bs) = (us ++ [0x0a]) :: lines bs := by
  induction us with
  | nil => rfl
  | cons u us ih =>
    rw [List.forall_mem_cons] at hus
    have hu : ¬(u == 0x0a) = true := by simpa using hus.1
    rw [List.cons_append, lines, if_neg hu, ih hus.2]
    rfl

/-- Without an LF there is one line. -/
theorem lines_of_forall (hne : us ≠ []) (hus : ∀ u ∈ us, (u != 0x0a) = true) :
    lines us = [us] := by
  induction us with
  | nil => exact absurd rfl hne
  | cons u us ih =>
    rw [List.forall_mem_cons] at hus
    have hu : ¬(u == 0x0a) = true := by simpa using hus.1
    rw [lines, if_neg hu]
    cases us with
    | nil => rfl
    | cons u' us => rw [ih (by simp) hus.2]

/-- After an LF begins a line. -/
theorem lines_append (us bs : Octets) :
    lines (us ++ 0x0a :: bs) = lines (us ++ [0x0a]) ++ lines bs := by
  induction us with
  | nil => rfl
  | cons u us ih =>
    rw [List.cons_append, List.cons_append, lines, lines]
    split
    · rw [ih, List.cons_append]
    · rw [ih]
      cases hlines : lines (us ++ [0x0a]) with
      | nil =>
        have := flatten_lines (us ++ [0x0a])
        simp [hlines] at this
      | cons line rest => rfl

/-- The first line is the octets up to the first LF. -/
theorem lines_eq_cons_takeWhile {lf : UInt8} {after : Octets}
    (h : bs.dropWhile (· != 0x0a) = lf :: after) :
    lines bs = (bs.takeWhile (· != 0x0a) ++ [lf]) :: lines after := by
  obtain ⟨hbs, hus, hlf⟩ := Run.dropWhile_eq_cons_iff.1 ⟨h, rfl⟩
  have hlf : lf = 0x0a := by simpa using hlf
  subst hlf
  have hlines := lines_append_lineFeed hus after
  rwa [← hbs] at hlines

/-- The octets that `rest` are lines of begin after an LF, unless there are none. -/
theorem lines_eq_cons {rest : List Octets} (h : lines bs = line :: rest) :
    (∃ us after, (∀ u ∈ us, (u != 0x0a) = true) ∧ bs = us ++ 0x0a :: after ∧
        line = us ++ [0x0a] ∧ rest = lines after) ∨
      (∀ b ∈ bs, (b != 0x0a) = true) ∧ line = bs ∧ rest = [] := by
  cases hd : bs.dropWhile (· != 0x0a) with
  | nil =>
    have hbs := (Run.dropWhile_eq_nil_iff _ _).1 hd
    have hne : bs ≠ [] := by
      rintro rfl
      cases h
    rw [lines_of_forall hne hbs] at h
    cases h
    exact Or.inr ⟨hbs, rfl, rfl⟩
  | cons lf after =>
    obtain ⟨hbs, hus, hlf⟩ := Run.dropWhile_eq_cons_iff.1 ⟨hd, rfl⟩
    rw [lines_eq_cons_takeWhile hd] at h
    have hlf : lf = 0x0a := by simpa using hlf
    subst hlf
    cases h
    exact Or.inl ⟨_, after, hus, hbs, rfl, rfl⟩

/-- Some first lines are the lines of the octets that they are made of, and so are the others. -/
theorem lines_flatten {ls ls' : List Octets} (h : lines bs = ls ++ ls') :
    lines ls.flatten = ls ∧ lines ls'.flatten = ls' := by
  induction ls generalizing bs with
  | nil => exact ⟨rfl, by rw [← show lines bs = ls' from h, flatten_lines]⟩
  | cons l ls ih =>
    rcases lines_eq_cons h with ⟨us, after, hus, -, rfl, hrest⟩ | ⟨hbs, rfl, hnil⟩
    · obtain ⟨hls, hls'⟩ := ih hrest.symm
      refine ⟨?_, hls'⟩
      rw [List.flatten_cons, List.append_assoc, List.singleton_append,
        lines_append_lineFeed hus, hls]
    · obtain ⟨rfl, rfl⟩ := List.append_eq_nil_iff.1 hnil
      have hne : l ≠ [] := by
        rintro rfl
        cases h
      exact ⟨by rw [List.flatten_singleton, lines_of_forall hne hbs], rfl⟩

/-- Lines that another one follows end in an LF. -/
theorem exists_flatten_eq_concat {ls ls' : List Octets} (h : lines bs = ls ++ line :: ls') :
    ls.flatten = [] ∨ ∃ us, ls.flatten = us ++ [0x0a] := by
  induction ls generalizing bs with
  | nil => exact Or.inl rfl
  | cons l ls ih =>
    rcases lines_eq_cons h with ⟨us, after, -, -, rfl, hrest⟩ | ⟨-, -, hnil⟩
    · refine Or.inr ?_
      rcases ih hrest.symm with hls | ⟨vs, hls⟩
      · exact ⟨us, by rw [List.flatten_cons, hls, List.append_nil]⟩
      · exact ⟨us ++ [0x0a] ++ vs, by simp [hls]⟩
    · cases (List.append_eq_nil_iff.1 hnil).2

/-! ### The block before the first line of blanks -/

theorem block_append_blankLine_append_afterBlock (bs : Octets) :
    block bs ++ (blankLine bs ++ afterBlock bs) = bs := by
  have hlines : ((lines bs).takeWhile hasContent).flatten ++
      ((lines bs).dropWhile hasContent).flatten = bs := by
    rw [← List.flatten_append, List.takeWhile_append_dropWhile, flatten_lines]
  have hrest : blankLine bs ++ afterBlock bs = ((lines bs).dropWhile hasContent).flatten := by
    rw [blankLine, afterBlock]
    cases (lines bs).dropWhile hasContent <;> rfl
  rw [hrest, block, hlines]

/-- All lines of the block have content. -/
theorem hasContent_of_mem_lines_block (h : line ∈ lines (block bs)) : hasContent line = true := by
  have hlines : lines (block bs) = (lines bs).takeWhile hasContent :=
    (lines_flatten (List.takeWhile_append_dropWhile ..).symm).1
  rw [hlines] at h
  exact List.mem_takeWhile_imp h

/-- The octets end with the block, or a line of blanks follows that ends in an LF or ends the
octets. -/
theorem blankLine_cases (bs : Octets) :
    blankLine bs = [] ∧ afterBlock bs = [] ∨
      blankLine bs ≠ [] ∧ (∀ b ∈ blankLine bs, Octet.isBlank b = true) ∧
        (block bs = [] ∨ ∃ us, block bs = us ++ [0x0a]) ∧
        ((∃ us, (∀ u ∈ us, (u != 0x0a) = true) ∧ blankLine bs = us ++ [0x0a]) ∨
          (∀ b ∈ blankLine bs, (b != 0x0a) = true) ∧ afterBlock bs = []) := by
  have hsplit := (List.takeWhile_append_dropWhile (p := hasContent) (l := lines bs)).symm
  have hhead := List.head?_dropWhile_not hasContent (lines bs)
  rw [blankLine, afterBlock, block]
  generalize (lines bs).takeWhile hasContent = ls at hsplit
  cases hd : (lines bs).dropWhile hasContent with
  | nil => exact Or.inl ⟨rfl, rfl⟩
  | cons line rest =>
    rw [hd] at hsplit hhead
    have hblank : ∀ b ∈ line, Octet.isBlank b = true := by
      simpa [hasContent] using hhead
    have hlines := (lines_flatten hsplit).2
    refine Or.inr ⟨?_, hblank, exists_flatten_eq_concat hsplit, ?_⟩
    · rintro rfl
      rcases lines_eq_cons hlines with ⟨us, -, -, -, heq, -⟩ | ⟨-, heq, -⟩
      · simp at heq
      · rw [← heq] at hlines
        cases hlines
    · rcases lines_eq_cons hlines with ⟨us, -, hus, -, rfl, -⟩ | ⟨hline, heq, rfl⟩
      · exact Or.inl ⟨us, hus, rfl⟩
      · rw [← heq] at hline
        exact Or.inr ⟨hline, rfl⟩

/-- A first line of blanks ends the block. -/
theorem block_of_blank {cs : Octets} (h : lines bs = line :: lines cs)
    (hline : hasContent line = false) :
    block bs = [] ∧ blankLine bs = line ∧ afterBlock bs = cs := by
  rw [block, blankLine, afterBlock, h, List.takeWhile_cons_of_neg (by simp [hline]),
    List.dropWhile_cons_of_neg (by simp [hline]), List.tail_cons, flatten_lines]
  exact ⟨rfl, rfl, rfl⟩

/-- A first line with content belongs to the block. -/
theorem block_of_hasContent {cs : Octets} (h : lines bs = line :: lines cs)
    (hline : hasContent line = true) :
    block bs = line ++ block cs ∧ blankLine bs = blankLine cs ∧ afterBlock bs = afterBlock cs := by
  rw [block, blankLine, afterBlock, h, List.takeWhile_cons_of_pos hline, List.flatten_cons,
    List.dropWhile_cons_of_pos hline]
  exact ⟨rfl, rfl, rfl⟩

end Octets

open Octets

/-! ### Reading lines from a source -/

theorem lineOf_found_iff (reads : List Octets) :
    (Source.lineOf reads).2.2 = true ↔ (0x0a : UInt8) ∈ reads.flatten := by
  rw [(Source.lineOf_eq reads).2.2]
  cases hd : reads.flatten.dropWhile (· != 0x0a) with
  | nil =>
    have hnone : (0x0a : UInt8) ∉ reads.flatten := fun hlf ↦ by
      simpa using (Run.dropWhile_eq_nil_iff _ _).1 hd _ hlf
    simp only [Source.lineOf, hd, hnone, Bool.false_eq_true]
  | cons lf after =>
    obtain ⟨hbs, -, hlf⟩ := Run.dropWhile_eq_cons_iff.1 ⟨hd, rfl⟩
    obtain rfl : lf = 0x0a := by simpa using hlf
    simp [Source.lineOf, hd, hbs ▸ List.mem_append_right _ List.mem_cons_self]

/-- A source that does not fail before the end of its first line gives that line, however its reads
are cut. -/
theorem exists_line {source : Source}
    (h : source.failure = none ∨ (0x0a : UInt8) ∈ source.octets) :
    ∃ line reads, source.line = (.ok line, ⟨reads, source.failure⟩) ∧
      (source.octets = [] ∧ line = [] ∧ reads.flatten = [] ∨
        lines source.octets = line :: lines reads.flatten) := by
  obtain ⟨reads, failure⟩ := source
  refine ⟨(Source.lineOf reads).1, (Source.lineOf reads).2.1, ?_, ?_⟩
  · have hfound := h.imp_right (lineOf_found_iff reads).2
    unfold Source.line
    generalize Source.lineOf reads = r at hfound ⊢
    obtain ⟨line, rest, found⟩ := r
    rcases hfound with rfl | rfl
    · cases found <;> rfl
    · rfl
  · obtain ⟨hline, hrest, -⟩ := Source.lineOf_eq reads
    rw [hline, hrest, Source.octets]
    generalize reads.flatten = bs
    cases hd : bs.dropWhile (· != 0x0a) with
    | nil =>
      have hus := (Run.dropWhile_eq_nil_iff _ _).1 hd
      simp only [Source.lineOf, hd, List.append_nil, List.flatten_nil]
      by_cases hbs : bs = []
      · exact Or.inl ⟨hbs, hbs, trivial⟩
      · exact Or.inr (lines_of_forall hbs hus)
    | cons lf after =>
      simp only [Source.lineOf, hd, List.flatten_cons, List.flatten_nil, List.append_nil]
      exact Or.inr (lines_eq_cons_takeWhile hd)

/-- A line that its source fails in is not given. -/
theorem line_eq_error {source : Source} {failure : StreamFailure}
    (hfailure : source.failure = some failure) (h : (0x0a : UInt8) ∉ source.octets) :
    source.line.1 = .error failure.toError := by
  obtain ⟨reads, _⟩ := source
  obtain rfl := hfailure
  have hfound := mt (lineOf_found_iff reads).1 h
  unfold Source.line
  generalize Source.lineOf reads = r at hfound ⊢
  obtain ⟨line, rest, found⟩ := r
  cases found with
  | false => rfl
  | true => exact absurd rfl hfound

/-- What a line that was given says of the source: it is the first, and the others are left. -/
theorem line_eq_ok {source source' : Source} {line : Octets}
    (h : source.line = (.ok line, source')) :
    (source.failure = none ∨ (0x0a : UInt8) ∈ source.octets) ∧
      source'.failure = source.failure ∧
      (source.octets = [] ∧ line = [] ∧ source'.octets = [] ∨
        lines source.octets = line :: lines source'.octets) := by
  have hgiven : source.failure = none ∨ (0x0a : UInt8) ∈ source.octets := by
    by_contra hnot
    obtain ⟨hfailure, hlf⟩ := not_or.1 hnot
    obtain ⟨failure, hfailure⟩ := Option.ne_none_iff_exists'.1 hfailure
    have herror := line_eq_error hfailure hlf
    rw [h] at herror
    cases herror
  obtain ⟨_, reads, hok, hlines⟩ := exists_line hgiven
  rw [hok] at h
  cases h
  exact ⟨hgiven, rfl, hlines⟩

/-! ### Reading the block -/

/-- The source gives all lines up to the first line of blanks: it does not fail, or not before the
LF of that line. -/
def Source.HasBlock (source : Source) : Prop :=
  source.failure = none ∨ (0x0a : UInt8) ∈ source.octets.blankLine

namespace HeaderMap

variable {source source' : Source} {line : Octets}

/-- A first line of blanks is given with its LF, and what follows it is left. -/
theorem hasBlock_of_line_blank (h : source.line = (.ok line, source'))
    (hline : hasContent line = false) :
    source.HasBlock ∧ source.octets.block = [] ∧ source.octets.afterBlock = source'.octets := by
  obtain ⟨hgiven, -, ⟨hempty, -, hrest⟩ | hlines⟩ := line_eq_ok h
  · rw [hempty] at hgiven
    rw [hempty, hrest]
    exact ⟨Or.inl (hgiven.resolve_right List.not_mem_nil), rfl, rfl⟩
  · obtain ⟨hblock, hblank, hafter⟩ := block_of_blank hlines hline
    refine ⟨hgiven.imp_right fun hlf ↦ ?_, hblock, hafter⟩
    rw [hblank]
    rcases lines_eq_cons hlines with ⟨us, -, -, -, rfl, -⟩ | ⟨-, rfl, -⟩
    · exact List.mem_append_right _ List.mem_cons_self
    · exact hlf

/-- The lines after a first line with content are those that the source is left with. -/
theorem hasBlock_iff_of_line_content (h : source.line = (.ok line, source'))
    (hline : hasContent line = true) :
    (source.HasBlock ↔ source'.HasBlock) ∧
      source.octets.block = line ++ source'.octets.block ∧
      source.octets.afterBlock = source'.octets.afterBlock := by
  obtain ⟨-, hfailure, ⟨-, rfl, -⟩ | hlines⟩ := line_eq_ok h
  · cases hline
  · obtain ⟨hblock, hblank, hafter⟩ := block_of_hasContent hlines hline
    rw [Source.HasBlock, Source.HasBlock, hfailure, hblank]
    exact ⟨Iff.rfl, hblock, hafter⟩

/-- The lines before the first line of blanks are read, and what follows that line is left. -/
theorem exists_readBlock (h : source.HasBlock) :
    ∃ rest, readBlock source = (.ok source.octets.block, rest) ∧
      rest.failure = source.failure ∧ rest.octets = source.octets.afterBlock := by
  fun_induction readBlock source with
  | case1 source e source' hline =>
    have hgiven : source.failure = none ∨ (0x0a : UInt8) ∈ source.octets := by
      refine h.imp_right fun hlf ↦ ?_
      rw [← block_append_blankLine_append_afterBlock source.octets]
      exact List.mem_append_right _ (List.mem_append_left _ hlf)
    obtain ⟨_, _, hok, -⟩ := exists_line hgiven
    rw [hok] at hline
    cases hline
  | case2 source line source' hline hempty =>
    have hblank : hasContent line = false := by simpa [isEmpty_trim] using hempty
    obtain ⟨-, hblock, hafter⟩ := hasBlock_of_line_blank hline hblank
    rw [hblock, hafter]
    exact ⟨source', rfl, (line_eq_ok hline).2.1, rfl⟩
  | case3 source line source' hline hempty _ block rest hread ih =>
    have hcontent : hasContent line = true := by simpa [isEmpty_trim] using hempty
    obtain ⟨hiff, hblock, hafter⟩ := hasBlock_iff_of_line_content hline hcontent
    obtain ⟨rest', hread', hfailure, hrest⟩ := ih (hiff.1 h)
    rw [hread] at hread'
    cases hread'
    rw [hblock, hafter, ← (line_eq_ok hline).2.1]
    exact ⟨rest, rfl, hfailure, hrest⟩
  | case4 source line source' hline hempty _ hread ih =>
    have hcontent : hasContent line = true := by simpa [isEmpty_trim] using hempty
    obtain ⟨rest, hread', -⟩ := ih ((hasBlock_iff_of_line_content hline hcontent).1.1 h)
    exact absurd hread' (hread _ _)

/-- Nothing is read from a source that fails before the first line of blanks ends. -/
theorem exists_readBlock_eq_error (h : ¬source.HasBlock) :
    ∃ e, (readBlock source).1 = .error e := by
  fun_induction readBlock source with
  | case1 source e source' hline => exact ⟨e, rfl⟩
  | case2 source line source' hline hempty =>
    have hblank : hasContent line = false := by simpa [isEmpty_trim] using hempty
    exact absurd (hasBlock_of_line_blank hline hblank).1 h
  | case3 source line source' hline hempty _ block rest hread ih =>
    have hcontent : hasContent line = true := by simpa [isEmpty_trim] using hempty
    obtain ⟨e, herror⟩ := ih (mt (hasBlock_iff_of_line_content hline hcontent).1.2 h)
    rw [hread] at herror
    cases herror
  | case4 source line source' hline hempty _ hread ih =>
    have hcontent : hasContent line = true := by simpa [isEmpty_trim] using hempty
    exact ih (mt (hasBlock_iff_of_line_content hline hcontent).1.2 h)

end HeaderMap

end InternetMail
