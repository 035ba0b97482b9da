import InternetMail.Address.Format

/-!
# The lines of a folded list

Folding a list of items changes neither the items nor their order: the text is the items with a
comma and a space or a comma and a line break between them, after a line break at most. What decides
between the two is the width of the lines (`exists_lines_foldList`). A line with several items ends
one column behind `column` at the latest, the comma after it not counted, and is broken only where
one more item would end behind that. An item that is alone on its line may be as wide as it likes.

The column up to which a line is filled is one off: room is made for a comma after the next item,
but not for the comma and the space before it.
-/

namespace InternetMail

/-- The items of a line as they are written. -/
def lineText (line : List Text) : Text :=
  Text.joined [',', ' '] line

/-- A comma and the line break after it, up to the next item. -/
def lineBreak : Text := ',' :: foldBreak

/-- A line that begins after `start` columns holds items, several of them only up to the column
after `column`, and has no room for the item `next` that comes after it. -/
structure FillsLine (column start : Nat) (line : List Text) (next : Option Text) : Prop where
  ne_nil : line ≠ []
  bounded : 2 ≤ line.length → start + (lineText line).length ≤ column + 1
  no_room : ∀ item ∈ next, column + 1 < start + (lineText (line ++ [item])).length

/-- Lines of which the first begins after `start` columns, and all others after the indentation. -/
def FillLines (column : Nat) : Nat → List (List Text) → Prop
  | _, [] => True
  | start, line :: lines =>
    FillsLine column start line (lines.head?.bind (·.head?)) ∧ FillLines column foldIndent lines

variable {line : List Text}

theorem lineText_concat (hline : line ≠ []) (item : Text) :
    lineText (line ++ [item]) = lineText line ++ ([',', ' '] ++ item) := by
  induction line with
  | nil => exact absurd rfl hline
  | cons first rest ih =>
    rw [lineText, List.cons_append, Text.joined_cons _ _ (by simp)]
    cases rest with
    | nil => simp [lineText, Text.joined]
    | cons second rest =>
      rw [lineText, Text.joined_cons _ _ (by simp)]
      have hrest := ih (by simp)
      rw [lineText, lineText] at hrest
      rw [hrest, List.append_assoc, List.append_assoc, List.append_assoc]

/-- A line that was begun is filled up, and the lines after it are. The count of columns is right
before every item: it is what the line was begun at and the width of what it holds. -/
theorem exists_lines_foldRest (column start : Nat) (line items : List Text) (hline : line ≠ [])
    (hbounded : 2 ≤ line.length → start + (lineText line).length ≤ column + 1) :
    ∃ more lines, lineText line ++ foldRest column (start + (lineText line).length) items =
        Text.joined lineBreak (((line ++ more) :: lines).map lineText) ∧
      ((line ++ more) :: lines).flatten = line ++ items ∧
      FillLines column start ((line ++ more) :: lines) := by
  induction items generalizing line start with
  | nil =>
    refine ⟨[], [], ?_, ?_, ⟨by simpa, by simpa, by simp⟩, trivial⟩
    · simp [foldRest, Text.joined]
    · simp
  | cons item items ih =>
    have hwidth : (lineText (line ++ [item])).length =
        (lineText line).length + 2 + item.length := by
      simp [lineText_concat hline, Nat.add_assoc, Nat.add_comm 2]
    by_cases hfull : column < start + (lineText line).length + item.length + 1
    · -- the item begins the next line
      have hitem : lineText [item] = item := rfl
      obtain ⟨more, lines, htext, hitems, hlines⟩ := ih foldIndent [item]
        (by simp) (by simp)
      rw [hitem] at htext
      refine ⟨[], ([item] ++ more) :: lines, ?_, ?_, ⟨by simpa, by simpa, ?_⟩, hlines⟩
      · rw [foldRest, if_pos hfull, List.map_cons, Text.joined_cons _ _ (by simp), ← htext]
        simp [lineBreak]
      · rw [List.flatten_cons, hitems]
        simp
      · rintro next ⟨⟩
        rw [List.append_nil, hwidth]
        omega
    · -- the item stands on the line
      have hcount : start + (lineText line).length + 2 + item.length =
          start + (lineText (line ++ [item])).length := by omega
      obtain ⟨more, lines, htext, hitems, hlines⟩ := ih start (line ++ [item])
        (by simp) (fun _ ↦ by omega)
      refine ⟨item :: more, lines, ?_, ?_, ?_⟩
      · rw [foldRest, if_neg hfull, hcount]
        rw [lineText_concat hline] at htext ⊢
        simpa using htext
      · simpa using hitems
      · simpa using hlines

/-- A folded list is made of lines with the items in order. Each is filled as far as the items after
it allow. A line break stands before the first item only if this would end behind `column` or fill
the line up to it. -/
theorem exists_lines_foldList (used column : Nat) (items : List Text) :
    ∃ (lead : Text) (start : Nat) (lines : List (List Text)),
      foldList used column items = lead ++ Text.joined lineBreak (lines.map lineText) ∧
      lines.flatten = items ∧ FillLines column start lines ∧
      (lead = [] ∧ start = used ∧ (∀ item ∈ items.head?, used + item.length ≤ column) ∨
        lead = foldBreak ∧ start = foldIndent ∧
          ∃ item ∈ items.head?, column ≤ used + item.length) := by
  match items with
  | [] => exact ⟨[], used, [], rfl, rfl, trivial, Or.inl ⟨rfl, rfl, by simp⟩⟩
  | [item] =>
    have halone : ∀ start, FillLines column start [[item]] := fun start ↦
      ⟨⟨by simp, by simp, by simp⟩, trivial⟩
    by_cases hfull : column < used + item.length
    · refine ⟨foldBreak, foldIndent, [[item]], ?_, rfl, halone _,
        Or.inr ⟨rfl, rfl, item, rfl, Nat.le_of_lt hfull⟩⟩
      rw [foldList, if_pos hfull]
      rfl
    · refine ⟨[], used, [[item]], ?_, rfl, halone _, Or.inl ⟨rfl, rfl, ?_⟩⟩
      · rw [foldList, if_neg hfull]
        rfl
      · simpa using hfull
  | item :: next :: items =>
    -- wherever the first line begins, the rest is filled from there
    have hbegun : ∀ start, ∃ lines, item ++ foldRest column (start + item.length) (next :: items) =
        Text.joined lineBreak (lines.map lineText) ∧ lines.flatten = item :: next :: items ∧
        FillLines column start lines := by
      intro start
      obtain ⟨more, lines, htext, hitems, hlines⟩ := exists_lines_foldRest column start [item]
        (next :: items) (by simp) (by simp)
      exact ⟨_, htext, hitems, hlines⟩
    by_cases hfull : column < used + item.length + 1
    · obtain ⟨lines, htext, hitems, hlines⟩ := hbegun foldIndent
      refine ⟨foldBreak, foldIndent, lines, ?_, hitems, hlines,
        Or.inr ⟨rfl, rfl, item, rfl, Nat.le_of_lt_succ hfull⟩⟩
      rw [foldList, if_pos hfull, List.append_assoc, htext]
      simp
    · obtain ⟨lines, htext, hitems, hlines⟩ := hbegun used
      refine ⟨[], used, lines, ?_, hitems, hlines, Or.inl ⟨rfl, rfl, ?_⟩⟩
      · rw [foldList, if_neg hfull, htext]
        · rfl
        · simp
      · rintro _ ⟨⟩
        omega

end InternetMail
