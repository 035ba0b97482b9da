import InternetMail.Proofs.Header.Lines
import InternetMail.Proofs.Header.Wire

/-!
# Header blocks and what comes after them

A header block is read the same whether it stands alone or something follows it, as long as the
block ends in an LF and what follows does not begin with a space or a TAB: then its fields are the
first fields of the whole (`readAll_append_of_next`). If it does begin so, the last field goes on
(`exists_readAll_append_of_fold`). A block that something else than a field stands in is no header
block in either reading (`readAll_append_of_stop`).

The reading of a field looks ahead by one octet: a line feed ends a value unless a fold is next. So
what follows a block can change its last field and no other one. Octets that end with a line feed
leave the last value without its next octet, and the lemmas say what is read when there is one
(`splitValue_append_lineFeed`, `splitValue_append_fold`). From one field to all of them it is an
induction on the reading itself (`readAll_induction`), as every field takes something
(`length_lt_of_read`).
-/

namespace InternetMail.Field

variable {us bs rest tail name : Octets} {n : HeaderName} {f : Field}

/-! ### Names -/

/-- An octet that does not end a name is no part of a line break. -/
theorem not_break_of_in_name : ∀ b, (b != 0x3a && !Octet.isControlOrSpace b) = true →
    b ≠ 0x0a ∧ b ≠ 0x0d :=
  Octet.forall_of_digits _ (by decide)

/-- A name is what stands before the colon, if it names a field. -/
theorem readName_eq_ok_iff : readName bs = .ok (n, rest) ↔
    ∃ name, bs = name ++ 0x3a :: rest ∧
      (∀ b ∈ name, (b != 0x3a && !Octet.isControlOrSpace b) = true) ∧
      HeaderName.ofOctets? name = some n := by
  constructor
  · intro h
    unfold readName at h
    split at h
    · cases h
    split at h
    · cases h
    -- what stands in front of the colon, and the proof that it is all name octets
    have hsplit := List.takeWhile_append_dropWhile
      (p := fun b ↦ b != 0x3a && !Octet.isControlOrSpace b) (l := bs)
    have hname : ∀ b ∈ bs.takeWhile fun b ↦ b != 0x3a && !Octet.isControlOrSpace b,
        (b != 0x3a && !Octet.isControlOrSpace b) = true := fun _ hb ↦
      List.mem_takeWhile_imp (p := fun b ↦ b != 0x3a && !Octet.isControlOrSpace b) hb
    generalize bs.takeWhile (fun b ↦ b != 0x3a && !Octet.isControlOrSpace b) = name at *
    simp only at h
    split at h
    · cases h
    · rename_i b rest' hdrop
      split at h
      · cases h
      · rename_i hb
        have hb : b = 0x3a := by simpa using hb
        subst hb
        split at h
        · rename_i hread
          cases h
          refine ⟨name, ?_, hname, hread⟩
          rw [← hdrop, ← hsplit, List.drop_left]
        · cases h
  · rintro ⟨name, rfl, hname, hread⟩
    have htake := Run.takeWhile_append_cons (x := 0x3a) rest hname (by decide)
    cases name with
    | nil => cases hread
    | cons b name =>
      obtain ⟨hlf, hcr⟩ := not_break_of_in_name b (hname b List.mem_cons_self)
      -- a name does not begin with a line break, so this is no empty line
      have hbreak : ([0x0a].isPrefixOf (b :: name ++ 0x3a :: rest) ||
          [0x0d, 0x0a].isPrefixOf (b :: name ++ 0x3a :: rest)) = false := by
        simp [List.isPrefixOf, hlf.symm, hcr.symm]
      have hempty : (b :: name ++ 0x3a :: rest).isEmpty = false := rfl
      simp only [readName, htake, hempty, hbreak, List.drop_left, hread, bne_self_eq_false,
        Bool.false_eq_true, if_false]

/-- A field begins before the first LF, so whether one does is decided there. -/
theorem read_append_lineFeed : read (us ++ 0x0a :: tail) = .ok (f, rest) ↔
    ∃ name vs, us = name ++ 0x3a :: vs ∧
      (∀ b ∈ name, (b != 0x3a && !Octet.isControlOrSpace b) = true) ∧
      HeaderName.ofOctets? name = some f.name ∧
      readValue (vs.dropWhile isFold ++ 0x0a :: tail) = (f.value, rest) := by
  have hdrop : ∀ vs : Octets,
      (vs ++ 0x0a :: tail).dropWhile isFold = vs.dropWhile isFold ++ 0x0a :: tail := by
    intro vs
    have hlf : (0x0a :: tail).dropWhile isFold = 0x0a :: tail := rfl
    rw [List.dropWhile_append, hlf]
    split
    · rename_i hnil
      rw [List.isEmpty_iff.1 hnil, List.nil_append]
    · rfl
  rw [read_eq_ok_iff]
  constructor
  · rintro ⟨n, bs', hread, hvalue, rfl⟩
    obtain ⟨name, heq, hname, hn⟩ := readName_eq_ok_iff.1 hread
    rcases List.append_eq_append_iff.1 heq with ⟨vs, rfl, hvs⟩ | ⟨vs, rfl, hvs⟩
    · -- the LF would stand in the name or be the colon
      cases vs with
      | nil => cases hvs
      | cons v vs =>
        obtain ⟨rfl, -⟩ := List.cons.inj hvs
        exact absurd rfl (not_break_of_in_name 0x0a (hname 0x0a (by simp))).1
    · cases vs with
      | nil => cases hvs
      | cons v vs =>
        obtain ⟨rfl, rfl⟩ := List.cons.inj hvs
        exact ⟨name, vs, rfl, hname, hn, (congrArg readValue (hdrop vs)).symm.trans hvalue⟩
  · rintro ⟨name, vs, rfl, hname, hn, hvalue⟩
    refine ⟨f.name, vs ++ 0x0a :: tail, ?_, ?_, rfl⟩
    · exact readName_eq_ok_iff.2 ⟨name, by simp, hname, hn⟩
    · rwa [hdrop]

/-! ### Values -/

/-- What the search for the end of a value leaves is where a line begins. -/
theorem splitValue_eq_append (bs : Octets) :
    (splitValue bs).2 = [] ∨ ∃ vs, bs = vs ++ 0x0a :: (splitValue bs).2 := by
  induction bs with
  | nil => exact Or.inl rfl
  | cons b bs ih =>
    rw [splitValue]
    split
    · rename_i hends
      refine Or.inr ⟨[], ?_⟩
      have hlf : b = 0x0a := by
        have := (Bool.and_eq_true _ _ ▸ hends).1
        exact eq_of_beq this
      rw [hlf]
      rfl
    · refine ih.imp id ?_
      rintro ⟨vs, hvs⟩
      exact ⟨b :: vs, congrArg (b :: ·) hvs⟩

/-- Splitting a value off leaves no more than there was. -/
theorem length_splitValue_le (bs : Octets) : (splitValue bs).2.length ≤ bs.length := by
  rcases splitValue_eq_append bs with h | ⟨vs, h⟩
  · simp [h]
  · have := congrArg List.length h
    simp only [List.length_append, List.length_cons] at this
    omega

/-- A value that ends before the last line break ends there whatever follows, and one that ends at
it does if no fold follows. -/
theorem splitValue_append_lineFeed
    (h : (splitValue (us ++ [0x0a])).2 ≠ [] ∨ tail.head?.any isFold = false) :
    splitValue (us ++ 0x0a :: tail) =
      ((splitValue (us ++ [0x0a])).1, (splitValue (us ++ [0x0a])).2 ++ tail) := by
  induction us with
  | nil =>
    have htail := h.resolve_left (by decide)
    simp [splitValue, htail]
  | cons u us ih =>
    have hhead : (us ++ 0x0a :: tail).head? = (us ++ [0x0a]).head? := by cases us <;> rfl
    rw [List.cons_append, List.cons_append, splitValue, splitValue, hhead]
    rw [List.cons_append, splitValue] at h
    split
    · simp
    · rename_i hgoes
      rw [if_neg hgoes] at h
      rw [ih h]

/-- One that ends at the last line break goes on if a fold follows. -/
theorem splitValue_append_fold (h : (splitValue (us ++ [0x0a])).2 = [])
    (htail : tail.head?.any isFold = true) :
    splitValue (us ++ 0x0a :: tail) =
      ((splitValue (us ++ [0x0a])).1 ++ 0x0a :: (splitValue tail).1, (splitValue tail).2) := by
  induction us with
  | nil => simp [splitValue, htail]
  | cons u us ih =>
    have hhead : (us ++ 0x0a :: tail).head? = (us ++ [0x0a]).head? := by cases us <;> rfl
    rw [List.cons_append, List.cons_append, splitValue, splitValue, hhead]
    rw [List.cons_append, splitValue] at h
    split
    · rename_i hends
      -- the rest of the block would be left, with its LF
      rw [if_pos hends] at h
      simp at h
    · rename_i hgoes
      rw [if_neg hgoes] at h
      rw [ih h]
      rfl

/-- A line break before which there is no other ends a value, or the value goes on after it. -/
theorem splitValue_append_of_forall (hus : ∀ u ∈ us, (u != 0x0a) = true) (bs : Octets) :
    splitValue (us ++ bs) = (us ++ (splitValue bs).1, (splitValue bs).2) := by
  induction us with
  | nil => rfl
  | cons u us ih =>
    rw [List.forall_mem_cons] at hus
    have hu : (u == 0x0a) = false := by simpa using hus.1
    rw [List.cons_append, splitValue, hu, ih hus.2]
    rfl

/-- A CR that is dropped at the end of a value is no line break. -/
theorem count_dropEnding (bs : Octets) :
    (Run.dropEnding [0x0d] bs).count 0x0a = bs.count 0x0a := by
  rcases dropEnding_eq_or bs [0x0d] with h | h
  · rw [h]
  · generalize Run.dropEnding [0x0d] bs = vs at h
    rw [h, List.count_append]
    rfl

/-! ### Fields one after another -/

/-- What is left after a field is where a line begins. -/
theorem eq_append_of_read (h : read bs = .ok (f, rest)) :
    bs ≠ [] ∧ (rest = [] ∨ ∃ vs, bs = vs ++ 0x0a :: rest) := by
  obtain ⟨n, bs', hread, hvalue, -⟩ := read_eq_ok_iff.1 h
  obtain ⟨name, rfl, -, -⟩ := readName_eq_ok_iff.1 hread
  obtain rfl : (splitValue (bs'.dropWhile isFold)).2 = rest := (Prod.mk.inj hvalue).2
  refine ⟨by simp, (splitValue_eq_append _).imp id ?_⟩
  rintro ⟨vs, hvs⟩
  refine ⟨name ++ 0x3a :: (bs'.takeWhile isFold ++ vs), ?_⟩
  rw [List.append_assoc, List.cons_append, List.append_assoc, ← hvs,
    List.takeWhile_append_dropWhile]

/-- Reading a field takes at least one octet. -/
theorem length_lt_of_read (h : read bs = .ok (f, rest)) : rest.length < bs.length := by
  obtain ⟨hne, rfl | ⟨vs, rfl⟩⟩ := eq_append_of_read h
  · exact List.length_pos_of_ne_nil hne
  · simp only [List.length_append, List.length_cons]
    omega

/-- Where no field stands the block is over. -/
theorem readAll_of_error {m : Mismatch} (h : read bs = .error m) : readAll bs = ([], bs) := by
  rw [readAll, Reader.many, h]

theorem readAll_nil : readAll [] = ([], []) :=
  readAll_of_error (m := ⟨[], .field⟩) rfl

/-- The first field and those of the rest. -/
theorem readAll_of_ok (h : read bs = .ok (f, rest)) :
    readAll bs = (f :: (readAll rest).1, (readAll rest).2) := by
  rw [readAll, Reader.many, h]
  simp only [if_pos (length_lt_of_read h)]
  rfl

/-- What holds where no field stands, and before a field if it does after it, holds of all octets.
-/
theorem readAll_induction {P : Octets → Prop} (stop : ∀ bs m, read bs = .error m → P bs)
    (next : ∀ bs f rest, read bs = .ok (f, rest) → P rest → P bs) (bs : Octets) : P bs := by
  induction hlen : bs.length using Nat.strongRecOn generalizing bs with
  | ind len ih =>
    subst hlen
    cases hread : read bs with
    | error m => exact stop bs m hread
    | ok r => exact next bs r.1 r.2 hread (ih _ (length_lt_of_read hread) r.2 rfl)

/-- What is left after all fields is where a line begins. -/
theorem exists_lines_readAll (bs : Octets) :
    ∃ ls, bs.lines = ls ++ Octets.lines (readAll bs).2 := by
  induction bs using readAll_induction with
  | stop bs m hread => exact ⟨[], by rw [readAll_of_error hread, List.nil_append]⟩
  | next bs f rest hread ih =>
    obtain ⟨ls, hls⟩ := ih
    rw [readAll_of_ok hread]
    rcases (eq_append_of_read hread).2 with rfl | ⟨vs, rfl⟩
    · exact ⟨bs.lines, by rw [readAll_nil, Octets.lines, List.append_nil]⟩
    · exact ⟨Octets.lines (vs ++ [0x0a]) ++ ls, by rw [Octets.lines_append, hls, List.append_assoc]⟩

/-- What is left of a block is no more than there was. -/
theorem length_readAll_le (bs : Octets) : (readAll bs).2.length ≤ bs.length := by
  induction bs using readAll_induction with
  | stop bs m hread => rw [readAll_of_error hread]
  | next bs f rest hread ih =>
    rw [readAll_of_ok hread]
    exact Nat.le_trans ih (Nat.le_of_lt (length_lt_of_read hread))

/-! ### Fields before something else -/

/-- The octets end in an LF, if there are any. -/
def EndsLine (bs : Octets) : Prop :=
  ∀ b ∈ bs.getLast?, b = 0x0a

/-- There is an LF at the end, if there is anything. -/
theorem EndsLine.exists_concat (h : EndsLine bs) (hne : bs ≠ []) : ∃ us, bs = us ++ [0x0a] := by
  have hlast := List.getLast?_eq_some_getLast hne
  rw [h _ hlast] at hlast
  exact List.getLast?_eq_some_iff.1 hlast

/-- An end of such octets ends so. -/
theorem EndsLine.of_append {vs : Octets} (h : EndsLine (vs ++ bs)) : EndsLine bs := by
  intro b hb
  refine h b ?_
  rw [List.getLast?_append, Option.mem_def.1 hb]
  rfl

/-- So does what is left behind a field. -/
theorem EndsLine.of_read (h : EndsLine bs) (hread : read bs = .ok (f, rest)) : EndsLine rest := by
  rcases (eq_append_of_read hread).2 with rfl | ⟨vs, rfl⟩
  · simp [EndsLine]
  · rw [List.append_cons] at h
    exact h.of_append

/-- No field stands where none did before something was appended. -/
theorem read_append_of_error {m : Mismatch} (h : EndsLine bs) (hne : bs ≠ [])
    (hread : read bs = .error m) (tail : Octets) : ∃ m', read (bs ++ tail) = .error m' := by
  obtain ⟨us, rfl⟩ := h.exists_concat hne
  rw [List.append_assoc, List.singleton_append]
  cases hwhole : read (us ++ 0x0a :: tail) with
  | error m' => exact ⟨m', rfl⟩
  | ok r =>
    obtain ⟨name, vs, hus, hname, hn, -⟩ := read_append_lineFeed.1 hwhole
    have hok : read (us ++ [0x0a]) = .ok (⟨r.1.name, (readValue (vs.dropWhile isFold ++ [0x0a])).1⟩,
        (readValue (vs.dropWhile isFold ++ [0x0a])).2) :=
      read_append_lineFeed.2 ⟨name, vs, hus, hname, hn, rfl⟩
    rw [hread] at hok
    cases hok

/-- A field stands where one did, and is the same unless it ended at the end and goes on now. -/
theorem read_append_of_ok (h : EndsLine bs) (hread : read bs = .ok (f, rest))
    (hnext : rest ≠ [] ∨ tail.head?.any isFold = false) :
    read (bs ++ tail) = .ok (f, rest ++ tail) := by
  obtain ⟨us, rfl⟩ := h.exists_concat (eq_append_of_read hread).1
  obtain ⟨name, vs, hus, hname, hn, hvalue⟩ := read_append_lineFeed.1 hread
  obtain ⟨hvalue, hrest⟩ := Prod.mk.inj hvalue
  rw [List.append_assoc, List.singleton_append, read_append_lineFeed]
  refine ⟨name, vs, hus, hname, hn, ?_⟩
  rw [← hrest] at hnext
  rw [readValue, splitValue_append_lineFeed hnext, ← hvalue, ← hrest]

/-- A header block that stops before its end stops there whatever follows. -/
theorem readAll_append_of_stop (h : EndsLine bs) (hstop : (readAll bs).2 ≠ []) (tail : Octets) :
    readAll (bs ++ tail) = ((readAll bs).1, (readAll bs).2 ++ tail) := by
  induction bs using readAll_induction with
  | stop bs m hread =>
    rw [readAll_of_error hread] at hstop ⊢
    obtain ⟨m', hread'⟩ := read_append_of_error h hstop hread tail
    rw [readAll_of_error hread']
  | next bs f rest hread ih =>
    rw [readAll_of_ok hread] at hstop ⊢
    have hrest : rest ≠ [] := by
      rintro rfl
      exact hstop (congrArg Prod.snd readAll_nil)
    rw [readAll_of_ok (read_append_of_ok h hread (Or.inl hrest)), ih (h.of_read hread) hstop]

/-- The fields of a header block come before those of what follows. -/
theorem readAll_append_of_next (h : EndsLine bs) (hall : (readAll bs).2 = [])
    (htail : tail.head?.any isFold = false) :
    readAll (bs ++ tail) = ((readAll bs).1 ++ (readAll tail).1, (readAll tail).2) := by
  induction bs using readAll_induction with
  | stop bs m hread =>
    rw [readAll_of_error hread] at hall ⊢
    obtain rfl : bs = [] := hall
    rfl
  | next bs f rest hread ih =>
    rw [readAll_of_ok hread] at hall ⊢
    rw [readAll_of_ok (read_append_of_ok h hread (Or.inr htail)), ih (h.of_read hread) hall]
    rfl

/-- The last field of a header block goes on if a fold follows; it has more line breaks then. -/
theorem exists_readAll_append_of_fold (h : EndsLine bs) (hne : bs ≠ []) (hall : (readAll bs).2 = [])
    (htail : tail.head?.any isFold = true) :
    ∃ fs f f', readAll bs = (fs ++ [f], []) ∧ f'.name = f.name ∧
      f.value.count 0x0a < f'.value.count 0x0a ∧
      readAll (bs ++ tail) = (fs ++ f' :: (readAll (splitValue tail).2).1,
        (readAll (splitValue tail).2).2) := by
  induction bs using readAll_induction with
  | stop bs m hread =>
    rw [readAll_of_error hread] at hall
    exact absurd hall hne
  | next bs f rest hread ih =>
    rw [readAll_of_ok hread] at hall ⊢
    by_cases hrest : rest = []
    · -- this is the last field
      subst hrest
      obtain ⟨us, rfl⟩ := h.exists_concat hne
      obtain ⟨name, vs, hus, hname, hn, hvalue⟩ := read_append_lineFeed.1 hread
      obtain ⟨hvalue, hend⟩ := Prod.mk.inj hvalue
      have hgoes := splitValue_append_fold hend htail
      obtain ⟨value', hvalue'⟩ : ∃ value', value' = Run.dropEnding [0x0d]
          ((splitValue (vs.dropWhile isFold ++ [0x0a])).1 ++ 0x0a :: (splitValue tail).1) :=
        ⟨_, rfl⟩
      have hread' : read (us ++ 0x0a :: tail) = .ok (⟨f.name, value'⟩, (splitValue tail).2) :=
        read_append_lineFeed.2 ⟨name, vs, hus, hname, hn, by rw [readValue, hgoes, hvalue']⟩
      refine ⟨[], f, ⟨f.name, value'⟩, ?_, rfl, ?_, ?_⟩
      · rw [readAll_nil]
        rfl
      · rw [← hvalue, hvalue', count_dropEnding, count_dropEnding, List.count_append,
          List.count_cons_self]
        omega
      · rw [List.append_assoc, List.singleton_append, readAll_of_ok hread']
        rfl
    · obtain ⟨fs, f', f'', hall', hname, hcount, hwhole⟩ := ih (h.of_read hread) hrest hall
      refine ⟨f :: fs, f', f'', ?_, hname, hcount, ?_⟩
      · rw [hall']
        rfl
      · rw [readAll_of_ok (read_append_of_ok h hread (Or.inl hrest)), hwhole]
        rfl

end InternetMail.Field
