import InternetMail.Proofs.Header.Block
import InternetMail.Proofs.Message.Wire

/-!
# Reading from a source and from octets

A source is read line by line up to a line of blanks, octets are taken apart as a whole up to an
empty line. Where the reads of a source are cut does not matter, but a line of blanks does: the two
readings agree exactly when the first line of blanks is an empty one, or the octets end without one,
or reading line by line refuses the mail as well (`agree_ofSource_ofOctets_iff`). In between,
whatever is read from octets is read from a source, too, but not as the same message: the line of
blanks goes on with the last field if it begins with a space or a TAB, and is malformed otherwise.

Both readings are first brought to the same form: the fields of the octets, read as far as they go,
and what is left. For a source these are the octets in front of the first line of blanks, and
nothing may be left; for octets as a whole an empty line may be, or nothing (`ofSource_eq_ok_iff`,
`ofOctets_eq_ok_iff`). Then it is a matter of what the fields before a line of blanks are in the
presence of that line.
-/

namespace InternetMail

namespace Field

open Octets

/-- No field begins with a blank. -/
theorem exists_read_eq_error {b : UInt8} (hb : Octet.isBlank b = true) (bs : Octets) :
    ∃ m, read (b :: bs) = .error m := by
  cases hread : read (b :: bs) with
  | error m => exact ⟨m, rfl⟩
  | ok r =>
    obtain ⟨n, bs', hname, -⟩ := read_eq_ok_iff.1 hread
    obtain ⟨name, heq, hname, hn⟩ := readName_eq_ok_iff.1 hname
    cases name with
    | nil => cases hn
    | cons c name =>
      obtain ⟨rfl, -⟩ := List.cons.inj heq
      have hno : ∀ b, Octet.isBlank b = true →
          (b != 0x3a && !Octet.isControlOrSpace b) = false := Octet.forall_of_digits _ (by decide)
      exact absurd (hname b List.mem_cons_self) (by simp [hno b hb])

/-- No field begins with a blank. -/
theorem readAll_of_isBlank {b : UInt8} (hb : Octet.isBlank b = true) (bs : Octets) :
    readAll (b :: bs) = ([], b :: bs) := by
  obtain ⟨m, hm⟩ := exists_read_eq_error hb bs
  exact readAll_of_error hm

/-- Where reading a block stops before its end, a line with content stands. -/
theorem hasContent_of_mem_readAll_block {bs line : Octets}
    (h : line ∈ lines (readAll bs.block).2) : line.hasContent = true := by
  obtain ⟨ls, hls⟩ := exists_lines_readAll bs.block
  exact hasContent_of_mem_lines_block (hls ▸ List.mem_append_right ls h)

end Field

namespace Message

open Octets

variable {s : Settings} {reads : List Octets} {m : Message}

/-- Two readings agree if both refuse what they read, or read equal messages. -/
def Agree : Outcome Message → Outcome Message → Prop
  | .ok m, .ok m' => (m == m') = true
  | .error _, .error _ => True
  | _, _ => False

/-- There is no line, or nothing in it but the line break. -/
def IsEmptyLine (line : Octets) : Prop :=
  line ∈ [[], [0x0a], [0x0d, 0x0a]]

instance (line : Octets) : Decidable (IsEmptyLine line) :=
  inferInstanceAs (Decidable (line ∈ [[], [0x0a], [0x0d, 0x0a]]))

/-! ### What either reading does -/

/-- Blanks alone are not left of a block. -/
theorem isEmpty_trim_readAll_block (bs : Octets) :
    (Octets.trim (Field.readAll (block bs)).2).isEmpty = (Field.readAll (block bs)).2.isEmpty := by
  have hcontent := @Field.hasContent_of_mem_readAll_block bs
  rw [isEmpty_trim]
  generalize (Field.readAll (block bs)).2 = rest at hcontent
  cases rest with
  | nil => rfl
  | cons b rest =>
    rw [List.isEmpty_cons, Bool.not_eq_false']
    cases hlines : lines (b :: rest) with
    | nil =>
      have := flatten_lines (b :: rest)
      rw [hlines] at this
      cases this
    | cons line ls =>
      have hline := hcontent (hlines ▸ List.mem_cons_self)
      rw [← flatten_lines (b :: rest), hlines, List.flatten_cons]
      rw [hasContent, Bool.not_eq_true'] at hline ⊢
      rw [List.all_append, hline, Bool.false_and]

/-- **What a source is read as**, by its octets alone: the reads may be cut anywhere. -/
theorem ofSource_eq_ok_iff : ofSource s ⟨reads, none⟩ = .ok m ↔
    (Field.readAll (block reads.flatten)).2 = [] ∧
      ∃ headers, HeaderMap.ofFields (Field.readAll (block reads.flatten)).1 = .ok headers ∧
        m = ⟨headers, afterBlock reads.flatten, s⟩ := by
  have hgiven : Source.HasBlock ⟨reads, none⟩ := Or.inl rfl
  obtain ⟨rest, hread, hfailure, hrest⟩ := HeaderMap.exists_readBlock hgiven
  have hload : HeaderMap.empty.load ⟨reads, none⟩ =
      ((HeaderMap.empty.addBlock (block reads.flatten)).1,
        (HeaderMap.empty.addBlock (block reads.flatten)).2, rest) := by
    rw [HeaderMap.load, hread]
    rfl
  have hbody : rest.drain.1 = .ok (afterBlock reads.flatten) := by
    rw [Source.drain, hfailure]
    exact congrArg Except.ok hrest
  rw [ofSource, hload]
  simp only [HeaderMap.addBlock, isEmpty_trim_readAll_block, HeaderMap.ofFields]
  generalize Field.readAll (block reads.flatten) = r
  obtain ⟨fields, rest⟩ := r
  cases rest with
  | cons b rest => simp
  | nil =>
    simp only [List.isEmpty_nil, if_true, true_and]
    cases HeaderMap.empty.addAll fields with
    | mk outcome headers =>
      cases outcome with
      | error e => simp
      | ok u => simp [hbody, Except.map, eq_comm]

/-- A mail is its fields and what comes after the empty line that follows them. -/
theorem split_eq_ok_iff {bs body : Octets} {fields : List Field} :
    Mail.split bs = .ok (fields, body) ↔ fields = (Field.readAll bs).1 ∧
      (Mail.afterEmptyLine? (Field.readAll bs).2 = some body ∨
        (Field.readAll bs).2 = [] ∧ body = []) := by
  rw [Mail.split]
  generalize Field.readAll bs = r
  obtain ⟨fields', rest⟩ := r
  cases hbody : Mail.afterEmptyLine? rest with
  | some body' =>
    have hne : rest ≠ [] := by
      rintro rfl
      cases hbody
    simp [hne, hbody, eq_comm]
  | none => cases rest <;> simp [hbody, eq_comm]

/-- **What octets are read as**: fields, and an empty line with the body behind it or nothing. -/
theorem ofOctets_eq_ok_iff {bs : Octets} : ofOctets s bs = .ok m ↔
    ∃ headers body, HeaderMap.ofFields (Field.readAll bs).1 = .ok headers ∧
      (Mail.afterEmptyLine? (Field.readAll bs).2 = some body ∨
        (Field.readAll bs).2 = [] ∧ body = []) ∧
      m = ⟨headers, body, s⟩ := by
  rw [ofOctets, bind_eq_ok_iff]
  constructor
  · rintro ⟨⟨fields, body⟩, h, hrest⟩
    obtain ⟨headers, hfields, hm⟩ := bind_eq_ok_iff.1 hrest
    obtain ⟨rfl, hbody⟩ := split_eq_ok_iff.1 h
    cases hm
    exact ⟨headers, body, hfields, hbody, rfl⟩
  · rintro ⟨headers, body, hfields, hbody, rfl⟩
    exact ⟨(_, body), split_eq_ok_iff.2 ⟨rfl, hbody⟩, bind_eq_ok_iff.2 ⟨headers, hfields, rfl⟩⟩

/-! ### The first line of blanks -/

variable {bs : Octets}

/-- The octets in front of a line of blanks end with a line feed. -/
theorem endsLine_block (hne : blankLine bs ≠ []) : Field.EndsLine (block bs) := by
  rcases blankLine_cases bs with ⟨hnil, -⟩ | ⟨-, -, hblock, -⟩
  · exact absurd hnil hne
  · rcases hblock with hblock | ⟨us, hblock⟩
    · simp [hblock, Field.EndsLine]
    · simp [hblock, Field.EndsLine]

/-- Where reading stops before the end of the block, no empty line stands. -/
theorem afterEmptyLine?_of_stop (hstop : (Field.readAll (block bs)).2 ≠ []) :
    (Field.readAll bs).2 ≠ [] ∧ Mail.afterEmptyLine? (Field.readAll bs).2 = none := by
  obtain ⟨tail, hrest⟩ : ∃ tail, (Field.readAll bs).2 = (Field.readAll (block bs)).2 ++ tail := by
    have hbs := block_append_blankLine_append_afterBlock bs
    rcases blankLine_cases bs with ⟨hnil, hafter⟩ | ⟨hne, -⟩
    · rw [hnil, hafter, List.append_nil, List.append_nil] at hbs
      exact ⟨[], by rw [hbs, List.append_nil]⟩
    · have hwhole := Field.readAll_append_of_stop (endsLine_block hne) hstop
        (blankLine bs ++ afterBlock bs)
      rw [hbs] at hwhole
      exact ⟨_, congrArg Prod.snd hwhole⟩
  have hcontent := @Field.hasContent_of_mem_readAll_block bs
  rw [hrest]
  generalize (Field.readAll (block bs)).2 = rest at hstop hcontent
  obtain ⟨b, rest, rfl⟩ := List.exists_cons_of_ne_nil hstop
  refine ⟨by simp, ?_⟩
  -- the line that begins here would be an empty one
  have hlf : b ≠ 0x0a := by
    rintro rfl
    cases @hcontent [0x0a] (by simp [lines])
  by_cases hcr : b = 0x0d
  · subst hcr
    cases rest with
    | nil => cases @hcontent [0x0d] (by simp [lines])
    | cons c rest =>
      have hc : c ≠ 0x0a := by
        rintro rfl
        cases @hcontent [0x0d, 0x0a] (by simp [lines])
      simp [Mail.afterEmptyLine?, hc]
  · simp [Mail.afterEmptyLine?, hlf, hcr]

/-- An empty line ends the fields of the octets where it ends the block. -/
theorem readAll_of_emptyLine (hall : (Field.readAll (block bs)).2 = [])
    (hempty : IsEmptyLine (blankLine bs)) :
    (Field.readAll bs).1 = (Field.readAll (block bs)).1 ∧
      ∀ body, Mail.afterEmptyLine? (Field.readAll bs).2 = some body ∨
        (Field.readAll bs).2 = [] ∧ body = [] ↔ body = afterBlock bs := by
  have hbs := block_append_blankLine_append_afterBlock bs
  rcases blankLine_cases bs with ⟨hnil, hafter⟩ | ⟨hne, -⟩
  · rw [hnil, hafter, List.append_nil, List.append_nil] at hbs
    rw [hbs] at hall
    simp [hbs, hall, hafter, Mail.afterEmptyLine?]
  -- an empty line begins with CR or LF, which is a blank but no fold
  · obtain ⟨b, line, hline, hb⟩ : ∃ b line, blankLine bs = b :: line ∧ (b = 0x0a ∨ b = 0x0d) := by
      rcases List.mem_cons.1 hempty with h | h
      · exact absurd h hne
      · rcases List.mem_cons.1 h with h | h
        · exact ⟨_, _, h, Or.inl rfl⟩
        · exact ⟨_, _, List.mem_singleton.1 h, Or.inr rfl⟩
    have hblank : Octet.isBlank b = true := by rcases hb with rfl | rfl <;> rfl
    have hfold : (blankLine bs ++ afterBlock bs).head?.any Field.isFold = false := by
      rw [hline]
      rcases hb with rfl | rfl <;> rfl
    have hwhole := Field.readAll_append_of_next (endsLine_block hne) hall hfold
    rw [hbs] at hwhole
    have htail : Field.readAll (blankLine bs ++ afterBlock bs) =
        ([], blankLine bs ++ afterBlock bs) := by
      rw [hline]
      exact Field.readAll_of_isBlank hblank _
    rw [hwhole, htail]
    refine ⟨List.append_nil _, fun body ↦ ?_⟩
    simp only [IsEmptyLine, List.mem_cons, List.not_mem_nil, or_false] at hempty
    rcases hempty with h | h | h
    · exact absurd h hne
    · rw [h]
      simpa [Mail.afterEmptyLine?] using eq_comm
    · rw [h]
      simpa [Mail.afterEmptyLine?] using eq_comm

/-- Where the first line of blanks is an empty one, both readings give the same. -/
theorem ofSource_eq_ok_iff_of_emptyLine (hempty : IsEmptyLine (blankLine reads.flatten)) :
    ofSource s ⟨reads, none⟩ = .ok m ↔ ofOctets s reads.flatten = .ok m := by
  rw [ofSource_eq_ok_iff, ofOctets_eq_ok_iff]
  by_cases hall : (Field.readAll (block reads.flatten)).2 = []
  · obtain ⟨hfields, hbody⟩ := readAll_of_emptyLine hall hempty
    rw [hfields]
    constructor
    · rintro ⟨-, headers, hheaders, hm⟩
      exact ⟨headers, _, hheaders, (hbody _).2 rfl, hm⟩
    · rintro ⟨headers, body, hheaders, hend, hm⟩
      obtain rfl := (hbody body).1 hend
      exact ⟨hall, headers, hheaders, hm⟩
  · obtain ⟨hne, hnone⟩ := afterEmptyLine?_of_stop hall
    simp [hall, hne, hnone]

/-- What follows a value that goes on after the block is no longer than what follows the first line
of blanks. -/
theorem length_splitValue_le_afterBlock (bs : Octets) :
    (Field.splitValue (blankLine bs ++ afterBlock bs)).2.length ≤ (afterBlock bs).length := by
  rcases blankLine_cases bs with ⟨hnil, hafter⟩ | ⟨-, -, -, hline⟩
  · rw [hnil, hafter]
    exact Nat.le_refl 0
  · rcases hline with ⟨us, hus, hline⟩ | ⟨hline, hafter⟩
    · rw [hline, List.append_assoc, Field.splitValue_append_of_forall hus, List.singleton_append,
        Field.splitValue]
      split
      · exact Nat.le_refl _
      · exact Field.length_splitValue_le _
    · rw [Field.splitValue_append_of_forall hline, hafter]
      exact Nat.le_refl 0

/-- An empty line is LF or CR LF. -/
theorem afterEmptyLine?_eq_some_iff {body : Octets} : Mail.afterEmptyLine? bs = some body ↔
    bs = 0x0a :: body ∨ bs = 0x0d :: 0x0a :: body := by
  unfold Mail.afterEmptyLine?
  split <;> simp_all [eq_comm]

/-- Taking an empty line off leaves less. -/
theorem length_lt_of_afterEmptyLine? {body : Octets} (h : Mail.afterEmptyLine? bs = some body) :
    body.length < bs.length := by
  rcases afterEmptyLine?_eq_some_iff.1 h with rfl | rfl
  · exact Nat.lt_succ_self _
  · exact Nat.lt_succ_of_lt (Nat.lt_succ_self _)

/-- An empty line that the octets after the block begin with is the first line of blanks. -/
theorem isEmptyLine_of_afterEmptyLine? {body : Octets}
    (h : Mail.afterEmptyLine? (blankLine bs ++ afterBlock bs) = some body) :
    IsEmptyLine (blankLine bs) := by
  rcases blankLine_cases bs with ⟨hnil, -⟩ | ⟨-, -, -, hline⟩
  · simp [IsEmptyLine, hnil]
  rcases hline with ⟨us, hus, hline⟩ | ⟨hline, hafter⟩
  · rw [hline] at h ⊢
    rcases afterEmptyLine?_eq_some_iff.1 h with h | h
    · cases us with
      | nil => simp [IsEmptyLine]
      | cons u us =>
        obtain ⟨rfl, -⟩ := List.cons.inj h
        cases hus 0x0a List.mem_cons_self
    · cases us with
      | nil => cases h
      | cons u us =>
        obtain ⟨rfl, htail⟩ := List.cons.inj h
        cases us with
        | nil => simp [IsEmptyLine]
        | cons u' us =>
          obtain ⟨rfl, -⟩ := List.cons.inj htail
          cases hus 0x0a (by simp)
  · -- without an LF in it, nothing follows the line of blanks
    rw [hafter, List.append_nil] at h
    rcases afterEmptyLine?_eq_some_iff.1 h with h | h
    · cases hline 0x0a (by simp [h])
    · cases hline 0x0a (by simp [h])

/-- Where octets are read up to an empty line or to their end, a first line of blanks that is not
empty goes on with a field before it. -/
theorem isFold_blankLine_of_not_isEmptyLine {body : Octets} (hempty : ¬IsEmptyLine (blankLine bs))
    (hend : Mail.afterEmptyLine? (Field.readAll bs).2 = some body ∨
      (Field.readAll bs).2 = [] ∧ body = []) :
    Field.EndsLine (block bs) ∧ block bs ≠ [] ∧ (Field.readAll (block bs)).2 = [] ∧
      (blankLine bs ++ afterBlock bs).head?.any Field.isFold = true := by
  have hsplit := block_append_blankLine_append_afterBlock bs
  have hne : blankLine bs ≠ [] := by
    intro hnil
    exact hempty (by simp [IsEmptyLine, hnil])
  have hall : (Field.readAll (block bs)).2 = [] := by
    by_contra hstop
    obtain ⟨hrest, hnone⟩ := afterEmptyLine?_of_stop hstop
    rcases hend with hend | ⟨hend, -⟩
    · rw [hnone] at hend
      cases hend
    · exact hrest hend
  obtain ⟨b, line, hline⟩ := List.exists_cons_of_ne_nil hne
  have htail : Field.readAll (blankLine bs ++ afterBlock bs) =
      ([], blankLine bs ++ afterBlock bs) := by
    rcases blankLine_cases bs with ⟨hnil, -⟩ | ⟨-, hblank, -⟩
    · exact absurd hnil hne
    · rw [hline]
      exact Field.readAll_of_isBlank (hblank b (hline ▸ List.mem_cons_self)) _
  -- the fields do not end at the line of blanks
  have hnext : ∀ fs, Field.readAll bs ≠ (fs, blankLine bs ++ afterBlock bs) := by
    intro fs hwhole
    rw [hwhole] at hend
    rcases hend with hend | ⟨hend, -⟩
    · exact hempty (isEmptyLine_of_afterEmptyLine? hend)
    · simp [hline] at hend
  refine ⟨endsLine_block hne, fun hnil ↦ ?_, hall, ?_⟩
  · rw [hnil, List.nil_append] at hsplit
    rw [hsplit] at htail
    exact hnext [] (by rw [htail, hsplit])
  · by_contra hno
    have hwhole := Field.readAll_append_of_next (endsLine_block hne) hall (Bool.eq_false_iff.2 hno)
    rw [hsplit, htail] at hwhole
    exact hnext _ hwhole

/-- If a value goes on after the block, the body that follows is another one than what follows the
first line of blanks, or nothing follows the value. -/
theorem afterBlock_ne_of_goesOn {body : Octets}
    (hend : Mail.afterEmptyLine? (Field.readAll
        (Field.splitValue (blankLine bs ++ afterBlock bs)).2).2 = some body ∨
      (Field.readAll (Field.splitValue (blankLine bs ++ afterBlock bs)).2).2 = [] ∧ body = []) :
    afterBlock bs ≠ body ∨ (Field.splitValue (blankLine bs ++ afterBlock bs)).2 = [] := by
  have hlast := length_splitValue_le_afterBlock bs
  by_cases hafter : afterBlock bs = []
  · have hnone : (afterBlock bs).length = 0 := congrArg List.length hafter
    exact Or.inr (List.eq_nil_of_length_eq_zero (by omega))
  · refine Or.inl ?_
    rintro rfl
    rcases hend with hend | ⟨-, hend⟩
    · have hlength := Nat.le_trans (Field.length_readAll_le _) hlast
      exact absurd (length_lt_of_afterEmptyLine? hend) (Nat.not_lt.2 hlength)
    · exact hafter hend

/-- Any other line of blanks is no empty line for the reading of octets: what is read so is read
from a source, too, as another message. -/
theorem exists_ofSource_of_ofOctets {m' : Message} (hempty : ¬IsEmptyLine (blankLine reads.flatten))
    (h : ofOctets s reads.flatten = .ok m') :
    ∃ m, ofSource s ⟨reads, none⟩ = .ok m ∧ (m == m') = false := by
  obtain ⟨headers', body, hheaders', hend, rfl⟩ := ofOctets_eq_ok_iff.1 h
  generalize hbs : reads.flatten = bs at *
  obtain ⟨hblock, hfields, hall, hfold⟩ := isFold_blankLine_of_not_isEmptyLine hempty hend
  obtain ⟨fs, f, f', hfs, hname, hcount, hwhole⟩ :=
    Field.exists_readAll_append_of_fold hblock hfields hall hfold
  rw [block_append_blankLine_append_afterBlock] at hwhole
  rw [hwhole] at hheaders' hend
  obtain ⟨headers, hheaders, hdiff⟩ := HeaderMap.exists_ofFields_of_longer hname hcount hheaders'
  refine ⟨⟨headers, afterBlock bs, s⟩, ?_, ?_⟩
  · subst hbs
    exact ofSource_eq_ok_iff.2 ⟨hall, headers, by rw [hfs]; exact hheaders, rfl⟩
  · show (headers == headers' && afterBlock bs == body && s == s) = false
    rcases afterBlock_ne_of_goesOn hend with hbody | hrest
    · rw [beq_eq_false_iff_ne.2 hbody, Bool.and_false, Bool.false_and]
    · rw [hdiff (by rw [hrest, Field.readAll_nil]), Bool.false_and, Bool.false_and]

/-- **When the two readings agree.** However a source hands out some octets, reading it agrees with
reading the octets exactly when their first line of blanks is an empty one, or they end without one,
or reading the source refuses them. -/
theorem agree_ofSource_ofOctets_iff (s : Settings) (reads : List Octets) :
    Agree (ofSource s ⟨reads, none⟩) (ofOctets s reads.flatten) ↔
      IsEmptyLine (blankLine reads.flatten) ∨ ∀ m, ofSource s ⟨reads, none⟩ ≠ .ok m := by
  have hsame := @ofSource_eq_ok_iff_of_emptyLine s reads
  have hother := @exists_ofSource_of_ofOctets s reads
  have hself : ∀ m, ofOctets s reads.flatten = .ok m → (m == m) = true := fun _ h ↦
    beq_self (wellFormed_of_ofOctets h)
  generalize ofSource s ⟨reads, none⟩ = x at *
  generalize ofOctets s reads.flatten = y at *
  by_cases hempty : IsEmptyLine (blankLine reads.flatten)
  · simp only [hempty, true_or, iff_true]
    cases y with
    | ok m =>
      rw [(hsame hempty).2 rfl]
      exact hself m rfl
    | error e =>
      cases x with
      | ok m => cases (hsame hempty).1 rfl
      | error e' => trivial
  · simp only [hempty, false_or]
    cases y with
    | ok m' =>
      obtain ⟨m, rfl, hne⟩ := hother hempty rfl
      simp [Agree, hne]
    | error e => cases x <;> simp [Agree]

/-- A line of one space ends the block of lines, but goes on with the value of the last field. -/
theorem not_agree_line_of_one_space :
    ¬Agree (ofSource .default ⟨[Octets.ofAscii "A: b\r\n \r\n\r\nc"], none⟩)
      (ofOctets .default (Octets.ofAscii "A: b\r\n \r\n\r\nc")) := by
  let bs := Octets.ofAscii "A: b\r\n \r\n\r\nc"
  let m : Message :=
    ⟨.set .empty ⟨[0x61], by decide⟩ "b\r\n ".toList, Octets.ofAscii "c", .default⟩
  have hwritten : m.toOctets = bs := by decide
  have hread : ofOctets .default bs = .ok m := by
    rw [← hwritten]
    exact ofOctets_toOctets_of_wellFormed (HeaderMap.wellFormed_empty.set _ _) (by decide)
  have hempty : ¬IsEmptyLine (blankLine [bs].flatten) := by decide
  obtain ⟨m', hsource, hdiff⟩ := exists_ofSource_of_ofOctets hempty hread
  rw [hsource, hread]
  exact Bool.eq_false_iff.1 hdiff

end Message

end InternetMail
