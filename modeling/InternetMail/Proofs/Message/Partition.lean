import InternetMail.Proofs.Message.Reading

/-!
# Mail as the octets of its fields, an empty line and a body

Taking a mail apart loses nothing. Each field stands in the mail as some octets that spell its name,
a colon, a run of spaces and TABs, its value and a line end (`Field.Written`), and a mail is taken
apart into some fields and a body exactly if it is the octets of those fields one after another, an
empty line and the body (`Mail.split_eq_ok_iff_written`). There is one way for a mail to stop short:
it may end with its fields, the last of them without its LF, and has no body then.

The octets that a field is read from are not told apart from others by the field alone, as case in a
name, the run after the colon and the CR of a line end are dropped. Where they stand is no choice,
though: a value takes neither a space or a TAB at its start nor a CR before its line end.

A mail can be taken apart in one way only because each of the parts says where it ends: a name at
its colon, the run of blanks at what is no blank, a value at a line end without a fold behind it.
`Field.Written` has these as conditions on its parts, and so an equivalence can be proved for one
field (`read_eq_ok_iff_written`), and then for all by induction with what follows them as the rest.
-/

namespace InternetMail

namespace Field

/-- A line end: a CR and an LF, each of which may be missing. -/
def lineEnd (cr lf : Bool) : Octets :=
  (if cr then [0x0d] else []) ++ if lf then [0x0a] else []

/-- A field together with the octets that it stands in a mail as. -/
structure Written where
  field : Field
  /-- The name as it is spelled. -/
  name : Octets
  /-- What stands between the colon and the value. -/
  folds : Octets
  /-- Whether a CR ends the line. -/
  cr : Bool
  /-- Whether an LF ends the line. -/
  lf : Bool
  in_name : ∀ b ∈ name, (b != 0x3a && !Octet.isControlOrSpace b) = true
  ofOctets?_name : HeaderName.ofOctets? name = some field.name
  isFold_folds : ∀ b ∈ folds, isFold b = true
  wireSafe_value : field.value.WireSafe
  /-- A CR at the end of the line does not belong to the value. -/
  cr_of_value : cr = false → field.value.getLast? ≠ some 0x0d

/-- The octets of the field. -/
def Written.octets (w : Written) : Octets :=
  w.name ++ 0x3a :: (w.folds ++ (w.field.value ++ lineEnd w.cr w.lf))

/-- Only the last of some fields may do without its LF, and only if nothing comes after it. -/
def Ended : List Written → Octets → Prop
  | [], _ => True
  | w :: ws, rest => (w.lf = false → ws = [] ∧ rest = []) ∧ Ended ws rest

variable {bs rest vs value : Octets} {f : Field} {w : Written} {ws : List Written}

/-! ### One field -/

/-- A value ends before the first LF that no fold follows, or with the octets. -/
theorem splitValue_eq_iff : splitValue bs = (vs, rest) ↔
    Followed (· == 0x0a) isFold vs ∧ ∃ lf, bs = vs ++ lineEnd false lf ++ rest ∧
      (lf = true → rest.head?.any isFold = false) ∧ (lf = false → rest = []) := by
  constructor
  · intro h
    have hvs : vs = (splitValue bs).1 := by rw [h]
    refine ⟨hvs ▸ followed_splitValue bs, ?_⟩
    clear hvs
    -- by induction on the octets: a line feed without a fold behind it is the end
    induction bs generalizing vs with
    | nil =>
      cases h
      exact ⟨false, rfl, by simp, fun _ ↦ rfl⟩
    | cons b bs ih =>
      rw [splitValue] at h
      split at h
      · rename_i hends
        cases h
        simp only [Bool.and_eq_true, beq_iff_eq, Bool.not_eq_true'] at hends
        exact ⟨true, by rw [hends.1]; rfl, fun _ ↦ hends.2, by simp⟩
      · cases h
        obtain ⟨lf, hbs, hlf⟩ := ih rfl
        exact ⟨lf, congrArg (b :: ·) hbs, hlf⟩
  · rintro ⟨hvs, lf, rfl, hbreak, hend⟩
    induction vs with
    | nil =>
      cases lf with
      | false => rw [hend rfl]; rfl
      | true => simp [lineEnd, splitValue, hbreak rfl]
    | cons v vs ih =>
      obtain ⟨hv, hvs⟩ := hvs
      -- a line feed in the value has its fold in the value, so it ends nothing
      have hgoes : (v == 0x0a && !(vs ++ lineEnd false lf ++ rest).head?.any isFold) = false := by
        cases hlf : v == 0x0a with
        | false => rfl
        | true =>
          have hfold := hv hlf
          cases vs with
          | nil => cases hfold
          | cons u vs => simpa using hfold
      rw [List.cons_append, List.cons_append, splitValue, hgoes, ih hvs]
      rfl

/-- A CR is dropped where there is one. -/
theorem dropEnding_cr_eq_iff : Run.dropEnding [0x0d] vs = value ↔
    ∃ cr, vs = value ++ lineEnd cr false ∧ (cr = false → value.getLast? ≠ some 0x0d) := by
  constructor
  · rintro rfl
    rcases dropEnding_eq_or vs [0x0d] with heq | heq
    · refine ⟨false, by simp [lineEnd, heq], fun _ hlast ↦ ?_⟩
      rw [heq] at hlast
      obtain ⟨us, rfl⟩ := List.getLast?_eq_some_iff.1 hlast
      rw [dropEnding_append] at heq
      simpa using congrArg List.length heq
    · exact ⟨true, heq, by simp⟩
  · rintro ⟨cr, rfl, hvalue⟩
    cases cr with
    | true => exact dropEnding_append value [0x0d]
    | false =>
      rcases dropEnding_eq_or value [0x0d] with heq | heq
      · simpa [lineEnd] using heq
      · exact absurd (by rw [heq]; simp) (hvalue rfl)

theorem head_lineEnd_append (cr lf : Bool) (hend : lf = false → rest = []) :
    (lineEnd cr lf ++ rest).head?.any isFold = false := by
  cases cr <;> cases lf <;> simp [lineEnd, isFold, hend]

theorem dropWhile_isFold_append {us : Octets} (hus : ∀ u ∈ us, isFold u = true)
    (hrest : rest.head?.any isFold = false) : (us ++ rest).dropWhile isFold = rest := by
  cases rest with
  | nil => simpa using hus
  | cons b rest => exact Run.dropWhile_append_cons rest hus hrest

/-- A field is read exactly off the octets that it is written as, before the end of the octets or
the beginning of a line that does not go on with it. -/
theorem read_eq_ok_iff_written : read bs = .ok (f, rest) ↔
    ∃ w : Written, w.field = f ∧ bs = w.octets ++ rest ∧
      (w.lf = true → rest.head?.any isFold = false) ∧ (w.lf = false → rest = []) := by
  rw [read_eq_ok_iff]
  constructor
  · rintro ⟨n, bs', hname, hvalue, hn⟩
    obtain ⟨name, rfl, hin, hread⟩ := readName_eq_ok_iff.1 hname
    have hsafe := wireSafe_readValue bs'
    rw [hvalue] at hsafe
    obtain ⟨hdrop, hrest⟩ := Prod.mk.inj hvalue
    have hends :
        splitValue (bs'.dropWhile isFold) = ((splitValue (bs'.dropWhile isFold)).1, rest) :=
      Prod.ext rfl hrest
    obtain ⟨-, lf, hsplit, hbreak, hend⟩ := splitValue_eq_iff.1 hends
    obtain ⟨cr, hvs, hcr⟩ := dropEnding_cr_eq_iff.1 hdrop
    -- the octets behind the name, put together from all their parts
    have hbs' : bs' = bs'.takeWhile isFold ++ (f.value ++ lineEnd cr lf) ++ rest := by
      rw [hvs] at hsplit
      conv_lhs => rw [← List.takeWhile_append_dropWhile (p := isFold) (l := bs'), hsplit]
      simp [lineEnd]
    refine ⟨⟨f, name, bs'.takeWhile isFold, cr, lf, hin, hn ▸ hread, fun _ hb ↦
      List.mem_takeWhile_imp hb, hsafe, hcr⟩, rfl, ?_, hbreak, hend⟩
    rw [Written.octets, List.append_assoc, List.cons_append, ← hbs']
  · rintro ⟨w, rfl, rfl, hbreak, hend⟩
    refine ⟨w.field.name, w.folds ++ (w.field.value ++ (lineEnd w.cr w.lf ++ rest)),
      readName_eq_ok_iff.2 ⟨w.name, by simp [Written.octets], w.in_name, w.ofOctets?_name⟩, ?_, rfl⟩
    -- the value begins with no fold, so the run of blanks is taken off as it was
    have hhead : (w.field.value ++ (lineEnd w.cr w.lf ++ rest)).head?.any isFold = false := by
      have hsafe := w.wireSafe_value.head
      cases hvalue : w.field.value with
      | nil => exact head_lineEnd_append w.cr w.lf hend
      | cons v vs => rwa [hvalue] at hsafe
    have hsplit : splitValue (w.field.value ++ (lineEnd w.cr w.lf ++ rest)) =
        (w.field.value ++ lineEnd w.cr false, rest) := by
      refine splitValue_eq_iff.2 ⟨w.wireSafe_value.breaks.append ?_, w.lf, ?_, hbreak, hend⟩
      · cases w.cr <;> decide
      · simp [lineEnd]
    rw [dropWhile_isFold_append w.isFold_folds hhead, readValue, hsplit]
    exact Prod.ext (dropEnding_cr_eq_iff.2 ⟨w.cr, rfl, w.cr_of_value⟩) rfl

/-! ### All fields -/

/-- A field does not go on with the one before it. -/
theorem head_octets_append (w : Written) (rest : Octets) :
    (w.octets ++ rest).head?.any isFold = false := by
  have hspelled := w.ofOctets?_name
  have hno : ∀ b, (b != 0x3a && !Octet.isControlOrSpace b) = true → isFold b = false :=
    Octet.forall_of_digits _ (by decide)
  cases hname : w.name with
  | nil => rw [hname] at hspelled; cases hspelled
  | cons b name =>
    have hb := w.in_name b (by simp [hname])
    simp [Written.octets, hname, hno b hb]

/-- What comes after some fields matters only where there is nothing. -/
theorem Ended.of_imp {rest' : Octets} (h : Ended ws rest) (hnil : rest = [] → rest' = []) :
    Ended ws rest' := by
  induction ws with
  | nil => trivial
  | cons w ws ih => exact ⟨fun hlf ↦ (h.1 hlf).imp id hnil, ih h.2⟩

theorem exists_written_readAll (bs : Octets) :
    ∃ ws : List Written, ws.map (·.field) = (readAll bs).1 ∧
      bs = ws.flatMap (·.octets) ++ (readAll bs).2 ∧ Ended ws (readAll bs).2 := by
  induction bs using readAll_induction with
  | stop bs m hread =>
    rw [readAll_of_error hread]
    exact ⟨[], rfl, rfl, trivial⟩
  | next bs f rest hread ih =>
    obtain ⟨ws, hfields, hrest, hended⟩ := ih
    obtain ⟨w, rfl, rfl, -, hend⟩ := read_eq_ok_iff_written.1 hread
    rw [readAll_of_ok hread]
    refine ⟨w :: ws, by rw [List.map_cons, hfields], ?_, fun hlf ↦ ?_, hended⟩
    · rw [List.flatMap_cons, List.append_assoc, ← hrest]
    · -- nothing is left to read after a field without its LF
      rw [hend hlf, readAll_nil] at hfields ⊢
      exact ⟨by simpa using hfields, rfl⟩

theorem readAll_flatMap_octets {m : Mismatch} (hstop : read rest = .error m)
    (hhead : rest.head?.any isFold = false) (hended : Ended ws rest) :
    readAll (ws.flatMap (·.octets) ++ rest) = (ws.map (·.field), rest) := by
  induction ws with
  | nil => exact readAll_of_error hstop
  | cons w ws ih =>
    obtain ⟨hw, hws⟩ := hended
    have hread : read (w.octets ++ (ws.flatMap (·.octets) ++ rest)) =
        .ok (w.field, ws.flatMap (·.octets) ++ rest) := by
      refine read_eq_ok_iff_written.2 ⟨w, rfl, rfl, fun _ ↦ ?_, fun hlf ↦ ?_⟩
      · cases ws with
        | nil => exact hhead
        | cons w' ws =>
          rw [List.flatMap_cons, List.append_assoc]
          exact head_octets_append w' _
      · obtain ⟨rfl, rfl⟩ := hw hlf
        rfl
    rw [List.flatMap_cons, List.append_assoc, readAll_of_ok hread, ih hws]
    rfl

/-- Some octets are fields and nothing else just if they are what these fields are written as, one
after another. -/
theorem readAll_eq_iff_written {fs : List Field} : readAll bs = (fs, []) ↔
    ∃ ws : List Written, ws.map (·.field) = fs ∧ bs = ws.flatMap (·.octets) ∧ Ended ws [] := by
  constructor
  · intro h
    obtain ⟨ws, hfields, hbs, hended⟩ := exists_written_readAll bs
    rw [h] at hfields hbs hended
    exact ⟨ws, hfields, by simpa using hbs, hended⟩
  · rintro ⟨ws, rfl, rfl, hended⟩
    have hread := readAll_flatMap_octets (m := ⟨[], .field⟩) rfl rfl hended
    rwa [List.append_nil] at hread

end Field

/-- A mail is taken apart into some fields and a body exactly if it consists of octets that these
fields are written as, an empty line and the body; without an empty line the body is empty. -/
theorem Mail.split_eq_ok_iff_written {bs body : Octets} {fs : List Field} :
    Mail.split bs = .ok (fs, body) ↔ ∃ (ws : List Field.Written) (emptyLine : Octets),
      ws.map (·.field) = fs ∧ bs = ws.flatMap (·.octets) ++ emptyLine ++ body ∧
      Field.Ended ws emptyLine ∧
      (emptyLine = [0x0a] ∨ emptyLine = [0x0d, 0x0a] ∨ emptyLine = [] ∧ body = []) := by
  rw [Message.split_eq_ok_iff]
  constructor
  · rintro ⟨rfl, hbody⟩
    obtain ⟨ws, hfields, hbs, hended⟩ := Field.exists_written_readAll bs
    rw [Message.afterEmptyLine?_eq_some_iff] at hbody
    obtain ⟨emptyLine, hrest, hline⟩ : ∃ emptyLine, (Field.readAll bs).2 = emptyLine ++ body ∧
        (emptyLine = [0x0a] ∨ emptyLine = [0x0d, 0x0a] ∨ emptyLine = [] ∧ body = []) := by
      rcases hbody with (hlf | hcrlf) | ⟨hnil, rfl⟩
      · exact ⟨[0x0a], hlf, Or.inl rfl⟩
      · exact ⟨[0x0d, 0x0a], hcrlf, Or.inr (Or.inl rfl)⟩
      · exact ⟨[], hnil, Or.inr (Or.inr ⟨rfl, rfl⟩)⟩
    refine ⟨ws, emptyLine, hfields, ?_, hended.of_imp fun hnil ↦ ?_, hline⟩
    · rw [List.append_assoc, ← hrest]
      exact hbs
    · exact (List.append_eq_nil_iff.1 (hrest ▸ hnil)).1
  · rintro ⟨ws, emptyLine, rfl, rfl, hended, hline⟩
    have hread : Field.readAll (ws.flatMap (·.octets) ++ emptyLine ++ body) =
        (ws.map (·.field), emptyLine ++ body) := by
      have hended : Field.Ended ws (emptyLine ++ body) := hended.of_imp fun hnil ↦ by
        simpa [hnil] using hline
      rw [List.append_assoc]
      rcases hline with rfl | rfl | ⟨rfl, rfl⟩
      · exact Field.readAll_flatMap_octets (m := ⟨0x0a :: body, .fieldName⟩) rfl rfl hended
      · exact Field.readAll_flatMap_octets (m := ⟨0x0d :: 0x0a :: body, .fieldName⟩) rfl rfl hended
      · exact Field.readAll_flatMap_octets (m := ⟨[], .field⟩) rfl rfl hended
    rw [hread, Message.afterEmptyLine?_eq_some_iff]
    refine ⟨rfl, ?_⟩
    rcases hline with rfl | rfl | ⟨rfl, rfl⟩
    · exact Or.inl (Or.inl rfl)
    · exact Or.inl (Or.inr rfl)
    · exact Or.inr ⟨rfl, rfl⟩

end InternetMail
