import InternetMail.Proofs.Entries
import InternetMail.Proofs.Header.Built
import InternetMail.Proofs.Header.Folding
import InternetMail.Proofs.Header.Name

/-!
# Header maps on the wire

The fields of a map are read as they were written (`readAll_render`), if their values survive the
wire, and adding them one after another to an empty map gives the map again
(`HeaderMap.ofFields_fields`), if operations built it. The values of a map that was read from the
wire survive it (`HeaderMap.wireSafe_ofFields`).

A field is read off the front of the text that it is written at, and needs to know what follows: the
end of its value is a line feed behind which no fold stands, and the next field begins with a name,
the body with an empty line. So each lemma on reading has a rest, and the fields are read by
induction with the fields behind as that rest. Adding them to a map is one more induction, over its
names, and for each name over its values.
-/

namespace InternetMail

/-- All values of the map survive the wire. -/
def HeaderMap.WireSafe (m : HeaderMap) : Prop :=
  ∀ f ∈ m.fields, f.2.WireSafe

instance (m : HeaderMap) : Decidable m.WireSafe :=
  List.decidableBAll _ m.fields

/-- The field that a name and a value are on the wire. -/
def Field.ofEntry (f : HeaderName × Text) : Field :=
  ⟨f.1, Utf8.encode f.2⟩

/-! ### Reading what was written -/

/-- An octet of a name does not end it, is no fold, and does not begin an empty line. -/
theorem isNameOctet_in_name : ∀ b, isNameOctet b = true →
    (b != 0x3a && !Octet.isControlOrSpace b) = true ∧ Field.isFold b = false ∧
      b ≠ 0x0a ∧ b ≠ 0x0d :=
  Octet.forall_of_digits _ (by decide)

/-- A name is read up to its colon. -/
theorem readName_append {n : HeaderName} {name rest : Octets} (hne : name ≠ [])
    (hname : ∀ b ∈ name, isNameOctet b = true) (hn : HeaderName.ofOctets? name = some n) :
    Field.readName (name ++ 0x3a :: rest) = .ok (n, rest) := by
  have htake : (name ++ 0x3a :: rest).takeWhile (fun b ↦ b != 0x3a && !Octet.isControlOrSpace b) =
      name := by
    apply Run.takeWhile_append_cons rest (fun b hb ↦ (isNameOctet_in_name b (hname b hb)).1)
    decide
  obtain ⟨b, bs, rfl⟩ := List.exists_cons_of_ne_nil hne
  obtain ⟨-, -, hlf, hcr⟩ := isNameOctet_in_name b (hname b List.mem_cons_self)
  have hbreak : ([0x0a].isPrefixOf (b :: bs ++ 0x3a :: rest) ||
      [0x0d, 0x0a].isPrefixOf (b :: bs ++ 0x3a :: rest)) = false := by
    simp [List.isPrefixOf, hlf.symm, hcr.symm]
  have hempty : (b :: bs ++ 0x3a :: rest).isEmpty = false := rfl
  simp only [Field.readName, htake, hempty, hbreak, List.drop_left, hn, bne_self_eq_false,
    Bool.false_eq_true, if_false]

/-- A field is a name and the value that is read after it. -/
theorem read_eq_ok_iff {bs rest : Octets} {f : Field} :
    Field.read bs = .ok (f, rest) ↔ ∃ n bs', Field.readName bs = .ok (n, bs') ∧
      Field.readValue (bs'.dropWhile Field.isFold) = (f.value, rest) ∧ f.name = n := by
  rw [Field.read, bind_eq_ok_iff]
  constructor
  · rintro ⟨⟨n, bs'⟩, hname, h⟩
    cases h
    exact ⟨n, bs', hname, rfl, rfl⟩
  · rintro ⟨n, bs', hname, hvalue, rfl⟩
    refine ⟨(f.name, bs'), hname, ?_⟩
    simp only [hvalue]
    rfl

/-- A field is written as its name, a colon, a space, its value and a line break. -/
theorem exists_encode_renderField (f : HeaderName × Text) :
    ∃ name : Octets, Utf8.encode (HeaderMap.renderField f) =
        name ++ 0x3a :: 0x20 :: (Utf8.encode f.2 ++ [0x0d, 0x0a]) ∧
      name ≠ [] ∧ (∀ b ∈ name, isNameOctet b = true) ∧ HeaderName.ofOctets? name = some f.1 := by
  obtain ⟨name, hname, hne, hoctets, hread⟩ := exists_encode_display f.1
  refine ⟨name, ?_, hne, hoctets, hread⟩
  have hcolon : Utf8.encode [':', ' '] = [0x3a, 0x20] := by decide
  have hbreak : Utf8.encode ['\r', '\n'] = [0x0d, 0x0a] := by decide
  rw [HeaderMap.renderField, Utf8.encode_append, Utf8.encode_append, Utf8.encode_append, hname,
    hcolon, hbreak]
  simp only [List.append_assoc, List.cons_append, List.nil_append]

/-- A field is read as it was written, before anything that does not go on with it. -/
theorem read_renderField {f : HeaderName × Text} {rest : Octets} (hf : f.2.WireSafe)
    (hrest : rest.head?.any Field.isFold = false) :
    Field.read (Utf8.encode (HeaderMap.renderField f) ++ rest) = .ok (Field.ofEntry f, rest) := by
  obtain ⟨name, hwritten, hne, hoctets, hread⟩ := exists_encode_renderField f
  rw [hwritten, List.append_assoc, List.cons_append, read_eq_ok_iff]
  refine ⟨f.1, _, readName_append hne hoctets hread, ?_, rfl⟩
  rw [List.cons_append, List.append_assoc]
  exact readValue_append hf.encode hrest

/-- Neither a field nor the empty line after the last one goes on with a field before it. -/
theorem any_head_encode_render (fs : List (HeaderName × Text)) (body : Octets) :
    (Utf8.encode (fs.flatMap HeaderMap.renderField) ++ 0x0d :: 0x0a :: body).head?.any
      Field.isFold = false := by
  cases fs with
  | nil => rfl
  | cons f fs =>
    obtain ⟨name, hwritten, hne, hoctets, -⟩ := exists_encode_renderField f
    obtain ⟨b, bs, rfl⟩ := List.exists_cons_of_ne_nil hne
    rw [List.flatMap_cons, Utf8.encode_append, hwritten]
    exact (isNameOctet_in_name b (hoctets b List.mem_cons_self)).2.1

/-- Fields are read as they were written, up to the empty line after them. -/
theorem readAll_flatMap_renderField {fs : List (HeaderName × Text)} (hfs : ∀ f ∈ fs, f.2.WireSafe)
    (body : Octets) :
    Field.readAll (Utf8.encode (fs.flatMap HeaderMap.renderField) ++ 0x0d :: 0x0a :: body) =
      (fs.map Field.ofEntry, 0x0d :: 0x0a :: body) := by
  rw [Field.readAll]
  induction fs with
  | nil =>
    have hstop : Field.read (0x0d :: 0x0a :: body) =
        .error ⟨0x0d :: 0x0a :: body, .fieldName⟩ := rfl
    show Reader.many Field.read (0x0d :: 0x0a :: body) = _
    rw [Reader.many, hstop]
    rfl
  | cons f fs ih =>
    rw [List.forall_mem_cons] at hfs
    have hread := read_renderField hfs.1 (any_head_encode_render fs body)
    -- a field has its colon at least, so reading it leaves less to read
    have hshorter : 0 < (Utf8.encode (HeaderMap.renderField f)).length := by
      obtain ⟨name, hwritten, -⟩ := exists_encode_renderField f
      rw [hwritten, List.length_append]
      exact Nat.add_pos_right _ (Nat.succ_pos _)
    rw [List.flatMap_cons, Utf8.encode_append, List.append_assoc, Reader.many, hread]
    simp only [List.length_append]
    rw [if_pos (by omega), ih hfs.2]
    rfl

/-- **A map is read as the fields that it has**, up to the empty line behind them. -/
theorem readAll_render {m : HeaderMap} (hm : m.WireSafe) (body : Octets) :
    Field.readAll (Utf8.encode m.render ++ 0x0d :: 0x0a :: body) =
      (m.fields.map Field.ofEntry, 0x0d :: 0x0a :: body) :=
  readAll_flatMap_renderField hm body

/-! ### Adding what was read -/

namespace HeaderMap

/-- Values of one name are added after those it has, if it may have them. -/
theorem addAll_values {es : Entries HeaderName (List Text)} {n : HeaderName} (h : n ∉ es.keys)
    (us : List Text) {vs : List Text} (hvs : n.isRepeatable = false → vs = []) (fs : List Field) :
    addAll ⟨es ++ [(n, us)]⟩ (vs.map (fun v ↦ Field.ofEntry (n, v)) ++ fs) =
      addAll ⟨es ++ [(n, us ++ vs)]⟩ fs := by
  induction vs generalizing us with
  | nil => rw [List.append_nil, List.map_nil, List.nil_append]
  | cons v vs ih =>
    have hrepeatable : n.isRepeatable = true := by
      rw [← Bool.not_eq_false]
      intro hsingle
      cases hvs hsingle
    have hlookup : (es ++ [(n, us)]).lookup n = some us := by
      rw [List.lookup_append, Entries.lookup_eq_none h]
      simp
    have hadd : add ⟨es ++ [(n, us)]⟩ n v = .ok ⟨es ++ [(n, us ++ [v])]⟩ := by
      simp [add, hlookup, hrepeatable, Entries.put_append h, Entries.put]
    have hmore := ih (us ++ [v]) fun hsingle ↦ absurd hsingle (by simp [hrepeatable])
    rw [List.append_assoc, List.singleton_append] at hmore
    simp only [List.map_cons, List.cons_append, addAll, Field.ofEntry, Utf8.decodeLossy_encode,
      hadd]
    exact hmore

/-- An entry of a new name comes last. -/
theorem addAll_entry {es : Entries HeaderName (List Text)} {e : HeaderName × List Text}
    (h : e.1 ∉ es.keys) (hne : e.2 ≠ []) (hsingle : e.1.isRepeatable = false → e.2.length = 1)
    (fs : List Field) :
    addAll ⟨es⟩ ((e.2.map fun v ↦ Field.ofEntry (e.1, v)) ++ fs) = addAll ⟨es ++ [e]⟩ fs := by
  obtain ⟨n, values⟩ := e
  obtain ⟨v, vs, rfl⟩ := List.exists_cons_of_ne_nil hne
  have hadd : add ⟨es⟩ n v = .ok ⟨es ++ [(n, [v])]⟩ := by
    have hput : Entries.put n [v] es = es ++ [(n, [v])] := Entries.put_of_not_mem h [v]
    simp only [add, Entries.lookup_eq_none h, set, hput]
  have hvs : n.isRepeatable = false → vs = [] := fun hn ↦ by simpa using hsingle hn
  simp only [List.map_cons, List.cons_append, addAll, Field.ofEntry, Utf8.decodeLossy_encode, hadd]
  exact addAll_values h [v] hvs fs

/-- Adding the fields of more entries puts these behind the ones that are there, in the same order.
-/
theorem addAll_entries {es : Entries HeaderName (List Text)} (done : Entries HeaderName (List Text))
    (h : WellFormed ⟨done ++ es⟩) :
    addAll ⟨done⟩ (es.flatMap fun e ↦ e.2.map fun v ↦ Field.ofEntry (e.1, v)) =
      (.ok (), ⟨done ++ es⟩) := by
  induction es generalizing done with
  | nil => rw [List.append_nil, List.flatMap_nil, addAll]
  | cons e es ih =>
    -- names stand once in the map, so this one is none of those that are done
    have hmem : e ∈ done ++ e :: es := by simp
    have hnew : e.1 ∉ done.keys := by
      have := h.nodup
      rw [Entries.keys, List.map_append, List.nodup_append] at this
      intro hdone
      exact this.2.2 e.1 hdone e.1 (by simp) rfl
    have hdone : done ++ e :: es = done ++ [e] ++ es := by simp
    rw [List.flatMap_cons, addAll_entry hnew (h.nonempty e hmem) (h.single e hmem), hdone]
    rw [hdone] at h
    exact ih (done ++ [e]) h

/-- The fields of a map that is in order make that map. -/
theorem ofFields_fields {m : HeaderMap} (h : m.WellFormed) :
    ofFields (m.fields.map Field.ofEntry) = .ok m := by
  have hfields : m.fields.map Field.ofEntry =
      m.entries.flatMap fun e ↦ e.2.map fun v ↦ Field.ofEntry (e.1, v) := by
    simp only [fields, List.map_flatMap, List.map_map]
    rfl
  have hall : empty.addAll (m.fields.map Field.ofEntry) = (.ok (), m) := by
    rw [hfields]
    exact addAll_entries [] h
  rw [ofFields, hall]

/-! ### Values that were read -/

/-- The fields of a map are the values under its names. -/
theorem mem_fields_iff {m : HeaderMap} {f : HeaderName × Text} :
    f ∈ m.fields ↔ ∃ values, (f.1, values) ∈ m.entries ∧ f.2 ∈ values := by
  obtain ⟨n, v⟩ := f
  simp only [fields, List.mem_flatMap, List.mem_map, Prod.mk.injEq]
  constructor
  · rintro ⟨⟨_, values⟩, he, _, hv, rfl, rfl⟩
    exact ⟨values, he, hv⟩
  · rintro ⟨values, he, hv⟩
    exact ⟨(n, values), he, v, hv, rfl, rfl⟩

/-- Adding a field brings no other value into a map. -/
theorem mem_fields_of_add {m m' : HeaderMap} {n : HeaderName} {value : Text}
    (hadd : m.add n value = .ok m') {f : HeaderName × Text} (hf : f ∈ m'.fields) :
    f ∈ m.fields ∨ f.2 = value := by
  obtain ⟨values, he, hv⟩ := mem_fields_iff.1 hf
  unfold add at hadd
  split at hadd
  · cases hadd
    rcases Entries.mem_put he with heq | he
    · cases heq
      exact Or.inr (List.mem_singleton.1 hv)
    · exact Or.inl (mem_fields_iff.2 ⟨values, he, hv⟩)
  · -- the name has values, to which the new one is added
    rename_i hlookup
    split at hadd
    · cases hadd
      rcases Entries.mem_put he with heq | he
      · cases heq
        rcases List.mem_append.1 hv with hv | hv
        · obtain ⟨l₁, l₂, heq, -⟩ := List.lookup_eq_some_iff.1 hlookup
          exact Or.inl (mem_fields_iff.2 ⟨_, by rw [heq]; simp, hv⟩)
        · exact Or.inr (List.mem_singleton.1 hv)
      · exact Or.inl (mem_fields_iff.2 ⟨values, he, hv⟩)
    · cases hadd

/-- A map has only values that survive the wire if only such are added. -/
theorem WireSafe.addAll {m : HeaderMap} (hm : m.WireSafe) {fs : List Field}
    (hfs : ∀ f ∈ fs, f.value.WireSafe) : (m.addAll fs).2.WireSafe := by
  induction fs generalizing m with
  | nil => exact hm
  | cons f fs ih =>
    rw [List.forall_mem_cons] at hfs
    unfold HeaderMap.addAll
    split
    · rename_i hadd
      refine ih (fun f' hf' ↦ ?_) hfs.2
      rcases mem_fields_of_add hadd hf' with hf' | heq
      · exact hm f' hf'
      · rw [heq]
        exact hfs.1.decodeLossy
    · exact hm

/-- Every field that is read off the wire has a value that survives it. -/
theorem wireSafe_of_mem_readAll {bs : Octets} {f : Field} (h : f ∈ (Field.readAll bs).1) :
    f.value.WireSafe := by
  rw [Field.readAll] at h
  induction bs using Reader.many.induct (r := Field.read) with
  | case1 bs m hread =>
    rw [Reader.many, hread] at h
    cases h
  | case2 bs f' rest hread hshorter fs rest' _ ih =>
    rw [Reader.many, hread] at h
    simp only [if_pos hshorter] at h
    rcases List.mem_cons.1 h with rfl | h
    · obtain ⟨_, bs', -, hvalue, -⟩ := read_eq_ok_iff.1 hread
      have hsafe := wireSafe_readValue bs'
      rwa [hvalue] at hsafe
    · exact ih h
  | case3 bs f' rest hread hlonger =>
    rw [Reader.many, hread] at h
    simp only [if_neg hlonger] at h
    cases h

/-- The values of a map that was read from the wire survive it. -/
theorem wireSafe_ofFields {m : HeaderMap} {bs : Octets}
    (h : ofFields (Field.readAll bs).1 = .ok m) : m.WireSafe := by
  have hempty : empty.WireSafe := by
    intro f hf
    cases hf
  have hread : ∀ f ∈ (Field.readAll bs).1, f.value.WireSafe := fun _ ↦ wireSafe_of_mem_readAll
  have hall := hempty.addAll hread
  unfold ofFields at h
  split at h
  · rename_i heq
    cases h
    rwa [heq] at hall
  · cases h

end HeaderMap

end InternetMail
