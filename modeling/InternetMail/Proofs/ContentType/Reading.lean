import InternetMail.ContentType.Parser
import InternetMail.Proofs.Entries
import InternetMail.Proofs.Header.Folding
import InternetMail.Proofs.Outcome
import InternetMail.Proofs.Run

/-!
# Content types read as they were written

A content type is well-formed if its names are tokens in lower case and no parameter stands twice
(`ContentType.WellFormed`). Its parameters may be written in more than one way, since any value may
stand between quotes (`ContentType.Writes`); in each of them the content type is read as it is, with
its parameters in the same order (`ContentType.parse_of_writes`), whatever characters the values
have.

The reader goes over octets and the grammar is about characters, and what goes between the two is
that a token octet is the form of a token character and no part of another character
(`isTokenOctet_ofNat`). A value is any text, and so its octets are any; in quotes only two of them
mean something else, the quote and the backslash, and each is ASCII (`quotedBody_encode_escaped`).
The parameters are read one by one as long as a semicolon is next, and each lemma on reading has
something behind what is read: nothing, or what begins with a semicolon.
-/

namespace InternetMail

/-! ### Readers -/

/-- A run ends where its test fails. -/
theorem Reader.run_append {p : UInt8 → Bool} {us rest : Octets} (expected : Expectation)
    (hne : us ≠ []) (hus : ∀ u ∈ us, p u = true) (hrest : rest.head?.any p = false) :
    Reader.run p expected (us ++ rest) = .ok (us, rest) := by
  have htake : (us ++ rest).takeWhile p = us ∧ (us ++ rest).dropWhile p = rest := by
    cases rest with
    | nil =>
      rw [List.append_nil, List.takeWhile_eq_self_iff.2 hus, List.dropWhile_eq_nil_iff.2 hus]
      exact ⟨rfl, rfl⟩
    | cons b rest =>
      exact ⟨Run.takeWhile_append_cons rest hus hrest, Run.dropWhile_append_cons rest hus hrest⟩
  have hempty : us.isEmpty = false := by simpa using hne
  rw [Reader.run, htake.1, htake.2, hempty]
  rfl

/-- An octet that is asked for and there is read. -/
theorem Reader.literal_cons (b : UInt8) (rest : Octets) :
    Reader.literal [b] (b :: rest) = .ok ((), rest) := by
  simp [Reader.literal]

/-- What does not begin with a blank is not trimmed. -/
theorem Octets.trimStart_eq_self {bs : Octets} (h : bs.head?.any Octet.isBlank = false) :
    bs.trimStart = bs := by
  cases bs with
  | nil => rfl
  | cons b bs => exact List.dropWhile_cons_of_neg (by simpa using h)

namespace ContentType

/-! ### Names -/

/-- Whether a token may hold the character. -/
def isTokenChar (c : Char) : Bool :=
  c.toNat < 0x80 && isTokenOctet (Octet.ofAscii c)

/-- A token: at least one character, and only such as a token may hold. -/
def IsToken (t : Text) : Prop :=
  t ≠ [] ∧ ∀ c ∈ t, isTokenChar c = true

instance (t : Text) : Decidable (IsToken t) :=
  decidable_of_iff (t ≠ [] ∧ t.all isTokenChar = true) (by rw [IsToken, List.all_eq_true])

/-- A token in lower case. -/
structure IsName (t : Text) : Prop where
  token : IsToken t
  folded : t.foldAscii = t

instance (t : Text) : Decidable (IsName t) :=
  decidable_of_iff (IsToken t ∧ t.foldAscii = t) ⟨fun h ↦ ⟨h.1, h.2⟩, fun h ↦ ⟨h.1, h.2⟩⟩

/-- Its names are tokens in lower case, and no parameter stands twice. -/
structure WellFormed (ct : ContentType) : Prop where
  primary : IsName ct.primary
  sub : IsName ct.sub
  parameters : ∀ p ∈ ct.parameters, IsName p.1
  nodup : ct.parameters.keys.Nodup

/-- A token holds no blanks and no separators. -/
theorem isBlank_of_isTokenOctet : ∀ b, isTokenOctet b = true → Octet.isBlank b = false :=
  Octet.forall_of_digits _ (by decide)

/-- What is known of a token octet: it is no blank, no slash, and of a token in lower case too. By
going through all of ASCII. -/
theorem isTokenOctet_ofNat : ∀ n < 0x80, isTokenOctet (UInt8.ofNat n) = true →
    (isWhite (Char.ofNat n) = false ∧ isBlankChar (Char.ofNat n) = false) ∧
      Char.ofNat n ≠ '/' ∧ isTokenChar (Char.ofNat n).toLower = true := by
  decide

/-- The characters of a token are no white space and not the slash, and a token may have them in
lower case. -/
theorem isTokenChar_facts {c : Char} (h : isTokenChar c = true) :
    (isWhite c = false ∧ isBlankChar c = false) ∧ c ≠ '/' ∧ isTokenChar c.toLower = true := by
  obtain ⟨hascii, htoken⟩ := Bool.and_eq_true_iff.1 h
  have := isTokenOctet_ofNat c.toNat (of_decide_eq_true hascii) htoken
  rwa [Char.ofNat_toNat] at this

/-- The octets of a token are token octets. -/
theorem encode_of_isToken {t : Text} (h : ∀ c ∈ t, isTokenChar c = true) :
    ∀ b ∈ Utf8.encode t, isTokenOctet b = true := by
  intro b hb
  obtain ⟨c, hc, hb⟩ := List.mem_flatMap.1 hb
  obtain ⟨hascii, htoken⟩ := Bool.and_eq_true_iff.1 (h c hc)
  rw [encodeChar_of_ascii (of_decide_eq_true hascii), List.mem_singleton] at hb
  rwa [hb]

/-- And there is at least one. -/
theorem IsToken.encode_ne_nil {t : Text} (h : IsToken t) : Utf8.encode t ≠ [] := by
  obtain ⟨c, t, rfl⟩ := List.exists_cons_of_ne_nil h.1
  rw [Utf8.encode_cons]
  exact fun hnil ↦ String.utf8EncodeChar_ne_nil (List.append_eq_nil_iff.1 hnil).1

/-- A token begins with no blank. -/
theorem IsToken.trimStart {t : Text} (h : IsToken t) (rest : Octets) :
    (Utf8.encode t ++ rest).trimStart = Utf8.encode t ++ rest := by
  obtain ⟨b, bs, heq⟩ := List.exists_cons_of_ne_nil h.encode_ne_nil
  have hb := encode_of_isToken h.2 b (by simp [heq])
  apply Octets.trimStart_eq_self
  simpa [heq] using isBlank_of_isTokenOctet b hb

/-- A token is read up to a separator. -/
theorem IsToken.run {t : Text} (h : IsToken t) {b : UInt8} (hb : isTokenOctet b = false)
    (rest : Octets) :
    Reader.run isTokenOctet .run (Utf8.encode t ++ b :: rest) = .ok (Utf8.encode t, b :: rest) :=
  Reader.run_append .run h.encode_ne_nil (encode_of_isToken h.2) hb

/-- A token has no white space around it. -/
theorem IsToken.trim {t : Text} (h : IsToken t) : Text.trim t = t :=
  Run.strip_eq_self fun c hc ↦ (isTokenChar_facts (h.2 c hc)).1.1

/-- A token in lower case is a name. -/
theorem IsToken.isName_foldAscii {t : Text} (h : IsToken t) : IsName t.foldAscii := by
  have hmem : ∀ c ∈ t.foldAscii, ∃ d ∈ t, d.toLower = c := fun c hc ↦ List.mem_map.1 hc
  refine ⟨⟨by simpa [Text.foldAscii] using h.1, fun c hc ↦ ?_⟩, Text.foldAscii_foldAscii t⟩
  obtain ⟨d, hd, rfl⟩ := hmem c hc
  exact (isTokenChar_facts (h.2 d hd)).2.2

/-- A name is in lower case already. -/
theorem IsName.foldAscii_trim {t : Text} (h : IsName t) : (Text.trim t).foldAscii = t := by
  rw [h.token.trim, h.folded]

/-- A content type of two tokens is well-formed. -/
theorem wellFormed_ofNames {primary sub : Text} (hprimary : IsToken primary) (hsub : IsToken sub) :
    (ofNames primary sub).WellFormed := by
  refine ⟨?_, ?_, by simp [ofNames], by simp [ofNames, Entries.keys]⟩
  · rw [ofNames, hprimary.trim]
    exact hprimary.isName_foldAscii
  · rw [ofNames, hsub.trim]
    exact hsub.isName_foldAscii

/-! ### Values -/

/-- The inside of a quoted value. -/
def escaped (value : Text) : Text :=
  value.flatMap fun c ↦ if c == '"' || c == '\\' then ['\\', c] else [c]

/-- Octets that mean themselves are read as they are. -/
theorem quotedBody_append {bs value rest tail : Octets} (h : ∀ b ∈ bs, b ≠ 0x22 ∧ b ≠ 0x5c)
    (hrest : quotedBody rest = .ok (value, tail)) :
    quotedBody (bs ++ rest) = .ok (bs ++ value, tail) := by
  induction bs with
  | nil => exact hrest
  | cons b bs ih =>
    rw [List.forall_mem_cons] at h
    rw [List.cons_append, quotedBody.eq_def]
    split
    · rename_i heq
      cases heq
    · rename_i heq
      exact absurd (List.cons.inj heq).1 h.1.1
    · rename_i heq
      exact absurd (List.cons.inj heq).1 h.1.2
    · rename_i heq
      obtain ⟨rfl, rfl⟩ := List.cons.inj heq
      rw [ih h.2]
      rfl

/-- A quoted value is read as the value, up to its closing quote. -/
theorem quotedBody_encode_escaped (value : Text) (rest : Octets) :
    quotedBody (Utf8.encode (escaped value) ++ 0x22 :: rest) =
      .ok (Utf8.encode value, rest) := by
  induction value with
  | nil => rfl
  | cons c value ih =>
    rw [escaped, List.flatMap_cons, Utf8.encode_append, List.append_assoc, Utf8.encode_cons]
    split
    · rename_i hc
      have hbackslash : ∀ b bs, quotedBody (0x5c :: b :: bs) =
          (quotedBody bs).map fun p ↦ (b :: p.1, p.2) := fun _ _ ↦ rfl
      rw [Bool.or_eq_true, beq_iff_eq, beq_iff_eq] at hc
      obtain ⟨b, hform, hchar⟩ : ∃ b, Utf8.encode ['\\', c] = [0x5c, b] ∧
          String.utf8EncodeChar c = [b] := by
        rcases hc with rfl | rfl
        · exact ⟨0x22, by decide, by decide⟩
        · exact ⟨0x5c, by decide, by decide⟩
      rw [hform, hchar]
      show quotedBody (0x5c :: b :: (Utf8.encode (escaped value) ++ 0x22 :: rest)) = _
      rw [hbackslash, ih]
      rfl
    · rename_i hc
      have hoctets : ∀ b ∈ String.utf8EncodeChar c, b ≠ 0x22 ∧ b ≠ 0x5c := by
        intro b hb
        constructor <;> rintro rfl <;> refine hc ?_ <;>
          rw [(eq_toChar_of_mem_encodeChar hb (by decide)).1] <;> decide
      have hform : Utf8.encode [c] = String.utf8EncodeChar c := List.append_nil _
      rw [hform]
      exact quotedBody_append hoctets ih

/-- The octets of a value that needs no quotes do not end it. -/
theorem isDelimiter_of_needsQuotes {value : Text} (h : needsQuotes value = false) :
    ∀ b ∈ Utf8.encode value, (b != 0x3b && b != 0x22 && !Octet.isBlank b) = true := by
  have hplain : ∀ b : UInt8, (b != 0x3b && b != 0x22 && !Octet.isBlank b) = false →
      b.toNat < 0x80 ∧ ((Octet.toChar b).toNat ≤ 0x20 || (Octet.toChar b).toNat == 0x7f ||
        specials.contains (Octet.toChar b)) = true :=
    Octet.forall_of_digits _ (by decide)
  intro b hb
  obtain ⟨c, hc, hb⟩ := List.mem_flatMap.1 hb
  by_contra hdelimiter
  obtain ⟨hascii, hquotes⟩ := hplain b (by simpa using hdelimiter)
  obtain ⟨rfl, -⟩ := eq_toChar_of_mem_encodeChar hb hascii
  rw [needsQuotes, Bool.or_eq_false_iff, List.any_eq_false] at h
  exact h.2 _ hc hquotes

/-- The ways to write a value: between quotes, or as it is if it needs none. -/
inductive IsForm (value : Text) : Text → Prop
  | quoted : IsForm value (quoteValue value)
  | plain : needsQuotes value = false → IsForm value value

/-- A value in quotes, as octets. -/
theorem encode_quoteValue (value : Text) :
    Utf8.encode (quoteValue value) = 0x22 :: (Utf8.encode (escaped value) ++ [0x22]) := by
  rw [quoteValue, List.cons_append, Utf8.encode_cons, Utf8.encode_append]
  rfl

/-- A value is read from each of its forms, up to the end or the next semicolon. -/
theorem IsForm.read {value form : Text} (h : IsForm value form) {rest : Octets}
    (hrest : ∀ b ∈ rest.head?, b = 0x3b) :
    Reader.orElse readQuoted readUnquoted (Utf8.encode form ++ rest).trimStart =
      .ok (Utf8.encode value, rest) := by
  cases h with
  | quoted =>
    have hread : readQuoted (Utf8.encode (quoteValue value) ++ rest) =
        .ok (Utf8.encode value, rest) := by
      rw [encode_quoteValue, List.cons_append, List.append_assoc, readQuoted, bind_eq_ok_iff]
      exact ⟨_, Reader.literal_cons _ _, quotedBody_encode_escaped value rest⟩
    rw [Octets.trimStart_eq_self (by rw [encode_quoteValue]; rfl), Reader.orElse, hread]
  | plain hplain =>
    have hne : Utf8.encode value ≠ [] := by
      rintro hnil
      cases value with
      | nil => cases hplain
      | cons c value =>
        rw [Utf8.encode_cons] at hnil
        exact String.utf8EncodeChar_ne_nil (List.append_eq_nil_iff.1 hnil).1
    obtain ⟨b, bs, heq⟩ := List.exists_cons_of_ne_nil hne
    have hoctets := isDelimiter_of_needsQuotes hplain
    have hb := hoctets b (by simp [heq])
    simp only [Bool.and_eq_true, bne_iff_ne, Bool.not_eq_true'] at hb
    -- the value does not begin with a quote
    have hquoted : readQuoted (Utf8.encode value ++ rest) =
        .error ⟨Utf8.encode value ++ rest, .literal⟩ := by
      have hprefix : [0x22].isPrefixOf (b :: bs ++ rest) = false := by
        simpa [List.isPrefixOf] using hb.1.2.symm
      rw [readQuoted, heq, Reader.literal, hprefix]
      rfl
    have hplain : readUnquoted (Utf8.encode value ++ rest) = .ok (Utf8.encode value, rest) := by
      refine Reader.run_append .undelimited hne hoctets ?_
      cases rest with
      | nil => rfl
      | cons c rest =>
        rw [hrest c rfl]
        rfl
    rw [Octets.trimStart_eq_self (by simpa [heq] using hb.2), Reader.orElse, hquoted, hplain]

/-! ### Parameters -/

/-- A text in which some parameters are written, one after another. -/
inductive Writes : Entries Text Text → Text → Prop
  | nil : Writes [] []
  | cons {name value form : Text} {ps : Entries Text Text} {t : Text} :
      IsName name → IsForm value form → Writes ps t →
      Writes ((name, value) :: ps) ([';', ' '] ++ name ++ '=' :: form ++ t)

/-- Parameters as they are written in a content type. -/
theorem writes_flatMap {ps : Entries Text Text} (h : ∀ p ∈ ps, IsName p.1) :
    Writes ps (ps.flatMap formatParameter) := by
  induction ps with
  | nil => exact .nil
  | cons p ps ih =>
    rw [List.forall_mem_cons] at h
    obtain ⟨name, value⟩ := p
    rw [List.flatMap_cons]
    refine .cons h.1 ?_ (ih h.2)
    show IsForm value (if needsQuotes value then quoteValue value else value)
    split
    · exact .quoted
    · exact .plain (by simpa using ‹¬needsQuotes value = true›)

/-- What parameters are written as begins with a semicolon. -/
theorem Writes.head {ps : Entries Text Text} {t : Text} (h : Writes ps t) :
    ∀ b ∈ (Utf8.encode t).head?, b = 0x3b := by
  cases h with
  | nil => simp [Utf8.encode]
  | cons _ _ _ =>
    intro b hb
    exact (Option.some.inj hb).symm

/-- **A parameter is read as it was written**, in either form of its value, up to the next semicolon
or the end. -/
theorem readParameter_append {name value form : Text} (hname : IsName name)
    (hform : IsForm value form) {rest : Octets} (hrest : ∀ b ∈ rest.head?, b = 0x3b) :
    readParameter (Utf8.encode ([';', ' '] ++ name ++ '=' :: form) ++ rest) =
      .ok ((Utf8.encode name, Utf8.encode value), rest) := by
  have hwritten : Utf8.encode ([';', ' '] ++ name ++ '=' :: form) ++ rest =
      0x3b :: 0x20 :: (Utf8.encode name ++ 0x3d :: (Utf8.encode form ++ rest)) := by
    have hopen : Utf8.encode [';', ' '] = [0x3b, 0x20] := by decide
    have hequals : Utf8.encode ('=' :: form) = 0x3d :: Utf8.encode form := rfl
    rw [Utf8.encode_append, Utf8.encode_append, hopen, hequals]
    simp only [List.append_assoc, List.cons_append, List.nil_append]
  have hgap : Octets.trimStart (0x20 :: (Utf8.encode name ++ 0x3d :: (Utf8.encode form ++ rest))) =
      Utf8.encode name ++ 0x3d :: (Utf8.encode form ++ rest) :=
    hname.token.trimStart _
  rw [hwritten, readParameter, bind_eq_ok_iff]
  refine ⟨_, Reader.literal_cons 0x3b _, ?_⟩
  dsimp only
  rw [hgap, bind_eq_ok_iff]
  refine ⟨_, hname.token.run (by decide) _, ?_⟩
  rw [bind_eq_ok_iff]
  refine ⟨_, Reader.literal_cons 0x3d _, ?_⟩
  rw [bind_eq_ok_iff]
  exact ⟨_, hform.read hrest, rfl⟩

/-- Parameters are read as they were written, up to the end. -/
theorem Writes.many {ps : Entries Text Text} {t : Text} (h : Writes ps t) :
    Reader.many readParameter (Utf8.encode t) =
      (ps.map fun p ↦ (Utf8.encode p.1, Utf8.encode p.2), []) := by
  induction h with
  | nil =>
    have hstop : readParameter (Utf8.encode []) = .error ⟨[], .literal⟩ := rfl
    rw [Reader.many, hstop]
    rfl
  | @cons name value form ps t hname hform hps ih =>
    have hread := readParameter_append hname hform hps.head
    have hshorter : 0 < (Utf8.encode ([';', ' '] ++ name ++ '=' :: form)).length := by
      show 0 < ([0x3b] ++ Utf8.encode (' ' :: name ++ '=' :: form)).length
      simp
    rw [Utf8.encode_append, Reader.many, hread]
    simp only [List.length_append]
    rw [if_pos (by omega), ih]
    rfl

/-! ### Content types -/

/-- Parameters with new names are put after those that are there. -/
theorem foldl_setParameter {primary sub : Text} (ps : Entries Text Text) {qs : Entries Text Text}
    (hps : ∀ p ∈ ps, IsName p.1) (hnodup : (qs ++ ps).keys.Nodup) :
    (ps.map fun p ↦ (Utf8.encode p.1, Utf8.encode p.2)).foldl
        (fun ct p ↦ ct.setParameter (Utf8.decodeLossy p.1) (Utf8.decodeLossy p.2))
        (ContentType.mk primary sub qs) =
      ⟨primary, sub, qs ++ ps⟩ := by
  induction ps generalizing qs with
  | nil => simp
  | cons p ps ih =>
    rw [List.forall_mem_cons] at hps
    have hnew : p.1 ∉ qs.keys := by
      rw [Entries.keys, List.map_append, List.map_cons] at hnodup
      exact fun hmem ↦ (List.nodup_append.1 hnodup).2.2 p.1 hmem p.1 (by simp) rfl
    have hset : setParameter ⟨primary, sub, qs⟩ p.1 p.2 = ⟨primary, sub, qs ++ [p]⟩ := by
      rw [setParameter, hps.1.foldAscii_trim, Entries.put_of_not_mem hnew]
    have happend : qs ++ p :: ps = (qs ++ [p]) ++ ps := by simp
    rw [List.map_cons, List.foldl_cons, Utf8.decodeLossy_encode, Utf8.decodeLossy_encode, hset,
      ih hps.2 (by rwa [← happend]), happend]

/-- A well-formed content type is read from its base and its parameters, however these are written.
-/
theorem parse_of_writes {ct : ContentType} (h : ct.WellFormed) {t : Text}
    (ht : Writes ct.parameters t) : parse (ct.base ++ t) = .ok ct := by
  have hwritten : Utf8.encode (ct.base ++ t) =
      Utf8.encode ct.primary ++ 0x2f :: (Utf8.encode ct.sub ++ Utf8.encode t) := by
    have hslash : Utf8.encode ('/' :: ct.sub) = 0x2f :: Utf8.encode ct.sub := rfl
    rw [base, Utf8.encode_append, Utf8.encode_append, hslash]
    simp only [List.append_assoc, List.cons_append]
  have hsub : Reader.run isTokenOctet .run (Utf8.encode ct.sub ++ Utf8.encode t) =
      .ok (Utf8.encode ct.sub, Utf8.encode t) := by
    refine Reader.run_append .run h.sub.token.encode_ne_nil (encode_of_isToken h.sub.token.2) ?_
    cases hhead : (Utf8.encode t).head? with
    | none => rfl
    | some b =>
      rw [ht.head b hhead]
      rfl
  have hread : read (Utf8.encode (ct.base ++ t)) = .ok ((Utf8.encode ct.primary,
      Utf8.encode ct.sub, ct.parameters.map fun p ↦ (Utf8.encode p.1, Utf8.encode p.2)), []) := by
    rw [hwritten, read, bind_eq_ok_iff, h.primary.token.trimStart]
    refine ⟨_, h.primary.token.run (by decide) _, ?_⟩
    rw [bind_eq_ok_iff]
    refine ⟨_, Reader.literal_cons 0x2f _, ?_⟩
    rw [bind_eq_ok_iff, h.sub.token.trimStart]
    refine ⟨_, hsub, ?_⟩
    dsimp only
    rw [ht.many]
    rfl
  have hnames : ofNames ct.primary ct.sub = ⟨ct.primary, ct.sub, []⟩ := by
    rw [ofNames, h.primary.foldAscii_trim, h.sub.foldAscii_trim]
  have hnodup : ([] ++ ct.parameters : Entries Text Text).keys.Nodup := h.nodup
  rw [parse, hread]
  show Except.ok _ = _
  rw [ofRaw, Utf8.decodeLossy_encode, Utf8.decodeLossy_encode, hnames,
    foldl_setParameter ct.parameters h.parameters hnodup]
  rfl

end ContentType

end InternetMail
