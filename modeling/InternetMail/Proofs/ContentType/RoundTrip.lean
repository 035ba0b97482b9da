import InternetMail.Proofs.ContentType.Reading

/-!
# Content types round-trip through their text

A content type keeps its names in lower case and each parameter once, whatever it is built by
(`ContentType.Built`). If its names are tokens, that makes it well-formed, and it is read from its
text as it is. What is read from a text is always well-formed (`ContentType.wellFormed_of_parse`):
the names were read as runs of token octets. So writing and reading again changes nothing that can
be read (`ContentType.parse_format_of_isToken`).

Values are not restricted at all, since any text can be put in quotes. Names are: a content type may
be built with a name that is no token, and is then written as something that is not read as it. So
the round trip asks for token names where the content type was built, and for nothing where it was
read.
-/

namespace InternetMail

/-! ### What readers read -/

namespace Reader

variable {α : Type} {bs us rest : Octets}

/-- A run is not empty, and its test holds throughout. -/
theorem of_run {p : UInt8 → Bool} {expected : Expectation}
    (h : run p expected bs = .ok (us, rest)) : us ≠ [] ∧ ∀ u ∈ us, p u = true := by
  rw [run] at h
  split at h
  · cases h
  · rename_i hne
    cases h
    exact ⟨by simpa using hne, fun u hu ↦ List.mem_takeWhile_imp hu⟩

/-- Each of many values was read somewhere. -/
theorem exists_of_mem_many {r : Reader α} {a : α} (h : a ∈ (many r bs).1) :
    ∃ bs' rest, r bs' = .ok (a, rest) := by
  fun_induction many r bs with
  | case1 => cases h
  | case2 bs b rest hread hlt as rest' hmany ih =>
    rcases List.mem_cons.1 h with rfl | h
    · exact ⟨bs, rest, hread⟩
    · exact ih (by rwa [hmany])
  | case3 => cases h

end Reader

namespace ContentType

/-! ### What is built -/

/-- The content type came about by operations on content types. -/
inductive Built : ContentType → Prop
  | ofNames (primary sub : Text) : Built (.ofNames primary sub)
  | setParameter {ct : ContentType} (name value : Text) : Built ct →
      Built (ct.setParameter name value)
  | removeParameter {ct : ContentType} (name : Text) : Built ct → Built (ct.removeParameter name)
  | parse {t : Text} {ct : ContentType} : parse t = .ok ct → Built ct

/-- Its names are in lower case, and no parameter stands twice. -/
structure Folded (ct : ContentType) : Prop where
  primary : ct.primary.foldAscii = ct.primary
  sub : ct.sub.foldAscii = ct.sub
  parameters : ∀ p ∈ ct.parameters, p.1.foldAscii = p.1
  nodup : ct.parameters.keys.Nodup

/-- A new content type has its names in lower case. -/
theorem folded_ofNames (primary sub : Text) : (ofNames primary sub).Folded :=
  ⟨Text.foldAscii_foldAscii _, Text.foldAscii_foldAscii _, by simp [ofNames], List.nodup_nil⟩

/-- Setting a parameter folds its name, and takes the place of the one that was there. -/
theorem Folded.setParameter {ct : ContentType} (h : ct.Folded) (name value : Text) :
    (ct.setParameter name value).Folded := by
  refine ⟨h.primary, h.sub, fun p hp ↦ ?_, Entries.nodup_keys_put h.nodup⟩
  rcases Entries.mem_put hp with rfl | hp
  · exact Text.foldAscii_foldAscii _
  · exact h.parameters p hp

/-- Removing one leaves the others. -/
theorem Folded.removeParameter {ct : ContentType} (h : ct.Folded) (name : Text) :
    (ct.removeParameter name).Folded :=
  ⟨h.primary, h.sub, fun p hp ↦ h.parameters p (List.mem_of_mem_filter hp),
    Entries.nodup_keys_remove _ h.nodup⟩

/-- What a content type is made of when it is read. -/
theorem ofRaw_induction {P : ContentType → Prop} {raw : Raw}
    (hnames : P (ofNames (Utf8.decodeLossy raw.1) (Utf8.decodeLossy raw.2.1)))
    (hset : ∀ ct, P ct → ∀ p ∈ raw.2.2,
      P (ct.setParameter (Utf8.decodeLossy p.1) (Utf8.decodeLossy p.2))) : P (ofRaw raw) :=
  List.foldlRecOn raw.2.2 _ hnames hset

/-- What was read is put together by setting parameters. -/
theorem folded_ofRaw (raw : Raw) : (ofRaw raw).Folded :=
  ofRaw_induction (folded_ofNames _ _) fun _ h _ _ ↦ h.setParameter _ _

/-- What is read from a text is made of what the reader found in its octets. -/
theorem exists_ofRaw_of_parse {t : Text} {ct : ContentType} (h : parse t = .ok ct) :
    ∃ raw rest, read (Utf8.encode t) = .ok (raw, rest) ∧ ofRaw raw = ct := by
  rw [parse] at h
  split at h
  · cases h
  · rename_i raw rest hread
    split at h
    · cases h
    · exact ⟨raw, rest, hread, Except.ok.inj h⟩

/-- **Whatever a content type is built by**, its names are in lower case and no parameter stands
twice. -/
theorem Built.folded {ct : ContentType} (h : ct.Built) : ct.Folded := by
  induction h with
  | ofNames primary sub => exact folded_ofNames primary sub
  | setParameter name value _ ih => exact ih.setParameter name value
  | removeParameter name _ ih => exact ih.removeParameter name
  | parse h =>
    obtain ⟨raw, -, -, rfl⟩ := exists_ofRaw_of_parse h
    exact folded_ofRaw raw

/-- With tokens for names it is well-formed. -/
theorem Folded.wellFormed {ct : ContentType} (h : ct.Folded) (hprimary : IsToken ct.primary)
    (hsub : IsToken ct.sub) (hparameters : ∀ p ∈ ct.parameters, IsToken p.1) : ct.WellFormed :=
  ⟨⟨hprimary, h.primary⟩, ⟨hsub, h.sub⟩, fun p hp ↦ ⟨hparameters p hp, h.parameters p hp⟩, h.nodup⟩

/-! ### What is read -/

/-- A token octet is the form of a token character. -/
theorem toChar_of_isTokenOctet : ∀ b, isTokenOctet b = true →
    b.toNat < 0x80 ∧ isTokenChar (Octet.toChar b) = true :=
  Octet.forall_of_digits _ (by decide)

/-- Token octets say a token. -/
theorem isToken_decodeLossy {us : Octets} (h : us ≠ [] ∧ ∀ u ∈ us, isTokenOctet u = true) :
    IsToken (Utf8.decodeLossy us) := by
  have hus : Utf8.encode (us.map Octet.toChar) = us :=
    Utf8.encode_map_toChar fun u hu ↦ (toChar_of_isTokenOctet u (h.2 u hu)).1
  rw [← hus, Utf8.decodeLossy_encode]
  refine ⟨by simpa using h.1, fun c hc ↦ ?_⟩
  obtain ⟨u, hu, rfl⟩ := List.mem_map.1 hc
  exact (toChar_of_isTokenOctet u (h.2 u hu)).2

/-- The name of a parameter that is read is a token. -/
theorem isToken_of_readParameter {bs rest : Octets} {p : RawParameter}
    (h : readParameter bs = .ok (p, rest)) : IsToken (Utf8.decodeLossy p.1) := by
  simp only [readParameter, bind_eq_ok_iff] at h
  obtain ⟨_, -, ⟨name, bs'⟩, hname, _, -, ⟨value, rest'⟩, -, hp⟩ := h
  cases hp
  exact isToken_decodeLossy (Reader.of_run hname)

/-- So are type and subtype. -/
theorem isToken_of_read {bs rest : Octets} {raw : Raw} (h : read bs = .ok (raw, rest)) :
    IsToken (Utf8.decodeLossy raw.1) ∧ IsToken (Utf8.decodeLossy raw.2.1) ∧
      ∀ p ∈ raw.2.2, IsToken (Utf8.decodeLossy p.1) := by
  simp only [read, bind_eq_ok_iff] at h
  obtain ⟨⟨primary, bs₁⟩, hprimary, _, -, ⟨sub, bs₂⟩, hsub, hraw⟩ := h
  cases hraw
  refine ⟨isToken_decodeLossy (Reader.of_run hprimary), isToken_decodeLossy (Reader.of_run hsub),
    fun p hp ↦ ?_⟩
  obtain ⟨bs', rest', hread⟩ := Reader.exists_of_mem_many hp
  exact isToken_of_readParameter hread

/-- A parameter whose name is a token keeps a content type well-formed, whatever its value is. -/
theorem WellFormed.setParameter {ct : ContentType} (h : ct.WellFormed) {name : Text}
    (hname : IsToken name) (value : Text) : (ct.setParameter name value).WellFormed := by
  refine ⟨h.primary, h.sub, fun p hp ↦ ?_, Entries.nodup_keys_put h.nodup⟩
  rcases Entries.mem_put hp with rfl | hp
  · rw [hname.trim]
    exact hname.isName_foldAscii
  · exact h.parameters p hp

/-- **What is read is well-formed.** -/
theorem wellFormed_of_parse {t : Text} {ct : ContentType} (h : parse t = .ok ct) :
    ct.WellFormed := by
  obtain ⟨raw, rest, hread, rfl⟩ := exists_ofRaw_of_parse h
  obtain ⟨hprimary, hsub, hparameters⟩ := isToken_of_read hread
  exact ofRaw_induction (wellFormed_ofNames hprimary hsub) fun _ h p hp ↦
    h.setParameter (hparameters p hp) _

/-! ### Written and read again -/

/-- **A well-formed content type is read from its text as it is.** -/
theorem WellFormed.parse_format {ct : ContentType} (h : ct.WellFormed) : parse ct.format = .ok ct :=
  parse_of_writes h (writes_flatMap h.parameters)

/-- **Content types round-trip through their text.** One that was built with tokens for names is
read as it was written, with its parameters in the same order and whatever their values are. All
that is read is of this sort and in lower case, so that it is read again as it is. -/
theorem parse_format_of_isToken :
    (∀ ct : ContentType, ct.Built → IsToken ct.primary → IsToken ct.sub →
      (∀ p ∈ ct.parameters, IsToken p.1) → parse ct.format = .ok ct) ∧
    ∀ (t : Text) (ct : ContentType), parse t = .ok ct →
      ct.WellFormed ∧ parse ct.format = .ok ct := by
  refine ⟨fun ct hct hprimary hsub hparameters ↦ ?_, fun t ct h ↦ ?_⟩
  · exact (hct.folded.wellFormed hprimary hsub hparameters).parse_format
  · exact ⟨wellFormed_of_parse h, (wellFormed_of_parse h).parse_format⟩

/-- A value with quotes, a backslash, a semicolon and a line break, and one that is empty; and a
text in which a parameter stands twice. -/
theorem parse_format_of_isToken_quoted :
    let ct := ((ofNames "Application".toList " x-A".toList).setParameter "NAME".toList
      "ä \"b\"\\;\n".toList).setParameter "b".toList []
    ct.format = "application/x-a; name=\"ä \\\"b\\\"\\\\;\n\"; b=\"\"".toList ∧
      parse ct.format = .ok ct ∧
      ∃ ct', parse "Text / Plain ; a=1;A = \"x;y\";".toList = .ok ct' ∧
        ct'.parameters = [("a".toList, "x;y".toList)] ∧ parse ct'.format = .ok ct' := by
  intro ct
  refine ⟨by decide, ?_, ?_⟩
  · exact parse_format_of_isToken.1 ct (((Built.ofNames _ _).setParameter _ _).setParameter _ _)
      (by decide) (by decide) (by decide)
  · have hread : (parse "Text / Plain ; a=1;A = \"x;y\";".toList).toOption.map
        ContentType.parameters = some [("a".toList, "x;y".toList)] := by
      decide +kernel
    obtain ⟨ct', hparse, hparameters⟩ := Option.map_eq_some_iff.1 hread
    have hparse : parse "Text / Plain ; a=1;A = \"x;y\";".toList = .ok ct' := by
      generalize parse _ = x at hparse ⊢
      cases x with
      | error e => cases hparse
      | ok => exact congrArg _ (Option.some.inj hparse)
    exact ⟨ct', hparse, hparameters, (parse_format_of_isToken.2 _ _ hparse).2⟩

end ContentType

end InternetMail
