import InternetMail.Header.Name
import InternetMail.Proofs.Run
import InternetMail.Proofs.Text.Octet
import InternetMail.Proofs.Text.Utf8
import Mathlib.Data.List.Basic

/-!
# Names as they are written

A name is written in ASCII, with nothing in it that could end it, and reading what is written gives
the name (`exists_encode_display`).

The two ways to write a name are the spelling of a standard name, which is part of its table, and
the key with each word capitalized. Both are lower-cased to the key, octet by octet, and that is all
that reading does to a name. The facts on single octets are decided by going through all of them.
-/

namespace InternetMail

/-! ### Octets of a name -/

/-- An upper-case name octet is a name octet. -/
theorem isNameOctet_toUpper : ∀ b, isNameOctet b = true → isNameOctet (Octet.toUpper b) = true :=
  Octet.forall_of_digits _ (by decide)

/-- Lower case is not lost in upper case. -/
theorem toLower_toUpper : ∀ b, Octet.toLower b = b → Octet.toLower (Octet.toUpper b) = b :=
  Octet.forall_of_digits _ (by decide)

/-- A name octet is ASCII. -/
theorem isAscii_of_isNameOctet : ∀ b, isNameOctet b = true → b.toNat < 0x80 :=
  Octet.forall_of_digits _ (by decide)

/-- A name octet is no blank, so that nothing of a name is trimmed. -/
theorem isBlank_of_isNameOctet : ∀ b, isNameOctet b = true → Octet.isBlank b = false :=
  Octet.forall_of_digits _ (by decide)

/-! ### Capitals -/

/-- A word is the same in lower case before and after it is capitalized. -/
theorem foldAscii_capitalize {word : Octets} (h : ∀ b ∈ word, Octet.toLower b = b) :
    Octets.foldAscii (HeaderName.capitalize word) = word := by
  unfold HeaderName.capitalize
  split
  · rw [Octets.foldAscii, List.map_map]
    exact List.map_congr_left (fun b hb ↦ toLower_toUpper b (h b hb)) |>.trans (List.map_id word)
  · cases word with
    | nil => rfl
    | cons b bs =>
      rw [List.forall_mem_cons] at h
      simp only [Octets.foldAscii, List.map_cons, toLower_toUpper b h.1]
      rw [List.map_congr_left h.2, List.map_id']

/-- A capitalized word is made of name octets. -/
theorem isNameOctet_capitalize {word : Octets} (h : ∀ b ∈ word, isNameOctet b = true) :
    ∀ b ∈ HeaderName.capitalize word, isNameOctet b = true := by
  unfold HeaderName.capitalize
  split
  · intro b hb
    obtain ⟨c, hc, rfl⟩ := List.mem_map.1 hb
    exact isNameOctet_toUpper c (h c hc)
  · cases word with
    | nil => simp
    | cons b bs =>
      rw [List.forall_mem_cons] at h ⊢
      exact ⟨isNameOctet_toUpper b h.1, h.2⟩

/-! ### Names -/

/-- The key of a name is made of name octets in lower case, and of at least one. -/
theorem isNameOctet_key (n : HeaderName) :
    n.key ≠ [] ∧ ∀ b ∈ n.key, isNameOctet b = true ∧ Octet.toLower b = b := by
  simpa [isNameKey] using n.isNameKey_key

/-- Words apart by hyphens, written as octets. -/
theorem exists_joined_capitalize {words : List Octets} (h : words ≠ []) :
    ∃ name : Octets, Text.joined ['-'] (words.map fun word ↦
        (HeaderName.capitalize word).map Octet.toChar) = name.map Octet.toChar ∧
      name ++ [0x2d] = words.flatMap fun word ↦ HeaderName.capitalize word ++ [0x2d] := by
  induction words with
  | nil => exact absurd rfl h
  | cons word words ih =>
    cases words with
    | nil => exact ⟨HeaderName.capitalize word, rfl, by simp⟩
    | cons next words =>
      obtain ⟨name, hname, hoctets⟩ := ih (List.cons_ne_nil next words)
      have hhyphen : Octet.toChar 0x2d = '-' := by decide
      refine ⟨HeaderName.capitalize word ++ 0x2d :: name, ?_, ?_⟩
      · simp only [List.map_cons] at hname ⊢
        rw [Text.joined_cons _ _ (by simp), hname]
        simp [hhyphen]
      · rw [List.flatMap_cons, ← hoctets]
        simp

/-- Names of the standards are spelled in octets of names. -/
theorem isNameOctet_spelling (s : StandardName) :
    s.spelling.toList = (Octets.ofAscii s.spelling).map Octet.toChar ∧
      ∀ b ∈ Octets.ofAscii s.spelling, isNameOctet b = true := by
  have hall : s.spelling.toList = (Octets.ofAscii s.spelling).map Octet.toChar ∧
      (Octets.ofAscii s.spelling).all isNameOctet = true := by
    cases s <;> decide +kernel
  exact ⟨hall.1, List.all_eq_true.1 hall.2⟩

/-- A name of the standards is spelled as the name in some case. -/
theorem foldAscii_spelling_of_standard? {n : HeaderName} {s : StandardName}
    (h : n.standard? = some s) : Octets.foldAscii (Octets.ofAscii s.spelling) = n.key := by
  rw [HeaderName.standard?, StandardName.ofOctets?] at h
  have hfound := List.find?_some h
  have hlower : Octets.foldAscii n.key = n.key := by
    rw [Octets.foldAscii, List.map_congr_left (fun b hb ↦ ((isNameOctet_key n).2 b hb).2),
      List.map_id']
  rw [hlower] at hfound
  exact eq_of_beq hfound

/-- Any other name is capitalized word by word. -/
theorem exists_joined_key (n : HeaderName) :
    ∃ name : Octets, Text.joined ['-'] ((Run.stretches (· == 0x2d) n.key).map fun word ↦
        (HeaderName.capitalize word).map Octet.toChar) = name.map Octet.toChar ∧
      (∀ b ∈ name, isNameOctet b = true) ∧ Octets.foldAscii name = n.key := by
  obtain ⟨name, hname, hoctets⟩ :=
    exists_joined_capitalize (Run.stretches_ne_nil (· == 0x2d) n.key)
  have hwords : ∀ word ∈ Run.stretches (· == 0x2d) n.key, ∀ b ∈ word,
      isNameOctet b = true ∧ Octet.toLower b = b := fun word hword b hb ↦
    (isNameOctet_key n).2 b (Run.mem_of_mem_stretches hword hb).1
  refine ⟨name, hname, fun b hb ↦ ?_, ?_⟩
  · have hmem : b ∈ name ++ [0x2d] := List.mem_append_left _ hb
    rw [hoctets, List.mem_flatMap] at hmem
    obtain ⟨word, hword, hmem⟩ := hmem
    rcases List.mem_append.1 hmem with hmem | hmem
    · exact isNameOctet_capitalize (fun b hb ↦ (hwords word hword b hb).1) b hmem
    · rw [List.mem_singleton.1 hmem]
      decide
  · -- with a hyphen after its last word, too, the name is its words with one after each
    have hfold : Octets.foldAscii (name ++ [0x2d]) = n.key ++ [0x2d] := by
      rw [hoctets, Octets.foldAscii, List.map_flatMap, ← Run.flatMap_stretches 0x2d n.key]
      refine List.flatMap_congr fun word hword ↦ ?_
      have := foldAscii_capitalize fun b hb ↦ (hwords word hword b hb).2
      rw [Octets.foldAscii] at this
      rw [List.map_append, this]
      rfl
    rw [Octets.foldAscii, List.map_append] at hfold
    exact (List.append_inj' hfold rfl).1

/-- A name is written in octets of names, which are the name again in lower case. -/
theorem exists_display (n : HeaderName) :
    ∃ name : Octets, n.display = name.map Octet.toChar ∧
      (∀ b ∈ name, isNameOctet b = true) ∧ Octets.foldAscii name = n.key := by
  unfold HeaderName.display
  split
  · rename_i s hs
    obtain ⟨hspelling, hoctets⟩ := isNameOctet_spelling s
    exact ⟨_, hspelling, hoctets, foldAscii_spelling_of_standard? hs⟩
  · exact exists_joined_key n

/-- Reading a name as it is written gives the name. -/
theorem exists_encode_display (n : HeaderName) :
    ∃ name : Octets, Utf8.encode n.display = name ∧ name ≠ [] ∧
      (∀ b ∈ name, isNameOctet b = true) ∧ HeaderName.ofOctets? name = some n := by
  obtain ⟨name, hdisplay, hname, hfold⟩ := exists_display n
  have hne : name ≠ [] := by
    rintro rfl
    exact (isNameOctet_key n).1 hfold.symm
  refine ⟨name, ?_, hne, hname, ?_⟩
  · rw [hdisplay, Utf8.encode_map_toChar fun b hb ↦ isAscii_of_isNameOctet b (hname b hb)]
  · have htrim : Octets.trim name = name := by
      refine Run.strip_eq_self fun b hb ↦ isBlank_of_isNameOctet b (hname b hb)
    have hkey : isNameKey (Octets.foldAscii (Octets.trim name)) = true := by
      rw [htrim, hfold]
      exact n.isNameKey_key
    rw [HeaderName.ofOctets?, dif_pos hkey]
    congr
    rw [htrim, hfold]

end InternetMail
