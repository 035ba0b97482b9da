import InternetMail.Header.Field
import InternetMail.Proofs.Text.Utf8

/-!
# Values that survive the wire

A value survives the wire if it does not begin with a fold and each of its line feeds stands right
before one (`Text.WireSafe`), a fold being a space or a TAB. The same is said of octets, and goes
from a text to its UTF-8 form (`Text.WireSafe.encode`) and from octets to what they are read as
(`Octets.WireSafe.decodeLossy`), ill-formed stretches or not.

Such a value is read off the wire as it was written (`readValue_append`), and every value that is
read off the wire is one (`wireSafe_readValue`).

Both are cases of `Followed p q`, which says of a list that whatever is a `p` has a `q` right behind
it. Line feeds and folds are ASCII, and in UTF-8 an octet of an ASCII character is no part of
another one, so that such places are the same in a text and in its octets (`followed_encode`). In
the other direction an ill-formed stretch gives a replacement character, which is neither.
-/

namespace InternetMail

/-- Each element on which `p` holds stands right before one on which `q` does. -/
def Followed {α : Type} (p q : α → Bool) : List α → Prop
  | [] => True
  | x :: xs => (p x = true → xs.head?.any q = true) ∧ Followed p q xs

/-- Whether the character is a space or a TAB. -/
def isFoldChar (c : Char) : Bool :=
  c == ' ' || c == '\t'

/-- After each LF in the text stands a space or a TAB, so that a field goes on there. -/
abbrev Text.Continued (t : Text) : Prop :=
  Followed (· == '\n') isFoldChar t

/-- The value does not begin with a space or a TAB, and after each LF in it stands one. -/
structure Text.WireSafe (t : Text) : Prop where
  head : t.head?.any isFoldChar = false
  breaks : Followed (· == '\n') isFoldChar t

/-- The same of octets. -/
structure Octets.WireSafe (bs : Octets) : Prop where
  head : bs.head?.any Field.isFold = false
  breaks : Followed (· == 0x0a) Field.isFold bs

section Followed

variable {α : Type} {p q : α → Bool} {us xs : List α}

instance decidableFollowed (p q : α → Bool) : (xs : List α) → Decidable (Followed p q xs)
  | [] => isTrue trivial
  | x :: xs =>
    have := decidableFollowed p q xs
    inferInstanceAs (Decidable ((p x = true → xs.head?.any q = true) ∧ Followed p q xs))

instance (t : Text) : Decidable t.WireSafe :=
  decidable_of_iff (t.head?.any isFoldChar = false ∧ Followed (· == '\n') isFoldChar t)
    ⟨fun ⟨hhead, hbreaks⟩ ↦ ⟨hhead, hbreaks⟩, fun ⟨hhead, hbreaks⟩ ↦ ⟨hhead, hbreaks⟩⟩

/-- What it says at each place where `p` holds. -/
theorem followed_iff : Followed p q xs ↔
    ∀ us x rest, xs = us ++ x :: rest → p x = true → rest.head?.any q = true := by
  induction xs with
  | nil => simp [Followed]
  | cons x xs ih =>
    rw [Followed, ih]
    constructor
    · rintro ⟨hx, hxs⟩ us y rest h hy
      cases us with
      | nil =>
        obtain ⟨rfl, rfl⟩ := List.cons.inj h
        exact hx hy
      | cons u us => exact hxs us y rest (List.cons.inj h).2 hy
    · exact fun h ↦ ⟨h [] x xs rfl, fun us y rest hxs ↦ h (x :: us) y rest (by rw [hxs]; rfl)⟩

/-- A prefix without a `p` can be put in front. -/
theorem followed_append_of_forall (hus : ∀ u ∈ us, p u = false) (hxs : Followed p q xs) :
    Followed p q (us ++ xs) := by
  induction us with
  | nil => exact hxs
  | cons u us ih =>
    rw [List.forall_mem_cons] at hus
    exact ⟨by simp [hus.1], ih hus.2⟩

/-- A text without line feeds needs no folds. -/
theorem Text.continued_of_forall {t : Text} (h : ∀ c ∈ t, c ≠ '\n') : t.Continued := by
  have hbreak : ∀ c ∈ t, (c == '\n') = false := fun c hc ↦ by simpa using h c hc
  have := followed_append_of_forall (q := isFoldChar) hbreak (show Followed _ _ [] from trivial)
  rwa [List.append_nil] at this

/-- Two such lists make one. The first cannot end with a `p`. -/
theorem Followed.append (hus : Followed p q us) (hxs : Followed p q xs) :
    Followed p q (us ++ xs) := by
  induction us with
  | nil => exact hxs
  | cons u us ih =>
    refine ⟨fun hu ↦ ?_, ih hus.2⟩
    have := hus.1 hu
    cases us with
    | nil => cases this
    | cons v us => exact this

/-- An end of such a list is one. -/
theorem Followed.right_of_append (h : Followed p q (us ++ xs)) : Followed p q xs := by
  induction us with
  | nil => exact h
  | cons u us ih => exact ih h.2

/-- A stretch keeps what follows its elements, but for the last of them. -/
theorem Followed.left_of_append (h : Followed p q (us ++ xs))
    (hlast : ∀ u ∈ us.getLast?, p u = false) : Followed p q us := by
  induction us with
  | nil => trivial
  | cons u us ih =>
    cases us with
    | nil => exact ⟨fun hu ↦ absurd hu (by simpa using hlast u rfl), trivial⟩
    | cons v us => exact ⟨h.1, ih h.2 hlast⟩

/-- A beginning is one if what comes after it is no `q`, as then no `p` can be at its end. -/
theorem Followed.left_of_append_cons {x : α} (h : Followed p q (us ++ x :: xs))
    (hx : q x = false) : Followed p q us := by
  induction us with
  | nil => trivial
  | cons u us ih =>
    refine ⟨fun hu ↦ ?_, ih h.2⟩
    have := h.1 hu
    cases us with
    | nil => simp [hx] at this
    | cons v us => exact this

end Followed

/-! ### Texts and their octets -/

/-- An ASCII character is an octet of its own. -/
theorem encodeChar_of_ascii {c : Char} (h : c.toNat < 0x80) :
    String.utf8EncodeChar c = [UInt8.ofNat c.toNat] := by
  have hval : c.val.toNat = c.toNat := rfl
  simp only [String.utf8EncodeChar, hval]
  rw [if_pos (by omega)]

/-- The octets of a character that is not ASCII are not ASCII. -/
theorem encodeChar_of_not_ascii {c : Char} (h : 0x80 ≤ c.toNat) :
    ∃ b bs, String.utf8EncodeChar c = b :: bs ∧ ∀ b' ∈ b :: bs, 0x80 ≤ b'.toNat := by
  have hval : c.val.toNat = c.toNat := rfl
  have hvalid := Utf8.isValidChar_toNat c
  simp only [String.utf8EncodeChar, hval]
  generalize c.toNat = v at h hvalid
  rw [if_neg (by omega)]
  split
  · refine ⟨_, _, rfl, ?_⟩
    simp
    omega
  split
  · refine ⟨_, _, rfl, ?_⟩
    simp
    omega
  · refine ⟨_, _, rfl, ?_⟩
    simp
    omega

/-- An ASCII octet of a character is all of it. -/
theorem eq_toChar_of_mem_encodeChar {c : Char} {b : UInt8} (hb : b ∈ String.utf8EncodeChar c)
    (h : b.toNat < 0x80) : c = Octet.toChar b ∧ String.utf8EncodeChar c = [b] := by
  by_cases hc : c.toNat < 0x80
  · rw [encodeChar_of_ascii hc, List.mem_singleton] at hb
    have hnat : b.toNat = c.toNat := by
      rw [hb]
      exact Utf8.toNat_ofNat_of_lt (by omega)
    rw [encodeChar_of_ascii hc, ← hb, Octet.toChar, hnat, Char.ofNat_toNat]
    exact ⟨rfl, rfl⟩
  · obtain ⟨b₀, bs, heq, hbs⟩ := encodeChar_of_not_ascii (Nat.le_of_not_lt hc)
    rw [heq] at hb
    exact absurd (hbs b hb) (Nat.not_le.2 h)

/-- Where an ASCII octet stands in the form of a text, its character stands in the text. -/
theorem exists_of_encode_eq_append_cons {t : Text} {us rest : Octets} {b : UInt8}
    (hb : b.toNat < 0x80) (h : Utf8.encode t = us ++ b :: rest) :
    ∃ u v, t = u ++ Octet.toChar b :: v ∧ us = Utf8.encode u ∧ rest = Utf8.encode v := by
  induction t generalizing us with
  | nil => exact absurd h (by simp [Utf8.encode])
  | cons c t ih =>
    rw [Utf8.encode_cons] at h
    obtain ⟨us', rfl, hrest⟩ | ⟨bs, hform, hrest⟩ := List.append_eq_append_iff.1 h
    · obtain ⟨u, v, rfl, rfl, rfl⟩ := ih hrest
      exact ⟨c :: u, v, rfl, rfl, rfl⟩
    · cases bs with
      | nil =>
        obtain ⟨u, v, rfl, hu, rfl⟩ :=
          ih (show Utf8.encode t = [] ++ b :: rest from hrest.symm)
        refine ⟨c :: u, v, rfl, ?_, rfl⟩
        rw [Utf8.encode_cons, ← hu, hform, List.append_nil, List.append_nil]
      | cons b' bs =>
        -- the octet belongs to `c`, and is all of it
        obtain rfl := (List.cons.inj hrest).1
        obtain ⟨rfl, hchar⟩ := eq_toChar_of_mem_encodeChar (c := c) (by simp [hform]) hb
        rw [hchar] at hform
        obtain ⟨rfl, rfl⟩ : us = [] ∧ bs = [] := by
          cases us with
          | nil => exact ⟨rfl, ((List.cons.inj hform).2).symm⟩
          | cons _ us => exact absurd (List.cons.inj hform).2 (by simp)
        exact ⟨[], t, rfl, rfl, (List.cons.inj hrest).2⟩

/-- Folds are the same among octets and among ASCII characters. -/
theorem isFold_ofNat : ∀ n < 0x80,
    Field.isFold (UInt8.ofNat n) = isFoldChar (Char.ofNat n) := by
  decide

/-- So are line feeds. -/
theorem isLineFeed_ofNat : ∀ n < 0x80,
    (UInt8.ofNat n == 0x0a) = (Char.ofNat n == '\n') := by
  decide

/-- An octet that is not ASCII neither folds nor breaks a line. -/
theorem isFold_eq_false {b : UInt8} (h : 0x80 ≤ b.toNat) :
    Field.isFold b = false ∧ (b == 0x0a) = false := by
  refine ⟨?_, ?_⟩
  · rw [← Bool.not_eq_true, Field.isFold, Bool.or_eq_true, beq_iff_eq, beq_iff_eq]
    rintro (rfl | rfl) <;> exact absurd h (by decide)
  · rw [← Bool.not_eq_true, beq_iff_eq]
    rintro rfl
    exact absurd h (by decide)

theorem isFoldChar_eq_false {c : Char} (h : Utf8.IsPlain c) :
    isFoldChar c = false ∧ (c == '\n') = false := by
  simp [isFoldChar, h.1, h.2.1, h.2.2]

theorem isFoldChar_of_not_ascii {c : Char} (h : 0x80 ≤ c.toNat) :
    isFoldChar c = false ∧ (c == '\n') = false := by
  rw [← Char.ofNat_toNat c]
  exact isFoldChar_eq_false (Utf8.isPlain_ofNat h)

/-! ### From texts to octets -/

/-- A text begins with a fold if its octets do. -/
theorem any_head_encode (t : Text) :
    (Utf8.encode t).head?.any Field.isFold = t.head?.any isFoldChar := by
  cases t with
  | nil => rfl
  | cons c t =>
    rw [Utf8.encode_cons]
    by_cases hc : c.toNat < 0x80
    · have := isFold_ofNat c.toNat hc
      rw [Char.ofNat_toNat] at this
      simpa [encodeChar_of_ascii hc] using this
    · obtain ⟨b, bs, heq, hbs⟩ := encodeChar_of_not_ascii (Nat.le_of_not_lt hc)
      rw [heq]
      simp [(isFold_eq_false (hbs b List.mem_cons_self)).1,
        (isFoldChar_of_not_ascii (Nat.le_of_not_lt hc)).1]

/-- Line feeds with a fold behind them are so in the octets. -/
theorem followed_encode {t : Text} (h : Followed (· == '\n') isFoldChar t) :
    Followed (· == 0x0a) Field.isFold (Utf8.encode t) := by
  induction t with
  | nil => trivial
  | cons c t ih =>
    obtain ⟨hc, ht⟩ := h
    rw [Utf8.encode_cons]
    by_cases hascii : c.toNat < 0x80
    · rw [encodeChar_of_ascii hascii, List.singleton_append]
      refine ⟨fun hbreak ↦ ?_, ih ht⟩
      have hlf : (UInt8.ofNat c.toNat == 0x0a) = true := hbreak
      rw [isLineFeed_ofNat _ hascii, Char.ofNat_toNat] at hlf
      rw [any_head_encode]
      exact hc hlf
    · obtain ⟨b, bs, heq, hbs⟩ := encodeChar_of_not_ascii (Nat.le_of_not_lt hascii)
      rw [heq]
      exact followed_append_of_forall (fun b' hb' ↦ (isFold_eq_false (hbs b' hb')).2) (ih ht)

/-- A text that survives the wire has octets that do. -/
theorem Text.WireSafe.encode {t : Text} (h : t.WireSafe) : (Utf8.encode t).WireSafe :=
  ⟨by rw [any_head_encode, h.head], followed_encode h.breaks⟩

/-! ### From octets to texts -/

/-- What octets are read as after the character `begun` was begun. -/
def readFrom (begun : Option Utf8.Begun) (bs : Octets) : Text :=
  (Utf8.partsFrom begun bs).map Utf8.Part.toChar

/-- A character that was begun does not end as a fold. -/
theorem any_head_readFrom_some {p : Utf8.Begun} (hp : p.IsLong) (bs : Octets) :
    (readFrom (some p) bs).head?.any isFoldChar = false := by
  induction bs generalizing p with
  | nil => rfl
  | cons b bs ih =>
    rw [readFrom]
    rcases Utf8.partsFrom_some_cons hp b bs with ⟨-, ⟨c, hc, heq⟩ | ⟨q, hq, heq⟩⟩ | heq
    · rw [heq]
      exact (isFoldChar_eq_false hc).1
    · rw [heq]
      exact ih hq
    · rw [heq]
      rfl

/-- What octets are read as begins with a fold if they do. -/
theorem any_head_readFrom_none (bs : Octets) :
    (readFrom none bs).head?.any isFoldChar = bs.head?.any Field.isFold := by
  cases bs with
  | nil => rfl
  | cons b bs =>
    rw [readFrom]
    rcases Utf8.partsFrom_none_cons b bs with ⟨hb, heq⟩ | ⟨hb, ⟨p, hp, heq⟩ | heq⟩
    · rw [heq]
      simpa [Utf8.Part.toChar] using (isFold_ofNat b.toNat hb).symm
    · have := any_head_readFrom_some hp bs
      rw [readFrom] at this
      rw [heq, this]
      simp [(isFold_eq_false hb).1]
    · rw [heq]
      simp [Utf8.Part.toChar, (isFold_eq_false hb).1,
        (isFoldChar_eq_false Utf8.isPlain_replacement).1]

/-- A character that is neither a line feed nor a fold can be put in front. -/
theorem followed_cons_of_isPlain {c : Char} {t : Text} (hc : Utf8.IsPlain c)
    (ht : Followed (· == '\n') isFoldChar t) : Followed (· == '\n') isFoldChar (c :: t) :=
  ⟨by simp [(isFoldChar_eq_false hc).2], ht⟩

/-- A line feed is read as one, and what comes after it is read on its own. -/
theorem followed_readFrom {bs : Octets} (h : Followed (· == 0x0a) Field.isFold bs) :
    Followed (· == '\n') isFoldChar (readFrom none bs) ∧
      ∀ p : Utf8.Begun, p.IsLong → Followed (· == '\n') isFoldChar (readFrom (some p) bs) := by
  induction bs with
  | nil => exact ⟨trivial, fun _ _ ↦ followed_cons_of_isPlain Utf8.isPlain_replacement trivial⟩
  | cons b bs ih =>
    obtain ⟨hb, hbs⟩ := h
    obtain ⟨ihNone, ihSome⟩ := ih hbs
    have hnone : Followed (· == '\n') isFoldChar (readFrom none (b :: bs)) := by
      rw [readFrom]
      rcases Utf8.partsFrom_none_cons b bs with ⟨hascii, heq⟩ | ⟨-, ⟨p, hp, heq⟩ | heq⟩
      · rw [heq]
        refine ⟨fun hbreak ↦ ?_, ihNone⟩
        have hlf : (Char.ofNat b.toNat == '\n') = true := hbreak
        rw [← isLineFeed_ofNat _ hascii, UInt8.ofNat_toNat] at hlf
        rw [← readFrom, any_head_readFrom_none]
        exact hb hlf
      · rw [heq]
        exact ihSome p hp
      · rw [heq]
        exact followed_cons_of_isPlain Utf8.isPlain_replacement ihNone
    refine ⟨hnone, fun p hp ↦ ?_⟩
    -- an octet that does not go on with `p` is read as if nothing had been begun
    rw [readFrom]
    rcases Utf8.partsFrom_some_cons hp b bs with ⟨-, ⟨c, hc, heq⟩ | ⟨q, hq, heq⟩⟩ | heq
    · rw [heq]
      exact followed_cons_of_isPlain hc ihNone
    · rw [heq]
      exact ihSome q hq
    · rw [heq]
      exact followed_cons_of_isPlain Utf8.isPlain_replacement hnone

/-- **What is read of octets that survive the wire survives it too**, whatever is ill-formed in
them. -/
theorem Octets.WireSafe.decodeLossy {bs : Octets} (h : bs.WireSafe) :
    (Utf8.decodeLossy bs).WireSafe :=
  ⟨(any_head_readFrom_none bs).trans h.head, (followed_readFrom h.breaks).1⟩

/-! ### Values on the wire -/

/-- A line ending that is there is dropped. -/
theorem dropEnding_append {α : Type} [BEq α] [LawfulBEq α] (xs ending : List α) :
    Run.dropEnding ending (xs ++ ending) = xs := by
  have hsuffix : ending.isSuffixOf (xs ++ ending) = true :=
    List.isSuffixOf_iff_suffix.2 (List.suffix_append xs ending)
  rw [Run.dropEnding, if_pos hsuffix, List.length_append, Nat.add_sub_cancel, List.take_left]

/-- The ending is dropped or is not there. -/
theorem dropEnding_eq_or {α : Type} [BEq α] [LawfulBEq α] (xs ending : List α) :
    Run.dropEnding ending xs = xs ∨ xs = Run.dropEnding ending xs ++ ending := by
  by_cases h : ending.isSuffixOf xs = true
  · obtain ⟨us, rfl⟩ := List.isSuffixOf_iff_suffix.1 h
    rw [dropEnding_append]
    exact Or.inr rfl
  · rw [Run.dropEnding, if_neg h]
    exact Or.inl rfl

/-- A line feed that no fold follows ends a value. -/
theorem splitValue_append {vs rest : Octets} (hvs : Followed (· == 0x0a) Field.isFold vs)
    (hrest : rest.head?.any Field.isFold = false) :
    Field.splitValue (vs ++ 0x0d :: 0x0a :: rest) = (vs ++ [0x0d], rest) := by
  induction vs with
  | nil => simp [Field.splitValue, hrest]
  | cons v vs ih =>
    obtain ⟨hv, hvs⟩ := hvs
    have hgoes : (v == 0x0a && !(vs ++ 0x0d :: 0x0a :: rest).head?.any Field.isFold) = false := by
      cases hlf : v == 0x0a with
      | false => rfl
      | true =>
        have := hv hlf
        cases vs with
        | nil => cases this
        | cons w vs => simpa using this
    rw [List.cons_append, Field.splitValue, hgoes, ih hvs]
    rfl

/-- A value that survives the wire is read as it was written. -/
theorem readValue_append {vs rest : Octets} (hvs : vs.WireSafe)
    (hrest : rest.head?.any Field.isFold = false) :
    Field.readValue ((0x20 :: (vs ++ 0x0d :: 0x0a :: rest)).dropWhile Field.isFold) =
      (vs, rest) := by
  have hdrop : (0x20 :: (vs ++ 0x0d :: 0x0a :: rest)).dropWhile Field.isFold =
      vs ++ 0x0d :: 0x0a :: rest := by
    rw [List.dropWhile_cons_of_pos (by decide)]
    cases vs with
    | nil => rw [List.nil_append, List.dropWhile_cons_of_neg (by decide)]
    | cons v vs =>
      have := hvs.head
      rw [List.cons_append, List.dropWhile_cons_of_neg (by simpa using this)]
  rw [hdrop, Field.readValue, splitValue_append hvs.breaks hrest]
  simp only [dropEnding_append]

/-- What stands before the end of a value is a first stretch of the octets. -/
theorem head_splitValue (bs : Octets) :
    (Field.splitValue bs).1 = [] ∨ (Field.splitValue bs).1.head? = bs.head? := by
  cases bs with
  | nil => exact Or.inl rfl
  | cons b bs =>
    rw [Field.splitValue]
    split
    · exact Or.inl rfl
    · exact Or.inr rfl

/-- A field goes on behind a line feed only if a fold is there, so the value that is split off is
one that survives. -/
theorem followed_splitValue (bs : Octets) :
    Followed (· == 0x0a) Field.isFold (Field.splitValue bs).1 := by
  induction bs with
  | nil => trivial
  | cons b bs ih =>
    rw [Field.splitValue]
    split
    · trivial
    · rename_i hends
      refine ⟨fun hlf ↦ ?_, ih⟩
      have hfold : bs.head?.any Field.isFold = true := by simpa [eq_of_beq hlf] using hends
      cases bs with
      | nil => cases hfold
      | cons b' bs =>
        have hne : (b' == 0x0a) = false := by
          rw [← Bool.not_eq_true, beq_iff_eq]
          rintro rfl
          have hno : Field.isFold 0x0a = false := by decide
          rw [List.head?_cons, Option.any_some, hno] at hfold
          cases hfold
        rw [Field.splitValue, hne]
        exact hfold

/-- It does without a CR at its end. -/
theorem Octets.WireSafe.dropEnding {bs : Octets} (h : bs.WireSafe) :
    Octets.WireSafe (Run.dropEnding [0x0d] bs) := by
  rcases dropEnding_eq_or bs [0x0d] with heq | heq
  · rwa [heq]
  · generalize Run.dropEnding [0x0d] bs = vs at heq
    subst heq
    refine ⟨?_, h.breaks.left_of_append_cons (by decide)⟩
    cases vs with
    | nil => rfl
    | cons v vs => exact h.head

/-- Every value that is read off the wire survives it. -/
theorem wireSafe_readValue (bs : Octets) :
    (Field.readValue (bs.dropWhile Field.isFold)).1.WireSafe := by
  have hhead : (Field.splitValue (bs.dropWhile Field.isFold)).1.head?.any Field.isFold =
      false := by
    rcases head_splitValue (bs.dropWhile Field.isFold) with h | h
    · rw [h]
      rfl
    · have := List.head?_dropWhile_not Field.isFold bs
      rw [h]
      cases hd : (bs.dropWhile Field.isFold).head? with
      | none => rfl
      | some b =>
        rw [hd] at this
        simpa using this
  exact Octets.WireSafe.dropEnding ⟨hhead, followed_splitValue _⟩

end InternetMail
