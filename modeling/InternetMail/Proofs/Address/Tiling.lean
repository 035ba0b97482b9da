import InternetMail.Address.Token
import InternetMail.Proofs.Outcome
import Mathlib.Data.List.Basic
import Mathlib.Data.List.TakeWhile

/-!
# Where tokens stand in their text

The tokens of a text and the blanks after each of them are the text again, but for the blanks in
front (`Tiles`). So a token stands where it says, and so does a stretch of tokens with the blanks
between them (`Tiles.isSlice_raw`, `Tiles.isSlice_sourceOf`).

Octets are counted where the program counts them, so a place in the text is the size of what stands
in front of it in UTF-8. That each token says where it begins is checked once, along the reading
(`tiles_of_tokensFrom`), and from then on what stands somewhere in the text is found by putting the
text together from its tokens.

Every token is also what was read where it begins (`exists_tokenBody_of_mem`), and the tokens behind
it are those of the text that was left (`exists_of_tokensFrom_cons`). What is said of each token by
itself comes from there, without a look at the others.
-/

namespace InternetMail

/-- The text `s` stands in `t` from octet `start` up to octet `stop`. -/
def IsSlice (t : Text) (start stop : Nat) (s : Text) : Prop :=
  ∃ before after, t = before ++ s ++ after ∧ Text.utf8Size before = start ∧
    Text.utf8Size (before ++ s) = stop

/-- Tokens as they were written, each with the blanks after it. -/
def writtenOf (ts : List Token) : Text :=
  ts.flatMap fun t ↦ t.raw ++ t.gap

/-- Each token begins where the one before it and the blanks after that end, the first of them at
octet `position`. -/
def Consecutive (position : Nat) : List Token → Prop
  | [] => True
  | t :: ts => t.start = position ∧ Consecutive t.next ts

/-- The tokens make up the text, with nothing but `lead` in front of them. -/
structure Tiles (lead : Text) (ts : List Token) (t : Text) : Prop where
  eq_append : t = lead ++ writtenOf ts
  consecutive : Consecutive (Text.utf8Size lead) ts

@[simp]
theorem writtenOf_nil : writtenOf [] = [] := rfl

@[simp]
theorem writtenOf_cons (t : Token) (ts : List Token) :
    writtenOf (t :: ts) = t.raw ++ t.gap ++ writtenOf ts := rfl

@[simp]
theorem writtenOf_append (us ts : List Token) :
    writtenOf (us ++ ts) = writtenOf us ++ writtenOf ts :=
  List.flatMap_append

/-- A stretch is written as its tokens are, without the blanks after the last of them. -/
theorem sourceOf_concat (us : List Token) (t : Token) :
    sourceOf (us ++ [t]) = writtenOf us ++ t.raw := by
  induction us with
  | nil => rfl
  | cons u us ih =>
    cases us with
    | nil => simp [sourceOf]
    | cons v us =>
      rw [List.cons_append, List.cons_append, sourceOf, ← List.cons_append, ih]
      · simp
      · simp

/-- What tokens are written as is their text and the blanks after the last of them. -/
theorem exists_writtenOf_eq (ts : List Token) : ∃ gap, writtenOf ts = sourceOf ts ++ gap := by
  rcases List.eq_nil_or_concat' ts with rfl | ⟨us, u, rfl⟩
  · exact ⟨[], rfl⟩
  · exact ⟨u.gap, by simp [sourceOf_concat]⟩

/-- A stretch of tokens is part of what these were written as, without the blanks at its end. -/
theorem sourceOf_sublist (ts : List Token) : (sourceOf ts).Sublist (writtenOf ts) := by
  obtain ⟨gap, hgap⟩ := exists_writtenOf_eq ts
  rw [hgap]
  exact List.sublist_append_left _ _

/-- A token begins behind all that is written in front of it. -/
theorem Consecutive.start_eq {position : Nat} {us ts : List Token} {t : Token}
    (h : Consecutive position (us ++ t :: ts)) :
    t.start = position + Text.utf8Size (writtenOf us) := by
  induction us generalizing position with
  | nil => simpa using h.1
  | cons u us ih =>
    obtain ⟨hu, h⟩ := h
    rw [ih h, Token.next, Token.stop, hu]
    simp
    omega

/-! ### The tokens of a text -/

/-- The tokens from an octet on make up the text from there, and begin where they say. -/
theorem tiles_of_tokensFrom {s : Strictness} {position : Nat} {t : Text} {ts : List Token}
    (h : tokensFrom s position t = .ok ts) : t = writtenOf ts ∧ Consecutive position ts := by
  fun_induction tokensFrom s position t generalizing ts with
  | case1 =>
    cases h
    exact ⟨rfl, trivial⟩
  | case2 => cases h
  | case3 position c t b hb _ token =>
    rename_i ih
    obtain ⟨ts, hts, rfl⟩ := map_eq_ok_iff.1 h
    obtain ⟨hrest, hcons⟩ := ih hts
    refine ⟨?_, rfl, hcons⟩
    rw [writtenOf_cons, ← hrest, List.append_assoc, List.takeWhile_append_dropWhile]
    exact (raw_append_rest_of_tokenBody hb).symm

/-- **The tokens of a text make it up**, with the blanks in front of the first of them. -/
theorem tiles_of_tokenize {s : Strictness} {t : Text} {ts : List Token}
    (h : tokenize s t = .ok ts) : Tiles (t.takeWhile isBlankChar) ts t := by
  obtain ⟨hrest, hcons⟩ := tiles_of_tokensFrom h
  exact ⟨by rw [← hrest, List.takeWhile_append_dropWhile], hcons⟩

/-- A stretch of tokens is the text from the first of them to the end of the last. -/
theorem Tiles.isSlice_sourceOf {lead t : Text} {before us after : List Token} {first last : Token}
    (h : Tiles lead (before ++ (us ++ [last]) ++ after) t)
    (hfirst : (us ++ [last]).head? = some first) :
    IsSlice t first.start last.stop (sourceOf (us ++ [last])) := by
  refine ⟨lead ++ writtenOf before, last.gap ++ writtenOf after, ?_, ?_, ?_⟩
  · rw [sourceOf_concat, h.eq_append]
    simp
  · obtain ⟨ts, hts⟩ : ∃ ts, us ++ [last] = first :: ts := List.head?_eq_some_iff.1 hfirst
    have hcons := h.consecutive
    rw [hts, List.append_assoc, List.cons_append] at hcons
    rw [hcons.start_eq, Text.utf8Size_append]
  · have hcons := h.consecutive
    rw [← List.append_assoc, List.append_assoc, List.singleton_append] at hcons
    rw [Token.stop, hcons.start_eq, sourceOf_concat]
    simp
    omega

/-- What stands between two tokens is the text from the end of the one to the other. -/
theorem Tiles.isSlice_between {lead text : Text} {before us after : List Token} {t u : Token}
    (h : Tiles lead (before ++ t :: (us ++ u :: after)) text) :
    IsSlice text t.stop u.start (t.gap ++ writtenOf us) := by
  have hcons := h.consecutive
  have ht := hcons.start_eq
  rw [← List.cons_append, ← List.append_assoc] at hcons
  have hu := hcons.start_eq
  refine ⟨lead ++ writtenOf before ++ t.raw, u.raw ++ u.gap ++ writtenOf after, ?_, ?_, ?_⟩
  · rw [h.eq_append]
    simp
  · simp only [Token.stop, ht, Text.utf8Size_append]
  · simp only [hu, writtenOf_append, writtenOf_cons, Text.utf8Size_append]
    omega

/-- A token is the text where it stands. -/
theorem Tiles.isSlice_raw {lead t : Text} {ts : List Token} (h : Tiles lead ts t) {u : Token}
    (hu : u ∈ ts) : IsSlice t u.start u.stop u.raw := by
  obtain ⟨before, after, rfl⟩ := List.append_of_mem hu
  have h' : Tiles lead (before ++ ([] ++ [u]) ++ after) t := by simpa using h
  exact h'.isSlice_sourceOf rfl

/-! ### The tokens of a text one by one -/

section

variable {s : Strictness} {position : Nat} {x : Text} {us ts : List Token} {u : Token}

/-- What is left behind blanks does not begin with one. -/
theorem head_dropWhile_isBlankChar (t : Text) :
    ∀ c ∈ (t.dropWhile isBlankChar).head?, isBlankChar c = false := by
  intro c hc
  have := List.head?_dropWhile_not isBlankChar t
  rw [hc] at this
  simpa using this

/-- The first token is the body at the start, and the others are those of what it left. -/
theorem exists_of_tokensFrom_cons (h : tokensFrom s position x = .ok (u :: ts)) :
    ∃ c t b, x = c :: t ∧ tokenBody s position c t = .ok b ∧
      u = ⟨.ofFirst c, b.value, b.raw, position, b.rest.takeWhile isBlankChar, b.closed⟩ ∧
      tokensFrom s u.next (b.rest.dropWhile isBlankChar) = .ok ts := by
  cases x with
  | nil =>
    rw [tokensFrom] at h
    cases h
  | cons c t =>
    rw [tokensFrom] at h
    split at h
    · cases h
    · rename_i b hb
      obtain ⟨ts', hts, heq⟩ := map_eq_ok_iff.1 h
      cases heq
      exact ⟨c, t, b, rfl, hb, rfl, hts⟩

/-- The tokens behind a stretch are those of a text. -/
theorem exists_tokensFrom_right (h : tokensFrom s position x = .ok (us ++ ts))
    (hx : ∀ c ∈ x.head?, isBlankChar c = false) :
    ∃ position' y, tokensFrom s position' y = .ok ts ∧ ∀ c ∈ y.head?, isBlankChar c = false := by
  induction us generalizing position x with
  | nil => exact ⟨position, x, h, hx⟩
  | cons u us ih =>
    obtain ⟨c, t, b, -, -, -, hrest⟩ := exists_of_tokensFrom_cons h
    exact ih hrest (head_dropWhile_isBlankChar b.rest)

/-- Every token is what was read where it begins. -/
theorem exists_tokenBody_of_mem (h : tokensFrom s position x = .ok ts) (hu : u ∈ ts) :
    ∃ c t b, c :: t <:+ x ∧ tokenBody s u.start c t = .ok b ∧
      u = ⟨.ofFirst c, b.value, b.raw, u.start, b.rest.takeWhile isBlankChar, b.closed⟩ := by
  induction ts generalizing position x with
  | nil => cases hu
  | cons v ts ih =>
    obtain ⟨c, t, b, rfl, hb, hv, hrest⟩ := exists_of_tokensFrom_cons h
    rcases List.mem_cons.1 hu with rfl | hu
    · have hstart : u.start = position := by rw [hv]
      exact ⟨c, t, b, List.suffix_rfl, hstart ▸ hb, hstart ▸ hv⟩
    · obtain ⟨d, y, b', hsuffix, hread⟩ := ih hrest hu
      have hleft : b.rest.dropWhile isBlankChar <:+ c :: t := by
        rw [← raw_append_rest_of_tokenBody hb]
        exact (List.dropWhile_suffix _).trans (List.suffix_append _ _)
      exact ⟨d, y, b', hsuffix.trans hleft, hread⟩

/-- No token is empty. -/
theorem raw_ne_nil_of_tokensFrom (h : tokensFrom s position x = .ok ts) (hu : u ∈ ts) :
    u.raw ≠ [] := by
  obtain ⟨c, t, b, -, hb, hread⟩ := exists_tokenBody_of_mem h hu
  rw [hread]
  exact raw_ne_nil_of_tokenBody hb

/-- What stands behind a token up to the next is blanks. -/
theorem blank_of_tokensFrom (h : tokensFrom s position x = .ok ts) (hu : u ∈ ts) :
    ∀ c ∈ u.gap, isBlankChar c = true := by
  obtain ⟨c, t, b, -, -, hread⟩ := exists_tokenBody_of_mem h hu
  rw [hread]
  exact fun d hd ↦ List.mem_takeWhile_imp hd

/-- The text of a token begins with the character it was read at. -/
theorem exists_raw_eq_cons_of_tokenBody {c : Char} {t : Text} {b : TokenBody}
    (h : tokenBody s position c t = .ok b) : ∃ raw, b.raw = c :: raw := by
  obtain ⟨d, raw, hraw⟩ := List.exists_cons_of_ne_nil (raw_ne_nil_of_tokenBody h)
  have hwhole := raw_append_rest_of_tokenBody h
  rw [hraw, List.cons_append, List.cons.injEq] at hwhole
  exact ⟨raw, hwhole.1 ▸ hraw⟩

/-- No token begins with a blank. -/
theorem isBlankChar_head_raw (h : tokenize s x = .ok ts) {t : Token} (ht : t ∈ ts) :
    ∀ c ∈ t.raw.head?, isBlankChar c = false := by
  obtain ⟨us, vs, rfl⟩ := List.append_of_mem ht
  obtain ⟨position', y, hy, hhead⟩ := exists_tokensFrom_right h (head_dropWhile_isBlankChar x)
  obtain ⟨c, raw, hraw⟩ :=
    List.exists_cons_of_ne_nil (raw_ne_nil_of_tokensFrom hy (u := t) (by simp))
  rw [(tiles_of_tokensFrom hy).1] at hhead
  simpa [hraw] using hhead

end

end InternetMail
