import InternetMail.Proofs.Address.Elements
import InternetMail.Proofs.Address.LeftOpen
import InternetMail.Proofs.Address.Members

/-!
# The text of a group in incoming mail

The text of a group ends with a semicolon: its own, or one that is put there because it was missing
(`exists_sourceOf_group`). If all tokens of the group are closed, this text is read as the same
tokens again and a semicolon (`exists_tokenize_semicolon`). If the last one is left open, the
semicolon becomes part of it (`exists_tokenize_open`).

The text is told to be that of a group unless nothing but white space stands in front of the colon
(`isGroupText_sourceOf_iff`). A name can be white space that is no blank to the reader of tokens.

Reading the text of a group takes its tokens from the list in which they stood. So they are the same
tokens but for two things: they begin so many octets earlier, and the last of them has no blanks
after it (`SameTokens`). What is read of such tokens is the same, by the lemmas on tokens at another
place. A text that is trimmed loses white space in front, and there the tokens have none but in a
name that is all white space (`white_or_exists_of_tokensFrom`).
-/

namespace InternetMail

open Reported

variable {s : Strictness} {position d : Nat} {t gap : Text} {before after us ts : List Token}
variable {u : Token} {phrase members : List Token} {colon : Token} {close : Option Token}

/-! ### The same tokens elsewhere -/

/-- The tokens are those of `ts`, but for the blanks after them, and begin `d` octets earlier. -/
def SameTokens (d : Nat) (us ts : List Token) : Prop :=
  us.map (Token.tight ∘ Token.moved d) = ts.map Token.tight

theorem relocates_tight_moved (d : Nat) : Relocates d (Token.tight ∘ Token.moved d) :=
  ⟨fun _ ↦ rfl, fun _ ↦ rfl, fun _ ↦ rfl, fun _ ↦ rfl⟩

namespace SameTokens

/-- Such tokens have the same kinds. -/
theorem sameKinds (h : SameTokens d us ts) : SameKinds us ts := by
  have hkinds := congrArg (List.map Token.kind) h
  rw [List.map_map, List.map_map] at hkinds
  exact hkinds

/-- A token of the one list has its counterpart in the other, and so have those before and after it.
-/
theorem exists_of_append_cons {ts₁ ts₂ : List Token} {t : Token}
    (h : SameTokens d us (ts₁ ++ t :: ts₂)) :
    ∃ us₁ u us₂, us = us₁ ++ u :: us₂ ∧ SameTokens d us₁ ts₁ ∧ u.kind = t.kind ∧
      SameTokens d us₂ ts₂ := by
  rw [SameTokens, List.map_append, List.map_cons, List.map_eq_append_iff] at h
  obtain ⟨us₁, rest, rfl, h₁, hrest⟩ := h
  obtain ⟨u, us₂, rfl, hu, h₂⟩ := List.map_eq_cons_iff.1 hrest
  have hkind : (Token.tight (u.moved d)).kind = t.tight.kind := congrArg Token.kind hu
  exact ⟨us₁, u, us₂, rfl, h₁, hkind, h₂⟩

/-- They are read as the same mailboxes. -/
theorem outcome_mailboxesOfAll_iff (h : SameTokens d us ts) {as : List Address} :
    outcome (mailboxesOfAll s (splitMailboxes false us)) = .ok as ↔
      outcome (mailboxesOfAll s (splitMailboxes false ts)) = .ok as := by
  have hus := (relocates_tight_moved d).alike_mailboxesOfAll (s := s) (splitMailboxes false us)
  have hts := relocates_tight.alike_mailboxesOfAll (s := s) (splitMailboxes false ts)
  rw [← (relocates_tight_moved d).splitMailboxes_map, h, relocates_tight.splitMailboxes_map] at hus
  exact (hus.symm.trans hts).outcome_eq_ok_iff as

end SameTokens

/-- Tokens are the same where they are put, before other blanks. -/
theorem sameTokens_placed (h : Consecutive position (us ++ u :: ts)) (gap : Text) :
    SameTokens position (placed 0 (us ++ [u.before gap])) (us ++ [u]) := by
  have hplaced := placed_add 0 position (us ++ [u.before gap])
  rw [Nat.zero_add, (h.concat gap).placed_eq] at hplaced
  rw [SameTokens, ← List.map_map, ← hplaced]
  simp [Token.tight, Token.before]

/-! ### Stretches with a semicolon behind them -/

/-- No special character is a blank. -/
theorem isBlankChar_eq_false_of_isSpecial {c : Char} (h : isSpecial c = true) :
    isBlankChar c = false := by
  rw [← Bool.not_eq_true]
  intro hblank
  have hwhite := isWhite_eq_false_of_isSpecial h
  rw [isWhite_of_isBlankChar hblank] at hwhite
  cases hwhite

/-- A semicolon is read as a token at any place. -/
theorem exists_tokensFrom_semicolon (s : Strictness) (position : Nat) :
    ∃ semicolon : Token, semicolon.isSpecial ';' = true ∧
      tokensFrom s position [';'] = .ok [semicolon] := by
  obtain ⟨semicolon, d, hsemi, -, hread⟩ :=
    exists_tokensFrom_special (s := s) (c := ';') (by decide) position []
  rw [hread, List.dropWhile_nil, tokensFrom]
  exact ⟨semicolon, hsemi, rfl⟩

/-- The text of a stretch is read from its first token on. -/
theorem tokenize_sourceOf_append (h : tokensFrom s position t = .ok (us ++ u :: ts))
    (ht : ∀ c ∈ t.head?, isBlankChar c = false) (z : Text) :
    tokenize s (sourceOf (us ++ [u]) ++ z) = tokensFrom s 0 (writtenOf us ++ (u.raw ++ z)) := by
  have hne := raw_ne_nil_of_tokensFrom h (u := u) (by simp)
  have hhead : ∀ c ∈ (writtenOf us ++ (u.raw ++ z)).head?, isBlankChar c = false := by
    rwa [head_writtenOf_append hne us ts, ← (tiles_of_tokensFrom h).1]
  rw [sourceOf_concat, List.append_assoc]
  exact tokenize_append (List.forall_mem_nil _) hhead

/-- A stretch of closed tokens is read again from its text, with a semicolon behind it. -/
theorem exists_tokenize_semicolon (h : tokenize s t = .ok (before ++ (us ++ u :: after)))
    (hclosed : ∀ v ∈ us ++ [u], v.closed = true) (hgap : ∀ c ∈ gap, isBlankChar c = true) :
    ∃ d vs semicolon, tokenize s (sourceOf (us ++ [u]) ++ (gap ++ [';'])) =
        .ok (vs ++ [semicolon]) ∧
      semicolon.isSpecial ';' = true ∧ SameTokens d vs (us ++ [u]) := by
  obtain ⟨position, y, hy, hhead⟩ := exists_tokensFrom_right h (head_dropWhile_isBlankChar t)
  have hends : EndsAtom [';'] := by simp [EndsAtom, isSpecial]
  have hread := tokensFrom_stretch hy hclosed hgap (z := [';']) (by simp [isBlankChar])
    (hends.append_left hgap) 0
  obtain ⟨semicolon, hsemi, hlast⟩ := exists_tokensFrom_semicolon s
    (0 + Text.utf8Size (writtenOf (us ++ [u.before gap])))
  refine ⟨position, placed 0 (us ++ [u.before gap]), semicolon, ?_, hsemi, ?_⟩
  · rw [tokenize_sourceOf_append hy hhead, hread, hlast]
    rfl
  · exact sameTokens_placed (tiles_of_tokensFrom hy).2 gap

/-- With a token behind it that is left open, a stretch is read again too, and the semicolon is part
of that token. -/
theorem exists_tokenize_open (h : tokenize .parseHeader t = .ok (before ++ (us ++ u :: after)))
    (hopen : u.closed = false) (hne : us ≠ []) :
    ∃ d vs w, tokenize .parseHeader (sourceOf (us ++ [u]) ++ [';']) = .ok (vs ++ [w]) ∧
      w.kind = u.kind ∧ SameTokens d vs us := by
  obtain ⟨position, y, hy, hhead⟩ := exists_tokensFrom_right h (head_dropWhile_isBlankChar t)
  have hclosed := closed_of_tokensFrom_append hy (List.cons_ne_nil u after)
  obtain ⟨_, _, hlast, -⟩ := exists_tokensFrom_right hy hhead
  obtain ⟨c, raw, hraw, hc⟩ := isSpecial_head_of_open hlast hopen
  -- what comes in front is read up to the token that is left open
  obtain ⟨us, v, rfl⟩ := (List.eq_nil_or_concat' us).resolve_left hne
  have hblank := blank_of_tokensFrom hy (u := v) (by simp)
  have hends : EndsAtom (u.raw ++ [';']) := by simp [EndsAtom, hraw, hc]
  have hstart : ∀ d ∈ (u.raw ++ [';']).head?, isBlankChar d = false := by
    simpa [hraw] using isBlankChar_eq_false_of_isSpecial hc
  rw [tokenize_sourceOf_append hy hhead]
  rw [List.append_assoc, List.singleton_append] at hy
  have hread := tokensFrom_stretch hy hclosed hblank hstart (hends.append_left hblank) 0
  have hself : v.before v.gap = v := rfl
  obtain ⟨w, hw, hkind⟩ := exists_tokensFrom_concat_of_open hlast hopen
    (0 + Text.utf8Size (writtenOf (us ++ [v])))
  rw [hself, hw] at hread
  refine ⟨position, placed 0 (us ++ [v]), w, by simpa [Except.map] using hread, hkind, ?_⟩
  exact sameTokens_placed (tiles_of_tokensFrom hy).2 v.gap

/-! ### White space in front of the colon -/

/-- The tokens are white space, as atoms of other scripts can be. -/
def AllWhite (ts : List Token) : Prop :=
  ∀ u ∈ ts, ∀ c ∈ u.raw, isWhite c = true

instance (ts : List Token) : Decidable (AllWhite ts) :=
  inferInstanceAs (Decidable (∀ u ∈ ts, ∀ c ∈ u.raw, isWhite c = true))

/-- A token that is not white is a colon if a colon is the first of it that is not white. -/
theorem white_or_exists_of_tokensFrom (h : tokensFrom s position t = .ok ts)
    (hu : u ∈ ts) :
    (u.kind = .atom ∧ ∀ c ∈ u.raw, isWhite c = true) ∨
      ∃ white c raw, u.raw = white ++ c :: raw ∧ (∀ d ∈ white, isWhite d = true) ∧
        isWhite c = false ∧ (c = ':' → u.isSpecial ':' = true) := by
  obtain ⟨c, t, b, -, hb, hread⟩ := exists_tokenBody_of_mem h hu
  have hkind : u.kind = TokenKind.ofFirst c := by rw [hread]
  have hraw : u.raw = b.raw := by rw [hread]
  by_cases hatom : TokenKind.ofFirst c = .atom
  · have hspecial := isSpecial_eq_false_of_tokenBody hb hatom
    cases hd : b.raw.dropWhile isWhite with
    | nil => exact Or.inl ⟨hkind.trans hatom, by simpa [hraw] using hd⟩
    | cons d raw =>
      obtain ⟨heq, hwhite, hd⟩ := Run.dropWhile_eq_cons_iff.1 ⟨hd, rfl⟩
      refine Or.inr ⟨_, d, raw, hraw.trans heq, hwhite, hd, ?_⟩
      rintro rfl
      have := hspecial ':' (by rw [heq]; simp)
      cases this
  · obtain ⟨raw, hcons⟩ := exists_raw_eq_cons_of_tokenBody hb
    rw [ofFirst_eq_atom_iff, Bool.not_eq_false] at hatom
    refine Or.inr ⟨[], c, raw, hraw.trans hcons, by simp, isWhite_eq_false_of_isSpecial hatom, ?_⟩
    rintro rfl
    exact Token.isSpecial_iff.2 hkind

/-- No colon is the first in a name that is not white. -/
theorem head_dropWhile_writtenOf (h : tokensFrom s position t = .ok ts)
    (hsub : phrase ⊆ ts) (hu : Unbroken (endsElement false) false phrase) :
    ∀ c ∈ ((writtenOf phrase).dropWhile isWhite).head?, c ≠ ':' := by
  induction phrase with
  | nil => simp
  | cons u us ih =>
    rw [List.cons_subset] at hsub
    obtain ⟨hends, hus⟩ := hu
    have hgap : ∀ c ∈ u.gap, isWhite c = true := fun c hc ↦
      isWhite_of_isBlankChar (blank_of_tokensFrom h hsub.1 c hc)
    rcases white_or_exists_of_tokensFrom h hsub.1 with
      ⟨hatom, hraw⟩ | ⟨white, c, raw, hraw, hwhite, hc, hcolon⟩
    · have hbracket : bracketAfter false u = false := by
        simp [bracketAfter, Token.isSpecial, hatom]
      rw [hbracket] at hus
      rw [writtenOf_cons, List.dropWhile_append_of_pos (List.forall_mem_append.2 ⟨hraw, hgap⟩)]
      exact ih hsub.2 hus
    · rw [writtenOf_cons, hraw, List.append_assoc, List.append_assoc, List.cons_append,
        Run.dropWhile_append_cons _ hwhite hc]
      rintro _ ⟨⟩ rfl
      cases hends (endsElement_of_isSpecial_colon false (hcolon rfl))

/-- The text of a name is all white space exactly if its tokens are. -/
theorem dropWhile_writtenOf_eq_nil_iff (h : tokensFrom s position t = .ok ts)
    (hsub : phrase ⊆ ts) : (writtenOf phrase).dropWhile isWhite = [] ↔ AllWhite phrase := by
  rw [List.dropWhile_eq_nil_iff]
  simp only [writtenOf, List.mem_flatMap, List.mem_append, forall_exists_index, and_imp, AllWhite]
  constructor
  · exact fun hall u hu c hc ↦ hall c u hu (Or.inl hc)
  · rintro hall c u hu (hc | hc)
    · exact hall u hu c hc
    · exact isWhite_of_isBlankChar (blank_of_tokensFrom h (hsub hu) c hc)

/-- A text with a colon and a semicolon at its end looks like a group if something stands in front
of the first colon. -/
theorem isGroupText_trim_append {x : Text} (y : Text)
    (hx : ∀ c ∈ (x.dropWhile isWhite).head?, c ≠ ':') :
    Address.isGroupText (Text.trim (x ++ ':' :: (y ++ [';']))) = true ↔
      x.dropWhile isWhite ≠ [] := by
  have hend : Run.stripEnd isWhite (y ++ [';']) = y ++ [';'] :=
    Run.stripEnd_append_cons y [] (by decide)
  rw [Text.trim, Run.strip_append_cons _ _ (by decide), hend, Address.isGroupText]
  cases hd : x.dropWhile isWhite with
  | nil => simp
  | cons c x =>
    rw [hd] at hx
    have hlast : (c :: x ++ ':' :: (y ++ [';'])).getLast? = some ';' := by
      rw [← List.cons_append, ← List.append_assoc, List.getLast?_concat]
    rw [hlast]
    simpa using hx c rfl

/-! ### The text of a group -/

/-- The text of a group ends with a semicolon, its own or the one that was missing. -/
theorem exists_sourceOf_group (h : tokensFrom s position t = .ok ts)
    (hbody : phrase ++ colon :: members ⊆ ts) (hclose : close.toList ⊆ ts)
    (hsemi : ∀ semicolon ∈ close, semicolon.isSpecial ';' = true) :
    ∃ gap, (∀ c ∈ gap, isBlankChar c = true) ∧
      sourceOf (phrase ++ colon :: members ++ close.toList) ++
          (if close.isNone then [';'] else []) =
        sourceOf (phrase ++ colon :: members) ++ (gap ++ [';']) := by
  cases close with
  | none => exact ⟨[], by simp, by simp⟩
  | some semicolon =>
    have hraw := raw_of_tokensFrom h (hclose (by simp)) (hsemi semicolon rfl)
    obtain ⟨us, u, heq⟩ :=
      (List.eq_nil_or_concat' (phrase ++ colon :: members)).resolve_left (by simp)
    rw [heq] at hbody ⊢
    refine ⟨u.gap, blank_of_tokensFrom h (hbody (by simp)), ?_⟩
    rw [Option.toList_some, sourceOf_concat, sourceOf_concat, hraw]
    simp

/-- The text of a group is its name as it was written, with the blanks before the colon, and the
rest. -/
theorem exists_sourceOf_colon (phrase members : List Token) (colon : Token) :
    ∃ y, sourceOf (phrase ++ colon :: members) = writtenOf phrase ++ (colon.raw ++ y) := by
  rcases List.eq_nil_or_concat' members with rfl | ⟨ms, m, rfl⟩
  · exact ⟨[], by rw [sourceOf_concat, List.append_nil]⟩
  · refine ⟨colon.gap ++ writtenOf ms ++ m.raw, ?_⟩
    rw [← List.cons_append, ← List.append_assoc, sourceOf_concat]
    simp

/-- The text of a group is told to be one unless its name is white space. -/
theorem isGroupText_sourceOf_iff (h : tokensFrom s position t = .ok ts)
    (hbody : phrase ++ colon :: members ⊆ ts) (hu : Unbroken (endsElement false) false phrase)
    (hcolon : colon.isSpecial ':' = true) (gap : Text) :
    Address.isGroupText
        (Text.trim (sourceOf (phrase ++ colon :: members) ++ (gap ++ [';']))) = true ↔
      ¬AllWhite phrase := by
  have hphrase : phrase ⊆ ts := (List.append_subset.1 hbody).1
  have hraw := raw_of_tokensFrom h (hbody (by simp)) hcolon
  obtain ⟨y, hy⟩ := exists_sourceOf_colon phrase members colon
  have htext : sourceOf (phrase ++ colon :: members) ++ (gap ++ [';']) =
      writtenOf phrase ++ ':' :: (y ++ gap ++ [';']) := by
    simp [hy, hraw]
  rw [htext, isGroupText_trim_append _ (head_dropWhile_writtenOf h hphrase hu), ne_eq,
    dropWhile_writtenOf_eq_nil_iff h hphrase]

end InternetMail
