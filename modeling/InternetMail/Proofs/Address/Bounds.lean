import InternetMail.Proofs.Address.ListPlaces
import InternetMail.Proofs.Address.RecoveredGroup

/-!
# Addresses are read within bounds

Each of the three ways to read addresses from a text can be gone by positions alone, with places in
the list of tokens and octets of the text (`Indexed.parseList`, `Indexed.parse`,
`Indexed.membersOf`). This gives the same addresses and the same faults, whatever the text and the
strictness are, and not one of the positions that are looked up lies outside what it points into. A
fault names that text and that strictness, and an octet of it where a character begins or the text
ends (`Indexed.staysInside`).

From the tokens on, the proof goes by `Follows`: each part of the reading by places follows the same
part of the reading by tokens, which has no positions to look up. What is left here is how a group
is taken apart for its members, which goes by the first colon and the last semicolon of its text,
and what is done when there is more than one address. The result is about the whole reading, from
the text: that the tokens make up the text (`Tiles`) is part of what is followed there
(`read_follows`).
-/

namespace InternetMail

open Reported

/-! ### The places of a group -/

namespace Indexed

variable {s : Strictness} {t lead : Text} {ts us rest phrase : List Token} {colon : Token}

/-- One step of looking for the colon of a group. -/
theorem colonFrom?_cons (bracket : Bool) (i : Nat) (u : Token) (us : List Lexeme) :
    colonFrom? bracket i (u.lexeme :: us) =
      if u.isSpecial ':' && !bracket then some i
      else colonFrom? (bracketAfter bracket u) (i + 1) us := by
  rw [colonFrom?, bracketAfter]
  simp only [Token.isSpecial_lexeme]
  by_cases hopen : u.isSpecial '<' = true
  · simp [hopen, Token.isSpecial_eq_false hopen (show '<' ≠ ':' by decide)]
  by_cases hclose : u.isSpecial '>' = true
  · simp [hopen, hclose, Token.isSpecial_eq_false hclose (show '>' ≠ ':' by decide)]
  · simp [hopen, hclose]

/-- The colon is found at the place that its phrase ends. -/
theorem colonFrom?_eq (bracket : Bool) (i : Nat) (us : List Token) :
    colonFrom? bracket i (us.map Token.lexeme) =
      (groupParts? bracket us).map (i + ·.1.length) := by
  induction us generalizing bracket i with
  | nil => rfl
  | cons u us ih =>
    rw [List.map_cons, colonFrom?_cons, groupParts?]
    split
    · rfl
    · rw [ih, Option.map_map]
      congr 1
      funext parts
      obtain ⟨phrase, colon, rest⟩ := parts
      simp only [Function.comp_apply, List.length_cons]
      omega

/-- A group is its phrase, a colon and the rest. -/
theorem eq_append_of_groupParts? {bracket : Bool}
    (h : groupParts? bracket us = some (phrase, colon, rest)) :
    us = phrase ++ colon :: rest ∧ colon.isSpecial ':' = true := by
  induction us generalizing bracket phrase with
  | nil => cases h
  | cons u us ih =>
    rw [groupParts?] at h
    split at h
    · rename_i hcolon
      cases h
      exact ⟨rfl, (Bool.and_eq_true_iff.1 hcolon).1⟩
    · obtain ⟨⟨phrase, colon, rest⟩, hparts, heq⟩ := Option.map_eq_some_iff.1 h
      cases heq
      obtain ⟨rfl, hcolon⟩ := ih hparts
      exact ⟨rfl, hcolon⟩

/-- The last semicolon of two lists is that of the second, or else of the first. -/
theorem lastSemicolon?_append (us vs : List Lexeme) :
    lastSemicolon? (us ++ vs) =
      ((lastSemicolon? vs).map (us.length + ·)).or (lastSemicolon? us) := by
  induction us with
  | nil => simp [lastSemicolon?]
  | cons u us ih =>
    rw [List.cons_append, lastSemicolon?, ih, lastSemicolon?]
    cases lastSemicolon? vs with
    | none => simp
    | some k => simp; omega

/-- It stands where the tokens before it end. -/
theorem lastSemicolon?_eq (us : List Token) :
    lastSemicolon? (us.map Token.lexeme) = (beforeLastSemicolon? us).map List.length := by
  induction us using List.reverseRecOn with
  | nil => rfl
  | append_singleton us u ih =>
    rw [List.map_append, lastSemicolon?_append, ih]
    cases hsemi : u.isSpecial ';' with
    | true => simp [lastSemicolon?, hsemi, beforeLastSemicolon?_concat us hsemi]
    | false => simp [lastSemicolon?, hsemi, beforeLastSemicolon?_concat_of_not us hsemi]

/-- It is one of the tokens. -/
theorem lt_length_of_lastSemicolon? {k : Nat}
    (h : lastSemicolon? (us.map Token.lexeme) = some k) : k < us.length := by
  rw [lastSemicolon?_eq, Option.map_eq_some_iff] at h
  obtain ⟨before, hbefore, rfl⟩ := h
  obtain ⟨semicolon, rest, rfl⟩ := exists_eq_of_beforeLastSemicolon hbefore
  simp

/-- The last semicolon of a group stands among its members, or in front of its colon. -/
theorem lastSemicolon?_group (hcolon : colon.isSpecial ':' = true) :
    lastSemicolon? ((phrase ++ colon :: rest).map Token.lexeme) =
      ((beforeLastSemicolon? rest).map fun members ↦ phrase.length + 1 + members.length).or
        (lastSemicolon? (phrase.map Token.lexeme)) := by
  have hnot := Token.isSpecial_eq_false hcolon (show ':' ≠ ';' by decide)
  have hname : lastSemicolon? ((phrase ++ [colon]).map Token.lexeme) =
      lastSemicolon? (phrase.map Token.lexeme) := by
    rw [lastSemicolon?_eq, lastSemicolon?_eq, beforeLastSemicolon?_concat_of_not phrase hnot]
  rw [List.append_cons, List.map_append, lastSemicolon?_append, hname, lastSemicolon?_eq,
    Option.map_map, List.length_map, List.length_append]
  rfl

/-- The members of a group are read from the place behind its colon up to that of its semicolon, or
up to the end. -/
theorem groupMembers_follows (htiles : Tiles lead ts t) :
    Follows s t Eq (ofTokens s t ts).groupMembers (outcome (InternetMail.groupMembers s ts)) := by
  have hcolon : colonFrom? false 0 (ofTokens s t ts).lexemes = _ := colonFrom?_eq false 0 ts
  rw [groupMembers, hcolon, InternetMail.groupMembers]
  cases hparts : groupParts? false ts with
  | none => exact .ok rfl
  | some parts =>
    obtain ⟨phrase, colon, rest⟩ := parts
    obtain ⟨rfl, hspecial⟩ := eq_append_of_groupParts? hparts
    have hsemi : lastSemicolon? (ofTokens s t (phrase ++ colon :: rest)).lexemes = _ :=
      lastSemicolon?_group hspecial
    rw [hsemi, Option.map_some]
    dsimp only
    rw [Nat.zero_add]
    -- the last semicolon stands behind the colon, or before it, or is missing
    cases hbefore : beforeLastSemicolon? rest with
    | none =>
      rw [Option.map_none, Option.none_or]
      cases hlast : lastSemicolon? (phrase.map Token.lexeme) with
      | none => exact .ok rfl
      | some k =>
        dsimp only
        rw [if_pos (lt_length_of_lastSemicolon? hlast)]
        exact .ok rfl
    -- the places of the name and of the members, as stretches of the list
    | some members =>
      obtain ⟨semicolon, after, rfl⟩ := exists_eq_of_beforeLastSemicolon hbefore
      have hname := Stretch.of_append [] phrase (colon :: (members ++ semicolon :: after))
      have hmembers := Stretch.of_append (phrase ++ [colon]) members (semicolon :: after)
      rw [List.nil_append, List.length_nil, Nat.zero_add] at hname
      rw [List.append_assoc, List.append_assoc, List.singleton_append,
        List.length_append] at hmembers
      rw [Option.map_some, Option.some_or]
      dsimp only
      rw [if_neg (by omega), outcome_bind, outcome_liftExcept]
      refine (checkGroupName_follows htiles (by simp) hname).bind_eq fun _ ↦ ?_
      rw [outcome_bind]
      exact (list_follows htiles hmembers).bind_eq fun _ ↦ .ok rfl

/-! ### Readings of a text -/

/-- The tokens of the text, and that they make it up. -/
theorem read_follows (s : Strictness) (t : Text) :
    Follows s t (fun p ts ↦ p = ofTokens s t ts ∧ Tiles (t.takeWhile isBlankChar) ts t) (read s t)
      (outcome (readTokens s t)) := by
  have h := Cursor.tokenize_follows s t
  have htiles : ∀ ts, tokenize s t = .ok ts → Tiles _ ts t := fun _ ↦ tiles_of_tokenize
  rw [read, outcome_readTokens]
  generalize tokenize s t = y at h htiles ⊢
  generalize Cursor.tokenize s t = x at h ⊢
  cases h with
  | error h => exact .error h
  | @ok us ts h => exact .ok ⟨h ▸ rfl, htiles ts rfl⟩

/-- The whole list is the stretch of all its tokens. -/
theorem listOfAll_follows (htiles : Tiles lead ts t) :
    Follows s t Eq ((ofTokens s t ts).list 0 (ofTokens s t ts).lexemes.length)
      (outcome (addressList s ts)) := by
  have hlength : (ofTokens s t ts).lexemes.length = ts.length := List.length_map _
  rw [hlength]
  exact list_follows htiles (.whole ts)

/-- A single address, or a fault at the first comma if there are more. That comma is one of the
tokens, or the fault is at the start of the text. -/
theorem only_follows (htiles : Tiles lead ts t) (as : List Address) :
    Follows s t Eq ((ofTokens s t ts).only as) (onlyAddress ts as) := by
  match as with
  | [a] => exact .ok rfl
  | [] => exact .error (f := ⟨.emptyAddress, 0⟩) (.zero t)
  | _ :: _ :: _ =>
    have hfind : ((ofTokens s t ts).lexemes.find? (·.isSpecial ',')).map Lexeme.start =
        (ts.find? (·.isSpecial ',')).map Token.start := by
      rw [ofTokens, List.find?_map, Option.map_map]
      rfl
    unfold only
    dsimp only
    rw [hfind]
    refine .error (f := ⟨.multipleAddresses, _⟩) ?_
    cases hcomma : ts.find? (·.isSpecial ',') with
    | none => exact .zero t
    | some u => exact (htiles.isSlice_raw (List.mem_of_find?_eq_some hcomma)).isBoundary_start

/-- How a reading by positions of the text `t` goes if it stays inside: it reads what the other one
does, or fails with the same fault, which names the text, the strictness and an octet where a
character begins or the text ends. -/
inductive StaysInside {α : Type} (s : Strictness) (t : Text) : Checked α → Except Error α → Prop
  | ok (a : α) : StaysInside s t (.ok a) (.ok a)
  | fault {f : AddressFault} (hinput : f.input = t) (hstrictness : f.strictness = s)
    (hle : f.position ≤ Text.utf8Size t) (hboundary : t.IsBoundary f.position) :
    StaysInside s t (.error (.fault f)) (.error (.ofAddress f))

/-- A reading that follows another one stays inside. A fault gets the text and the strictness when
it leaves the reader. -/
theorem StaysInside.of_follows {α : Type} {x : Checked α} {y : Parsing α}
    (h : Follows s t Eq x (outcome y)) : StaysInside s t x (outcome (readingOf s t y)) := by
  rw [readingOf, outcome_restate]
  generalize outcome y = y at h ⊢
  cases h with
  | ok h => exact h ▸ .ok _
  | error h => exact .fault rfl rfl h.le h

/-- A list is read inside the text. -/
theorem parseList_staysInside (s : Strictness) (t : Text) :
    StaysInside s t (parseList s t) (outcome (Address.parseList s t)) := by
  refine .of_follows ?_
  rw [outcome_bind]
  refine (read_follows s t).bind ?_
  rintro _ ts ⟨rfl, htiles⟩
  exact listOfAll_follows htiles

/-- A single address is. -/
theorem parse_staysInside (s : Strictness) (t : Text) :
    StaysInside s t (parse s t) (outcome (Address.parse s t)) := by
  refine .of_follows ?_
  rw [outcome_bind]
  refine (read_follows s t).bind ?_
  rintro _ ts ⟨rfl, htiles⟩
  rw [outcome_bind]
  exact (listOfAll_follows htiles).bind_eq fun as ↦ only_follows htiles as

/-- The members of a group are. -/
theorem membersOf_staysInside (s : Strictness) (t : Text) :
    StaysInside s t (membersOf s t) (outcome (Address.membersOf s t)) := by
  refine .of_follows ?_
  rw [outcome_bind]
  refine (read_follows s t).bind ?_
  rintro _ ts ⟨rfl, htiles⟩
  split
  · exact groupMembers_follows htiles
  · exact .ok rfl

/-- **Addresses are read within bounds**, at any strictness: reading a list, a single address or the
members of a group never looks for a token where there is none, never cuts text out but between
characters of the input, and never subtracts below zero. Each fault names the text, the strictness
and an octet at which a character of the text begins or the text ends. -/
theorem staysInside (s : Strictness) (t : Text) :
    StaysInside s t (parseList s t) (outcome (Address.parseList s t)) ∧
      StaysInside s t (parse s t) (outcome (Address.parse s t)) ∧
      StaysInside s t (membersOf s t) (outcome (Address.membersOf s t)) :=
  ⟨parseList_staysInside s t, parse_staysInside s t, membersOf_staysInside s t⟩

end Indexed

end InternetMail
