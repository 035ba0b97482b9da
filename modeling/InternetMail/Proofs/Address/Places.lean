import InternetMail.Proofs.Address.Indexed
import InternetMail.Proofs.Run

/-!
# Places that refer to tokens

A list of places refers to tokens if these stand there in the list of all tokens (`Refers`). Looking
for a token, leaving out comments, and putting texts together give the same for such places as for
the tokens, and never come to a trap. So do the checks of phrases, paths and addr-specs, each of
which looks at the last or the first of its tokens only where there is one.

Places are indices into the list of tokens as the program keeps it, and what it passes around are
lists of them, so a lemma here has the form: if `is` refers to `us`, then the reading of `is` is
that of `us`. Three things could go wrong and are ruled out one by one: a place that is none of the
list, a range whose end is before its beginning, and a last or first item of nothing. Faults are
compared as well. One that is raised at a token points to an octet of it, and this is where a
character of the text begins (`faultAt_follows`); a fault behind the last token points to the end of
the text.
-/

namespace InternetMail

/-- Each of the places is that of the token. -/
def Refers (ts : List Token) : List Nat → List Token → Prop :=
  List.Forall₂ fun i u ↦ ts[i]? = some u

namespace Refers

variable {ts us vs : List Token} {is js : List Nat} {i : Nat} {u : Token}

/-- There are as many places as tokens. -/
theorem length_eq (h : Refers ts is us) : is.length = us.length :=
  List.Forall₂.length_eq h

theorem isEmpty_eq (h : Refers ts is us) : is.isEmpty = us.isEmpty := by
  cases h <;> rfl

/-- The place of a token that is found by its number. -/
theorem exists_getElem? (h : Refers ts is us) {k : Nat} (hu : us[k]? = some u) :
    ∃ i, is[k]? = some i ∧ ts[i]? = some u := by
  induction h generalizing k with
  | nil => cases hu
  | @cons i v is us hv h ih =>
    cases k with
    | zero => exact ⟨i, rfl, hv.trans hu⟩
    | succ k => exact ih hu

/-- The last place refers to the last token. -/
theorem exists_concat (h : Refers ts is (us ++ [u])) :
    ∃ js i, is = js ++ [i] ∧ Refers ts js us ∧ ts[i]? = some u := by
  induction us generalizing is with
  | nil =>
    obtain _ | ⟨hu, ⟨⟩⟩ := h
    exact ⟨[], _, rfl, .nil, hu⟩
  | cons v us ih =>
    obtain _ | ⟨hv, h⟩ := h
    obtain ⟨js, i, rfl, hjs, hu⟩ := ih h
    exact ⟨_ :: js, i, rfl, .cons hv hjs, hu⟩

theorem append (h : Refers ts is us) (h' : Refers ts js vs) : Refers ts (is ++ js) (us ++ vs) :=
  List.rel_append h h'

end Refers

namespace Token

variable (u : Token) (c : Char)

@[simp]
theorem value_lexeme : u.lexeme.value = u.value := rfl

@[simp]
theorem isSpecial_lexeme : u.lexeme.isSpecial c = u.isSpecial c := rfl

@[simp]
theorem isAnySpecial_lexeme : u.lexeme.isAnySpecial = u.isAnySpecial := rfl

@[simp]
theorem isWord_lexeme : u.lexeme.isWord = u.isWord := rfl

@[simp]
theorem isComment_lexeme : u.lexeme.isComment = u.isComment := rfl

end Token

namespace Indexed

/-- A text with its tokens, as the reading by places has them. -/
def ofTokens (s : Strictness) (t : Text) (ts : List Token) : Indexed :=
  ⟨s, t, ts.map Token.lexeme⟩

variable {s : Strictness} {t lead : Text} {ts us vs : List Token} {is js : List Nat} {i : Nat}
  {u : Token} {rule : SyntaxRule}

@[simp]
theorem strictness_ofTokens : (ofTokens s t ts).strictness = s := rfl

/-- A place that refers to a token is one of the list, so that looking there is no trap. -/
theorem token_eq (hu : ts[i]? = some u) : (ofTokens s t ts).token i = .ok u.lexeme := by
  simp [token, Checked.get, Checked.ofOption, ofTokens, hu]

/-- A fault at a place is one at the start of the token there, or at the end of the text if there is
none. -/
theorem faultAt_ofTokens (i : Nat) : (ofTokens s t ts).faultAt rule i =
    .fault (SyntaxFault.within ⟨rule, (ts[i]?.map Token.start).getD (Text.utf8Size t)⟩ s t) := by
  rw [faultAt, fault]
  simp only [ofTokens, List.getElem?_map, Option.map_map]
  rfl

/-! ### Searches -/

/-- What a search for a special character in a list of places comes to: none of the tokens is one,
or the first that is stands after the tokens `us`. -/
inductive Finds (ts : List Token) (c : Char) : Option Nat → List Nat → List Token → Prop
  | none {is : List Nat} {us : List Token} (h : ∀ u ∈ us, u.isSpecial c = false) :
    Finds ts c none is us
  | some {is js : List Nat} {us vs : List Token} {i : Nat} {u : Token} (hu : ts[i]? = some u)
    (hspecial : u.isSpecial c = true) (hbefore : ∀ v ∈ us, v.isSpecial c = false)
    (hfirst : Refers ts is us) (hrest : Refers ts js vs) :
    Finds ts c (some is.length) (is ++ i :: js) (us ++ u :: vs)

/-- Looking for a special character looks only at places of the list. What it gives is where the
first such token is, or that there is none (`Finds`). -/
theorem exists_findSpecial?_eq_ok (c : Char) (h : Refers ts is us) :
    ∃ r, (ofTokens s t ts).findSpecial? c is = .ok r ∧ Finds ts c r is us := by
  induction h with
  | nil => exact ⟨none, rfl, .none (by simp)⟩
  | @cons i u is us hu h ih =>
    rw [findSpecial?, token_eq hu, ok_bind, Token.isSpecial_lexeme]
    cases hspecial : u.isSpecial c with
    | true => exact ⟨some 0, rfl, .some hu hspecial (by simp) .nil h⟩
    | false =>
      obtain ⟨r, hr, hfinds⟩ := ih
      refine ⟨r.map (· + 1), by simp [hr], ?_⟩
      cases hfinds with
      | none hall => exact .none (List.forall_mem_cons.2 ⟨hspecial, hall⟩)
      | some hv hpasses hbefore hfirst hrest =>
        exact .some hv hpasses (List.forall_mem_cons.2 ⟨hspecial, hbefore⟩) (.cons hu hfirst) hrest

theorem dropWhile_of_forall {c : Char} (h : ∀ v ∈ us, v.isSpecial c = false) :
    us.dropWhile (!·.isSpecial c) = [] :=
  (Run.dropWhile_eq_nil_iff _ _).2 fun v hv ↦ by simp [h v hv]

theorem takeWhile_of_forall {c : Char} (h : ∀ v ∈ us, v.isSpecial c = false) :
    us.takeWhile (!·.isSpecial c) = us :=
  List.takeWhile_eq_self_iff.2 fun v hv ↦ by simp [h v hv]

theorem dropWhile_of_isSpecial {c : Char} (hbefore : ∀ v ∈ us, v.isSpecial c = false)
    (h : u.isSpecial c = true) : (us ++ u :: vs).dropWhile (!·.isSpecial c) = u :: vs :=
  Run.dropWhile_append_cons _ (fun v hv ↦ by simp [hbefore v hv]) (by simp [h])

theorem find?_of_isSpecial {c : Char} (hbefore : ∀ v ∈ us, v.isSpecial c = false)
    (h : u.isSpecial c = true) : (us ++ u :: vs).find? (·.isSpecial c) = some u := by
  have hnone : us.find? (·.isSpecial c) = none :=
    List.find?_eq_none.2 fun v hv ↦ by simp [hbefore v hv]
  simp [List.find?_append, hnone, h]

theorem takeWhile_of_isSpecial {c : Char} (hbefore : ∀ v ∈ us, v.isSpecial c = false)
    (h : u.isSpecial c = true) : (us ++ u :: vs).takeWhile (!·.isSpecial c) = us :=
  Run.takeWhile_append_cons _ (fun v hv ↦ by simp [hbefore v hv]) (by simp [h])

/-- The first of the places whose token passes is that of the first token that does. -/
theorem find?_cases (test : Lexeme → Bool) (h : Refers ts is us) :
    ((ofTokens s t ts).find? test is = .ok none ∧ us.find? (fun u ↦ test u.lexeme) = none) ∨
      ∃ i u, ts[i]? = some u ∧ (ofTokens s t ts).find? test is = .ok (some i) ∧
        us.find? (fun u ↦ test u.lexeme) = some u := by
  induction h with
  | nil => exact Or.inl ⟨rfl, rfl⟩
  | @cons i u is us hu h ih =>
    rw [find?, token_eq hu, ok_bind, List.find?_cons]
    cases test u.lexeme with
    | true => exact Or.inr ⟨i, u, hu, rfl, rfl⟩
    | false => exact ih

/-- The places of words, with comments left out, refer to the words. -/
theorem exists_words_eq_ok (h : Refers ts is us) :
    ∃ ws, (ofTokens s t ts).words is = .ok ws ∧ Refers ts ws (wordsOf us) := by
  induction h with
  | nil => exact ⟨[], rfl, .nil⟩
  | @cons i u is us hu h ih =>
    obtain ⟨ws, hws, hrefers⟩ := ih
    rw [words, token_eq hu, ok_bind, Token.isComment_lexeme]
    cases hcomment : u.isComment with
    | true => exact ⟨ws, by simp [hws], by simpa [wordsOf, hcomment] using hrefers⟩
    | false =>
      refine ⟨i :: ws, by simp [hws], ?_⟩
      rw [wordsOf, List.filter_cons_of_pos (by simp [hcomment])]
      exact .cons hu hrefers

/-- The places between commas refer to the tokens between commas, hop by hop. -/
theorem exists_hops_eq_ok (h : Refers ts is us) :
    ∃ hs, (ofTokens s t ts).hops is = .ok hs ∧
      List.Forall₂ (Refers ts) hs (Run.stretches (·.isSpecial ',') us) := by
  induction h with
  | nil => exact ⟨[[]], rfl, .cons .nil .nil⟩
  | @cons i u is us hu h ih =>
    obtain ⟨hs, hhs, hrefers⟩ := ih
    rw [hops, token_eq hu, ok_bind, hhs, ok_bind, Token.isSpecial_lexeme, Run.stretches]
    cases hcomma : u.isSpecial ',' with
    | true => exact ⟨[] :: hs, rfl, .cons .nil hrefers⟩
    | false =>
      generalize Run.stretches (·.isSpecial ',') us = runs at hrefers
      cases hrefers with
      | nil => exact ⟨_, rfl, .cons (.cons hu .nil) .nil⟩
      | cons hfirst hrest => exact ⟨_, rfl, .cons (.cons hu hfirst) hrest⟩

/-! ### Texts -/

/-- A stretch of the text is cut out at the octets where it stands. -/
theorem text_eq {a b : Nat} {v : Text} (h : IsSlice t a b v) :
    (ofTokens s t ts).text a b = .ok v := by
  rw [text, ofTokens, Text.slice?_eq_some_iff.2 h]
  rfl

/-- The name in a comment is looked for from the first place to the last, and found at the first
comment. -/
theorem nameOfComments_eq {start stop : Nat} (h : Refers ts (places start stop) us) :
    (ofTokens s t ts).nameOfComments start stop = .ok (InternetMail.nameOfComments us) := by
  rw [nameOfComments, InternetMail.nameOfComments]
  rcases find?_cases (s := s) (t := t)
    (fun u ↦ u.isComment && !(Text.trim u.value).isEmpty) h with
    ⟨hi, hfound⟩ | ⟨i, u, hu, hi, hfound⟩
  all_goals simp only [Token.isComment_lexeme, Token.value_lexeme] at hfound
  · rw [hi, hfound]
    rfl
  · rw [hi, hfound, ok_bind]
    dsimp only
    rw [token_eq hu]
    rfl

/-- A phrase is put together word by word. The place of the word before is kept to see whether there
is a gap, and it need not be the one next to it. -/
theorem phraseText_cons (hu : ts[i]? = some u) (h : Refers ts is us) (previous : Option Nat) :
    (ofTokens s t ts).phraseText previous (i :: is) =
      .ok ((if previous.any (· < u.start) then [' '] else []) ++
        InternetMail.phraseText (u :: us)) := by
  induction h generalizing i u previous with
  | nil =>
    rw [phraseText, token_eq hu, ok_bind]
    exact congrArg _ (List.append_nil _)
  | @cons j v is us hv h ih =>
    rw [phraseText, token_eq hu, ok_bind, ih hv, ok_bind, InternetMail.phraseText]
    have hspace : (some u.lexeme.stop).any (· < v.start) = decide (u.stop < v.start) := rfl
    rw [hspace]
    simp only [decide_eq_true_eq, List.append_assoc]
    rfl

/-- The text of a phrase, from its places. -/
theorem phraseText_eq (h : Refers ts is us) :
    (ofTokens s t ts).phraseText none is = .ok (InternetMail.phraseText us) := by
  cases h with
  | nil => rfl
  | cons hu h => exact phraseText_cons hu h none

/-- The texts of tokens are cut out of the whole text, which each of them stands in. -/
theorem raw_eq (htiles : Tiles lead ts t) (h : Refers ts is us) :
    (ofTokens s t ts).raw is = .ok (rawOf us) := by
  induction h with
  | nil => rfl
  | @cons i u is us hu h ih =>
    have hslice : IsSlice t u.lexeme.start u.lexeme.stop u.raw :=
      htiles.isSlice_raw (List.mem_of_getElem? hu)
    rw [raw, token_eq hu, ok_bind, text_eq hslice, ok_bind, ih]
    rfl

/-! ### Faults -/

section Faults

variable (htiles : Tiles lead ts t)

include htiles

/-- A fault at a token that is there is the same fault at the octet where the token begins. -/
theorem faultAt_follows {α β : Type} {R : α → β → Prop} (hu : ts[i]? = some u)
    (rule : SyntaxRule) :
    Follows s t R (.error ((ofTokens s t ts).faultAt rule i)) (.error (u.fault rule)) := by
  rw [faultAt_ofTokens, hu]
  exact .error (htiles.isSlice_raw (List.mem_of_getElem? hu)).isBoundary_start

/-- Behind a token is the next one, or the end of the text. -/
theorem faultAt_succ_follows {α β : Type} {R : α → β → Prop} (hu : ts[i]? = some u)
    (rule : SyntaxRule) :
    Follows s t R (.error ((ofTokens s t ts).faultAt rule (i + 1))) (.error ⟨rule, u.next⟩) := by
  obtain ⟨before, after, rfl, rfl⟩ : ∃ before after, ts = before ++ u :: after ∧
      before.length = i := by
    obtain ⟨hlt, rfl⟩ := List.getElem?_eq_some_iff.1 hu
    exact ⟨ts.take i, ts.drop (i + 1), by simp, by simp; omega⟩
  have hread : t = lead ++ writtenOf (before ++ [u]) ++ writtenOf after := by
    rw [htiles.eq_append]
    simp
  have hnext : u.next = Text.utf8Size (lead ++ writtenOf (before ++ [u])) := by
    have := htiles.consecutive.start_eq
    simp only [Token.next, Token.stop, this, Text.utf8Size_append, writtenOf_append,
      writtenOf_cons, writtenOf_nil, Text.utf8Size_nil]
    omega
  have hposition : ((before ++ u :: after)[before.length + 1]?.map Token.start).getD
      (Text.utf8Size t) = u.next := by
    cases after with
    | nil => simp [hnext, hread]
    | cons v after =>
      have hcons := htiles.consecutive
      rw [List.append_cons] at hcons
      have hv : (before ++ u :: v :: after)[before.length + 1]? = some v := by simp
      rw [hv, Option.map_some, Option.getD_some, hcons.start_eq, hnext, Text.utf8Size_append]
  rw [faultAt_ofTokens, hposition]
  exact .error ⟨_, _, hread, hnext.symm⟩

end Faults

/-! ### Checks -/

/-- One step of the check that items and periods take turns. It is the place in the row that says
which of them is due. -/
theorem checkTurns_cons {isItem : Lexeme → Bool} (hu : ts[i]? = some u) (k : Nat)
    (is : List Nat) : (ofTokens s t ts).checkTurns isItem k (i :: is) =
      if (if k % 2 = 0 then isItem u.lexeme else u.isSpecial '.') then
        (ofTokens s t ts).checkTurns isItem (k + 1) is
      else .error ((ofTokens s t ts).faultAt .unexpectedToken i) := by
  rw [checkTurns, token_eq hu, ok_bind, Token.isSpecial_lexeme]
  generalize (if k % 2 = 0 then isItem u.lexeme else u.isSpecial '.') = passes
  cases passes <;> rfl

/-- Items and periods that take turns end with an item if there is an odd number of them. -/
theorem checkLast_of_odd (h : is.length % 2 = 1) : (ofTokens s t ts).checkLast is = .ok () := by
  rw [checkLast, if_neg (by omega)]
  rfl

/-- With an even number the last one is a period, and the fault is there. -/
theorem checkLast_of_even (h : is.length % 2 = 0) (hlast : is.getLast? = some i) :
    (ofTokens s t ts).checkLast is =
      .error ((ofTokens s t ts).faultAt .unexpectedToken i) := by
  have hpos : 0 < is.length := by
    rw [List.length_pos_iff]
    rintro rfl
    cases hlast
  have hget : Checked.get is (is.length - 1) = .ok i :=
    Checked.get_eq_ok_iff.2 (by rw [← List.getLast?_eq_getElem?, hlast])
  rw [checkLast, if_pos h, Checked.sub_of_le hpos, ok_bind, hget, ok_bind]
  rfl

section Checks

variable (htiles : Tiles lead ts t)

include htiles

/-- Items that take turns with periods, the first of them after an even number, up to the last of
all. -/
theorem checkTurns_follows {isItem : Lexeme → Bool} {k : Nat} {items : List Nat} (hk : k % 2 = 0)
    (hlength : items.length % 2 = is.length % 2) (hlast : items.getLast? = is.getLast?)
    (hne : us ≠ []) (h : Refers ts is us) :
    Follows s t Eq
      (do
        (ofTokens s t ts).checkTurns isItem k is
        (ofTokens s t ts).checkLast items)
      (InternetMail.checkDotted (fun u ↦ isItem u.lexeme) us) := by
  have hodd : ¬(k + 1) % 2 = 0 := by omega
  fun_induction InternetMail.checkDotted (fun u ↦ isItem u.lexeme) us generalizing k is with
  | case1 => exact absurd rfl hne
  | case2 u hitem =>
    obtain _ | ⟨hu, ⟨⟩⟩ := h
    rw [checkTurns_cons hu, if_pos hk, if_pos hitem]
    exact (checkLast_of_odd hlength).symm ▸ .ok rfl
  | case3 u hitem =>
    obtain _ | ⟨hu, ⟨⟩⟩ := h
    rw [checkTurns_cons hu, if_pos hk, if_neg hitem]
    exact faultAt_follows htiles hu _
  | case4 u dot =>
    obtain _ | ⟨hu, _ | ⟨hdot, ⟨⟩⟩⟩ := h
    rw [checkTurns_cons hu, if_pos hk]
    by_cases hitem : isItem u.lexeme = true
    · rw [if_pos hitem, if_pos hitem, checkTurns_cons hdot, if_neg hodd]
      -- a period is refused since it is the last, and anything else since it is none
      cases dot.isSpecial '.' with
      | true =>
        rw [if_pos rfl, checkTurns, checkLast_of_even (by simpa using hlength) hlast]
        exact faultAt_follows htiles hdot _
      | false => exact faultAt_follows htiles hdot _
    · rw [if_neg hitem, if_neg hitem]
      exact faultAt_follows htiles hu _
  | case5 u dot v us hitem =>
    obtain _ | ⟨hu, h⟩ := h
    have hnot : ¬isItem u.lexeme = true := by simpa using hitem
    rw [checkTurns_cons hu, if_pos hk, if_neg hnot]
    exact faultAt_follows htiles hu _
  | case6 u dot v us hitem hdotted =>
    obtain _ | ⟨hu, _ | ⟨hdot, h⟩⟩ := h
    have hpasses : isItem u.lexeme = true := by simpa using hitem
    have hnot : ¬dot.isSpecial '.' = true := by simpa using hdotted
    rw [checkTurns_cons hu, if_pos hk, if_pos hpasses, checkTurns_cons hdot, if_neg hodd,
      if_neg hnot]
    exact faultAt_follows htiles hdot _
  | case7 u dot v us hitem hdotted ih =>
    obtain _ | ⟨hu, _ | ⟨hdot, h⟩⟩ := h
    have hpasses : isItem u.lexeme = true := by simpa using hitem
    have hperiod : dot.isSpecial '.' = true := by simpa using hdotted
    rw [checkTurns_cons hu, if_pos hk, if_pos hpasses, checkTurns_cons hdot, if_neg hodd,
      if_pos hperiod]
    cases h with
    | @cons i _ is _ hv h =>
      refine ih (by omega) ?_ ?_ (by simp) (.cons hv h) (by omega)
      · simp only [List.length_cons] at hlength ⊢
        omega
      · simpa using hlast

/-- Items apart by periods, if there is one. -/
theorem checkDotted_follows (h : Refers ts is us) (hne : us ≠ []) (isItem : Lexeme → Bool)
    (anchor : Nat) (empty : SyntaxRule) :
    Follows s t Eq ((ofTokens s t ts).checkDotted is anchor empty isItem)
      (InternetMail.checkDotted (fun u ↦ isItem u.lexeme) us) := by
  have hfull : ¬is.isEmpty = true := by
    rw [h.isEmpty_eq]
    simpa using hne
  rw [checkDotted, if_neg hfull]
  exact checkTurns_follows htiles rfl rfl rfl hne h

/-- A domain, which stands after the token at the place `i`. -/
theorem checkDomain_follows {at_ : Token} (hat : ts[i]? = some at_) (h : Refers ts is us) :
    Follows s t Eq ((ofTokens s t ts).checkDotted is i .missingDomain Lexeme.isSubDomain)
      (checkDomain at_ us) := by
  cases us with
  | nil =>
    obtain ⟨⟩ := h
    exact faultAt_succ_follows htiles hat _
  | cons u us => exact checkDotted_follows htiles h (by simp) _ _ _

/-- A hop is looked at only at its first place, and only if it has one. -/
theorem checkHop_follows (h : Refers ts is us) :
    Follows s t Eq ((ofTokens s t ts).checkHop is) (InternetMail.checkHop us) := by
  cases h with
  | nil => exact .ok rfl
  | @cons i u is us hu h =>
    rw [checkHop, token_eq hu, ok_bind, Token.isSpecial_lexeme, InternetMail.checkHop]
    split
    · exact checkDomain_follows htiles hu h
    · exact faultAt_follows htiles hu _

/-- The hops of a route are checked one after another, and the first fault is the same. -/
theorem checkRoute_follows (h : Refers ts is us) :
    Follows s t Eq ((ofTokens s t ts).checkRoute is) (InternetMail.checkRoute us) := by
  have hinit : Refers ts is.dropLast us.dropLast := by
    rw [List.dropLast_eq_take, List.dropLast_eq_take, h.length_eq]
    exact List.forall₂_take _ h
  obtain ⟨hs, hhs, hrefers⟩ := exists_hops_eq_ok (s := s) (t := t) hinit
  rw [checkRoute, h.isEmpty_eq, hhs, InternetMail.checkRoute]
  split
  · exact .ok rfl
  · exact .forM hrefers fun _ _ ↦ checkHop_follows htiles

/-- A phrase passes or fails at the same token. -/
theorem checkPhrase_follows (h : Refers ts is us) :
    Follows s t Eq ((ofTokens s t ts).checkPhrase is) (InternetMail.checkPhrase us) := by
  rw [checkPhrase, InternetMail.checkPhrase]
  rcases find?_cases (s := s) (t := t)
    (fun u ↦ !(u.isWord || u.isSpecial '.')) h with ⟨hi, hfound⟩ | ⟨i, u, hu, hi, hfound⟩
  all_goals simp only [Token.isWord_lexeme, Token.isSpecial_lexeme] at hfound
  · rw [hi, hfound]
    exact .ok rfl
  · rw [hi, hfound]
    exact faultAt_follows htiles hu _

/-- The lenient check of an addr-spec looks at the first and the last of its places, of which there
is at least one. -/
theorem checkLooseAddrSpec_follows (h : Refers ts is us) (hne : us ≠ []) :
    Follows s t Eq ((ofTokens s t ts).checkLooseAddrSpec is)
      (InternetMail.checkLooseAddrSpec us) := by
  have hrefers := h
  cases h with
  | nil => exact absurd rfl hne
  | @cons i u is us hu h =>
    have hfirst : Checked.get (i :: is) 0 = .ok i := rfl
    rw [checkLooseAddrSpec, hfirst, ok_bind, token_eq hu, ok_bind, Token.isSpecial_lexeme,
      InternetMail.checkLooseAddrSpec, List.head?_cons]
    dsimp only
    split
    · exact faultAt_follows htiles hu _
    · rcases find?_cases (s := s) (t := t)
        (fun u ↦ u.isAnySpecial && !u.isSpecial '.' && !u.isSpecial '@') hrefers with
        ⟨hi, hfound⟩ | ⟨i, u, hu, hi, hfound⟩
      all_goals simp only [Token.isAnySpecial_lexeme, Token.isSpecial_lexeme] at hfound
      · rw [hi, hfound]
        exact .ok rfl
      · rw [hi, hfound]
        exact faultAt_follows htiles hu _

/-- So does the strict check, which looks for the sign first and checks what is on either side of
it. -/
theorem checkAddrSpec_follows (h : Refers ts is us) (hne : us ≠ []) :
    Follows s t Eq ((ofTokens s t ts).checkAddrSpec is) (InternetMail.checkAddrSpec us) := by
  obtain ⟨r, hr, hfinds⟩ := exists_findSpecial?_eq_ok (s := s) (t := t) '@' h
  rw [checkAddrSpec, hr, ok_bind]
  cases hfinds with
  | none hall =>
    -- no sign: the fault is at the end of the last token
    obtain ⟨last, hlast⟩ : ∃ last, us.getLast? = some last :=
      ⟨_, List.getLast?_eq_some_getLast hne⟩
    obtain ⟨i, hi, hu⟩ := h.exists_getElem? (List.getLast?_eq_getElem? ▸ hlast)
    have hget : Checked.get is (is.length - 1) = .ok i :=
      Checked.get_eq_ok_iff.2 (h.length_eq ▸ hi)
    have hpos : 0 < us.length := List.length_pos_iff.2 hne
    rw [InternetMail.checkAddrSpec, dropWhile_of_forall hall, hlast]
    dsimp only
    rw [Checked.sub_of_le (h.length_eq ▸ hpos), ok_bind, hget, ok_bind, token_eq hu, ok_bind]
    exact .error (f := ⟨.missingDomain, last.stop⟩)
      (htiles.isSlice_raw (List.mem_of_getElem? hu)).isBoundary_stop
  | @some is js us vs i u hu hat hbefore hfirst hrest =>
    obtain ⟨r, hr, hfinds⟩ := exists_findSpecial?_eq_ok (s := s) (t := t) '@' hrest
    rw [InternetMail.checkAddrSpec, dropWhile_of_isSpecial hbefore hat,
      takeWhile_of_isSpecial hbefore hat]
    dsimp only
    rw [Checked.slice_append_cons, ok_bind, hr, ok_bind]
    cases hfinds with
    | none hall =>
      have hone : vs.find? (·.isSpecial '@') = none :=
        List.find?_eq_none.2 fun v hv ↦ by simp [hall v hv]
      rw [hone]
      dsimp only
      rw [Checked.slice_zero, ok_bind, hfirst.isEmpty_eq, Checked.get_append_cons]
      cases us with
      | nil => exact faultAt_follows htiles hu _
      | cons v us =>
        obtain ⟨j, hj, -⟩ := h.exists_getElem? (k := 0) rfl
        rw [if_neg (by simp), if_neg (by simp), Checked.get_eq_ok_iff.2 hj, ok_bind]
        exact (checkDotted_follows htiles hfirst (by simp) _ _ _).bind_eq fun _ ↦
          checkDomain_follows htiles hu hrest
    | @some is₂ js₂ us₂ vs₂ j v hv hat₂ hbefore₂ hfirst₂ hrest₂ =>
      -- a second sign, found by its place behind the first
      have hget :
          Checked.get (is ++ i :: (is₂ ++ j :: js₂)) (is.length + 1 + is₂.length) = .ok j := by
        have h := Checked.get_append_cons (is ++ i :: is₂) j js₂
        rw [List.length_append, List.length_cons, List.append_assoc] at h
        rwa [Nat.add_assoc, Nat.add_comm 1]
      rw [find?_of_isSpecial hbefore₂ hat₂]
      dsimp only
      rw [hget, ok_bind]
      exact faultAt_follows htiles hv _

/-- An addr-spec is checked as the strictness asks, and is then the text of its tokens. -/
theorem addrSpec_follows (h : Refers ts is us) (hne : us ≠ []) :
    Follows s t Eq ((ofTokens s t ts).addrSpec is) (InternetMail.addrSpec s us) := by
  have hraw := raw_eq (s := s) htiles h
  cases s with
  | strict =>
    refine (checkAddrSpec_follows htiles h hne).bind_eq fun _ ↦ ?_
    exact hraw ▸ .ok rfl
  | nonStrict =>
    refine (checkLooseAddrSpec_follows htiles h hne).bind_eq fun _ ↦ ?_
    exact hraw ▸ .ok rfl
  | parseHeader =>
    show Follows .parseHeader t Eq ((ofTokens .parseHeader t ts).raw is) _
    exact hraw ▸ .ok rfl

end Checks

end Indexed

end InternetMail
