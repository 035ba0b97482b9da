import InternetMail.Proofs.Address.Brackets
import InternetMail.Proofs.Address.Places
import InternetMail.Proofs.Silent

/-!
# Mailboxes by the places of tokens

Reading a mailbox by places in the list of tokens gives what reading the tokens gives, and does not
come to a trap (`Indexed.mailboxes_follows`). The places in a list of words are those that a search
found there, so that what is cut out before, between and behind them is inside. A stretch without
words is left out before anything looks at its first or its last word.

A mailbox is the one place where lists of places are cut at positions of their own: runs of words
without a gap, the words before an angle bracket and those behind it, the route in front of an
addr-spec. Each cut is between two places that were found by looking through the list, and it is
this search that bounds them, not a check of its own. With angle brackets the reading by tokens is
taken in the steps of `outcome_bracketMailbox`, which the reading by places takes one by one.
-/

namespace InternetMail

open Reported

namespace Indexed

variable {s : Strictness} {t lead : Text} {ts us vs ps : List Token} {is js : List Nat} {i : Nat}
  {u : Token} {rule : SyntaxRule}

/-! ### Mailboxes -/

/-- The places of a run that holds a token. -/
def RefersRun (ts : List Token) (is : List Nat) (us : List Token) : Prop :=
  Refers ts is us ∧ us ≠ []

/-- The runs from one place on, of which the first has begun with the places `cs`. -/
theorem exists_runsFrom_eq_ok (ds : List Nat) {cs rs : List Nat} (hcs : Refers ts cs (us ++ [u]))
    (hrs : Refers ts rs vs) :
    ∃ runs run rest,
      (ofTokens s t ts).runsFrom (ds ++ cs ++ rs) ds.length
        (List.range' (ds ++ cs).length rs.length) = .ok runs ∧
      gapRuns (u :: vs) = run :: rest ∧
      List.Forall₂ (RefersRun ts) runs ((us ++ run) :: rest) := by
  induction hrs generalizing ds cs us u with
  | nil =>
    have hslice := Checked.slice_append ds cs []
    rw [List.append_nil] at hslice ⊢
    refine ⟨[cs], [u], [], ?_, rfl, .cons ⟨hcs, by simp⟩ .nil⟩
    show (do return [← Checked.slice (ds ++ cs) ds.length (ds ++ cs).length]) = Except.ok [cs]
    rw [hslice]
    rfl
  | @cons j v js vs hv h ih =>
    obtain ⟨cs, i, rfl, hfirst, hu⟩ := hcs.exists_concat
    -- the run is not empty, so the place before the next one is a place
    have hprevious : Checked.get (ds ++ (cs ++ [i]) ++ j :: js) ((ds ++ (cs ++ [i])).length - 1) =
        .ok i := by
      have hget := Checked.get_append_cons (ds ++ cs) i (j :: js)
      simpa using hget
    have hpos : 1 ≤ (ds ++ (cs ++ [i])).length := by
      simp
      omega
    rw [List.length_cons, List.range'_succ, runsFrom, Checked.sub_of_le hpos, ok_bind, hprevious,
      ok_bind, token_eq hu, ok_bind, Checked.get_append_cons, ok_bind, token_eq hv, ok_bind,
      gapRuns]
    by_cases hgap : (decide (u.stop < v.start) && !u.isAnySpecial && !v.isAnySpecial) = true
    · have hif : (decide (u.lexeme.stop < v.lexeme.start) && !u.lexeme.isAnySpecial &&
        !v.lexeme.isAnySpecial) = true := hgap
      -- a gap ends the run, and the next token begins another
      have hnext : (ds ++ (cs ++ [i]) ++ [j]).length = (ds ++ (cs ++ [i])).length + 1 :=
        List.length_append
      have hone : Refers ts [j] ([] ++ [v]) := .cons hv .nil
      obtain ⟨runs, run, rest, hruns, hrun, hrefers⟩ := ih (ds ++ (cs ++ [i])) hone
      rw [← List.append_cons, hnext] at hruns
      refine ⟨(cs ++ [i]) :: runs, [u], run :: rest, ?_, by rw [if_pos hgap, hrun],
        .cons ⟨hcs, by simp⟩ hrefers⟩
      rw [if_pos hif, Checked.slice_append, ok_bind, hruns]
      rfl
    · have hif : ¬(decide (u.lexeme.stop < v.lexeme.start) && !u.lexeme.isAnySpecial &&
        !v.lexeme.isAnySpecial) = true := hgap
      have hmore : Refers ts (cs ++ [i] ++ [j]) (us ++ [u] ++ [v]) := hcs.append (.cons hv .nil)
      obtain ⟨runs, run, rest, hruns, hrun, hrefers⟩ := ih ds hmore
      refine ⟨runs, u :: run, rest, ?_, by rw [if_neg hgap, hrun], by simpa using hrefers⟩
      rw [if_neg hif]
      simpa [Nat.add_assoc] using hruns

/-- Whether each run has a token is found by looking through all of them, without a trap. -/
theorem allM_eq_ok {runs : List (List Nat)} {tokens : List (List Token)} (c : Char)
    (h : List.Forall₂ (RefersRun ts) runs tokens) :
    (runs.allM fun run ↦ do return (← (ofTokens s t ts).findSpecial? c run).isSome) =
      .ok (tokens.all (·.any (·.isSpecial c))) := by
  induction h with
  | nil => rfl
  | @cons run us runs tokens h _ ih =>
    obtain ⟨r, hr, hfinds⟩ := exists_findSpecial?_eq_ok (s := s) (t := t) c h.1
    rw [List.allM, hr, ok_bind, List.all_cons]
    cases hfinds with
    | none hall =>
      have hnone : us.any (·.isSpecial c) = false :=
        List.any_eq_false.2 fun u hu ↦ by simp [hall u hu]
      rw [hnone]
      rfl
    | @some is js us vs i u hu hspecial hbefore hfirst hrest =>
      have hsome : (us ++ u :: vs).any (·.isSpecial c) = true :=
        List.any_eq_true.2 ⟨u, by simp, hspecial⟩
      rw [hsome]
      exact ih

/-- The runs of several addresses without separators between them, if that is what the words are. -/
theorem exists_addressRuns?_eq_ok (h : Refers ts is us) (hne : us ≠ []) :
    ∃ r, (ofTokens s t ts).addressRuns? is = .ok r ∧
      Option.Rel (List.Forall₂ (RefersRun ts)) r (InternetMail.addressRuns? us) := by
  cases h with
  | nil => exact absurd rfl hne
  | @cons i u is us hu h =>
    have hone : Refers ts [i] ([] ++ [u]) := .cons hu .nil
    obtain ⟨runs, run, rest, hruns, hrun, hrefers⟩ :=
      exists_runsFrom_eq_ok (s := s) (t := t) [] hone h
    have hruns' : (ofTokens s t ts).runsFrom (i :: is) 0 (places 1 (i :: is).length) = .ok runs :=
      hruns
    have hlength : runs.length = (run :: rest).length := List.Forall₂.length_eq hrefers
    have hnamed := allM_eq_ok (s := s) (t := t) '@' hrefers
    rw [List.nil_append] at hnamed hrefers
    rw [addressRuns?, hruns', ok_bind, InternetMail.addressRuns?, hrun, hlength, hnamed, ok_bind]
    generalize (run :: rest).all (·.any (·.isSpecial '@')) = named
    by_cases hmany : 1 < (run :: rest).length
    · rw [if_pos hmany, decide_eq_true hmany, Bool.true_and]
      cases named with
      | true => exact ⟨some runs, rfl, .some hrefers⟩
      | false => exact ⟨none, rfl, .none⟩
    · rw [if_neg hmany, decide_eq_false hmany, Bool.false_and]
      exact ⟨none, rfl, .none⟩

/-- Such runs are looked for only where they are allowed. -/
theorem exists_simpleRuns?_eq_ok (h : Refers ts is us) (hne : us ≠ []) :
    ∃ r, (ofTokens s t ts).simpleRuns? is = .ok r ∧
      Option.Rel (List.Forall₂ (RefersRun ts)) r
        (if s = .nonStrict then InternetMail.addressRuns? us else none) := by
  rw [simpleRuns?, strictness_ofTokens]
  split
  · exact exists_addressRuns?_eq_ok h hne
  · exact ⟨none, rfl, .none⟩

/-- Nothing stands behind the bracket that closes. -/
theorem checkBehind_of_none {close : Nat} (h : is[close + 1]? = none) :
    (ofTokens s t ts).checkBehind is close = .ok () := by
  unfold checkBehind
  rw [h]
  rfl

/-- Something does, and is refused unless mail is read as it comes. -/
theorem checkBehind_of_some {close : Nat} (h : is[close + 1]? = some i) :
    (ofTokens s t ts).checkBehind is close =
      if s = .parseHeader then .ok ()
      else .error ((ofTokens s t ts).faultAt .unexpectedToken i) := by
  unfold checkBehind
  rw [h]
  rfl

section

variable (htiles : Tiles lead ts t)

include htiles

/-- The route and the rest are cut at the same token. -/
theorem splitRoute_follows (h : Refers ts is us) :
    Follows s t (fun (a : List Nat × List Nat) b ↦ Refers ts a.1 b.1 ∧ Refers ts a.2 b.2)
      ((ofTokens s t ts).splitRoute is) (InternetMail.splitRoute us) := by
  obtain ⟨r, hr, hfinds⟩ := exists_findSpecial?_eq_ok (s := s) (t := t) ':' h
  have hcases := h
  cases hcases with
  | nil => exact .ok ⟨.nil, .nil⟩
  | @cons i u is us hu _ =>
    rw [splitRoute, List.head?_cons, InternetMail.splitRoute]
    dsimp only
    rw [token_eq hu, ok_bind, Token.isSpecial_lexeme]
    by_cases hat : u.isSpecial '@' = true
    · rw [if_pos hat, if_pos hat, hr, ok_bind]
      -- the colon is looked for among all places, the sign included
      have hget : Checked.get (i :: is) 0 = .ok i := rfl
      generalize i :: is = words at *
      generalize u :: us = inner at *
      cases hfinds with
      | none hall =>
        rw [dropWhile_of_forall hall]
        dsimp only
        rw [hget, ok_bind]
        exact faultAt_follows htiles hu _
      | @some is js us vs c colon hc hcolon hbefore hfirst hrest =>
        have hroute : Checked.slice (is ++ c :: js) 0 (is.length + 1) = .ok (is ++ [c]) := by
          have hslice := Checked.slice_zero (is ++ [c]) js
          simpa using hslice
        rw [dropWhile_of_isSpecial hbefore hcolon, takeWhile_of_isSpecial hbefore hcolon]
        dsimp only
        rw [hroute, ok_bind, Checked.slice_append_cons, ok_bind]
        exact .ok ⟨hfirst.append (.cons hc .nil), hrest⟩
    · rw [if_neg hat, if_neg hat]
      exact .ok ⟨.nil, h⟩

/-- What stands in brackets is the same. If that is nothing, the fault is at the bracket, which is
there. -/
theorem bracketed_follows {words : List Nat} {bracket : Nat} (hi : words[bracket]? = some i)
    (hu : ts[i]? = some u) (h : Refers ts is us) :
    Follows s t Eq ((ofTokens s t ts).bracketed words bracket is)
      (InternetMail.bracketed s u us) := by
  refine (splitRoute_follows htiles h).bind fun (route, spec) (route', spec') ⟨hroute, hspec⟩ ↦ ?_
  dsimp only at hroute hspec ⊢
  have hpath : Follows s t Eq
      (if spec.isEmpty then
        if s = .parseHeader then pure []
        else do throw ((ofTokens s t ts).faultAt .emptyAddress (← Checked.get words bracket))
      else do
        return (← (ofTokens s t ts).raw route) ++ (← (ofTokens s t ts).addrSpec spec))
      (if spec'.isEmpty then
        if s = .parseHeader then pure [] else throw (u.fault .emptyAddress)
      else do return rawOf route' ++ (← InternetMail.addrSpec s spec')) := by
    rw [hspec.isEmpty_eq]
    split
    · split
      · exact .ok rfl
      · rw [Checked.get_eq_ok_iff.2 hi]
        exact faultAt_follows htiles hu _
    · rename_i hfull
      rw [raw_eq htiles hroute, ok_bind]
      exact (addrSpec_follows htiles hspec (by simpa using hfull)).bind_eq fun _ ↦ .ok rfl
  rw [strictness_ofTokens]
  split
  · exact (checkRoute_follows htiles hroute).bind_eq fun _ ↦ hpath
  · exact hpath

/-- The name is that of the phrase, or of the first comment if there is no phrase. -/
theorem nameOf_follows {start stop : Nat} (hall : Refers ts (places start stop) vs)
    (h : Refers ts is us) :
    Follows s t Eq ((ofTokens s t ts).nameOf start stop is) (nameInBrackets s vs us) := by
  rw [nameOf, h.isEmpty_eq, nameInBrackets]
  split
  · exact nameOfComments_eq hall ▸ .ok rfl
  · rw [phraseText_eq h]
    have hcheck : Follows s t Eq
        (if s = .strict then (ofTokens s t ts).checkPhrase is else pure ())
        (if s = .strict then InternetMail.checkPhrase us else .ok ()) := by
      split
      · exact checkPhrase_follows htiles h
      · exact .ok rfl
    exact hcheck.bind_eq fun _ ↦ .ok rfl

/-- A mailbox with angle brackets is read alike. -/
theorem bracketMailbox_follows {start stop : Nat} (hall : Refers ts (places start stop) vs)
    (hfirst : Refers ts is ps) (hu : ts[i]? = some u) (hrest : Refers ts js us) :
    Follows s t Eq ((ofTokens s t ts).bracketMailbox start stop (is ++ i :: js) is.length)
      (outcome (InternetMail.bracketMailbox s vs ps u us)) := by
  -- the steps behind the check of the brackets are the same in all cases
  have hinside : ∀ {inner inner'}, Refers ts inner inner' → Follows s t Eq
      (do
        let spec ← (ofTokens s t ts).bracketed (is ++ i :: js) is.length inner
        return ⟨spec, ← (ofTokens s t ts).nameOf start stop
          (← Checked.slice (is ++ i :: js) 0 is.length)⟩)
      (do
        let spec ← InternetMail.bracketed s u inner'
        return (⟨spec, ← nameInBrackets s vs ps⟩ : Address)) := by
    intro inner inner' h
    rw [Checked.slice_zero]
    refine (bracketed_follows htiles (by simp) hu h).bind_eq fun spec ↦ ?_
    exact (nameOf_follows htiles hall hfirst).bind_eq fun _ ↦ .ok rfl
  obtain ⟨r, hr, hfinds⟩ := exists_findSpecial?_eq_ok (s := s) (t := t) '>' hrest
  rw [outcome_bracketMailbox, bracketMailbox, closing, Checked.slice_append_cons, ok_bind, hr,
    ok_bind, checkBrackets]
  cases hfinds with
  | none hall =>
    rw [dropWhile_of_forall hall, takeWhile_of_forall hall]
    dsimp only
    rw [strictness_ofTokens]
    by_cases hs : s = .parseHeader
    · rw [if_pos hs, if_pos hs, pure_bind,
        checkBehind_of_none (List.getElem?_eq_none (Nat.le_succ _)), ok_bind,
        Checked.slice_append_cons]
      exact hinside hrest
    · rw [if_neg hs, if_neg hs, Checked.get_append_cons]
      exact faultAt_follows htiles hu _
  | @some js₁ js₂ us₁ us₂ c close hc hclose hbefore hinner hafter =>
    have hslice : Checked.slice (is ++ i :: (js₁ ++ c :: js₂)) (is.length + 1)
        (is.length + 1 + js₁.length) = .ok js₁ := by
      have h := Checked.slice_append (is ++ [i]) js₁ (c :: js₂)
      simpa [Nat.add_assoc, Nat.add_comm 1] using h
    -- what stands behind the closing bracket is the rest of the words
    have hbehind : (is ++ i :: (js₁ ++ c :: js₂))[is.length + 1 + js₁.length + 1]? = js₂[0]? := by
      have happend : is ++ i :: (js₁ ++ c :: js₂) = (is ++ i :: (js₁ ++ [c])) ++ js₂ := by simp
      have hlength : (is ++ i :: (js₁ ++ [c])).length = is.length + 1 + js₁.length + 1 := by
        simp
        omega
      rw [happend, List.getElem?_append_right (Nat.le_of_eq hlength), hlength, Nat.sub_self]
    rw [dropWhile_of_isSpecial hbefore hclose, takeWhile_of_isSpecial hbefore hclose]
    dsimp only
    rw [pure_bind, hslice]
    cases hafter with
    | nil =>
      rw [checkBehind_of_none hbehind, ok_bind]
      exact hinside hinner
    | cons hextra _ =>
      rw [checkBehind_of_some hbehind]
      dsimp only
      split
      · exact hinside hinner
      · exact faultAt_follows htiles hextra _

/-- **What stands between two separators is read alike**, by places or by tokens. -/
theorem mailboxes_follows {start stop : Nat} (h : Refers ts (places start stop) us) :
    Follows s t Eq ((ofTokens s t ts).mailboxes start stop) (outcome (mailboxesOf s us)) := by
  obtain ⟨ws, hws, hwords⟩ := exists_words_eq_ok (s := s) (t := t) h
  rw [mailboxes, hws, ok_bind, hwords.isEmpty_eq, mailboxesOf]
  by_cases hnone : (wordsOf us).isEmpty = true
  · rw [if_pos hnone, if_pos hnone]
    exact .ok rfl
  have hne : wordsOf us ≠ [] := by simpa using hnone
  obtain ⟨r, hr, hfinds⟩ := exists_findSpecial?_eq_ok (s := s) (t := t) '<' hwords
  rw [if_neg hnone, if_neg hnone, hr, ok_bind]
  generalize wordsOf us = words at *
  cases hfinds with
  | none hall =>
    obtain ⟨r, hr, hrel⟩ := exists_simpleRuns?_eq_ok (s := s) (t := t) hwords hne
    rw [dropWhile_of_forall hall]
    dsimp only
    rw [hr, ok_bind]
    generalize (if s = .nonStrict then InternetMail.addressRuns? words else none) = runs at hrel ⊢
    cases hrel with
    | none =>
      dsimp only
      rw [outcome_bind, outcome_liftExcept]
      refine (addrSpec_follows htiles hwords hne).bind_eq fun spec ↦ ?_
      rw [nameOfComments_eq h]
      exact .ok rfl
    | some hruns =>
      dsimp only
      rw [outcome_mapM]
      refine (Follows.mapM (S := Eq) hruns fun run tokens hrun ↦ ?_).mono fun as as' has ↦ ?_
      · rw [outcome_bind, outcome_liftExcept]
        exact (addrSpec_follows htiles hrun.1 hrun.2).bind_eq fun _ ↦ .ok rfl
      · rwa [List.forall₂_eq_eq_eq] at has
  | @some js₁ js₂ us₁ us₂ i bracket hi hbracket hbefore hfirst hafter =>
    rw [dropWhile_of_isSpecial hbefore hbracket, takeWhile_of_isSpecial hbefore hbracket]
    dsimp only
    rw [outcome_bind]
    exact (bracketMailbox_follows htiles h hfirst hi hafter).bind_eq fun _ ↦ .ok rfl

end

end Indexed

end InternetMail
