import InternetMail.Proofs.Address.Brackets
import InternetMail.Proofs.Address.Grammar

/-!
# What the strict checks accept

The checks of the strict reading, one by one, against the productions of the grammar: each accepts
what its production derives and nothing else. From them come what stands between two separators
(`outcome_mailboxesOf_strict`) and what a group is (`outcome_groupAddress_strict`).

The checks run through the tokens by loops of their own kind: items and periods in turn, the hops of
a route between its commas, a name up to the first sign. The productions are inductive and have no
first sign or last colon, so each lemma needs that what is derived has none of these specials but
where its production says so. For a route this is an induction on its hops
(`Grammar.Hops.stretches`) in one direction, and on the stretches in the other
(`hops_of_stretches`). A mailbox with brackets is taken in the steps of `outcome_bracketMailbox`,
and each of them is an equivalence.
-/

namespace InternetMail

open Reported Grammar

/-! ### Dotted runs and phrases -/

@[simp]
theorem dotted_singleton_iff {isItem : Token → Bool} {t : Token} :
    Dotted isItem [t] ↔ isItem t = true :=
  ⟨fun h ↦ by cases h; assumption, .item⟩

@[simp]
theorem dotted_cons_cons_iff {isItem : Token → Bool} {t dot : Token} {ts : List Token} :
    Dotted isItem (t :: dot :: ts) ↔
      isItem t = true ∧ dot.isSpecial '.' = true ∧ Dotted isItem ts :=
  ⟨fun h ↦ by cases h; exact ⟨‹_›, ‹_›, ‹_›⟩, fun ⟨ht, hdot, hts⟩ ↦ .cons ht hdot hts⟩

theorem not_dotted_nil {isItem : Token → Bool} : ¬Dotted isItem [] :=
  fun h ↦ h.ne_nil rfl

/-- Items and periods in turn. -/
theorem checkDotted_eq_ok_iff {isItem : Token → Bool} {ws : List Token} (hws : ws ≠ []) :
    checkDotted isItem ws = .ok () ↔ Dotted isItem ws := by
  fun_induction checkDotted isItem ws with
  | case7 t dot u ts ht hdot ih => simp_all
  | _ => simp_all [not_dotted_nil]

/-- A domain is a literal or labels with periods between them. -/
theorem checkDomain_eq_ok_iff {sign : Token} {domain : List Token} :
    checkDomain sign domain = .ok () ↔ Domain domain := by
  unfold checkDomain
  cases domain with
  | nil => simp [Domain, not_dotted_nil]
  | cons t ts => simp [Domain, checkDotted_eq_ok_iff]

/-- A phrase is words, and periods behind the first of them. -/
theorem checkPhrase_eq_ok_iff {ws : List Token} (hws : ws ≠ []) :
    checkPhrase ws = .ok () ↔ Phrase ws := by
  unfold checkPhrase Phrase
  split
  · rename_i t h
    have ht := List.find?_some h
    have hmem := List.mem_of_find?_eq_some h
    simp only [reduceCtorEq, false_iff, not_and, not_forall]
    exact fun _ ↦ ⟨t, hmem, by simpa using ht⟩
  · rename_i h
    simpa [hws, or_iff_not_imp_left] using h

/-! ### Addr-specs and routes -/

/-- At the first sign the local part ends and the domain begins. -/
theorem checkAddrSpec_append_cons {name domain : List Token} {sign : Token}
    (hname : ∀ t ∈ name, t.isSpecial '@' = false) (hsign : sign.isSpecial '@' = true) :
    checkAddrSpec (name ++ sign :: domain) = .ok () ↔
      Dotted Token.isWord name ∧ Domain domain := by
  have hn : ∀ t ∈ name, (!t.isSpecial '@') = true := by simpa using hname
  have hs : (!sign.isSpecial '@') = false := by simpa using hsign
  unfold checkAddrSpec
  rw [Run.dropWhile_append_cons _ hn hs, Run.takeWhile_append_cons _ hn hs]
  cases hf : domain.find? (·.isSpecial '@') with
  | some t =>
    -- a second `@`, which no domain has
    simp only [hf, reduceCtorEq, false_iff, not_and]
    intro _ hdomain
    have hsecond : t.isSpecial '@' = true := by simpa using List.find?_some hf
    rw [hdomain.isSpecial_eq_false (by decide) t (List.mem_of_find?_eq_some hf)] at hsecond
    cases hsecond
  | none =>
    cases name with
    | nil => simp [hf, not_dotted_nil, bind_eq_ok_iff]
    | cons t ts => simp [hf, check_bind_eq_ok_iff, checkDotted_eq_ok_iff, checkDomain_eq_ok_iff]

/-- **An addr-spec passes if it is derived as one.** -/
theorem checkAddrSpec_eq_ok_iff {ws : List Token} (hws : ws ≠ []) :
    checkAddrSpec ws = .ok () ↔ AddrSpec ws := by
  constructor
  · intro h
    cases hd : ws.dropWhile (!·.isSpecial '@') with
    | nil =>
      simp [checkAddrSpec, hd, List.getLast?_eq_some_getLast hws] at h
    | cons sign domain =>
      obtain ⟨hws, hname, hsign⟩ := Run.dropWhile_eq_cons_iff.1 ⟨hd, rfl⟩
      rw [hws] at h ⊢
      obtain ⟨hn, hdomain⟩ :=
        (checkAddrSpec_append_cons (by simpa using hname) (by simpa using hsign)).1 h
      exact .intro hn (by simpa using hsign) hdomain
  · rintro ⟨hname, hsign, hdomain⟩
    exact (checkAddrSpec_append_cons (hname.isSpecial_eq_false (by decide)) hsign).2
      ⟨hname, hdomain⟩

/-- A hop is a sign and a domain, or nothing. -/
theorem checkHop_eq_ok_iff {hop : List Token} :
    checkHop hop = .ok () ↔ hop = [] ∨ ∃ sign domain, hop = sign :: domain ∧
      sign.isSpecial '@' = true ∧ Domain domain := by
  cases hop with
  | nil => simp [checkHop]
  | cons t domain =>
    by_cases ht : t.isSpecial '@' = true
    · simp only [checkHop, ht, if_true, checkDomain_eq_ok_iff, reduceCtorEq, false_or]
      exact ⟨fun h ↦ ⟨t, domain, rfl, ht, h⟩, fun ⟨_, _, h, _, hd⟩ ↦ by cases h; exact hd⟩
    · simp [checkHop, ht]

/-- All of several checks pass. -/
theorem forM_eq_ok_iff {ε α : Type} {f : α → Except ε Unit} {xs : List α} :
    xs.forM f = .ok () ↔ ∀ x ∈ xs, f x = .ok () := by
  induction xs with
  | nil => simp [List.forM, pure, Except.pure]
  | cons x xs ih =>
    rw [List.forM_eq_forM] at ih ⊢
    simp [check_bind_eq_ok_iff, ih]

/-- The rest of a route is hops apart by commas. -/
theorem hops_of_stretches {body hop : List Token} {hops : List (List Token)} {colon : Token}
    (hcolon : colon.isSpecial ':' = true)
    (hbody : Run.stretches (·.isSpecial ',') body = hop :: hops)
    (hops_ok : ∀ h ∈ hops, checkHop h = .ok ()) :
    ∃ rest, body = hop ++ rest ∧ Hops (rest ++ [colon]) := by
  -- a comma begins a hop that its check knows; any other token belongs to the first one
  induction body generalizing hop hops with
  | nil =>
    cases hbody
    exact ⟨[], rfl, .colon hcolon⟩
  | cons t body ih =>
    by_cases ht : t.isSpecial ',' = true
    · simp only [Run.stretches, ht, if_true, List.cons.injEq] at hbody
      obtain ⟨rfl, rfl⟩ := hbody
      cases hs : Run.stretches (·.isSpecial ',') body with
      | nil => exact absurd hs (Run.stretches_ne_nil _ _)
      | cons hop hops =>
        rw [hs] at hops_ok
        obtain ⟨rest, rfl, hrest⟩ := ih hs fun h hmem ↦ hops_ok h (List.mem_cons_of_mem _ hmem)
        refine ⟨t :: (hop ++ rest), rfl, ?_⟩
        rcases checkHop_eq_ok_iff.1 (hops_ok hop List.mem_cons_self) with
          rfl | ⟨sign, domain, rfl, hsign, hdomain⟩
        · exact .empty ht hrest
        · simpa using Hops.hop ht hsign hdomain hrest
    · cases hs : Run.stretches (·.isSpecial ',') body with
      | nil => exact absurd hs (Run.stretches_ne_nil _ _)
      | cons run runs =>
        simp only [Run.stretches, ht, hs] at hbody
        obtain ⟨rfl, rfl⟩ := hbody
        obtain ⟨rest, rfl, hrest⟩ := ih hs hops_ok
        exact ⟨rest, rfl, hrest⟩

/-- The hops of a route pass their checks, whatever stands before the first comma. -/
theorem Grammar.Hops.stretches {ws : List Token} (h : Hops ws) :
    ∃ body colon, ws = body ++ [colon] ∧ colon.isSpecial ':' = true ∧
      (∀ t ∈ body, t.isSpecial ':' = false) ∧
      ∀ first, (∀ t ∈ first, t.isSpecial ',' = false) →
        ∃ hops, Run.stretches (·.isSpecial ',') (first ++ body) = first :: hops ∧
          ∀ hop ∈ hops, checkHop hop = .ok () := by
  -- `first` is the domain of the hop before, which the splitting puts in front of the first comma
  induction h with
  | @colon t ht =>
    refine ⟨[], t, rfl, ht, by simp, fun first hfirst ↦ ⟨[], ?_, by simp⟩⟩
    rw [List.append_nil, Run.stretches_of_forall hfirst]
  | @empty comma ws hcomma _ ih =>
    obtain ⟨body, colon, rfl, hcolon, hbody, ih⟩ := ih
    obtain ⟨hops, hs, hops_ok⟩ := ih [] (by simp)
    refine ⟨comma :: body, colon, rfl, hcolon, ?_, fun first hfirst ↦ ⟨[] :: hops, ?_, ?_⟩⟩
    · simpa using ⟨Token.isSpecial_eq_false hcomma (by decide), hbody⟩
    · rw [Run.stretches_append_cons hfirst hcomma]
      simpa using hs
    · simpa [checkHop] using hops_ok
  | @hop comma sign domain ws hcomma hsign hdomain _ ih =>
    obtain ⟨body, colon, rfl, hcolon, hbody, ih⟩ := ih
    obtain ⟨hops, hs, hops_ok⟩ := ih (sign :: domain)
      (hdomain.isSpecial_cons_eq_false hsign (by decide) (by decide))
    refine ⟨comma :: sign :: (domain ++ body), colon, by simp, hcolon, ?_,
      fun first hfirst ↦ ⟨(sign :: domain) :: hops, ?_, ?_⟩⟩
    · intro t ht
      simp only [List.mem_cons, List.mem_append] at ht
      rcases ht with rfl | rfl | ht | ht
      · exact Token.isSpecial_eq_false hcomma (by decide)
      · exact Token.isSpecial_eq_false hsign (by decide)
      · exact hdomain.isSpecial_eq_false (by decide) t ht
      · exact hbody t ht
    · rw [Run.stretches_append_cons hfirst hcomma, ← hs, List.cons_append]
    · intro hop hmem
      rcases List.mem_cons.1 hmem with rfl | hmem
      · exact checkHop_eq_ok_iff.2 (Or.inr ⟨sign, domain, rfl, hsign, hdomain⟩)
      · exact hops_ok hop hmem

/-- A route is checked hop by hop, without its colon. -/
theorem checkRoute_append_colon {body : List Token} {sign colon : Token} :
    checkRoute (sign :: (body ++ [colon])) = .ok () ↔
      ∀ hop ∈ Run.stretches (·.isSpecial ',') (sign :: body), checkHop hop = .ok () := by
  have hlast : (sign :: (body ++ [colon])).dropLast = sign :: body := by
    rw [← List.cons_append, List.dropLast_concat]
  rw [checkRoute, hlast]
  simpa using forM_eq_ok_iff

/-- What is checked so is a route. -/
theorem route_of_checkRoute {body : List Token} {sign colon : Token}
    (hsign : sign.isSpecial '@' = true) (hcolon : colon.isSpecial ':' = true)
    (h : checkRoute (sign :: (body ++ [colon])) = .ok ()) : Route (sign :: (body ++ [colon])) := by
  rw [checkRoute_append_colon] at h
  have hcomma := Token.isSpecial_eq_false hsign (show '@' ≠ ',' by decide)
  cases hs : Run.stretches (·.isSpecial ',') body with
  | nil => exact absurd hs (Run.stretches_ne_nil _ _)
  | cons run runs =>
    simp only [Run.stretches, hcomma, hs, Bool.false_eq_true, if_false, List.mem_cons] at h
    obtain ⟨rest, rfl, hrest⟩ := hops_of_stretches hcolon hs fun hop hmem ↦ h hop (Or.inr hmem)
    rcases checkHop_eq_ok_iff.1 (h _ (Or.inl rfl)) with hnil | ⟨_, domain, heq, -, hdomain⟩
    · cases hnil
    · cases heq
      rw [List.append_assoc]
      exact .intro hsign hdomain hrest

/-- What is split off inside angle brackets is the whole of it, and a route if it passes. -/
theorem routeOrNone_of_splitRoute {inner route spec : List Token}
    (h : splitRoute inner = .ok (route, spec)) (hroute : checkRoute route = .ok ()) :
    inner = route ++ spec ∧ RouteOrNone route := by
  cases inner with
  | nil =>
    cases h
    exact ⟨rfl, Or.inl rfl⟩
  | cons first inner =>
    by_cases hfirst : first.isSpecial '@' = true
    · simp only [splitRoute, hfirst, if_true] at h
      cases hd : (first :: inner).dropWhile (!·.isSpecial ':') with
      | nil => simp [hd] at h
      | cons colon rest =>
        simp only [hd, Except.ok.injEq, Prod.mk.injEq] at h
        obtain ⟨rfl, rfl⟩ := h
        obtain ⟨hinner, -, hcolon⟩ := Run.dropWhile_eq_cons_iff.1 ⟨hd, rfl⟩
        refine ⟨by rw [List.append_assoc]; exact hinner, Or.inr ?_⟩
        have hc := Token.isSpecial_eq_false hfirst (show '@' ≠ ':' by decide)
        rw [List.takeWhile_cons_of_pos (by simp [hc])] at hroute ⊢
        exact route_of_checkRoute hfirst (by simpa using hcolon) hroute
    · simp only [splitRoute, hfirst] at h
      cases h
      exact ⟨rfl, Or.inl rfl⟩

/-- A route and an addr-spec are split where the one ends, and the route passes. -/
theorem splitRoute_append {route spec : List Token} (hroute : RouteOrNone route)
    (hspec : AddrSpec spec) :
    splitRoute (route ++ spec) = .ok (route, spec) ∧ checkRoute route = .ok () := by
  rcases hroute with rfl | ⟨hsign, hdomain, hhops⟩
  · cases hspec with
    | intro hname _ _ =>
      cases hname with
      | item ht => simp [splitRoute, checkRoute, Token.isSpecial_eq_false_of_isWord ht]
      | cons ht _ _ => simp [splitRoute, checkRoute, Token.isSpecial_eq_false_of_isWord ht]
  · rename_i sign domain ws
    obtain ⟨body, colon, rfl, hcolon, hbody, hstretches⟩ := hhops.stretches
    -- the colon that ends the route is its only one
    have hbefore : ∀ t ∈ sign :: (domain ++ body), (!t.isSpecial ':') = true := by
      intro t ht
      simp only [List.mem_cons, List.mem_append] at ht
      rcases ht with rfl | ht | ht
      · simp [Token.isSpecial_eq_false hsign (show '@' ≠ ':' by decide)]
      · simp [hdomain.isSpecial_eq_false (show '.' ≠ ':' by decide) t ht]
      · simp [hbody t ht]
    have hc : (!colon.isSpecial ':') = false := by simp [hcolon]
    obtain ⟨hops, hs, hops_ok⟩ := hstretches (sign :: domain)
      (hdomain.isSpecial_cons_eq_false hsign (by decide) (by decide))
    constructor
    · have hassoc : sign :: (domain ++ (body ++ [colon])) ++ spec =
          sign :: (domain ++ body) ++ colon :: spec := by simp
      have hd := Run.dropWhile_append_cons spec hbefore hc
      have ht := Run.takeWhile_append_cons spec hbefore hc
      rw [hassoc]
      rw [List.cons_append] at hd ht ⊢
      simp only [splitRoute, hsign, if_true, hd, ht]
      simp
    · rw [← List.append_assoc, checkRoute_append_colon]
      rw [List.cons_append] at hs
      rw [hs]
      intro hop hmem
      rcases List.mem_cons.1 hmem with rfl | hmem
      · exact checkHop_eq_ok_iff.2 (Or.inr ⟨sign, domain, rfl, hsign, hdomain⟩)
      · exact hops_ok hop hmem

/-! ### Mailboxes -/

/-- The addr-spec that is read is the text of its tokens. -/
theorem addrSpec_strict_eq_ok_iff {ws : List Token} {text : Text} (hws : ws ≠ []) :
    addrSpec .strict ws = .ok text ↔ AddrSpec ws ∧ rawOf ws = text := by
  simp only [addrSpec, check_bind_eq_ok_iff, checkAddrSpec_eq_ok_iff hws]
  simp [pure, Except.pure]

/-- Inside angle brackets stand a route or none and an addr-spec. -/
theorem bracketed_strict_eq_ok_iff {bracket : Token} {inner : List Token} {text : Text} :
    bracketed .strict bracket inner = .ok text ↔
      ∃ route spec, inner = route ++ spec ∧ RouteOrNone route ∧ AddrSpec spec ∧
        rawOf (route ++ spec) = text := by
  rw [bracketed_eq_ok_iff]
  constructor
  · rintro ⟨route, spec, hsplit, hroute, ⟨-, h, -⟩ | ⟨hne, u, hu, rfl⟩⟩
    · cases h
    · obtain ⟨hspec, rfl⟩ := (addrSpec_strict_eq_ok_iff hne).1 hu
      obtain ⟨rfl, hroute⟩ := routeOrNone_of_splitRoute hsplit (hroute rfl)
      exact ⟨route, spec, rfl, hroute, hspec, rawOf_append ..⟩
  · rintro ⟨route, spec, rfl, hroute, hspec, rfl⟩
    obtain ⟨hsplit, hcheck⟩ := splitRoute_append hroute hspec
    have hu := (addrSpec_strict_eq_ok_iff hspec.ne_nil).2 ⟨hspec, rfl⟩
    exact ⟨route, spec, hsplit, fun _ ↦ hcheck,
      Or.inr ⟨hspec.ne_nil, _, hu, (rawOf_append ..).symm⟩⟩

/-- The address of a mailbox whose tokens, comments among them, are `ts`: it is named by its phrase,
or by a comment if it has none. -/
def mailboxAddress (ts phrase path : List Token) : Address :=
  ⟨rawOf path, if phrase.isEmpty then nameOfComments ts else .written (phraseText phrase) false⟩

/-- Brackets have to be closed, and by the last token. -/
theorem checkBrackets_strict_eq_ok_iff {bracket : Token} {after : List Token} :
    checkBrackets .strict bracket after = .ok () ↔
      ∃ inner right, after = inner ++ [right] ∧ (∀ t ∈ inner, t.isSpecial '>' = false) ∧
        right.isSpecial '>' = true := by
  constructor
  · intro h
    rw [checkBrackets] at h
    split at h
    · cases h
    · rename_i right hd
      obtain ⟨hafter, hinner, hright⟩ := Run.dropWhile_eq_cons_iff.1 ⟨hd, rfl⟩
      exact ⟨_, right, hafter, by simpa using hinner, by simpa using hright⟩
    · cases h
  · rintro ⟨inner, right, rfl, hinner, hright⟩
    rw [checkBrackets, Run.dropWhile_append_cons [] (by simpa using hinner) (by simpa using hright)]

/-- A name is a phrase, or is taken from a comment if there is none. -/
theorem nameInBrackets_strict_eq_ok_iff {all phrase : List Token} {name : DisplayName} :
    nameInBrackets .strict all phrase = .ok name ↔ PhraseOrNone phrase ∧
      (if phrase.isEmpty then nameOfComments all else .written (phraseText phrase) false) =
        name := by
  cases phrase with
  | nil => simp [nameInBrackets, PhraseOrNone]
  | cons t ts =>
    simp [nameInBrackets, PhraseOrNone, check_bind_eq_ok_iff, checkPhrase_eq_ok_iff, pure,
      Except.pure]

/-- A phrase or none, and in brackets that end the tokens a route or none and an addr-spec. -/
theorem outcome_bracketMailbox_strict {ts phrase after : List Token} {left : Token} {a : Address} :
    outcome (bracketMailbox .strict ts phrase left after) = .ok a ↔
      ∃ route spec right, after = route ++ spec ++ [right] ∧ right.isSpecial '>' = true ∧
        PhraseOrNone phrase ∧ RouteOrNone route ∧ AddrSpec spec ∧
        mailboxAddress ts phrase (route ++ spec) = a := by
  rw [outcome_bracketMailbox, check_bind_eq_ok_iff, checkBrackets_strict_eq_ok_iff]
  simp only [bind_eq_ok_iff, bracketed_strict_eq_ok_iff, nameInBrackets_strict_eq_ok_iff]
  constructor
  · rintro ⟨⟨inner, right, rfl, hinner, hright⟩, _, ⟨route, spec, htake, hroute, hspec, rfl⟩, _,
      ⟨hphrase, rfl⟩, h⟩
    rw [Run.takeWhile_append_cons [] (by simpa using hinner) (by simpa using hright)] at htake
    subst htake
    cases h
    exact ⟨route, spec, right, rfl, hright, hphrase, hroute, hspec, rfl⟩
  · rintro ⟨route, spec, right, rfl, hright, hphrase, hroute, hspec, rfl⟩
    have hinner := hroute.isSpecial_append_eq_false hspec
    refine ⟨⟨_, right, rfl, hinner, hright⟩, _, ⟨route, spec, ?_, hroute, hspec, rfl⟩, _,
      ⟨hphrase, rfl⟩, rfl⟩
    exact Run.takeWhile_append_cons [] (by simpa using hinner) (by simpa using hright)

/-- Without an angle bracket the strict reading finds an addr-spec. -/
theorem outcome_mailboxesOf_strict_bare {ts : List Token} {as : List Address}
    (hws : wordsOf ts ≠ []) (hnone : ∀ t ∈ wordsOf ts, t.isSpecial '<' = false) :
    outcome (mailboxesOf .strict ts) = .ok as ↔
      ∃ phrase path, Mailbox (wordsOf ts) phrase path ∧ as = [mailboxAddress ts phrase path] := by
  have hd : (wordsOf ts).dropWhile (!·.isSpecial '<') = [] := by simpa using hnone
  have hout : outcome (mailboxesOf .strict ts) = .ok as ↔
      ∃ text, addrSpec .strict (wordsOf ts) = .ok text ∧ [⟨text, nameOfComments ts⟩] = as := by
    simp [mailboxesOf, hws, hd, bind_eq_ok_iff]
  simp only [hout, mailbox_iff_of_forall hnone, addrSpec_strict_eq_ok_iff hws]
  constructor
  · rintro ⟨_, ⟨hspec, rfl⟩, rfl⟩
    exact ⟨[], _, ⟨hspec, rfl, rfl⟩, rfl⟩
  · rintro ⟨_, _, ⟨hspec, rfl, rfl⟩, rfl⟩
    exact ⟨_, ⟨hspec, rfl⟩, rfl⟩

/-- With one it finds a phrase before the first of them, and an address inside. -/
theorem outcome_mailboxesOf_strict_bracketed {ts before after : List Token} {left : Token}
    {as : List Address} (heq : wordsOf ts = before ++ left :: after)
    (hbefore : ∀ t ∈ before, t.isSpecial '<' = false) (hleft : left.isSpecial '<' = true) :
    outcome (mailboxesOf .strict ts) = .ok as ↔
      ∃ phrase path, Mailbox (wordsOf ts) phrase path ∧ as = [mailboxAddress ts phrase path] := by
  have hb : ∀ t ∈ before, (!t.isSpecial '<') = true := by simpa using hbefore
  have hl : (!left.isSpecial '<') = false := by simpa using hleft
  have hd := Run.dropWhile_append_cons after hb hl
  have ht := Run.takeWhile_append_cons after hb hl
  have hout : outcome (mailboxesOf .strict ts) = .ok as ↔
      ∃ a, outcome (bracketMailbox .strict ts before left after) = .ok a ∧ [a] = as := by
    simp [mailboxesOf, heq, hd, ht, bind_eq_ok_iff]
  simp only [hout, heq, outcome_bracketMailbox_strict, mailbox_append_cons_iff hbefore hleft]
  constructor
  · rintro ⟨_, ⟨route, spec, right, rfl, hright, hphrase, hroute, hspec, rfl⟩, rfl⟩
    exact ⟨_, _, ⟨route, spec, right, rfl, hright, hphrase, hroute, hspec, rfl, rfl⟩, rfl⟩
  · rintro ⟨_, _, ⟨route, spec, right, rfl, hright, hphrase, hroute, hspec, rfl, rfl⟩, rfl⟩
    exact ⟨_, ⟨route, spec, right, rfl, hright, hphrase, hroute, hspec, rfl⟩, rfl⟩

/-- Between two separators the strict reading finds a mailbox or nothing. -/
theorem outcome_mailboxesOf_strict {ts : List Token} {as : List Address} :
    outcome (mailboxesOf .strict ts) = .ok as ↔
      wordsOf ts = [] ∧ as = [] ∨
        ∃ phrase path, Mailbox (wordsOf ts) phrase path ∧ as = [mailboxAddress ts phrase path] := by
  by_cases hws : wordsOf ts = []
  · simp [mailboxesOf, hws, not_mailbox_nil, eq_comm]
  simp only [hws, false_and, false_or]
  cases hd : (wordsOf ts).dropWhile (!·.isSpecial '<') with
  | nil => exact outcome_mailboxesOf_strict_bare hws (by simpa using hd)
  | cons left after =>
    obtain ⟨heq, hbefore, hleft⟩ := Run.dropWhile_eq_cons_iff.1 ⟨hd, rfl⟩
    exact outcome_mailboxesOf_strict_bracketed heq (by simpa using hbefore) (by simpa using hleft)

/-! ### Groups -/

/-- Mailboxes one after another are read if each of them is. -/
theorem exists_outcome_mailboxesOfAll_iff {s : Strictness} {runs : List (List Token)} :
    (∃ as, outcome (mailboxesOfAll s runs) = .ok as) ↔
      ∀ run ∈ runs, ∃ as, outcome (mailboxesOf s run) = .ok as := by
  induction runs with
  | nil => simp [mailboxesOfAll]
  | cons run runs ih =>
    rw [List.forall_mem_cons, ← ih]
    simp only [mailboxesOfAll, outcome_bind, outcome_pure, bind_eq_ok_iff]
    constructor
    · rintro ⟨_, as, has, bs, hbs, -⟩
      exact ⟨⟨as, has⟩, bs, hbs⟩
    · rintro ⟨⟨as, has⟩, bs, hbs⟩
      exact ⟨_, as, has, bs, hbs, rfl⟩

/-- All members are read if each is a mailbox or nothing. -/
theorem outcome_mailboxesOfAll_strict {runs : List (List Token)} :
    (∃ as, outcome (mailboxesOfAll .strict runs) = .ok as) ↔
      ∀ run ∈ runs, MailboxOrNone (wordsOf run) := by
  have hrun (run : List Token) : (∃ as, outcome (mailboxesOf .strict run) = .ok as) ↔
      MailboxOrNone (wordsOf run) := by
    simp only [outcome_mailboxesOf_strict, MailboxOrNone]
    constructor
    · rintro ⟨_, ⟨h, -⟩ | ⟨phrase, path, h, -⟩⟩
      · exact Or.inl h
      · exact Or.inr ⟨phrase, path, h⟩
    · rintro (h | ⟨phrase, path, h⟩)
      · exact ⟨_, Or.inl ⟨h, rfl⟩⟩
      · exact ⟨_, Or.inr ⟨phrase, path, h, rfl⟩⟩
  simp only [exists_outcome_mailboxesOfAll_iff, hrun]

/-- A group has a name and members that are mailboxes or nothing. -/
theorem outcome_groupAddress_strict {phrase members : List Token} {colon semicolon : Token}
    {a : Address} :
    outcome (groupAddress .strict phrase colon members (some semicolon)) = .ok a ↔
      Phrase (wordsOf phrase) ∧
        (∀ run ∈ splitMailboxes false members, MailboxOrNone (wordsOf run)) ∧
        ⟨sourceOf (phrase ++ colon :: (members ++ [semicolon])), .absent⟩ = a := by
  have hname : checkGroupName .strict phrase colon = .ok () ↔ Phrase (wordsOf phrase) := by
    cases hws : wordsOf phrase with
    | nil => simp [checkGroupName, hws, Phrase]
    | cons t ts => simp [checkGroupName, hws, checkPhrase_eq_ok_iff]
  simp only [groupAddress, outcome_bind, outcome_liftExcept, outcome_pure, hname, bind_eq_ok_iff,
    ← outcome_mailboxesOfAll_strict]
  simp

end InternetMail
