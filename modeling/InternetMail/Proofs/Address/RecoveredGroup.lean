import InternetMail.Proofs.Address.GroupText
import InternetMail.Proofs.Address.Recovery

/-!
# Groups of incoming mail

A group whose semicolon is missing is closed in incoming mail: its text is given a semicolon at the
end. Nothing but that text is kept of the group, so what it opens up to depends on how the text is
read when it is asked for.

It opens up to its members, and whether the semicolon was missing makes no difference
(`exists_forall₂_opensUp_of_parseList`). But a quoted string or a comment that is left open at the
end is not closed in the text, and then the semicolon is taken in by it. And a name that is white
space is trimmed before the text is looked at.

The group is found in the list by one search and opened up by another, and here its text may have
been completed in between. As in the strict case the text is read as the tokens of the group, blanks
and places aside (`SameTokens`), with a semicolon behind them that may be its own or not. That goes
wrong exactly if the last token is left open, since whatever is put behind it then belongs to it.
Which of these it is can be told from the group as it was found, so that `Element.OpensUp` says for
each what comes of it.
-/

namespace InternetMail

open Reported

variable {s : Strictness} {t gap : Text} {ts phrase members : List Token} {u colon : Token}
variable {close : Option Token}

/-! ### Groups of a list -/

/-- The list has a group: a name without a separator, a colon, members apart by nothing but commas,
and the semicolon that closes it. -/
structure HasGroup (ts phrase : List Token) (colon : Token) (members : List Token)
    (close : Option Token) : Prop where
  phrase_unbroken : Unbroken (endsElement false) false phrase
  phrase_closed : bracketAfterAll false phrase = false
  isSpecial_colon : colon.isSpecial ':' = true
  members_unbroken : Unbroken (endsElement true) false members
  isSpecial_close : ∀ semicolon ∈ close, semicolon.isSpecial ';' = true
  stands : ∃ before after, ts = before ++ (phrase ++ colon :: (members ++ close.toList)) ++ after

/-- A group stays one with something in front of the list. -/
theorem HasGroup.behind (h : HasGroup ts phrase colon members close) (us : List Token) :
    HasGroup (us ++ ts) phrase colon members close := by
  obtain ⟨before, after, hts⟩ := h.stands
  exact { h with stands := ⟨us ++ before, after, by simp [hts]⟩ }

/-- The name, the colon and the members of a group stand in the list. -/
theorem HasGroup.body_subset (h : HasGroup ts phrase colon members close) :
    phrase ++ colon :: members ⊆ ts := by
  obtain ⟨before, after, rfl⟩ := h.stands
  intro u hu
  simp only [List.mem_append, List.mem_cons] at hu ⊢
  tauto

/-- So does its semicolon, if it has one. -/
theorem HasGroup.close_subset (h : HasGroup ts phrase colon members close) :
    close.toList ⊆ ts := by
  obtain ⟨before, after, rfl⟩ := h.stands
  intro u hu
  simp [hu]

/-- The same tokens elsewhere are a name and a colon too. -/
theorem HasGroup.name_of_sameKinds (h : HasGroup ts phrase colon members close)
    {phrase' : List Token} {colon' : Token} (hphrase : SameKinds phrase' phrase)
    (hkind : colon'.kind = colon.kind) :
    Unbroken (endsElement false) false phrase' ∧ bracketAfterAll false phrase' = false ∧
      colon'.isSpecial ':' = true :=
  ⟨hphrase.unbroken_iff.2 h.phrase_unbroken,
    (hphrase.bracketAfterAll_eq false).trans h.phrase_closed,
    (Token.isSpecial_congr hkind ':').trans h.isSpecial_colon⟩

namespace Element

/-- A group that the list is taken apart into is a group that it has. -/
theorem hasGroup_of_mem_split {es : List Element} (h : outcome (split .parseHeader ts) = .ok es)
    (hmem : .group phrase colon members close ∈ es) : HasGroup ts phrase colon members close := by
  induction ts using elements_induction generalizing es with
  | unbroken us hu =>
    -- the only element is no group
    rw [split_of_unbroken hu, outcome_pure] at h
    cases h
    simp at hmem
  | ended us t ts hu hclosed ht hcolon ih =>
    rw [outcome_split_parseHeader_append_cons hu hclosed ht hcolon, map_eq_ok_iff] at h
    obtain ⟨es, hes, rfl⟩ := h
    rw [List.append_cons]
    exact (ih hes (by simpa using hmem)).behind _
  | leftOpen us colon' members' hu hclosed hcolon hm =>
    rw [outcome_split_parseHeader_open hu hclosed hcolon hm] at h
    cases h
    cases List.mem_singleton.1 hmem
    exact ⟨hu, hclosed, hcolon, hm, by simp, [], [], by simp⟩
  | nested us colon' members' second ts hu hclosed hcolon hm hmclosed hsecond =>
    rw [outcome_split_nested hu hclosed hcolon hm hmclosed hsecond] at h
    cases h
  | group us colon' members' semicolon ts hu hclosed hcolon hm hmclosed hsemi ih =>
    rw [outcome_split_group hu hclosed hcolon hm hmclosed hsemi, map_eq_ok_iff] at h
    obtain ⟨es, hes, rfl⟩ := h
    rcases List.mem_cons.1 hmem with heq | hmem
    · cases heq
      exact ⟨hu, hclosed, hcolon, hm, by simpa using hsemi, [], ts, by simp⟩
    · have := (ih hes hmem).behind (us ++ colon' :: (members' ++ [semicolon]))
      simpa using this

end Element

/-! ### Looking for the members -/

/-- The last semicolon is the same one at another place. -/
theorem Relocates.beforeLastSemicolon?_map {d : Nat} {f : Token → Token} (hf : Relocates d f)
    (ts : List Token) :
    beforeLastSemicolon? (ts.map f) = (beforeLastSemicolon? ts).map (List.map f) := by
  rw [beforeLastSemicolon?, beforeLastSemicolon?, ← List.map_reverse, List.dropWhile_map]
  simp only [Function.comp_def, hf.isSpecial]
  cases ts.reverse.dropWhile (!·.isSpecial ';') <;> simp

/-- Behind what stands in front of the last semicolon there is one. -/
theorem exists_eq_of_beforeLastSemicolon {vs : List Token} (h : beforeLastSemicolon? ts = some vs) :
    ∃ semicolon rest, ts = vs ++ semicolon :: rest := by
  rw [beforeLastSemicolon?] at h
  split at h
  · cases h
  · rename_i semicolon before hd
    obtain ⟨heq, -⟩ := Run.dropWhile_eq_cons_iff.1 ⟨hd, rfl⟩
    cases h
    refine ⟨semicolon, (ts.reverse.takeWhile (!·.isSpecial ';')).reverse, ?_⟩
    have := congrArg List.reverse heq
    simpa using this

/-- A group with a name is opened at the colon behind that, and read up to the last semicolon. -/
theorem outcome_groupMembers_eq_ok_iff {rest : List Token} {ms : List Address}
    (hu : Unbroken (endsElement false) false phrase)
    (hclosed : bracketAfterAll false phrase = false) (hcolon : colon.isSpecial ':' = true) :
    outcome (groupMembers .parseHeader (phrase ++ colon :: rest)) = .ok (some ms) ↔
      ∃ vs, beforeLastSemicolon? rest = some vs ∧
        outcome (addressList .parseHeader vs) = .ok ms := by
  have hname : checkGroupName .parseHeader phrase colon = .ok () := rfl
  have hparts : groupParts? false (phrase ++ colon :: rest) = some (phrase, colon, rest) :=
    groupParts?_append_cons (hu.imp fun _ ↦ endsElement_of_isSpecial_colon false) hclosed hcolon
  rw [groupMembers, hparts]
  cases hbefore : beforeLastSemicolon? rest with
  | none => simp [hbefore]
  | some vs => simp [hbefore, hname, bind_eq_ok_iff]

/-- A token that is no semicolon can be left out behind the last one. -/
theorem beforeLastSemicolon?_concat_of_not (ts : List Token) (h : u.isSpecial ';' = false) :
    beforeLastSemicolon? (ts ++ [u]) = beforeLastSemicolon? ts := by
  simp [beforeLastSemicolon?, h]

/-- The same tokens are read as the same mailboxes before their last semicolons. -/
theorem SameTokens.exists_beforeLastSemicolon_iff {d : Nat} {us : List Token}
    (h : SameTokens d us ts)
    (hts : Unbroken (endsElement true) false ts) {as : List Address} :
    (∃ vs, beforeLastSemicolon? us = some vs ∧ outcome (addressList s vs) = .ok as) ↔
      ∃ vs, beforeLastSemicolon? ts = some vs ∧
        outcome (mailboxesOfAll s (splitMailboxes false vs)) = .ok as := by
  have hmap := (relocates_tight_moved d).beforeLastSemicolon?_map us
  rw [h, relocates_tight.beforeLastSemicolon?_map] at hmap
  cases hts' : beforeLastSemicolon? ts with
  | none =>
    rw [hts', Option.map_none] at hmap
    simp [Option.map_eq_none_iff.1 hmap.symm]
  | some vs =>
    rw [hts', Option.map_some] at hmap
    obtain ⟨vs', hvs', hsame⟩ := Option.map_eq_some_iff.1 hmap.symm
    obtain ⟨semicolon, rest, heq⟩ := exists_eq_of_beforeLastSemicolon hts'
    have hu := (unbroken_append.1 (heq ▸ hts)).1
    have hsame : SameTokens d vs' vs := hsame
    simp [hvs', addressList_members (hsame.sameKinds.unbroken_iff.2 hu),
      hsame.outcome_mailboxesOfAll_iff]

/-! ### Tokens that are left open -/

/-- A quoted string or a comment among the tokens is left open. -/
def LeftOpen (ts : List Token) : Prop :=
  ∃ u ∈ ts, u.closed = false

namespace HasGroup

/-- If nothing among the members is left open, all of the group is closed. -/
theorem closed (h : HasGroup ts phrase colon members close)
    (hts : tokenize .parseHeader t = .ok ts) (hopen : ¬LeftOpen members) :
    ∀ v ∈ phrase ++ colon :: members, v.closed = true := by
  obtain ⟨before, after, hstands⟩ := h.stands
  have hname : ts = (before ++ phrase) ++ colon :: (members ++ close.toList ++ after) := by
    simp [hstands]
  refine List.forall_mem_append.2 ⟨fun v hv ↦ ?_, List.forall_mem_cons.2 ⟨?_, fun v hv ↦ ?_⟩⟩
  · exact closed_of_tokensFrom_append (hname ▸ hts) (List.cons_ne_nil _ _) v
      (List.mem_append_right _ hv)
  · exact closed_of_isSpecial hts (h.body_subset (by simp)) h.isSpecial_colon
  · rw [← Bool.not_eq_false]
    exact fun hv' ↦ hopen ⟨v, hv, hv'⟩

/-- What is left open is the last of the group and of the list, so that the semicolon is missing. -/
theorem exists_of_leftOpen (h : HasGroup ts phrase colon members close)
    (hts : tokenize .parseHeader t = .ok ts) (hopen : LeftOpen members) :
    close = none ∧ ∃ before ls u, ts = before ++ (phrase ++ colon :: ls ++ [u]) ∧
      members = ls ++ [u] ∧ u.closed = false ∧ u.isSpecial ';' = false := by
  obtain ⟨before, after, hstands⟩ := h.stands
  obtain ⟨u, hu, hopen⟩ := hopen
  obtain ⟨ls, rs, rfl⟩ := List.append_of_mem hu
  have heq : ts = (before ++ (phrase ++ colon :: ls)) ++ u :: (rs ++ close.toList ++ after) := by
    simp [hstands]
  have hrest : rs ++ close.toList ++ after = [] := by
    obtain ⟨_, _, hlast, -⟩ := exists_tokensFrom_right (heq ▸ hts) (head_dropWhile_isBlankChar t)
    exact eq_nil_of_open hlast hopen
  obtain ⟨rfl, rfl, rfl⟩ : rs = [] ∧ close = none ∧ after = [] := by simpa using hrest
  refine ⟨rfl, before, ls, u, by simp [heq], rfl, hopen, ?_⟩
  rw [← Bool.not_eq_true]
  intro hsemi
  rw [closed_of_isSpecial hts (h.body_subset (by simp)) hsemi] at hopen
  cases hopen

end HasGroup

/-! ### What a group opens up to -/

/-- What the addresses of an element open up to in incoming mail. A group opens up to its members if
nothing in it is left open, unless its name is white space. If a quoted string or a comment is left
open, the closing semicolon was missing and becomes part of that. Then there is a group only if
angle brackets hold another semicolon, and it ends at the last one. -/
inductive Element.OpensUp : Element → List Address → Prop
  | mailboxes {ts : List Token} {as : List Address} :
      outcome (mailboxesOf .parseHeader ts) = .ok as → OpensUp (.mailboxes ts) as
  | group {phrase members : List Token} {colon : Token} {close : Option Token} {a : Address}
      {ms : List Address} :
      outcome (groupAddress .parseHeader phrase colon members close) = .ok a →
      outcome (mailboxesOfAll .parseHeader (splitMailboxes false members)) = .ok ms →
      ¬LeftOpen members →
      outcome (Address.membersOf .parseHeader a.spec) =
        .ok (if AllWhite phrase then none else some ms) →
      OpensUp (.group phrase colon members close) [a]
  | openGroup {phrase members : List Token} {colon : Token} {a : Address} :
      outcome (groupAddress .parseHeader phrase colon members none) = .ok a →
      LeftOpen members →
      (∀ ms, outcome (Address.membersOf .parseHeader a.spec) = .ok (some ms) ↔
        ¬AllWhite phrase ∧ ∃ vs, beforeLastSemicolon? members = some vs ∧
          outcome (mailboxesOfAll .parseHeader (splitMailboxes false vs)) = .ok ms) →
      OpensUp (.group phrase colon members none) [a]

/-- In incoming mail a group is refused for its members only. Its text is what stands there, with a
semicolon if it had none. -/
theorem outcome_groupAddress_eq_ok_iff {a : Address} :
    outcome (groupAddress .parseHeader phrase colon members close) = .ok a ↔
      (∃ ms, outcome (mailboxesOfAll .parseHeader (splitMailboxes false members)) = .ok ms) ∧
        ⟨sourceOf (phrase ++ colon :: members ++ close.toList) ++
          (if close.isNone then [';'] else []), .absent⟩ = a := by
  have hname : checkGroupName .parseHeader phrase colon = .ok () := rfl
  simp [groupAddress, hname, bind_eq_ok_iff]

namespace HasGroup

variable {a : Address} {ms : List Address}

/-- A group with nothing left open opens up to its members, if it is told to be a group. -/
theorem outcome_membersOf_closed (h : HasGroup ts phrase colon members close)
    (hts : tokenize .parseHeader t = .ok ts) (hopen : ¬LeftOpen members)
    (hgap : ∀ c ∈ gap, isBlankChar c = true)
    (hms : outcome (mailboxesOfAll .parseHeader (splitMailboxes false members)) = .ok ms) :
    outcome (Address.membersOf .parseHeader
        (sourceOf (phrase ++ colon :: members) ++ (gap ++ [';']))) =
      .ok (if AllWhite phrase then none else some ms) := by
  have hclosed := h.closed hts hopen
  have hgroup :=
    isGroupText_sourceOf_iff hts h.body_subset h.phrase_unbroken h.isSpecial_colon gap
  -- the text is read as the tokens of the group again, and a semicolon
  obtain ⟨before, after, hstands⟩ := h.stands
  obtain ⟨us, u, heq⟩ :=
    (List.eq_nil_or_concat' (phrase ++ colon :: members)).resolve_left (by simp)
  have hstretch : ts = before ++ (us ++ u :: (close.toList ++ after)) := by
    rw [hstands, List.append_cons us, ← heq]
    simp
  obtain ⟨d, vs, semicolon, hvs, hsemi, hsame⟩ :=
    exists_tokenize_semicolon (hstretch ▸ hts) (heq ▸ hclosed) hgap
  rw [← heq] at hvs hsame
  refine outcome_membersOf_eq_ok_iff.2 ⟨_, hvs, ?_⟩
  by_cases hwhite : AllWhite phrase
  · rw [if_neg fun htext ↦ hgroup.1 htext hwhite, if_pos hwhite, outcome_pure]
  rw [if_pos (hgroup.2 hwhite), if_neg hwhite]
  obtain ⟨phrase', colon', members', rfl, hphrase, hkind, hmembers⟩ := hsame.exists_of_append_cons
  obtain ⟨hu, hpclosed, hcolon⟩ := h.name_of_sameKinds hphrase.sameKinds hkind
  rw [List.append_assoc, List.cons_append, outcome_groupMembers_eq_ok_iff hu hpclosed hcolon,
    beforeLastSemicolon?_concat members' hsemi]
  refine ⟨members', rfl, ?_⟩
  rw [addressList_members (hmembers.sameKinds.unbroken_iff.2 h.members_unbroken)]
  exact hmembers.outcome_mailboxesOfAll_iff.2 hms

/-- The semicolon that a group with something left open is given closes no group. -/
theorem outcome_membersOf_open (h : HasGroup ts phrase colon members none)
    (hts : tokenize .parseHeader t = .ok ts) (hopen : LeftOpen members) :
    outcome (Address.membersOf .parseHeader
        (sourceOf (phrase ++ colon :: members) ++ [';'])) = .ok (some ms) ↔
      ¬AllWhite phrase ∧ ∃ vs, beforeLastSemicolon? members = some vs ∧
        outcome (mailboxesOfAll .parseHeader (splitMailboxes false vs)) = .ok ms := by
  have hgroup :=
    isGroupText_sourceOf_iff hts h.body_subset h.phrase_unbroken h.isSpecial_colon []
  rw [List.nil_append] at hgroup
  obtain ⟨-, before, ls, u, rfl, rfl, hu, hnone⟩ := h.exists_of_leftOpen hts hopen
  -- the text is read as the tokens of the group again, with a longer one at the end
  obtain ⟨d, vs, w, hvs, hw, hsame⟩ := exists_tokenize_open hts hu (by simp)
  obtain ⟨phrase', colon', ls', rfl, hphrase, hkind, hls⟩ := hsame.exists_of_append_cons
  obtain ⟨hu, hpclosed, hcolon⟩ := h.name_of_sameKinds hphrase.sameKinds hkind
  rw [List.append_assoc, List.cons_append] at hvs
  rw [outcome_membersOf_eq_ok_iff, hvs]
  simp only [Except.ok.injEq, exists_eq_left']
  by_cases hwhite : AllWhite phrase
  · rw [if_neg fun htext ↦ hgroup.1 htext hwhite, outcome_pure]
    simp [hwhite]
  · have hmembers := (unbroken_append.1 h.members_unbroken).1
    rw [if_pos (hgroup.2 hwhite), and_iff_right hwhite, List.append_assoc, List.cons_append,
      outcome_groupMembers_eq_ok_iff hu hpclosed hcolon,
      beforeLastSemicolon?_concat_of_not ls hnone,
      beforeLastSemicolon?_concat_of_not ls' ((Token.isSpecial_congr hw ';').trans hnone),
      hls.exists_beforeLastSemicolon_iff hmembers]

/-- **What a group of a list opens up to**, by whether it was closed and whether its last token was.
-/
theorem opensUp (h : HasGroup ts phrase colon members close)
    (hts : tokenize .parseHeader t = .ok ts)
    (ha : outcome (groupAddress .parseHeader phrase colon members close) = .ok a) :
    Element.OpensUp (.group phrase colon members close) [a] := by
  obtain ⟨⟨ms, hms⟩, hspec⟩ := outcome_groupAddress_eq_ok_iff.1 ha
  by_cases hopen : LeftOpen members
  · obtain ⟨rfl, -⟩ := h.exists_of_leftOpen hts hopen
    refine .openGroup ha hopen fun ms' ↦ ?_
    rw [← hspec, ← h.outcome_membersOf_open hts hopen]
    simp
  · obtain ⟨gap, hgap, htext⟩ := exists_sourceOf_group hts h.body_subset h.close_subset
      h.isSpecial_close
    refine .group ha hms hopen ?_
    rw [← hspec, htext]
    exact h.outcome_membersOf_closed hts hopen hgap hms

end HasGroup

/-! ### Main statement -/

/-- The addresses of a list are those of its elements, one after another. -/
theorem exists_forall₂_of_addressesOf {P : Element → List Address → Prop} {es : List Element}
    {as : List Address} (h : outcome (addressesOf s es) = .ok as)
    (hP : ∀ e ∈ es, ∀ as, outcome (Element.addresses s e) = .ok as → P e as) :
    ∃ ass, List.Forall₂ P es ass ∧ ass.flatten = as := by
  induction es generalizing as with
  | nil =>
    cases h
    exact ⟨[], .nil, rfl⟩
  | cons e es ih =>
    obtain ⟨as₁, as₂, he, hes, rfl⟩ := outcome_addressesOf_cons.1 h
    rw [List.forall_mem_cons] at hP
    obtain ⟨ass, hass, rfl⟩ := ih hes hP.2
    exact ⟨as₁ :: ass, .cons (hP.1 _ he) hass, rfl⟩

/-- **A group of incoming mail is still one when its text is read alone**, also if the semicolon at
its end was missing and has been supplied: it opens up to the members that were read. What may keep
it from that is a name of white space, or a quoted string or a comment that is left open in it. -/
theorem exists_forall₂_opensUp_of_parseList {as : List Address}
    (has : outcome (Address.parseList .parseHeader t) = .ok as) :
    ∃ ts es ass, tokenize .parseHeader t = .ok ts ∧
      outcome (Element.split .parseHeader ts) = .ok es ∧
      List.Forall₂ Element.OpensUp es ass ∧ ass.flatten = as := by
  obtain ⟨ts, hts, hlist⟩ := outcome_parseList.1 has
  rw [addressList, outcome_bind, bind_eq_ok_iff] at hlist
  obtain ⟨es, hes, hlist⟩ := hlist
  have hopens : ∀ e ∈ es, ∀ as, outcome (e.addresses .parseHeader) = .ok as → e.OpensUp as := by
    intro e he as has
    cases e with
    | mailboxes ts => exact .mailboxes has
    | group phrase colon members close =>
      simp only [Element.addresses, outcome_bind, outcome_pure, bind_eq_ok_iff,
        Except.ok.injEq] at has
      obtain ⟨a, ha, rfl⟩ := has
      exact (Element.hasGroup_of_mem_split hes he).opensUp hts ha
  obtain ⟨ass, hass, rfl⟩ := exists_forall₂_of_addressesOf hlist hopens
  exact ⟨ts, es, ass, hts, hes, hass, rfl⟩

/-- A mailbox, and a group that is cut off inside angle brackets behind a semicolon in others. -/
theorem exists_forall₂_opensUp_cut_off_in_brackets :
    ∃ as ts es ass, tokenize .parseHeader "x@y, \"g;\" (c): a@b, <c;d>, e <f".toList = .ok ts ∧
      outcome (Address.parseList .parseHeader
        "x@y, \"g;\" (c): a@b, <c;d>, e <f".toList) = .ok as ∧
      outcome (Element.split .parseHeader ts) = .ok es ∧ List.Forall₂ Element.OpensUp es ass ∧
      ass.flatten = as ∧
      as.map (fun a ↦ outcome (Address.membersOf .parseHeader a.spec)) = [.ok none,
        .ok (some [⟨"a@b".toList, .absent⟩, ⟨"c;d".toList, .absent⟩,
          ⟨"f".toList, .written "e".toList false⟩])] := by
  have has : outcome (Address.parseList .parseHeader
      "x@y, \"g;\" (c): a@b, <c;d>, e <f".toList) = .ok [⟨"x@y".toList, .absent⟩,
        ⟨"\"g;\" (c): a@b, <c;d>, e <f;".toList, .absent⟩] := by
    decide +kernel
  obtain ⟨ts, es, ass, hts, hes, hall, hflat⟩ := exists_forall₂_opensUp_of_parseList has
  exact ⟨_, ts, es, ass, hts, has, hes, hall, hflat, by decide +kernel⟩

/-- The semicolon that a group with an open quoted string is given becomes part of that string, and
the group is none. -/
theorem outcome_membersOf_open_quote :
    ∃ phrase colon members a ms,
      tokenize .parseHeader "g: \"a".toList = .ok (phrase ++ colon :: members) ∧
      outcome (Element.split .parseHeader (phrase ++ colon :: members)) =
        .ok [.group phrase colon members none] ∧ phrase ≠ [] ∧
      outcome (Address.parseList .parseHeader "g: \"a".toList) = .ok [a] ∧
      outcome (groupAddress .parseHeader phrase colon members none) = .ok a ∧
      outcome (mailboxesOfAll .parseHeader (splitMailboxes false members)) = .ok ms ∧
      outcome (Address.membersOf .parseHeader a.spec) ≠ .ok (some ms) := by
  refine ⟨[⟨.atom, ['g'], ['g'], 0, [], true⟩], ⟨.special ':', [':'], [':'], 1, [' '], true⟩,
    [⟨.quotedString, ['a'], ['"', 'a'], 3, [], false⟩], ⟨"g: \"a;".toList, .absent⟩,
    [⟨"\"a".toList, .absent⟩], ?tokens, rfl, by simp, ?list, ?group, ?members, ?opened⟩
  all_goals decide +kernel

/-- The ideographic space is an atom, but a group of that name is none. -/
example :
    outcome (Address.parseList .parseHeader "\u3000: a@b".toList) =
        .ok [⟨"\u3000: a@b;".toList, .absent⟩] ∧
      outcome (Address.membersOf .parseHeader "\u3000: a@b;".toList) = .ok none := by
  decide +kernel

end InternetMail
