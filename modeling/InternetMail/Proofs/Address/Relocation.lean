import InternetMail.Proofs.Address.Brackets
import InternetMail.Proofs.Address.CleanList
import InternetMail.Proofs.Address.Rendering

/-!
# Tokens at another place

What tokens are read as depends on their kinds, values and texts, and on where blanks stand between
them, but neither on the octet at which they begin nor on the blanks after the last of them. So a
map that puts each token `d` octets further on (`Relocates d f`) keeps what is read between two
separators (`mailboxesOf_map`), and with the blanks inside it also what a group is
(`CleanGroup.map`, `CleanList.map`).

The lemmas follow the reader function by function: each says that a check, a split or a reading
makes no difference between tokens and the same tokens elsewhere. What can fail is compared by its
successes only, since a fault names the octet of its token and so does move (`checkRoute_map`,
`bracketed_map`). What reports and goes on is compared by `Alike`.

Two maps are put to use. One moves all tokens by the same distance, which is what happens to a list
that is written behind another text (`CleanList.map_moved`). The other keeps the place and takes the
blanks after a token away, which is what happens at the end of a stretch (`CleanList.concat`).
-/

namespace InternetMail

open Reported Grammar

/-- `f` keeps what a token is and puts it `d` octets further on. Nothing is said of the blanks after
it. -/
structure Relocates (d : Nat) (f : Token → Token) : Prop where
  kind : ∀ t, (f t).kind = t.kind
  value : ∀ t, (f t).value = t.value
  raw : ∀ t, (f t).raw = t.raw
  start : ∀ t, (f t).start = t.start + d

/-! ### Separators and brackets by kinds -/

theorem bracketAfter_congr {t u : Token} (h : u.kind = t.kind) (bracket : Bool) :
    bracketAfter bracket u = bracketAfter bracket t := by
  simp [bracketAfter, Token.isSpecial_congr h]

/-- Where an element ends is a matter of the kinds of tokens. -/
theorem endsElement_congr {t u : Token} (h : u.kind = t.kind) (inGroup : Bool) :
    endsElement inGroup u = endsElement inGroup t := by
  simp [endsElement, Token.isSpecial_congr h]

/-- Which bracket is open after a stretch of tokens is told by their kinds. -/
theorem SameKinds.bracketAfterAll_eq {us ts : List Token} (h : SameKinds us ts) (bracket : Bool) :
    bracketAfterAll bracket us = bracketAfterAll bracket ts := by
  induction ts generalizing us bracket with
  | nil => rw [eq_nil_of_sameKinds h]
  | cons t ts ih =>
    obtain ⟨u, us, rfl, hkind, h⟩ := exists_of_sameKinds_cons h
    rw [bracketAfterAll_cons, bracketAfterAll_cons, bracketAfter_congr hkind, ih h]

/-- A stretch holds no separator outside brackets if one with the same kinds holds none. -/
theorem SameKinds.unbroken_iff {us ts : List Token} (h : SameKinds us ts) {inGroup bracket : Bool} :
    Unbroken (endsElement inGroup) bracket us ↔ Unbroken (endsElement inGroup) bracket ts := by
  induction ts generalizing us bracket with
  | nil => rw [eq_nil_of_sameKinds h]
  | cons t ts ih =>
    obtain ⟨u, us, rfl, hkind, h⟩ := exists_of_sameKinds_cons h
    rw [Unbroken, Unbroken, endsElement_congr hkind, bracketAfter_congr hkind, ih h]

namespace Relocates

variable {d : Nat} {f : Token → Token} {s : Strictness} {ts : List Token}

/-! ### What a token is -/

theorem isSpecial (hf : Relocates d f) (c : Char) (t : Token) :
    (f t).isSpecial c = t.isSpecial c :=
  Token.isSpecial_congr (hf.kind t) c

theorem isComment (hf : Relocates d f) (t : Token) : (f t).isComment = t.isComment := by
  simp [Token.isComment, hf.kind]

theorem isAnySpecial (hf : Relocates d f) (t : Token) : (f t).isAnySpecial = t.isAnySpecial := by
  simp [Token.isAnySpecial, hf.kind]

/-- Tokens at another place are of the same kinds. -/
theorem sameKinds (hf : Relocates d f) (ts : List Token) : SameKinds (ts.map f) ts := by
  simp [SameKinds, hf.kind]

/-- Leaving the comments out can be done before or after the move. -/
theorem wordsOf_map (hf : Relocates d f) (ts : List Token) :
    wordsOf (ts.map f) = (wordsOf ts).map f := by
  simp [wordsOf, List.filter_map, Function.comp_def, hf.isComment]

theorem rawOf_map (hf : Relocates d f) (ts : List Token) : rawOf (ts.map f) = rawOf ts := by
  simp [rawOf, List.flatMap_map, hf.raw]

/-- Tokens stay apart or side by side. -/
theorem stop_lt_start_iff (hf : Relocates d f) (t u : Token) :
    (f t).stop < (f u).start ↔ t.stop < u.start := by
  simp only [Token.stop, hf.start, hf.raw]
  omega

/-- A phrase keeps its spaces. They stand where two of its tokens have a gap between them, and a gap
is as wide at another place. -/
theorem phraseText_map (hf : Relocates d f) (ts : List Token) :
    phraseText (ts.map f) = phraseText ts := by
  fun_induction phraseText ts with
  | case1 => rfl
  | case2 t => exact hf.value t
  | case3 t u ts ih =>
    rw [List.map_cons] at ih
    rw [List.map_cons, List.map_cons, phraseText, ih, hf.value]
    simp only [hf.stop_lt_start_iff]

/-- The first comment of all names an address, and it says the same where it stands now. -/
theorem nameOfComments_map (hf : Relocates d f) (ts : List Token) :
    nameOfComments (ts.map f) = nameOfComments ts := by
  simp only [nameOfComments, List.find?_map, Function.comp_def, hf.isComment, hf.value]
  cases ts.find? fun t ↦ t.isComment && !(Text.trim t.value).isEmpty with
  | none => rfl
  | some t => simp only [Option.map_some, hf.value]

/-! ### Checks -/

/-- A domain that passes does so at another place. The place is that of its sign, to which a fault
would point. -/
theorem checkDomain_map (hf : Relocates d f) (sign : Token) (domain : List Token) :
    checkDomain (f sign) (domain.map f) = .ok () ↔ checkDomain sign domain = .ok () := by
  rw [checkDomain_eq_ok_iff, checkDomain_eq_ok_iff]
  have hk := hf.sameKinds domain
  exact ⟨fun h ↦ h.congr hk.symm, fun h ↦ h.congr hk⟩

theorem checkHop_map (hf : Relocates d f) (hop : List Token) :
    checkHop (hop.map f) = .ok () ↔ checkHop hop = .ok () := by
  cases hop with
  | nil => rfl
  | cons sign domain =>
    rw [List.map_cons, checkHop, checkHop, hf.isSpecial]
    split
    · exact hf.checkDomain_map sign domain
    · simp

theorem stretches_map (hf : Relocates d f) (c : Char) (ts : List Token) :
    Run.stretches (·.isSpecial c) (ts.map f) =
      (Run.stretches (·.isSpecial c) ts).map (List.map f) := by
  induction ts with
  | nil => rfl
  | cons t ts ih =>
    rw [List.map_cons, Run.stretches, Run.stretches, ih, hf.isSpecial]
    split
    · rfl
    · cases Run.stretches (·.isSpecial c) ts <;> rfl

/-- A route is cut at its commas, hop by hop, and each hop passes where it passed before. -/
theorem checkRoute_map (hf : Relocates d f) (route : List Token) :
    checkRoute (route.map f) = .ok () ↔ checkRoute route = .ok () := by
  rw [checkRoute, checkRoute, List.isEmpty_map]
  split
  · rfl
  · rw [← List.map_dropLast, hf.stretches_map, forM_eq_ok_iff, forM_eq_ok_iff]
    simp [hf.checkHop_map]

theorem checkPhrase_map (hf : Relocates d f) (phrase : List Token) :
    checkPhrase (phrase.map f) = .ok () ↔ checkPhrase phrase = .ok () := by
  cases phrase with
  | nil => rfl
  | cons t ts =>
    have hk := hf.sameKinds (t :: ts)
    rw [checkPhrase_eq_ok_iff (by simp), checkPhrase_eq_ok_iff (by simp)]
    exact ⟨fun h ↦ h.congr hk.symm, fun h ↦ h.congr hk⟩

theorem checkLooseAddrSpec_map (hf : Relocates d f) (ws : List Token) :
    checkLooseAddrSpec (ws.map f) = .ok () ↔ checkLooseAddrSpec ws = .ok () := by
  cases ws with
  | nil => rfl
  | cons t ts =>
    simp only [checkLooseAddrSpec, List.map_cons, List.head?_cons, hf.isSpecial]
    split
    · simp
    · rw [← List.map_cons, List.find?_map]
      simp only [Function.comp_def, hf.isSpecial, hf.isAnySpecial]
      cases (t :: ts).find? fun t ↦ t.isAnySpecial && !t.isSpecial '.' && !t.isSpecial '@' <;>
        simp

/-- An addr-spec is read as the same text: it is the text of its tokens, which do not change. -/
theorem addrSpec_map (hf : Relocates d f) (ws : List Token) (spec : Text) :
    addrSpec s (ws.map f) = .ok spec ↔ addrSpec s ws = .ok spec := by
  cases s with
  | parseHeader => simp only [addrSpec, hf.rawOf_map]
  | nonStrict => simp only [addrSpec, check_bind_eq_ok_iff, hf.checkLooseAddrSpec_map, hf.rawOf_map]
  | strict =>
    cases ws with
    | nil => rfl
    | cons t ts =>
      have hk := hf.sameKinds (t :: ts)
      rw [addrSpec_strict_eq_ok_iff (by simp), addrSpec_strict_eq_ok_iff (by simp), hf.rawOf_map]
      exact and_congr_left' ⟨fun h ↦ h.congr hk.symm, fun h ↦ h.congr hk⟩

/-! ### Mailboxes -/

/-- Runs of tokens without gaps are the same runs. Whether there is a gap is seen from the end of
one token and the start of the next, and both are moved. -/
theorem gapRuns_map (hf : Relocates d f) (ts : List Token) :
    gapRuns (ts.map f) = (gapRuns ts).map (List.map f) := by
  induction ts with
  | nil => rfl
  | cons t ts ih =>
    cases ts with
    | nil => rfl
    | cons u ts =>
      rw [List.map_cons] at ih
      rw [List.map_cons, List.map_cons, gapRuns, gapRuns, ih]
      simp only [hf.stop_lt_start_iff, hf.isAnySpecial]
      split
      · rfl
      · cases gapRuns (u :: ts) <;> rfl

theorem addressRuns?_map (hf : Relocates d f) (ws : List Token) :
    addressRuns? (ws.map f) = (addressRuns? ws).map (List.map (List.map f)) := by
  simp only [addressRuns?, hf.gapRuns_map, List.length_map, List.all_map, Function.comp_def,
    List.any_map, hf.isSpecial]
  split <;> rfl

/-- A route is split off at the same token. -/
theorem splitRoute_map (hf : Relocates d f) (inner : List Token) (parts : List Token × List Token) :
    splitRoute (inner.map f) = .ok parts ↔
      ∃ route spec, splitRoute inner = .ok (route, spec) ∧ (route.map f, spec.map f) = parts := by
  cases inner with
  | nil => simp [splitRoute]
  | cons first inner =>
    simp only [splitRoute, List.map_cons, hf.isSpecial]
    split
    · rw [← List.map_cons, List.dropWhile_map, List.takeWhile_map]
      simp only [Function.comp_def, hf.isSpecial]
      cases (first :: inner).dropWhile (!·.isSpecial ':') <;> simp
    · simp

/-- What stands in brackets is read as the same text. -/
theorem bracketed_map (hf : Relocates d f) (bracket : Token) (inner : List Token) (spec : Text) :
    bracketed s (f bracket) (inner.map f) = .ok spec ↔ bracketed s bracket inner = .ok spec := by
  simp only [bracketed_eq_ok_iff, hf.splitRoute_map, Prod.mk.injEq]
  constructor
  · rintro ⟨_, _, ⟨route, spec, hsplit, rfl, rfl⟩, hroute, h⟩
    rw [hf.checkRoute_map] at hroute
    refine ⟨route, spec, hsplit, hroute, ?_⟩
    simpa [hf.rawOf_map, hf.addrSpec_map] using h
  · rintro ⟨route, spec, hsplit, hroute, h⟩
    rw [← hf.checkRoute_map] at hroute
    refine ⟨_, _, ⟨route, spec, hsplit, rfl, rfl⟩, hroute, ?_⟩
    simpa [hf.rawOf_map, hf.addrSpec_map] using h

/-- A mailbox with brackets, read with the notices left out: each of its steps is alike at both
places. -/
theorem alike_bracketMailbox (hf : Relocates d f) (phrase after : List Token) (left : Token) :
    Alike (bracketMailbox s (ts.map f) (phrase.map f) (f left) (after.map f))
      (bracketMailbox s ts phrase left after) := by
  rw [bracketMailbox, bracketMailbox]
  simp only [List.dropWhile_map, List.takeWhile_map, Function.comp_def, hf.isSpecial]
  have htail : ∀ u : Unit, Alike
      (do
        let spec ← liftM (bracketed s (f left) ((after.takeWhile (!·.isSpecial '>')).map f))
        if (phrase.map f).isEmpty then return ⟨spec, nameOfComments (ts.map f)⟩
        if s = .strict then checkPhrase (phrase.map f)
        return ⟨spec, .written (phraseText (phrase.map f)) false⟩ : Parsing Address)
      (do
        let spec ← liftM (bracketed s left (after.takeWhile (!·.isSpecial '>')))
        if phrase.isEmpty then return ⟨spec, nameOfComments ts⟩
        if s = .strict then checkPhrase phrase
        return ⟨spec, .written (phraseText phrase) false⟩) := by
    intro _
    refine .bind (.liftExcept fun spec ↦ hf.bracketed_map left _ spec) fun spec ↦ ?_
    rw [List.isEmpty_map, hf.nameOfComments_map, hf.phraseText_map]
    split
    · exact .refl _
    · split
      · exact .bind (.liftExcept fun _ ↦ hf.checkPhrase_map phrase) fun _ ↦ .refl _
      · exact .refl _
  cases after.dropWhile (!·.isSpecial '>') with
  | nil =>
    simp only [List.map_nil]
    split
    · exact .bind (.throw _ _) fun _ ↦ .bind (.refl _) htail
    · exact .bind (.refl _) htail
  | cons right rest =>
    cases rest with
    | nil => exact htail ()
    | cons extra rest =>
      simp only [List.map_cons]
      split
      · exact .bind (.throw _ _) fun _ ↦ .bind (.refl _) htail
      · exact .bind (.refl _) htail

/-- What stands between two separators is alike at both places. -/
theorem alike_mailboxesOf (hf : Relocates d f) (ts : List Token) :
    Alike (mailboxesOf s (ts.map f)) (mailboxesOf s ts) := by
  rw [mailboxesOf, mailboxesOf, hf.wordsOf_map, hf.nameOfComments_map]
  generalize wordsOf ts = ws
  simp only [List.isEmpty_map, List.dropWhile_map, List.takeWhile_map, Function.comp_def,
    hf.isSpecial]
  split
  · exact .refl _
  cases ws.dropWhile (!·.isSpecial '<') with
  | cons left after => exact .bind (hf.alike_bracketMailbox _ _ _) fun _ ↦ .refl _
  | nil =>
    have hruns : (if s = .nonStrict then addressRuns? (ws.map f) else none) =
        (if s = .nonStrict then addressRuns? ws else none).map (List.map (List.map f)) := by
      split
      · exact hf.addressRuns?_map ws
      · rfl
    simp only [List.map_nil, hruns]
    have hspec : ∀ run : List Token, Alike (monadLift (addrSpec s (run.map f)) : Parsing Text)
        (monadLift (addrSpec s run)) := fun run ↦ .liftExcept fun _ ↦ hf.addrSpec_map run _
    cases if s = .nonStrict then addressRuns? ws else none with
    | none => exact .bind (hspec ws) fun _ ↦ .refl _
    | some runs =>
      simp only [Option.map_some]
      refine .mapM (List.forall₂_map_left_iff.2 (List.forall₂_same.2 fun run _ ↦ ?_))
      exact .bind (hspec run) fun _ ↦ .refl _

/-- **What is read silently between two separators is read silently at another place**, and as the
same addresses. -/
theorem mailboxesOf_map (hf : Relocates d f) {as : List Address} :
    mailboxesOf s (ts.map f) = pure as ↔ mailboxesOf s ts = pure as :=
  (hf.alike_mailboxesOf ts).eq_pure_iff

/-! ### Groups -/

theorem unbroken_map (hf : Relocates d f) {inGroup bracket : Bool} {ts : List Token} :
    Unbroken (endsElement inGroup) bracket (ts.map f) ↔
      Unbroken (endsElement inGroup) bracket ts :=
  (hf.sameKinds ts).unbroken_iff

theorem bracketAfterAll_map (hf : Relocates d f) (bracket : Bool) (ts : List Token) :
    bracketAfterAll bracket (ts.map f) = bracketAfterAll bracket ts :=
  (hf.sameKinds ts).bracketAfterAll_eq bracket

/-- The members of a group are split at the same commas. -/
theorem splitMailboxes_map (hf : Relocates d f) (bracket : Bool) (ts : List Token) :
    splitMailboxes bracket (ts.map f) = (splitMailboxes bracket ts).map (List.map f) := by
  induction ts generalizing bracket with
  | nil => rfl
  | cons t ts ih =>
    simp only [List.map_cons, splitMailboxes, bracketAfter_congr (hf.kind t), hf.isSpecial, ih]
    split
    · rfl
    · generalize splitMailboxes (bracketAfter bracket t) ts = runs
      cases runs <;> rfl

theorem alike_mailboxesOfAll (hf : Relocates d f) (runs : List (List Token)) :
    Alike (mailboxesOfAll s (runs.map (List.map f))) (mailboxesOfAll s runs) := by
  induction runs with
  | nil => exact .refl _
  | cons run runs ih => exact .bind (hf.alike_mailboxesOf run) fun _ ↦ .bind ih fun _ ↦ .refl _

/-- The name of a group passes where it passed before. -/
theorem checkGroupName_map (hf : Relocates d f) (phrase : List Token) (colon : Token) :
    checkGroupName s (phrase.map f) (f colon) = .ok () ↔
      checkGroupName s phrase colon = .ok () := by
  simp only [checkGroupName, hf.wordsOf_map, List.isEmpty_map]
  split
  · rfl
  · split
    · simp
    · exact hf.checkPhrase_map _

end Relocates

variable {s : Strictness} {us ts : List Token} {as : List Address}

/-- A group is one elsewhere too, if its text stays the same. -/
theorem CleanGroup.map {d : Nat} {f : Token → Token} (hf : Relocates d f) {a : Address}
    (h : CleanGroup s ts a) (hsource : sourceOf (ts.map f) = sourceOf ts) :
    CleanGroup s (ts.map f) a := by
  obtain ⟨hphrase, hpclosed, hcolon, hmembers, hmclosed, hsemi, ha⟩ := h
  obtain ⟨hname, ⟨as, has⟩, rfl⟩ := groupAddress_eq_pure_iff.1 ha
  rw [List.map_append, List.map_cons, List.map_append] at hsource ⊢
  refine .intro (hf.unbroken_map.2 hphrase) ((hf.bracketAfterAll_map _ _).trans hpclosed)
    ((hf.isSpecial _ _).trans hcolon) (hf.unbroken_map.2 hmembers)
    ((hf.bracketAfterAll_map _ _).trans hmclosed) ((hf.isSpecial _ _).trans hsemi)
    (groupAddress_eq_pure_iff.2 ⟨(hf.checkGroupName_map _ _).2 hname, ⟨as, ?_⟩, ?_⟩)
  · rwa [hf.splitMailboxes_map, (hf.alike_mailboxesOfAll _).eq_pure_iff]
  · exact congrArg (Address.mk · .absent) hsource

/-! ### Further on -/

/-- The token `d` octets further on. -/
def Token.moved (d : Nat) (t : Token) : Token :=
  { t with start := t.start + d }

theorem relocates_moved (d : Nat) : Relocates d (Token.moved d) :=
  ⟨fun _ ↦ rfl, fun _ ↦ rfl, fun _ ↦ rfl, fun _ ↦ rfl⟩

/-- A stretch that was moved as a whole is written as before, blanks and all. -/
theorem sourceOf_map_moved (d : Nat) (ts : List Token) :
    sourceOf (ts.map (Token.moved d)) = sourceOf ts := by
  fun_induction sourceOf ts with
  | case1 => rfl
  | case2 t => rfl
  | case3 t ts hts ih =>
    rw [List.map_cons, sourceOf, ih]
    · rfl
    · simpa using hts

/-- A list is the same list further on. -/
theorem CleanList.map_moved (d : Nat) (h : CleanList s ts as) :
    CleanList s (ts.map (Token.moved d)) as := by
  have hf := relocates_moved d
  induction h with
  | last hu h => exact .last (hf.unbroken_map.2 hu) (hf.mailboxesOf_map.2 h)
  | comma hu hclosed hcomma h _ ih =>
    rw [List.map_append, List.map_cons]
    exact .comma (hf.unbroken_map.2 hu) ((hf.bracketAfterAll_map _ _).trans hclosed)
      ((hf.isSpecial _ _).trans hcomma) (hf.mailboxesOf_map.2 h) ih
  | group hgroup _ ih =>
    rw [List.map_append]
    exact .group (hgroup.map hf (sourceOf_map_moved d _)) ih

/-! ### Before other blanks -/

theorem relocates_tight : Relocates 0 Token.tight :=
  ⟨fun _ ↦ rfl, fun _ ↦ rfl, fun _ ↦ rfl, fun _ ↦ rfl⟩

/-- The token with other blanks after it. -/
def Token.before (gap : Text) (t : Token) : Token :=
  { t with gap := gap }

/-- The blanks after the last token of a stretch do not matter. -/
theorem mailboxesOf_concat (gap : Text) (us : List Token) (t : Token) :
    mailboxesOf s (us ++ [t.before gap]) = pure as ↔ mailboxesOf s (us ++ [t]) = pure as := by
  have htight : (us ++ [t.before gap]).map Token.tight = (us ++ [t]).map Token.tight := by
    simp [Token.tight, Token.before]
  exact relocates_tight.mailboxesOf_map.symm.trans (htight ▸ relocates_tight.mailboxesOf_map)

/-- The blanks after the semicolon of a group do not matter. -/
theorem CleanGroup.concat {a : Address} {t : Token} (gap : Text)
    (h : CleanGroup s (us ++ [t]) a) : CleanGroup s (us ++ [t.before gap]) a := by
  generalize hws : us ++ [t] = ws at h
  obtain ⟨hphrase, hpclosed, hcolon, hmembers, hmclosed, hsemi, ha⟩ := h
  rename_i phrase members colon semicolon
  rw [← List.cons_append, ← List.append_assoc] at hws
  obtain ⟨rfl, rfl⟩ := List.append_singleton_inj.1 hws
  rw [List.append_assoc, List.cons_append]
  refine .intro hphrase hpclosed hcolon hmembers hmclosed hsemi ?_
  obtain ⟨hname, hall, rfl⟩ := groupAddress_eq_pure_iff.1 ha
  refine groupAddress_eq_pure_iff.2 ⟨hname, hall, ?_⟩
  -- the text of a group ends with its semicolon, before the blanks after that
  rw [groupOf, groupOf, ← List.cons_append, ← List.cons_append, ← List.append_assoc,
    ← List.append_assoc, sourceOf_concat, sourceOf_concat]
  rfl

/-- For a stretch without separators its last token may be replaced by one that is as much of a
separator. -/
theorem unbroken_concat {sep : Token → Bool} {bracket : Bool} {t u : Token}
    (hsep : sep u = sep t) :
    Unbroken sep bracket (us ++ [u]) ↔ Unbroken sep bracket (us ++ [t]) := by
  simp [unbroken_append, Unbroken, hsep]

/-- A list is the same list before other blanks. -/
theorem CleanList.concat {t : Token} (gap : Text) (h : CleanList s (us ++ [t]) as) :
    CleanList s (us ++ [t.before gap]) as := by
  generalize hws : us ++ [t] = ws at h
  induction h generalizing us with
  | last hu h =>
    subst hws
    have hsep : endsElement false (t.before gap) = endsElement false t := rfl
    exact .last ((unbroken_concat hsep).2 hu) ((mailboxesOf_concat gap us t).2 h)
  | @comma vs ts comma as bs hu hclosed hcomma h hts ih =>
    rcases List.eq_nil_or_concat' ts with rfl | ⟨ts, u, rfl⟩
    · obtain ⟨rfl, rfl⟩ := List.append_singleton_inj.1 hws
      exact .comma hu hclosed hcomma h hts
    · rw [← List.cons_append, ← List.append_assoc] at hws
      obtain ⟨rfl, rfl⟩ := List.append_singleton_inj.1 hws
      rw [List.append_assoc, List.cons_append]
      exact .comma hu hclosed hcomma h (ih rfl)
  | @group vs ts a as hgroup hts ih =>
    rcases List.eq_nil_or_concat' ts with rfl | ⟨ts, u, rfl⟩
    · rw [List.append_nil] at hws
      subst hws
      have := CleanList.group (hgroup.concat gap) hts
      rwa [List.append_nil] at this
    · rw [← List.append_assoc] at hws
      obtain ⟨rfl, rfl⟩ := List.append_singleton_inj.1 hws
      rw [List.append_assoc]
      exact .group hgroup (ih rfl)

end InternetMail
