import InternetMail.Proofs.Address.Elements
import InternetMail.Proofs.Address.MailboxPlaces

/-!
# Lists and groups by the places of tokens

The elements of a list are stretches of places, one after another (`Represents`), and none of them
goes beyond the places of the list. A list of incoming mail may leave its last group open, so that
the place of a semicolon need not be one; but a group has its colon, so that there is a first and a
last token to cut its text out between, and its members are fewer than the tokens of the list.

The members of a group are read here like any other list. They are apart by commas alone, so that
this comes to the same as reading what stands between the commas (`addressList_members`).
-/

namespace InternetMail

open Reported

/-- The tokens `us` are those from one place up to another. -/
def Stretch (ts : List Token) (start stop : Nat) (us : List Token) : Prop :=
  stop = start + us.length ∧ Refers ts (List.range' start us.length) us

namespace Stretch

variable {ts us vs : List Token} {start middle stop : Nat} {u : Token}

theorem nil (ts : List Token) (start : Nat) : Stretch ts start start [] :=
  ⟨rfl, .nil⟩

theorem cons_iff : Stretch ts start stop (u :: us) ↔
    ts[start]? = some u ∧ Stretch ts (start + 1) stop us := by
  simp only [Stretch, Refers, List.length_cons, List.range'_succ, List.forall₂_cons]
  constructor
  · rintro ⟨rfl, hu, h⟩
    exact ⟨hu, by omega, h⟩
  · rintro ⟨hu, rfl, h⟩
    exact ⟨by omega, hu, h⟩

/-- Stretches that meet make one. -/
theorem append (h : Stretch ts start middle us) (h' : Stretch ts middle stop vs) :
    Stretch ts start stop (us ++ vs) := by
  obtain ⟨rfl, h⟩ := h
  obtain ⟨rfl, h'⟩ := h'
  refine ⟨by simp [Nat.add_assoc], ?_⟩
  rw [List.length_append, ← List.range'_append_1]
  exact h.append h'

theorem singleton (hu : ts[start]? = some u) : Stretch ts start (start + 1) [u] :=
  cons_iff.2 ⟨hu, nil ..⟩

/-- The places of a stretch refer to its tokens. -/
theorem refers (h : Stretch ts start stop us) : Refers ts (Indexed.places start stop) us := by
  obtain ⟨rfl, h⟩ := h
  rwa [Indexed.places, Nat.add_sub_cancel_left]

/-- A part of the list is a stretch of places, from its first token to the one after its last. -/
theorem of_append (before us after : List Token) :
    Stretch (before ++ us ++ after) before.length (before.length + us.length) us := by
  induction us generalizing before with
  | nil => exact nil _ _
  | cons u us ih =>
    refine cons_iff.2 ⟨by simp, ?_⟩
    have h := ih (before ++ [u])
    simpa [Nat.add_assoc, Nat.add_comm 1] using h

theorem whole (ts : List Token) : Stretch ts 0 ts.length ts := by
  have h := of_append [] ts []
  simpa using h

/-- After the tokens before its first place, the list goes on with those of the stretch. -/
theorem isPrefix_drop (h : Stretch ts start stop us) : us <+: ts.drop start := by
  induction us generalizing start with
  | nil => exact List.nil_prefix
  | cons u us ih =>
    obtain ⟨hu, hrest⟩ := cons_iff.1 h
    obtain ⟨hlt, rfl⟩ := List.getElem?_eq_some_iff.1 hu
    rw [List.drop_eq_getElem_cons hlt, List.prefix_cons_inj]
    exact ih hrest

/-- A stretch does not end before it begins, so that its length is no subtraction below zero. -/
theorem le (h : Stretch ts start stop us) : start ≤ stop := by
  have := h.1
  omega

theorem places_nil (h : Stretch ts start stop []) : Indexed.places start stop = [] := by
  obtain ⟨rfl, -⟩ := h
  simp [Indexed.places]

/-- The first place of a stretch and those of the rest. -/
theorem places_cons (h : Stretch ts start stop (u :: us)) :
    Indexed.places start stop = start :: Indexed.places (start + 1) stop := by
  obtain ⟨rfl, -⟩ := h
  rw [List.length_cons, Indexed.places, Indexed.places, Nat.add_sub_cancel_left, List.range'_succ]
  congr 2
  omega

/-- The first and the last token of a stretch, and the text from the one to the other. -/
theorem exists_isSlice {lead t : Text} (htiles : Tiles lead ts t) (h : Stretch ts start stop us)
    (hne : us ≠ []) :
    ∃ first last, ts[start]? = some first ∧ ts[stop - 1]? = some last ∧
      IsSlice t first.start last.stop (sourceOf us) := by
  obtain ⟨after, hafter⟩ := h.isPrefix_drop
  have hts : ts.take start ++ us ++ after = ts := by
    rw [List.append_assoc, hafter, List.take_append_drop]
  obtain ⟨us, last, rfl⟩ := List.eq_nil_or_concat' us |>.resolve_left hne
  obtain ⟨first, hfirst⟩ : ∃ first, (us ++ [last]).head? = some first :=
    ⟨_, List.head?_eq_some_head hne⟩
  refine ⟨first, last, ?_, ?_, ?_⟩
  · rw [← List.head?_drop, ← hafter, List.head?_append, hfirst]
    rfl
  · have hlast : stop - 1 = start + us.length := by
      rw [h.1, List.length_append]
      rfl
    rw [hlast, ← List.getElem?_drop, ← hafter]
    simp
  · rw [← hts] at htiles
    exact htiles.isSlice_sourceOf hfirst

end Stretch

namespace Indexed

variable {s : Strictness} {t lead : Text} {ts us pending members : List Token}
  {lo start stop i : Nat} {bracket : Bool} {colon : Option Nat} {opening : Option Element.Opening}
  {u : Token}

/-- An element of a list and its places, which stand between two. -/
inductive Represents (ts : List Token) (lo hi : Nat) : Element → InternetMail.Element → Prop
  | mailboxes {start stop : Nat} {us : List Token} (h : Stretch ts start stop us) :
    Represents ts lo hi ⟨start, stop, none, none⟩ (.mailboxes us)
  | group {start stop c : Nat} {close : Option Nat} {phrase members : List Token} {colon : Token}
    {semicolon : Option Token} (hlo : lo ≤ start) (hhi : close.getD stop ≤ hi)
    (hphrase : Stretch ts start c phrase) (hcolon : ts[c]? = some colon)
    (hmembers : Stretch ts (c + 1) (close.getD stop) members)
    (hinside : Unbroken (endsElement true) false members)
    (hwhole : Stretch ts start stop (phrase ++ colon :: members ++ semicolon.toList))
    (hclose : close.isNone = semicolon.isNone) :
    Represents ts lo hi ⟨start, stop, some c, close⟩ (.group phrase colon members semicolon)

/-- What was read of an element that begins at the place `start`, up to the place `i`. -/
inductive Pending (ts : List Token) (start i : Nat) (bracket : Bool) :
    Option Nat → Option InternetMail.Element.Opening → List Token → Prop
  | mailboxes {us : List Token} (h : Stretch ts start i us) :
    Pending ts start i bracket none none us
  | group {c : Nat} {phrase members : List Token} {colon : Token}
    (hphrase : Stretch ts start c phrase) (hcolon : ts[c]? = some colon)
    (hmembers : Stretch ts (c + 1) i members)
    (hinside : Unbroken (endsElement true) false members)
    (hbracket : bracketAfterAll false members = bracket) :
    Pending ts start i bracket (some c) (some ⟨phrase, colon⟩) members

/-- Lists of fewer tokens, behind the place `lo` and up to `hi`, are read as their tokens are. -/
def ReadsInside (s : Strictness) (t : Text) (ts : List Token) (lo hi : Nat)
    (read : Nat → Nat → Checked (List Address)) : Prop :=
  ∀ {start stop : Nat} {us : List Token}, lo < start → stop ≤ hi → Stretch ts start stop us →
    Follows s t Eq (read start stop) (outcome (addressList s us))

variable {is : List Nat}

namespace Pending

/-- A group is open for the places exactly if it is for the tokens. -/
theorem isSome_eq (h : Pending ts start i bracket colon opening pending) :
    opening.isSome = colon.isSome := by
  cases h <;> rfl

/-- A token that does not end the element belongs to it. -/
theorem concat (h : Pending ts start i bracket colon opening pending) (hu : ts[i]? = some u)
    (hinside : endsElement colon.isSome u = true → bracket = true) :
    Pending ts start (i + 1) (bracketAfter bracket u) colon opening (pending ++ [u]) := by
  cases h with
  | mailboxes h => exact .mailboxes (h.append (.singleton hu))
  | group hphrase hcolon hmembers hunbroken hbracket =>
    refine .group hphrase hcolon (hmembers.append (.singleton hu))
      (unbroken_append.2 ⟨hunbroken, ?_, trivial⟩) ?_
    · rw [hbracket]
      exact hinside
    · rw [bracketAfterAll_append, hbracket]
      rfl

end Pending

/-! ### One token of a list -/

/-- A token that ends no element is gone past. Nothing but the bracket is kept of it. -/
theorem splitFrom_of_not_endsElement (hu : ts[i]? = some u)
    (h : endsElement colon.isSome u = true → bracket = true) :
    (ofTokens s t ts).splitFrom stop start bracket colon (i :: is) =
      (ofTokens s t ts).splitFrom stop start (bracketAfter bracket u) colon is := by
  rw [splitFrom.eq_def]
  dsimp only
  rw [token_eq hu, ok_bind]
  simp only [Token.isSpecial_lexeme, bracketAfter]
  cases bracket with
  | true =>
    by_cases hclose : u.isSpecial '>' = true
    · simp [hclose, Token.isSpecial_eq_false hclose (show '>' ≠ '<' by decide)]
    · simp [hclose]
  | false =>
    have hinside : endsElement colon.isSome u = false := by simpa using h
    simp only [endsElement, Bool.or_eq_false_iff] at hinside
    obtain ⟨⟨hcolon, hsemi⟩, hcomma⟩ := hinside
    rw [Option.not_isSome] at hcomma
    by_cases hopen : u.isSpecial '<' = true
    · simp [hopen]
    · simp [hopen, hcolon, hsemi, hcomma]

/-- A colon opens a group, unless one is open. -/
theorem splitFrom_colon (hu : ts[i]? = some u) (h : u.isSpecial ':' = true) :
    (ofTokens s t ts).splitFrom stop start false colon (i :: is) =
      match colon with
      | some _ => .error ((ofTokens s t ts).faultAt .nestedGroup i)
      | none => (ofTokens s t ts).splitFrom stop start false (some i) is := by
  rw [splitFrom.eq_def]
  dsimp only
  rw [token_eq hu, ok_bind]
  simp only [Token.isSpecial_lexeme, h, Token.isSpecial_eq_false h (show ':' ≠ '<' by decide),
    Bool.and_false]
  rfl

/-- A semicolon ends a group. Outside of groups it ends an element of incoming mail, and is refused
elsewhere. -/
theorem splitFrom_semicolon (hu : ts[i]? = some u) (h : u.isSpecial ';' = true) :
    (ofTokens s t ts).splitFrom stop start false colon (i :: is) =
      match colon with
      | some c => do
        return ⟨start, i + 1, some c, some i⟩ ::
          (← (ofTokens s t ts).splitFrom stop (i + 1) false none is)
      | none =>
        if s = .parseHeader then do
          return ⟨start, i, none, none⟩ ::
            (← (ofTokens s t ts).splitFrom stop (i + 1) false none is)
        else .error ((ofTokens s t ts).faultAt .unexpectedToken i) := by
  rw [splitFrom.eq_def]
  dsimp only
  rw [token_eq hu, ok_bind]
  simp only [Token.isSpecial_lexeme, h, Token.isSpecial_eq_false h (show ';' ≠ '<' by decide),
    Token.isSpecial_eq_false h (show ';' ≠ ':' by decide), Bool.and_false]
  rfl

/-- A comma ends an element outside of groups. -/
theorem splitFrom_comma (hu : ts[i]? = some u) (h : u.isSpecial ',' = true) :
    (ofTokens s t ts).splitFrom stop start false none (i :: is) = do
      return ⟨start, i, none, none⟩ ::
        (← (ofTokens s t ts).splitFrom stop (i + 1) false none is) := by
  rw [splitFrom, token_eq hu, ok_bind]
  simp only [Token.isSpecial_lexeme, h, Token.isSpecial_eq_false h (show ',' ≠ '<' by decide),
    Token.isSpecial_eq_false h (show ',' ≠ ':' by decide),
    Token.isSpecial_eq_false h (show ',' ≠ ';' by decide), Bool.and_false]
  rfl

/-! ### The elements of a list -/

namespace Pending

theorem le (h : Pending ts start i bracket colon opening pending) : start ≤ i := by
  cases h with
  | mailboxes h => exact h.le
  | group hphrase hcolon hmembers =>
    have := hphrase.le
    have := hmembers.le
    omega

end Pending

section

variable (htiles : Tiles lead ts t)

include htiles

/-- **The list is split at the same tokens**, by places or by tokens: by induction on the tokens
that are left, with an element that has begun on either side (`Pending`). -/
theorem splitFrom_follows (hlo : lo ≤ start)
    (hpending : Pending ts start i bracket colon opening pending) (h : Stretch ts i stop us) :
    Follows s t (List.Forall₂ (Represents ts lo stop))
      ((ofTokens s t ts).splitFrom stop start bracket colon (places i stop))
      (outcome (InternetMail.Element.splitFrom s pending opening bracket us)) := by
  induction us generalizing start i bracket colon opening pending with
  | nil =>
    obtain rfl : stop = i := h.1
    rw [h.places_nil]
    cases hpending with
    | mailboxes hpending => exact .ok (.cons (.mailboxes hpending) .nil)
    -- the group that is open ends with the list, in incoming mail
    | @group c phrase members colon hphrase hcolon hmembers hinside =>
      have hwhole := (hphrase.append (.singleton hcolon)).append hmembers
      rw [splitFrom, strictness_ofTokens, InternetMail.Element.splitFrom]
      by_cases hs : s = .parseHeader
      · subst hs
        refine .ok (.cons (.group hlo le_rfl hphrase hcolon hmembers hinside ?_ rfl) .nil)
        simpa using hwhole
      · rw [if_neg hs, if_pos hs]
        exact faultAt_follows htiles hcolon _
  | cons u us ih =>
    obtain ⟨hu, hrest⟩ := Stretch.cons_iff.1 h
    rw [h.places_cons]
    by_cases hinside : endsElement colon.isSome u = true → bracket = true
    -- the token is kept with those of the element that has begun
    · have hone : Unbroken (endsElement opening.isSome) bracket [u] :=
        hpending.isSome_eq ▸ ⟨hinside, trivial⟩
      have hmodel := InternetMail.Element.splitFrom_append s opening hone pending us
      rw [List.singleton_append] at hmodel
      rw [splitFrom_of_not_endsElement hu hinside, hmodel]
      exact ih hlo (hpending.concat hu hinside) hrest
    have hnext := hpending.le
    obtain ⟨hends, rfl⟩ : endsElement colon.isSome u = true ∧ bracket = false := by
      simpa using hinside
    -- from here on the token is a separator: behind it a new element begins
    have hnew : Pending ts (i + 1) (i + 1) false none none [] := .mailboxes (.nil _ _)
    by_cases hcolon : u.isSpecial ':' = true
    · rw [splitFrom_colon hu hcolon, Element.outcome_splitFrom_colon hcolon]
      cases hpending with
      | mailboxes hpending => exact ih hlo (.group hpending hu (.nil _ _) trivial rfl) hrest
      | group => exact faultAt_follows htiles hu _
    by_cases hsemi : u.isSpecial ';' = true
    · rw [splitFrom_semicolon hu hsemi, Element.outcome_splitFrom_semicolon hsemi]
      cases hpending with
      | mailboxes hpending =>
        dsimp only
        split
        · exact (ih (by omega) hnew hrest).bind fun _ _ h ↦ .ok (.cons (.mailboxes hpending) h)
        · exact faultAt_follows htiles hu _
      | group hphrase hc hmembers hinside =>
        have hwhole := (hphrase.append (.singleton hc)).append (hmembers.append (.singleton hu))
        refine (ih (by omega) hnew hrest).bind fun _ _ h ↦ .ok (.cons
          (.group hlo (Nat.le_of_succ_le hrest.le) hphrase hc hmembers hinside ?_ rfl) h)
        simpa using hwhole
    · obtain ⟨hcomma, hnone⟩ : u.isSpecial ',' = true ∧ colon = none := by
        simpa [endsElement, hcolon, hsemi] using hends
      subst hnone
      rw [splitFrom_comma hu hcomma]
      cases hpending with
      | mailboxes hpending =>
        rw [Element.outcome_splitFrom_comma hcomma]
        exact (ih (by omega) hnew hrest).bind fun _ _ h ↦ .ok (.cons (.mailboxes hpending) h)

/-! ### Addresses of a list -/

/-- The name of a group is what stands from its first place up to the colon. -/
theorem checkGroupName_follows {c : Nat} {colon : Token} (hcolon : ts[c]? = some colon)
    (h : Stretch ts start c us) :
    Follows s t Eq ((ofTokens s t ts).checkGroupName start c)
      (InternetMail.checkGroupName s us colon) := by
  obtain ⟨ws, hws, hwords⟩ := exists_words_eq_ok (s := s) (t := t) h.refers
  rw [checkGroupName, strictness_ofTokens, hws, InternetMail.checkGroupName]
  by_cases hs : s = .strict
  · rw [if_pos hs, if_neg (not_not_intro hs), ok_bind, hwords.isEmpty_eq]
    split
    · exact faultAt_follows htiles hcolon _
    · exact checkPhrase_follows htiles hwords
  · rw [if_neg hs, if_pos hs]
    exact .ok rfl

/-- A group is read alike, if lists inside the bounds of this one are. Its members lie between the
colon and the semicolon, or the end if that is missing. -/
theorem group_follows {read : Nat → Nat → Checked (List Address)} {c hi : Nat} {close : Option Nat}
    {phrase : List Token} {colon : Token} {semicolon : Option Token}
    (hread : ReadsInside s t ts lo hi read)
    (h : Represents ts lo hi ⟨start, stop, some c, close⟩ (.group phrase colon members semicolon)) :
    Follows s t Eq ((ofTokens s t ts).group read ⟨start, stop, some c, close⟩ c)
      (outcome (groupAddress s phrase colon members semicolon)) := by
  obtain _ | ⟨hlo, hhi, hphrase, hcolon, hmembers, hinside, hwhole, hclose⟩ := h
  obtain ⟨first, last, hfirst, hlast, hslice⟩ := hwhole.exists_isSlice htiles (by simp)
  have hpos : 1 ≤ stop := by
    have := hwhole.1
    simp only [List.length_append, List.length_cons] at this
    omega
  have hfew := hphrase.le
  rw [group, groupAddress, outcome_bind, outcome_liftExcept]
  refine (checkGroupName_follows htiles hcolon hphrase).bind_eq fun _ ↦ ?_
  rw [outcome_bind, ← addressList_members hinside]
  refine (hread (by omega) hhi hmembers).bind_eq fun _ ↦ ?_
  rw [token_eq hfirst, ok_bind, Checked.sub_of_le hpos, ok_bind, token_eq hlast, ok_bind]
  have htext : (ofTokens s t ts).text first.lexeme.start last.lexeme.stop = .ok _ := text_eq hslice
  rw [htext, ok_bind, hclose]
  exact .ok rfl

/-- An element is read alike, be it a group or not. -/
theorem addresses_follows {read : Nat → Nat → Checked (List Address)} {hi : Nat} {e : Element}
    {e' : InternetMail.Element} (hread : ReadsInside s t ts lo hi read)
    (h : Represents ts lo hi e e') :
    Follows s t Eq ((ofTokens s t ts).addresses read e) (outcome (e'.addresses s)) := by
  have hgroup := h
  cases h with
  | mailboxes h => exact mailboxes_follows htiles h.refers
  | group =>
    rw [InternetMail.Element.addresses, outcome_bind]
    exact (group_follows htiles hread hgroup).bind_eq fun _ ↦ .ok rfl

/-- So are all elements, in order. -/
theorem addressesOf_follows {read : Nat → Nat → Checked (List Address)} {hi : Nat}
    {es : List Element} {es' : List InternetMail.Element} (hread : ReadsInside s t ts lo hi read)
    (h : List.Forall₂ (Represents ts lo hi) es es') :
    Follows s t Eq ((ofTokens s t ts).addressesOf read es)
      (outcome (InternetMail.addressesOf s es')) := by
  induction h with
  | nil => exact .ok rfl
  | @cons e e' es es' he _ ih =>
    rw [addressesOf, InternetMail.addressesOf, outcome_bind]
    refine (addresses_follows htiles hread he).bind_eq fun as ↦ ?_
    rw [outcome_bind]
    exact ih.bind_eq fun _ ↦ .ok rfl

/-- **A list is read alike**, by places or by tokens. The reading calls itself for the members of a
group, and these are a shorter stretch. -/
theorem list_follows (h : Stretch ts start stop us) :
    Follows s t Eq ((ofTokens s t ts).list start stop) (outcome (addressList s us)) := by
  induction hn : us.length using Nat.strong_induction_on generalizing start stop us with
  | h n ih =>
    rw [list, addressList, outcome_bind]
    refine (splitFrom_follows htiles le_rfl (.mailboxes (.nil ts start)) h).bind fun es es' hes ↦ ?_
    refine addressesOf_follows htiles (fun {i j vs} hi hj hvs ↦ ?_) hes
    rw [dif_pos ⟨hi, hvs.le, hj⟩]
    refine ih vs.length ?_ hvs rfl
    have := h.1
    have := hvs.1
    omega

end

end Indexed

end InternetMail
