import InternetMail.Proofs.Address.Token
import InternetMail.Proofs.Run

/-!
# The grammar of strict address lists

The grammar of the strict reading, over tokens without comments. It says what a list is derived from
and nothing about how one is read:

    list       =  empty  /  "," list  /  mailbox  /  mailbox "," list  /  group list
    group      =  phrase ":" members ";"
    members    =  [mailbox] *("," [mailbox])
    mailbox    =  addr-spec  /  [phrase] "<" [route] addr-spec ">"
    phrase     =  1*(word / ".")
    route      =  "@" domain *("," ["@" domain]) ":"
    addr-spec  =  word *("." word) "@" domain
    domain     =  sub *("." sub)

A word is an atom or a quoted string, and a sub an atom or a domain literal.

`Grammar.Addresses ws items` derives the tokens `ws` as a list whose mailboxes and groups are
`items`. The sections after it say which special characters a production can have, and that the
first angle bracket of a mailbox is where its phrase ends (`mailbox_append_cons_iff`).

Productions are predicates on lists of tokens. Those that repeat something are inductive, with one
constructor for the last item and one for an item with more behind it, and the others are
conjunctions; so each is taken apart by cases, and an induction over a derivation is one over its
items. What is derived is kept where a later statement needs it: the name and the path of a mailbox
are part of `Mailbox`, so that the address which it gives can be said.
-/

namespace InternetMail

namespace Grammar

/-! ### Productions -/

/-- Items with single periods between them. -/
inductive Dotted (isItem : Token → Bool) : List Token → Prop
  | item {t : Token} : isItem t = true → Dotted isItem [t]
  | cons {t dot : Token} {ts : List Token} : isItem t = true → dot.isSpecial '.' = true →
      Dotted isItem ts → Dotted isItem (t :: dot :: ts)

/-- `domain = sub *("." sub)` -/
def Domain : List Token → Prop :=
  Dotted Token.isSubDomain

/-- `addr-spec = word *("." word) "@" domain` -/
inductive AddrSpec : List Token → Prop
  | intro {name : List Token} {sign : Token} {domain : List Token} : Dotted Token.isWord name →
      sign.isSpecial '@' = true → Domain domain → AddrSpec (name ++ sign :: domain)

/-- `phrase = 1*(word / ".")` -/
def Phrase (ws : List Token) : Prop :=
  ws ≠ [] ∧ ∀ t ∈ ws, (t.isWord || t.isSpecial '.') = true

/-- The rest of a route after its first domain: `*("," ["@" domain]) ":"`. -/
inductive Hops : List Token → Prop
  | colon {t : Token} : t.isSpecial ':' = true → Hops [t]
  | empty {comma : Token} {ws : List Token} : comma.isSpecial ',' = true → Hops ws →
      Hops (comma :: ws)
  | hop {comma sign : Token} {domain ws : List Token} : comma.isSpecial ',' = true →
      sign.isSpecial '@' = true → Domain domain → Hops ws →
      Hops (comma :: sign :: (domain ++ ws))

/-- `route = "@" domain *("," ["@" domain]) ":"` -/
inductive Route : List Token → Prop
  | intro {sign : Token} {domain ws : List Token} : sign.isSpecial '@' = true → Domain domain →
      Hops ws → Route (sign :: (domain ++ ws))

/-- `[route]` -/
def RouteOrNone (ws : List Token) : Prop :=
  ws = [] ∨ Route ws

/-- `[phrase]` -/
def PhraseOrNone (ws : List Token) : Prop :=
  ws = [] ∨ Phrase ws

/-- `mailbox = addr-spec / [phrase] "<" [route] addr-spec ">"`, where `path` is the route and the
addr-spec. -/
inductive Mailbox : List Token → (phrase path : List Token) → Prop
  | bare {ws : List Token} : AddrSpec ws → Mailbox ws [] ws
  | bracketed {phrase route spec : List Token} {left right : Token} : PhraseOrNone phrase →
      left.isSpecial '<' = true → RouteOrNone route → AddrSpec spec →
      right.isSpecial '>' = true →
      Mailbox (phrase ++ left :: (route ++ spec ++ [right])) phrase (route ++ spec)

/-- `[mailbox]` -/
def MailboxOrNone (ws : List Token) : Prop :=
  ws = [] ∨ ∃ phrase path, Mailbox ws phrase path

/-- `members = [mailbox] *("," [mailbox])` -/
inductive Members : List Token → Prop
  | last {ws : List Token} : MailboxOrNone ws → Members ws
  | cons {us ws : List Token} {comma : Token} : MailboxOrNone us → comma.isSpecial ',' = true →
      Members ws → Members (us ++ comma :: ws)

/-- `group = phrase ":" members ";"` -/
inductive Group : List Token → Prop
  | intro {phrase members : List Token} {colon semicolon : Token} : Phrase phrase →
      colon.isSpecial ':' = true → Members members → semicolon.isSpecial ';' = true →
      Group (phrase ++ colon :: (members ++ [semicolon]))

/-- What a list is made of. -/
inductive Item
  /-- A mailbox, by the tokens of its route and its addr-spec. -/
  | mailbox (path : List Token)
  /-- A group, by all its tokens. -/
  | group (tokens : List Token)

/-- `list = empty / "," list / mailbox / mailbox "," list / group list`, with the mailboxes and the
groups of the derivation in order. -/
inductive Addresses : List Token → List Item → Prop
  | empty : Addresses [] []
  | comma {comma : Token} {ws : List Token} {items : List Item} : comma.isSpecial ',' = true →
      Addresses ws items → Addresses (comma :: ws) items
  | last {ws phrase path : List Token} : Mailbox ws phrase path → Addresses ws [.mailbox path]
  | mailbox {us phrase path ws : List Token} {comma : Token} {items : List Item} :
      Mailbox us phrase path → comma.isSpecial ',' = true → Addresses ws items →
      Addresses (us ++ comma :: ws) (.mailbox path :: items)
  | group {us ws : List Token} {items : List Item} : Group us → Addresses ws items →
      Addresses (us ++ ws) (.group us :: items)

/-! ### What the productions are made of -/

/-- A dotted run has an item. -/
theorem Dotted.ne_nil {isItem : Token → Bool} {ws : List Token} (h : Dotted isItem ws) :
    ws ≠ [] := by
  cases h <;> simp

/-- Only items and periods stand in a dotted run. -/
theorem Dotted.mem {isItem : Token → Bool} {ws : List Token} (h : Dotted isItem ws) :
    ∀ t ∈ ws, isItem t = true ∨ t.isSpecial '.' = true := by
  induction h with
  | item ht => simpa using Or.inl ht
  | cons ht hdot _ ih =>
    intro t hmem
    rcases List.mem_cons.1 hmem with rfl | hmem
    · exact Or.inl ht
    · rcases List.mem_cons.1 hmem with rfl | hmem
      · exact Or.inr hdot
      · exact ih t hmem

/-- A domain has no special characters but periods. -/
theorem Domain.isSpecial_eq_false {ws : List Token} (h : Domain ws) {c : Char} (hc : '.' ≠ c) :
    ∀ t ∈ ws, t.isSpecial c = false := fun t ht ↦
  (Dotted.mem h t ht).elim (Token.isSpecial_eq_false_of_isSubDomain · c)
    (Token.isSpecial_eq_false · hc)

/-- A domain with its `@` has no special characters but periods and that one. -/
theorem Domain.isSpecial_cons_eq_false {sign : Token} {ws : List Token} (h : Domain ws)
    (hs : sign.isSpecial '@' = true) {c : Char} (hdot : '.' ≠ c) (hsign : '@' ≠ c) :
    ∀ t ∈ sign :: ws, t.isSpecial c = false :=
  List.forall_mem_cons.2 ⟨Token.isSpecial_eq_false hs hsign, h.isSpecial_eq_false hdot⟩

/-- A local part has no special characters but periods. -/
theorem Dotted.isSpecial_eq_false {ws : List Token} (h : Dotted Token.isWord ws) {c : Char}
    (hc : '.' ≠ c) : ∀ t ∈ ws, t.isSpecial c = false := fun t ht ↦
  (h.mem t ht).elim (Token.isSpecial_eq_false_of_isWord · c) (Token.isSpecial_eq_false · hc)

/-- A phrase has no special characters but periods. -/
theorem Phrase.isSpecial_eq_false {ws : List Token} (h : Phrase ws) {c : Char} (hc : '.' ≠ c) :
    ∀ t ∈ ws, t.isSpecial c = false := by
  intro t ht
  rcases Bool.or_eq_true_iff.1 (h.2 t ht) with ht | ht
  · exact Token.isSpecial_eq_false_of_isWord ht c
  · exact Token.isSpecial_eq_false ht hc

/-- An addr-spec has a local part, and so is not empty. -/
theorem AddrSpec.ne_nil {ws : List Token} (h : AddrSpec ws) : ws ≠ [] := by
  cases h
  simp

/-- An addr-spec has no special characters but periods and its `@`. -/
theorem AddrSpec.isSpecial_eq_false {ws : List Token} (h : AddrSpec ws) {c : Char}
    (hdot : '.' ≠ c) (hsign : '@' ≠ c) : ∀ t ∈ ws, t.isSpecial c = false := by
  cases h with
  | intro hname hs hdomain =>
    intro t ht
    rcases List.mem_append.1 ht with ht | ht
    · exact hname.isSpecial_eq_false hdot t ht
    · exact hdomain.isSpecial_cons_eq_false hs hdot hsign t ht

/-- The special characters of a route are the period, the `@`, the comma and the colon. -/
theorem Hops.isSpecial_eq_false {ws : List Token} (h : Hops ws) {c : Char} (hdot : '.' ≠ c)
    (hsign : '@' ≠ c) (hcomma : ',' ≠ c) (hcolon : ':' ≠ c) :
    ∀ t ∈ ws, t.isSpecial c = false := by
  induction h with
  | colon ht => simpa using Token.isSpecial_eq_false ht hcolon
  | empty ht _ ih => simpa using ⟨Token.isSpecial_eq_false ht hcomma, ih⟩
  | hop ht hs hdomain _ ih =>
    intro t hmem
    simp only [List.mem_cons, List.mem_append] at hmem
    rcases hmem with rfl | rfl | hmem | hmem
    · exact Token.isSpecial_eq_false ht hcomma
    · exact Token.isSpecial_eq_false hs hsign
    · exact hdomain.isSpecial_eq_false hdot t hmem
    · exact ih t hmem

/-- A route has only periods, signs, commas and colons. -/
theorem Route.isSpecial_eq_false {ws : List Token} (h : Route ws) {c : Char} (hdot : '.' ≠ c)
    (hsign : '@' ≠ c) (hcomma : ',' ≠ c) (hcolon : ':' ≠ c) :
    ∀ t ∈ ws, t.isSpecial c = false := by
  cases h with
  | intro hs hdomain hhops =>
    intro t hmem
    simp only [List.mem_cons, List.mem_append] at hmem
    rcases hmem with rfl | hmem | hmem
    · exact Token.isSpecial_eq_false hs hsign
    · exact hdomain.isSpecial_eq_false hdot t hmem
    · exact hhops.isSpecial_eq_false hdot hsign hcomma hcolon t hmem

/-- And so it is without a route. -/
theorem RouteOrNone.isSpecial_eq_false {ws : List Token} (h : RouteOrNone ws) {c : Char}
    (hdot : '.' ≠ c) (hsign : '@' ≠ c) (hcomma : ',' ≠ c) (hcolon : ':' ≠ c) :
    ∀ t ∈ ws, t.isSpecial c = false := by
  rcases h with rfl | h
  · simp
  · exact h.isSpecial_eq_false hdot hsign hcomma hcolon

/-- What stands inside angle brackets does not close them. -/
theorem RouteOrNone.isSpecial_append_eq_false {route spec : List Token}
    (hroute : RouteOrNone route) (hspec : AddrSpec spec) :
    ∀ t ∈ route ++ spec, t.isSpecial '>' = false :=
  List.forall_mem_append.2
    ⟨hroute.isSpecial_eq_false (by decide) (by decide) (by decide) (by decide),
      hspec.isSpecial_eq_false (by decide) (by decide)⟩

/-- The only special character of a phrase is the period. -/
theorem PhraseOrNone.isSpecial_eq_false {ws : List Token} (h : PhraseOrNone ws) {c : Char}
    (hc : '.' ≠ c) : ∀ t ∈ ws, t.isSpecial c = false := by
  rcases h with rfl | h
  · simp
  · exact h.isSpecial_eq_false hc

/-! ### Parts of a mailbox -/

/-- The path of a mailbox stands in it. -/
theorem Mailbox.path_subset {ws phrase path : List Token} (h : Mailbox ws phrase path) :
    path ⊆ ws := by
  cases h with
  | bare _ => exact List.Subset.refl _
  | bracketed =>
    intro t ht
    simp only [List.mem_append, List.mem_cons] at ht ⊢
    exact Or.inr (Or.inr (Or.inl ht))

/-- So does its phrase. -/
theorem Mailbox.phrase_subset {ws phrase path : List Token} (h : Mailbox ws phrase path) :
    phrase ⊆ ws := by
  cases h with
  | bare _ => exact List.nil_subset _
  | bracketed => exact List.subset_append_left _ _

/-- A mailbox has a phrase, or none if it is an addr-spec. -/
theorem Mailbox.phraseOrNone {ws phrase path : List Token} (h : Mailbox ws phrase path) :
    PhraseOrNone phrase := by
  cases h with
  | bare _ => exact Or.inl rfl
  | bracketed hphrase => exact hphrase

/-- A path is a route or none, and an addr-spec. -/
theorem Mailbox.exists_path {ws phrase path : List Token} (h : Mailbox ws phrase path) :
    ∃ route spec, path = route ++ spec ∧ RouteOrNone route ∧ AddrSpec spec := by
  cases h with
  | bare hspec => exact ⟨[], _, rfl, Or.inl rfl, hspec⟩
  | bracketed _ _ hroute hspec _ => exact ⟨_, _, rfl, hroute, hspec⟩

/-! ### Mailboxes by their first bracket -/

/-- Something has to stand there. -/
theorem not_mailbox_nil {phrase path : List Token} : ¬Mailbox [] phrase path := by
  generalize hws : ([] : List Token) = ws
  rintro (h | _)
  · exact h.ne_nil hws.symm
  · simp at hws

/-- Without a bracket a mailbox is an addr-spec. -/
theorem mailbox_iff_of_forall {ws phrase path : List Token}
    (hws : ∀ t ∈ ws, t.isSpecial '<' = false) :
    Mailbox ws phrase path ↔ AddrSpec ws ∧ phrase = [] ∧ path = ws := by
  constructor
  · rintro (h | ⟨_, hleft, _, _, _⟩)
    · exact ⟨h, rfl, rfl⟩
    · rw [hws _ (by simp)] at hleft
      cases hleft
  · rintro ⟨h, rfl, rfl⟩
    exact .bare h

/-- With a bracket, what stands before it is the phrase. -/
theorem mailbox_append_cons_iff {before after phrase path : List Token} {left : Token}
    (hbefore : ∀ t ∈ before, t.isSpecial '<' = false) (hleft : left.isSpecial '<' = true) :
    Mailbox (before ++ left :: after) phrase path ↔
      ∃ route spec right, after = route ++ spec ++ [right] ∧ right.isSpecial '>' = true ∧
        PhraseOrNone before ∧ RouteOrNone route ∧ AddrSpec spec ∧
        phrase = before ∧ path = route ++ spec := by
  constructor
  · generalize hws : before ++ left :: after = ws
    rintro (h | ⟨hphrase, hleft', hroute, hspec, hright⟩)
    · have := h.isSpecial_eq_false (c := '<') (by decide) (by decide) left (by simp [← hws])
      rw [this] at hleft
      cases hleft
    · obtain ⟨rfl, rfl, rfl⟩ := Run.append_cons_inj (p := (!·.isSpecial '<'))
        (by simpa using hbefore) (by simpa using hleft)
        (by simpa using hphrase.isSpecial_eq_false (c := '<') (by decide)) (by simpa using hleft')
        hws
      exact ⟨_, _, _, rfl, hright, hphrase, hroute, hspec, rfl, rfl⟩
  · rintro ⟨route, spec, right, rfl, hright, hphrase, hroute, hspec, rfl, rfl⟩
    exact .bracketed hphrase hleft hroute hspec hright

end Grammar

end InternetMail
