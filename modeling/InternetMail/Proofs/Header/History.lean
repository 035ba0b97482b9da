import InternetMail.Proofs.Header.Built
import InternetMail.Proofs.Header.Editing
import InternetMail.Proofs.Header.Spelling

/-!
# Header maps and what was done to them

What a map holds after any edits, some of them refused, can be said without a map. The edits that
were not refused leave a history of values that were added, values that replaced all others, and
fields that were removed (`History.Extends`, `History.Records`). Loading adds the fields that its
source holds, up to the first that is not taken; which these are is said by the octets of the
source. From the history alone comes which values a field has (`History.values`), since when it has
been there (`History.since`), and whether it takes another value (`History.takes`).

A map that started empty agrees with its history (`reflects_of_records`), and this says how its
fields are ordered, too. Each edit does to the map what it does to the history, so the proof is one
lemma for each thing that may happen to a field (`Reflects.add`, `Reflects.set`, `Reflects.remove`)
and one induction over the edits. There is one history of some edits, and no more
(`exists_records_iff`).

How a name is spelled does not matter to any of this (`HeaderName.ofText?_eq_of_spelledAlike`), and
two names of a map differ by more than the case of letters (`HeaderName.eq_of_foldAscii_text`).

The history says what an answer depends on: for the values of a field only what was done to that
field, and only since all its values were last replaced or removed. The order of the fields depends
on when each of them came to be there, so it is by `since` that the fields of the map are sorted.
That a value was refused is part of the history too, by its absence, and whether it is refused
depends on what the field holds (`takes`).
-/

namespace InternetMail

namespace HeaderMap

/-! ### Histories -/

/-- What happened to a field. -/
inductive Event
  | added (n : HeaderName) (value : Text)
  | replaced (n : HeaderName) (value : Text)
  | removed (n : HeaderName)
  deriving DecidableEq

/-- What happened to fields, the last first. -/
abbrev History := List Event

namespace History

/-- The values that were added to a field since all of its values were last replaced or removed,
after the one that replaced them. -/
def values (n : HeaderName) : History → List Text
  | [] => []
  | .added n' value :: h => if n' = n then values n h ++ [value] else values n h
  | .replaced n' value :: h => if n' = n then [value] else values n h
  | .removed n' :: h => if n' = n then [] else values n h

/-- How much had happened when the field was first put in since it was last removed, if it is still
there. -/
def since (n : HeaderName) : History → Option Nat
  | [] => none
  | .added n' _ :: h | .replaced n' _ :: h =>
    (since n h).or (if n' = n then some h.length else none)
  | .removed n' :: h => if n' = n then none else since n h

/-- One field has been there for longer than the other. -/
def Before (h : History) (a b : HeaderName) : Prop :=
  ∃ i j, h.since a = some i ∧ h.since b = some j ∧ i < j

/-- Whether a field takes one more value. -/
def takes (h : History) (n : HeaderName) : Bool :=
  n.isRepeatable || (h.values n).isEmpty

/-- The history after fields were added, up to the first that is not taken. -/
def addAll (h : History) : List Field → History
  | [] => h
  | f :: fs =>
    if h.takes f.name then addAll (.added f.name (Utf8.decodeLossy f.value) :: h) fs else h

/-- An edit makes a history into the next. One that is refused leaves it as it is, except that
loading adds the fields before the one that is refused. -/
inductive Extends : Edit → History → History → Prop
  | add {name value : Text} {n : HeaderName} {h : History} :
      HeaderName.ofText? name = some n → h.takes n = true →
        Extends (.add name value) h (.added n value :: h)
  | addRefused {name value : Text} {h : History} :
      (∀ n, HeaderName.ofText? name = some n → h.takes n = false) → Extends (.add name value) h h
  | set {name value : Text} {n : HeaderName} {h : History} :
      HeaderName.ofText? name = some n → Extends (.set name value) h (.replaced n value :: h)
  | setRefused {name value : Text} {h : History} :
      HeaderName.ofText? name = none → Extends (.set name value) h h
  | remove {name : Text} {n : HeaderName} {h : History} :
      HeaderName.ofText? name = some n → Extends (.remove name) h (.removed n :: h)
  | removeNothing {name : Text} {h : History} :
      HeaderName.ofText? name = none → Extends (.remove name) h h
  | load {source : Source} {fs : List Field} {h : History} :
      source.HoldsFields fs → Extends (.load source) h (h.addAll fs)
  | loadRefused {source : Source} {h : History} :
      (∀ fs, ¬source.HoldsFields fs) → Extends (.load source) h h

/-- A history goes on to another by edits, one after another. -/
inductive GoesOn : History → List Edit → History → Prop
  | done {h : History} : GoesOn h [] h
  | edit {e : Edit} {edits : List Edit} {h h' h'' : History} :
      Extends e h h' → GoesOn h' edits h'' → GoesOn h (e :: edits) h''

/-- The history of some edits of an empty map. -/
def Records (h : History) (edits : List Edit) : Prop :=
  GoesOn [] edits h

/-- Every edit has something to say to every history. -/
theorem exists_extends (e : Edit) (h : History) : ∃ h', Extends e h h' := by
  cases e with
  | add name value =>
    cases hname : HeaderName.ofText? name with
    | none => exact ⟨h, .addRefused fun n hn ↦ by simp [hname] at hn⟩
    | some n =>
      cases htakes : h.takes n with
      | true => exact ⟨_, .add hname htakes⟩
      | false => exact ⟨h, .addRefused fun n' hn' ↦ by simp_all⟩
  | set name value =>
    cases hname : HeaderName.ofText? name with
    | none => exact ⟨h, .setRefused hname⟩
    | some n => exact ⟨_, .set hname⟩
  | remove name =>
    cases hname : HeaderName.ofText? name with
    | none => exact ⟨h, .removeNothing hname⟩
    | some n => exact ⟨_, .remove hname⟩
  | load source =>
    by_cases hfields : ∃ fs, source.HoldsFields fs
    · obtain ⟨fs, hfields⟩ := hfields
      exact ⟨_, .load hfields⟩
    · exact ⟨h, .loadRefused (not_exists.1 hfields)⟩

/-- It says one thing only. -/
theorem Extends.unique {e : Edit} {h h' h'' : History} (h₁ : Extends e h h')
    (h₂ : Extends e h h'') : h' = h'' := by
  cases h₁ with
  | add hn htakes =>
    cases h₂ with
    | add hn' _ => rw [Option.some.inj (hn.symm.trans hn')]
    | addRefused hrefused => simp [hrefused _ hn] at htakes
  | addRefused hrefused =>
    cases h₂ with
    | add hn htakes => simp [hrefused _ hn] at htakes
    | addRefused _ => rfl
  | set hn =>
    cases h₂ with
    | set hn' => rw [Option.some.inj (hn.symm.trans hn')]
    | setRefused hnone => simp [hn] at hnone
  | setRefused hnone =>
    cases h₂ with
    | set hn => simp [hn] at hnone
    | setRefused _ => rfl
  | remove hn =>
    cases h₂ with
    | remove hn' => rw [Option.some.inj (hn.symm.trans hn')]
    | removeNothing hnone => simp [hn] at hnone
  | removeNothing hnone =>
    cases h₂ with
    | remove hn => simp [hn] at hnone
    | removeNothing _ => rfl
  | load hfields =>
    cases h₂ with
    | load hfields' => rw [hfields.unique hfields']
    | loadRefused hnone => exact absurd hfields (hnone _)
  | loadRefused hnone =>
    cases h₂ with
    | load hfields => exact absurd hfields (hnone _)
    | loadRefused _ => rfl

/-- Every list of edits makes a history. -/
theorem exists_goesOn (h : History) (edits : List Edit) : ∃ h', GoesOn h edits h' := by
  induction edits generalizing h with
  | nil => exact ⟨h, .done⟩
  | cons e edits ih =>
    obtain ⟨h', he⟩ := exists_extends e h
    obtain ⟨h'', hedits⟩ := ih h'
    exact ⟨h'', .edit he hedits⟩

/-- And only one. -/
theorem GoesOn.unique {edits : List Edit} {h h' h'' : History} (h₁ : GoesOn h edits h')
    (h₂ : GoesOn h edits h'') : h' = h'' := by
  induction h₁ with
  | done =>
    cases h₂
    rfl
  | edit he _ ih =>
    cases h₂ with
    | edit he' hedits =>
      obtain rfl := he.unique he'
      exact ih hedits

/-- Edits have one history. -/
theorem exists_records_iff (edits : List Edit) :
    ∃ h : History, ∀ h', h'.Records edits ↔ h' = h := by
  obtain ⟨h, hedits⟩ := exists_goesOn [] edits
  exact ⟨h, fun h' ↦ ⟨fun hedits' ↦ hedits'.unique hedits, fun heq ↦ heq ▸ hedits⟩⟩

/-- A field has been there since something in its history. -/
theorem since_lt {h : History} {n : HeaderName} {i : Nat} (hi : h.since n = some i) :
    i < h.length := by
  have hput : ∀ (n' : HeaderName) (h : History), (h.since n = some i → i < h.length) →
      (h.since n).or (if n' = n then some h.length else none) = some i → i < h.length + 1 := by
    intro n' h ih hor
    rcases Option.or_eq_some_iff.1 hor with hold | ⟨-, hnew⟩
    · exact (ih hold).trans (Nat.lt_succ_self _)
    · split at hnew
      · cases hnew
        exact Nat.lt_succ_self _
      · cases hnew
  induction h with
  | nil => cases hi
  | cons e h ih =>
    cases e with
    | added n' _ => exact hput n' h ih hi
    | replaced n' _ => exact hput n' h ih hi
    | removed n' =>
      rw [since] at hi
      split at hi
      · cases hi
      · exact (ih hi).trans (Nat.lt_succ_self _)

end History

/-! ### Maps and their histories -/

/-- The map holds what its history says. -/
structure Reflects (m : HeaderMap) (h : History) : Prop where
  wellFormed : m.WellFormed
  getAll : ∀ n, m.getAll n = h.values n
  mem_keys : ∀ n, n ∈ m.entries.keys ↔ (h.since n).isSome = true
  ordered : m.entries.keys.Pairwise h.Before

/-- Nothing was done to the empty map. -/
theorem reflects_empty : Reflects .empty [] :=
  ⟨wellFormed_empty, fun _ ↦ rfl, fun _ ↦ by simp [HeaderMap.empty, Entries.keys, History.since],
    List.Pairwise.nil⟩

variable {m : HeaderMap} {h : History}

/-- Values are put under a name, whether as new values of it or with those it has. -/
theorem Reflects.put (hm : m.Reflects h) {n : HeaderName} {values : List Text} {e : Event}
    (hne : values ≠ []) (hsingle : n.isRepeatable = false → values.length = 1)
    (hvalues : ∀ n', History.values n' (e :: h) = if n = n' then values else h.values n')
    (hsince : ∀ n', History.since n' (e :: h) =
      (h.since n').or (if n = n' then some h.length else none)) :
    Reflects ⟨m.entries.put n values⟩ (e :: h) := by
  -- what was there before the event is in the same order after it
  have hbefore : ∀ {a b}, h.Before a b → History.Before (e :: h) a b := by
    rintro a b ⟨i, j, hi, hj, hij⟩
    exact ⟨i, j, by rw [hsince, hi, Option.some_or], by rw [hsince, hj, Option.some_or], hij⟩
  refine ⟨hm.wellFormed.put hne hsingle, fun n' ↦ ?_, fun n' ↦ ?_, ?_⟩
  · rw [hvalues, HeaderMap.getAll]
    split
    · rename_i heq
      rw [heq, Entries.lookup_put_self]
      rfl
    · rename_i hother
      rw [Entries.lookup_put_of_ne (Ne.symm hother)]
      exact hm.getAll n'
  · rw [Entries.mem_keys_put, hm.mem_keys, hsince, Option.isSome_or, Bool.or_eq_true, or_comm]
    refine or_congr_right ?_
    split
    · rename_i heq
      simp [heq]
    · rename_i hother
      simp [Ne.symm hother]
  · rw [Entries.keys_put]
    split
    · exact hm.ordered.imp hbefore
    · rename_i hnew
      -- a name that is new comes last, as it has been there since this event
      refine List.pairwise_append.2
        ⟨hm.ordered.imp hbefore, List.pairwise_singleton _ _, fun a ha b hb ↦ ?_⟩
      obtain rfl := List.mem_singleton.1 hb
      obtain ⟨i, hi⟩ := Option.isSome_iff_exists.1 ((hm.mem_keys a).1 ha)
      have hnone : h.since b = none := by
        rwa [hm.mem_keys, Bool.not_eq_true, Option.isSome_eq_false_iff, Option.isNone_iff_eq_none]
          at hnew
      exact ⟨i, h.length, by rw [hsince, hi, Option.some_or], by simp [hsince, hnone],
        History.since_lt hi⟩

/-- A field that is not there has no values, and one that is has those of its history. -/
theorem Reflects.lookup (hm : m.Reflects h) (n : HeaderName) :
    m.entries.lookup n = none ∧ h.values n = [] ∨
      m.entries.lookup n = some (h.values n) ∧ h.values n ≠ [] := by
  rw [← hm.getAll, HeaderMap.getAll]
  cases hlookup : m.entries.lookup n with
  | none => exact Or.inl ⟨rfl, rfl⟩
  | some values =>
    exact Or.inr ⟨rfl, hm.wellFormed.nonempty _ (Entries.mem_of_lookup hlookup)⟩

/-- Setting a field replaces all of its values. It keeps its place if it was there, and comes last
if not. -/
theorem Reflects.set (hm : m.Reflects h) (n : HeaderName) (value : Text) :
    Reflects (m.set n value) (.replaced n value :: h) :=
  hm.put (by simp) (fun _ ↦ rfl) (fun _ ↦ rfl) fun _ ↦ rfl

/-- A value is added to a field that takes it. -/
theorem Reflects.add (hm : m.Reflects h) {n : HeaderName} (value : Text)
    (htakes : h.takes n = true) :
    ∃ m', m.add n value = .ok m' ∧ Reflects m' (.added n value :: h) := by
  unfold HeaderMap.add
  rcases hm.lookup n with ⟨hlookup, hvalues⟩ | ⟨hlookup, hvalues⟩
  · rw [hlookup]
    refine ⟨m.set n value, rfl, hm.put (by simp) (fun _ ↦ rfl) (fun n' ↦ ?_) fun _ ↦ rfl⟩
    rw [History.values]
    split
    · rename_i heq
      rw [← heq, hvalues, List.nil_append]
    · rfl
  · have hrepeatable : n.isRepeatable = true := by
      simpa [History.takes, hvalues] using htakes
    rw [hlookup]
    simp only [hrepeatable, if_true]
    refine ⟨_, rfl, hm.put (by simp) (by simp [hrepeatable]) (fun n' ↦ ?_) fun _ ↦ rfl⟩
    rw [History.values]
    split
    · rename_i heq
      rw [heq]
    · rfl

/-- A field that takes no value refuses one. -/
theorem Reflects.add_eq_error (hm : m.Reflects h) {n : HeaderName} (value : Text)
    (htakes : h.takes n = false) : m.add n value = .error (.duplicateHeader n) := by
  obtain ⟨hrepeatable, hvalues⟩ : n.isRepeatable = false ∧ h.values n ≠ [] := by
    simpa [History.takes] using htakes
  have hlookup := (hm.lookup n).resolve_left fun hnone ↦ hvalues hnone.2
  simp [HeaderMap.add, hlookup.1, hrepeatable]

/-- Removing a field leaves the others in their order. -/
theorem Reflects.remove (hm : m.Reflects h) (n : HeaderName) :
    Reflects (m.remove n) (.removed n :: h) := by
  have hsince : ∀ n', History.since n' (.removed n :: h) =
    if n = n' then none else h.since n' := fun _ ↦ rfl
  refine ⟨hm.wellFormed.remove n, fun n' ↦ ?_, fun n' ↦ ?_, ?_⟩
  · rw [HeaderMap.getAll, HeaderMap.remove, History.values]
    split
    · rename_i heq
      rw [heq, Entries.lookup_remove_self]
      rfl
    · rename_i hother
      rw [Entries.lookup_remove_of_ne (Ne.symm hother)]
      exact hm.getAll n'
  · rw [HeaderMap.remove, Entries.keys_remove, List.mem_filter, hm.mem_keys, hsince]
    by_cases hn : n = n'
    · simp [hn]
    · simp [hn, Ne.symm hn]
  · -- the fields that stay are none of them the one that goes
    rw [HeaderMap.remove, Entries.keys_remove]
    refine (hm.ordered.filter (· != n)).imp_of_mem fun {a b} ha hb hab ↦ ?_
    have hne : ∀ c ∈ m.entries.keys.filter (· != n), n ≠ c := fun c hc heq ↦ by
      simp [heq] at hc
    obtain ⟨i, j, hi, hj, hij⟩ := hab
    exact ⟨i, j, by rw [hsince, if_neg (hne a ha), hi], by rw [hsince, if_neg (hne b hb), hj], hij⟩

/-- Fields are added up to the first that the map does not take. -/
theorem Reflects.addAll (hm : m.Reflects h) (fs : List Field) :
    Reflects (m.addAll fs).2 (h.addAll fs) := by
  induction fs generalizing m h with
  | nil => exact hm
  | cons f fs ih =>
    rw [HeaderMap.addAll, History.addAll]
    cases htakes : h.takes f.name with
    | true =>
      obtain ⟨m', hadd, hm'⟩ := hm.add (Utf8.decodeLossy f.value) htakes
      rw [hadd]
      exact ih hm'
    | false =>
      rw [hm.add_eq_error _ htakes]
      exact hm

/-- An addition is refused if its name is none, and by a field that takes no value. -/
theorem Reflects.edit_add_eq_ok_iff (hm : m.Reflects h) (name value : Text) :
    (m.edit (.add name value)).1 = .ok () ↔
      ∃ n, HeaderName.ofText? name = some n ∧ h.takes n = true := by
  rw [edit_add, addSpelled, HeaderName.parse]
  cases HeaderName.ofText? name with
  | none => simp [bind, Except.bind]
  | some n =>
    cases htakes : h.takes n with
    | true =>
      obtain ⟨m', hadd, -⟩ := hm.add value htakes
      simp [bind, Except.bind, hadd, htakes]
    | false => simp [bind, Except.bind, hm.add_eq_error value htakes, htakes]

/-- A replacement is refused if its name is none. -/
theorem edit_set_eq_ok_iff (m : HeaderMap) (name value : Text) :
    (m.edit (.set name value)).1 = .ok () ↔ (HeaderName.ofText? name).isSome = true := by
  rw [edit_set, setSpelled, HeaderName.parse]
  cases HeaderName.ofText? name <;> simp [Except.map]

/-- Each edit does to the map what it does to the history. -/
theorem Reflects.edit (hm : m.Reflects h) {e : Edit} {h' : History} (he : h.Extends e h') :
    Reflects (m.edit e).2 h' := by
  cases he with
  | @add name value n _ hn htakes =>
    obtain ⟨m', hadd, hm'⟩ := hm.add value htakes
    have hspelled : m.addSpelled name value = .ok m' := by
      rw [addSpelled, HeaderName.parse, hn]
      exact hadd
    rw [edit_add, hspelled]
    exact hm'
  | @addRefused name value _ hrefused =>
    -- an edit that fails changes nothing, so it is enough that this one fails
    have herror : (m.edit (.add name value)).1 ≠ .ok () := by
      rw [Ne, hm.edit_add_eq_ok_iff]
      rintro ⟨n, hn, htakes⟩
      simp [hrefused n hn] at htakes
    cases hresult : (m.edit (.add name value)).1 with
    | ok _ => exact absurd hresult herror
    | error e => rwa [edit_eq_self_of_error (by simp) hresult]
  | @set name value n _ hn =>
    have hspelled : m.setSpelled name value = .ok (m.set n value) := by
      rw [setSpelled, HeaderName.parse, hn]
      rfl
    rw [edit_set, hspelled]
    exact hm.set n value
  | @setRefused name value _ hnone =>
    have hspelled : m.setSpelled name value = .error .invalidName := by
      rw [setSpelled, HeaderName.parse, hnone]
      rfl
    rw [edit_set, hspelled]
    exact hm
  | @remove name n _ hn =>
    show Reflects (m.removeSpelled name).2 _
    rw [removeSpelled, hn]
    exact hm.remove n
  | @removeNothing name _ hnone =>
    show Reflects (m.removeSpelled name).2 _
    rw [removeSpelled, hnone]
    exact hm
  | load hfields =>
    rw [edit_load_of_holdsFields m hfields]
    exact hm.addAll _
  | loadRefused hnone =>
    obtain ⟨e, herror⟩ := exists_edit_load_eq_error m hnone
    rw [herror]
    exact hm

/-- Whatever is done to a map is done to its history: by induction on the edits. -/
theorem Reflects.foldl (hm : m.Reflects h) {edits : List Edit} {h' : History}
    (hedits : h.GoesOn edits h') :
    Reflects (edits.foldl (fun m e ↦ (m.edit e).2) m) h' := by
  induction hedits generalizing m with
  | done => exact hm
  | edit he _ ih => exact ih (hm.edit he)

/-- A map that started empty holds what its history says. -/
theorem reflects_of_records {edits : List Edit} (hedits : h.Records edits) :
    Reflects (run edits) h :=
  reflects_empty.foldl hedits

/-- What is found and removed by a spelling of a name are the values that its field has. -/
theorem WellFormed.spelled (hm : m.WellFormed) (t : Text) :
    m.getSpelled? t = (m.getAllSpelled t).head? ∧
      (m.containsSpelled t = true ↔ m.getAllSpelled t ≠ []) ∧
      (m.removeSpelled t).1 =
        if m.getAllSpelled t = [] then none else some (m.getAllSpelled t) := by
  rw [getSpelled?, getAllSpelled, containsSpelled, removeSpelled]
  cases HeaderName.ofText? t with
  | none => simp
  | some n =>
    cases hlookup : m.entries.lookup n with
    | none => simp [get?, getAll, contains, hlookup]
    | some values =>
      have hvalues : values ≠ [] := hm.nonempty _ (Entries.mem_of_lookup hlookup)
      simp [get?, getAll, contains, hlookup, hvalues]

/-- The fields of a map are its names, each with its values. -/
theorem Reflects.fields_eq (hm : m.Reflects h) :
    m.fields = m.entries.keys.flatMap fun n ↦ (h.values n).map (n, ·) := by
  rw [fields, Entries.keys, List.flatMap_map]
  refine List.flatMap_congr fun e he ↦ ?_
  rw [← hm.getAll, HeaderMap.getAll, Entries.lookup_of_mem hm.wellFormed.nodup he]
  rfl

/-! ### Main statement -/

/-- **What a header map holds after any edits.** Let a map be built from nothing by edits, of which
some may be refused; they have one history. Each name of the map has a value, and only one if it may
not repeat; no two names are the same but for the case of letters. Spellings of a name that differ
in case and in blanks around them find, and remove, the same. What is found and removed are the
values that the field has, or the first of them. These are the values that were added since the
field was last replaced or removed, in order. All fields are listed in the order in which they were
first put in since they were last removed, each with its values together. One more value is refused
just if its name is none or the field takes none, and a replacement just if its name is none; then
the map stays as it is. -/
theorem run_reflects_history (edits : List Edit) :
    ∃ h : History, (∀ h', h'.Records edits ↔ h' = h) ∧
    (∀ e ∈ (run edits).entries, e.2 ≠ [] ∧ (e.1.isRepeatable = false → e.2.length = 1)) ∧
    ((run edits).entries.keys.Pairwise fun a b ↦ a.text.foldAscii ≠ b.text.foldAscii) ∧
    (∀ t u : Text, t.SpelledAlike u →
      (run edits).getSpelled? t = (run edits).getSpelled? u ∧
      (run edits).getAllSpelled t = (run edits).getAllSpelled u ∧
      (run edits).containsSpelled t = (run edits).containsSpelled u ∧
      (run edits).removeSpelled t = (run edits).removeSpelled u) ∧
    (∀ t, (run edits).getSpelled? t = ((run edits).getAllSpelled t).head? ∧
      ((run edits).containsSpelled t = true ↔ (run edits).getAllSpelled t ≠ []) ∧
      ((run edits).removeSpelled t).1 = if (run edits).getAllSpelled t = [] then none
        else some ((run edits).getAllSpelled t)) ∧
    (∀ t n, HeaderName.ofText? t = some n → (run edits).getAllSpelled t = h.values n) ∧
    (∃ names : List HeaderName,
      (run edits).fields = names.flatMap (fun n ↦ (h.values n).map (n, ·)) ∧
      (∀ n, n ∈ names ↔ (h.since n).isSome = true) ∧ names.Pairwise h.Before) ∧
    (∀ name value,
      (((run edits).edit (.add name value)).1 = .ok () ↔
        ∃ n, HeaderName.ofText? name = some n ∧ h.takes n = true) ∧
      (((run edits).edit (.set name value)).1 = .ok () ↔
        (HeaderName.ofText? name).isSome = true)) ∧
    ∀ e error, (∀ source, e ≠ .load source) → ((run edits).edit e).1 = .error error →
      ((run edits).edit e).2 = run edits := by
  obtain ⟨h, hrecords⟩ := History.exists_records_iff edits
  have hm := reflects_of_records ((hrecords h).2 rfl)
  refine ⟨h, hrecords, fun e he ↦ ⟨hm.wellFormed.nonempty e he, hm.wellFormed.single e he⟩, ?_, ?_,
    fun t ↦ hm.wellFormed.spelled t, ?_, ⟨_, hm.fields_eq, hm.mem_keys, hm.ordered⟩,
    fun name value ↦ ⟨hm.edit_add_eq_ok_iff name value, edit_set_eq_ok_iff _ name value⟩,
    fun e error he herror ↦ edit_eq_self_of_error he herror⟩
  · exact hm.wellFormed.nodup.imp fun hne heq ↦ hne (HeaderName.eq_of_foldAscii_text heq)
  · intro t u htu
    have hname := HeaderName.ofText?_eq_of_spelledAlike htu
    simp only [getSpelled?, getAllSpelled, containsSpelled, removeSpelled, hname, and_self]
  · intro t n hn
    simp only [getAllSpelled, hn]
    exact hm.getAll n

/-- A second subject is refused before the first is removed, and the next comes after the fields
that repeat. A source that fails after its block adds the field that it holds. -/
theorem run_reflects_history_second_subject :
    ∃ edits, edits = [.add " Subject ".toList "a".toList, .add "received".toList "1".toList,
        .add "SUBJECT".toList "b".toList, .remove "subject".toList,
        .add "Received\t".toList "2".toList, .add "subject".toList "c".toList,
        .load ⟨[.ofAscii "RECEIVED: 3\n\nx"], some ⟨.other, ""⟩⟩] ∧
      (run edits).getAllSpelled "Received".toList = ["1".toList, "2".toList, "3".toList] ∧
      (run edits).getAllSpelled "suBJect\r\n".toList = ["c".toList] ∧
      (∃ h : History, h.Records edits ∧
        h.Before (.ofStandard .received) (.ofStandard .subject)) ∧
      ∃ error, ((run edits).edit (.add "Subject".toList "d".toList)).1 = .error error ∧
        ((run edits).edit (.add "Subject".toList "d".toList)).2 = run edits := by
  have hfields : Source.HoldsFields ⟨[.ofAscii "RECEIVED: 3\n\nx"], some ⟨.other, ""⟩⟩
      [⟨.ofStandard .received, .ofAscii "3"⟩] :=
    Source.holdsFields_iff.2 ⟨Or.inr (by decide +kernel), by decide +kernel⟩
  obtain ⟨edits, hedits⟩ : ∃ edits, edits = [.add " Subject ".toList "a".toList,
    .add "received".toList "1".toList, .add "SUBJECT".toList "b".toList, .remove "subject".toList,
    .add "Received\t".toList "2".toList, .add "subject".toList "c".toList,
    Edit.load ⟨[.ofAscii "RECEIVED: 3\n\nx"], some ⟨.other, ""⟩⟩] := ⟨_, rfl⟩
  have hsubject : ∀ t ∈ [" Subject ".toList, "SUBJECT".toList, "subject".toList,
      "Subject".toList], HeaderName.ofText? t = some (.ofStandard .subject) := by
    decide +kernel
  have hreceived : ∀ t ∈ ["received".toList, "Received\t".toList, "Received".toList],
      HeaderName.ofText? t = some (.ofStandard .received) := by
    decide +kernel
  have hrefused : ∀ n, HeaderName.ofText? "SUBJECT".toList = some n → History.takes
      [.added (.ofStandard .received) "1".toList, .added (.ofStandard .subject) "a".toList] n =
        false := by
    intro n hn
    obtain rfl := Option.some.inj ((hsubject _ (by simp)).symm.trans hn)
    decide +kernel
  have hrecords : History.Records [.added (.ofStandard .received) "3".toList,
      .added (.ofStandard .subject) "c".toList, .added (.ofStandard .received) "2".toList,
      .removed (.ofStandard .subject), .added (.ofStandard .received) "1".toList,
      .added (.ofStandard .subject) "a".toList] edits := by
    rw [hedits]
    refine .edit (.add (hsubject _ (by simp)) (by decide +kernel)) ?_
    refine .edit (.add (hreceived _ (by simp)) (by decide +kernel)) ?_
    refine .edit (.addRefused hrefused) ?_
    refine .edit (.remove (hsubject _ (by simp))) ?_
    refine .edit (.add (hreceived _ (by simp)) (by decide +kernel)) ?_
    refine .edit (.add (hsubject _ (by simp)) (by decide +kernel)) ?_
    exact .edit (.load hfields) .done
  have hspelled : Text.SpelledAlike "suBJect\r\n".toList "Subject".toList := by
    unfold Text.SpelledAlike
    decide +kernel
  obtain ⟨h, hhistory, -, -, halike, -, hvalues, -, hdone, hkept⟩ := run_reflects_history edits
  obtain rfl := (hhistory _).1 hrecords
  refine ⟨edits, hedits, ?_, ?_, ⟨_, hrecords, ?_⟩, ?_⟩
  · rw [hvalues _ _ (hreceived _ (by simp))]
    decide +kernel
  · rw [(halike _ _ hspelled).2.1, hvalues _ _ (hsubject _ (by simp))]
    decide +kernel
  · exact ⟨1, 4, by decide +kernel, by decide +kernel, by decide⟩
  · have hnot : ((run edits).edit (.add "Subject".toList "d".toList)).1 ≠ .ok () := by
      rw [Ne, (hdone _ _).1, hsubject _ (by simp)]
      rintro ⟨n, hn, htakes⟩
      obtain rfl := Option.some.inj hn
      exact absurd htakes (by decide +kernel)
    cases herror : ((run edits).edit (.add "Subject".toList "d".toList)).1 with
    | ok _ => exact absurd herror hnot
    | error error => exact ⟨error, rfl, hkept _ error (by simp) herror⟩

end HeaderMap

end InternetMail
