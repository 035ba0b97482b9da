import InternetMail.Proofs.InPlace
import InternetMail.Proofs.Message.Partition

/-!
# Editing a header map in place

An edit works on a map in place: it reads a name, looks its field up, and then puts a value in or
refuses it. What was done to the map before a step failed stays done (`InPlace`). That a value that
is refused leaves the map as it was is therefore a fact about the order of the steps, of which the
one that changes the map is the last (`edit_eq_self_of_error`). It is no fact about loading, which
puts in one field after another: the fields before the one that is refused stay.

Each of these edits does to the map what the map that it would be gives (`edit_add`, `edit_set`,
`edit_load`). What loading adds can be told from the octets of the source alone: the fields that the
lines before its first line of blanks are written as (`Source.HoldsFields`), or nothing.
-/

namespace InternetMail

open Reported (outcome)

/-! ### The fields that a source holds -/

namespace Source

variable {source : Source} {fs fs' : List Field}

/-- The lines of the source up to its first line of blanks are given, and they are what the fields
are written as, one after another. -/
def HoldsFields (source : Source) (fs : List Field) : Prop :=
  source.HasBlock ∧ ∃ ws : List Field.Written, ws.map (·.field) = fs ∧
    source.octets.block = ws.flatMap (·.octets) ∧ Field.Ended ws []

theorem holdsFields_iff :
    source.HoldsFields fs ↔ source.HasBlock ∧ Field.readAll source.octets.block = (fs, []) :=
  and_congr_right fun _ ↦ Field.readAll_eq_iff_written.symm

/-- Octets are written for one list of fields only. -/
theorem HoldsFields.unique (h : source.HoldsFields fs) (h' : source.HoldsFields fs') : fs = fs' :=
  congrArg Prod.fst ((holdsFields_iff.1 h).2.symm.trans (holdsFields_iff.1 h').2)

end Source

namespace HeaderMap

/-! ### Steps -/

/-- Puts one more value under a name, or refuses it. -/
def insertValue (n : HeaderName) (value : Text) : InPlace HeaderMap Unit := do
  match (← get).entries.lookup n with
  | none => modify (·.set n value)
  | some values =>
    if n.isRepeatable then modify fun m ↦ ⟨m.entries.put n (values ++ [value])⟩
    else throw (.duplicateHeader n)

/-- Puts fields in, up to the first that is refused. -/
def insertFields : List Field → InPlace HeaderMap Unit
  | [] => pure ()
  | f :: fs => do
    insertValue f.name (Utf8.decodeLossy f.value)
    insertFields fs

/-- A value that is put in makes the map the one with that value, and nothing is put in before it is
certain to be taken. -/
theorem result_insertValue (n : HeaderName) (value : Text) (m : HeaderMap) :
    (insertValue n value).result m = match m.add n value with
      | .ok m' => (.ok (), m')
      | .error e => (.error e, m) := by
  rw [insertValue, InPlace.result_bind, InPlace.result_get, HeaderMap.add]
  cases hlookup : m.entries.lookup n with
  | none => simp only [hlookup, InPlace.result_modify]
  | some values =>
    simp only [hlookup]
    cases n.isRepeatable <;> rfl

/-- Putting fields in one after another in place is adding them. -/
theorem result_insertFields (fs : List Field) (m : HeaderMap) :
    (insertFields fs).result m = m.addAll fs := by
  induction fs generalizing m with
  | nil => rfl
  | cons f fs ih =>
    rw [insertFields, InPlace.result_bind, result_insertValue, HeaderMap.addAll]
    cases m.add f.name (Utf8.decodeLossy f.value) with
    | ok m' => exact ih m'
    | error e => rfl

/-! ### Edits -/

/-- What may be done to a map. -/
inductive Edit
  | add (name value : Text)
  | set (name value : Text)
  | remove (name : Text)
  | load (source : Source)

/-- The work that the edit does on the map. -/
def Edit.work : Edit → InPlace HeaderMap Unit
  | add name value => do insertValue (← .attempt (monadLift (HeaderName.parse name))) value
  | set name value => do
    let n ← .attempt (monadLift (HeaderName.parse name))
    modify (HeaderMap.set · n value)
  | remove name => modify fun m ↦ (m.removeSpelled name).2
  | load source => do
    let block ← .attempt (monadLift (readBlock source).1)
    let (fields, rest) := Field.readAll block
    if rest.trim.isEmpty then insertFields fields else throw (.malformedBlock rest)

/-- How the edit ends, and the map after it. -/
def edit (m : HeaderMap) (e : Edit) : Outcome Unit × HeaderMap :=
  e.work.result m

/-- What edits make of an empty map, one after another. -/
def run (edits : List Edit) : HeaderMap :=
  edits.foldl (fun m e ↦ (m.edit e).2) .empty

variable {m : HeaderMap} {source : Source} {fs : List Field}

/-- Adding in place gives the map that adding gives, or the map as it was. -/
theorem edit_add (m : HeaderMap) (name value : Text) :
    m.edit (.add name value) = match m.addSpelled name value with
      | .ok m' => (.ok (), m')
      | .error e => (.error e, m) := by
  rw [edit, Edit.work, InPlace.result_bind, InPlace.result_attempt, Reported.outcome_liftExcept,
    addSpelled]
  cases HeaderName.parse name with
  | ok n => exact result_insertValue n value m
  | error e => rfl

/-- So does setting. -/
theorem edit_set (m : HeaderMap) (name value : Text) :
    m.edit (.set name value) = match m.setSpelled name value with
      | .ok m' => (.ok (), m')
      | .error e => (.error e, m) := by
  rw [edit, Edit.work, InPlace.result_bind, InPlace.result_attempt, Reported.outcome_liftExcept,
    setSpelled]
  cases HeaderName.parse name <;> rfl

/-- Loading in place gives the map with the fields that were read, whether or not it failed. -/
theorem edit_load (m : HeaderMap) (source : Source) :
    m.edit (.load source) = ((m.load source).1, (m.load source).2.1) := by
  rw [edit, Edit.work, InPlace.result_bind, InPlace.result_attempt, Reported.outcome_liftExcept,
    HeaderMap.load]
  obtain ⟨_ | block, source'⟩ := readBlock source
  · rfl
  · simp only [addBlock]
    split
    · exact result_insertFields _ m
    · rfl

/-- A value that is refused leaves the map as it is; only loading adds fields before it fails. -/
theorem edit_eq_self_of_error {e : Edit} {error : Error} (he : ∀ source, e ≠ .load source)
    (h : (m.edit e).1 = .error error) : (m.edit e).2 = m := by
  cases e with
  | add name value =>
    rw [edit_add] at h ⊢
    generalize m.addSpelled name value = result at h ⊢
    cases result with
    | ok m' => cases h
    | error _ => rfl
  | set name value =>
    rw [edit_set] at h ⊢
    generalize m.setSpelled name value = result at h ⊢
    cases result with
    | ok m' => cases h
    | error _ => rfl
  | remove name => cases h
  | load source => exact absurd rfl (he source)

/-- Loading puts in the fields that the source holds. -/
theorem edit_load_of_holdsFields (m : HeaderMap) (h : source.HoldsFields fs) :
    m.edit (.load source) = m.addAll fs := by
  obtain ⟨hblock, hread⟩ := Source.holdsFields_iff.1 h
  obtain ⟨rest, hrest, -⟩ := exists_readBlock hblock
  rw [edit_load, HeaderMap.load, hrest]
  simp only [addBlock, hread]
  rfl

/-- A source that holds no fields, and not even the end of a block without any, adds nothing. -/
theorem exists_edit_load_eq_error (m : HeaderMap) (h : ∀ fs, ¬source.HoldsFields fs) :
    ∃ e, m.edit (.load source) = (.error e, m) := by
  rw [edit_load, HeaderMap.load]
  by_cases hblock : source.HasBlock
  · obtain ⟨rest, hrest, -⟩ := exists_readBlock hblock
    have hleft : (Field.readAll source.octets.block).2.isEmpty = false := by
      by_contra hempty
      refine h (Field.readAll source.octets.block).1 (Source.holdsFields_iff.2 ⟨hblock, ?_⟩)
      exact Prod.ext rfl (List.isEmpty_iff.1 (by simpa using hempty))
    rw [hrest]
    simp only [addBlock, Message.isEmpty_trim_readAll_block, hleft, Bool.false_eq_true, if_false]
    exact ⟨_, rfl⟩
  · obtain ⟨e, herror⟩ := exists_readBlock_eq_error hblock
    refine ⟨e, ?_⟩
    generalize readBlock source = result at herror ⊢
    obtain ⟨_, rest⟩ := result
    obtain rfl := herror
    rfl

end HeaderMap

end InternetMail
