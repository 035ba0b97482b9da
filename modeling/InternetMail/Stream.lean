import InternetMail.Notice

/-!
# Sources and sinks

Mail is read from a source and written to a sink, and both may fail on the way. A source hands out
its octets in reads of any length; `Source.line` and `Source.drain` put them together again, so that
what they give does not depend on where the reads were cut (`Source.lineOf_eq`).

What counts of a source are the reads that hand something out, as that is what a reader may rely on.
A read that hands out nothing is the end and no part of the source, and a read or write that is
interrupted is made again, so that neither shows in what is read or written.
-/

namespace InternetMail

/-- How a source or a sink fails, and what it says then. -/
structure StreamFailure where
  fault : StreamFault
  message : String
  deriving DecidableEq

/-- The failure as an error. -/
def StreamFailure.toError (f : StreamFailure) : Error :=
  .ofStream f.fault f.message

/-! ### Sources -/

/-- Something that octets are read from. -/
structure Source where
  /-- What each read hands out. -/
  reads : List Octets
  /-- How the source fails after that, unless it ends. -/
  failure : Option StreamFailure

namespace Source

/-- All octets that are left. -/
def octets (s : Source) : Octets := s.reads.flatten

/-- A source of some octets that hands out up to `chunk` of them at a time. -/
def ofOctets (bs : Octets) (chunk : Nat) (failure : Option StreamFailure) : Source :=
  ⟨Run.pieces chunk bs, failure⟩

/-- The octets up to the first LF and with it, those after it, and whether there is one. -/
def lineOf : List Octets → Octets × List Octets × Bool
  | [] => ([], [], false)
  | chunk :: reads =>
    match chunk.dropWhile (· != 0x0a) with
    | [] =>
      let (line, rest, found) := lineOf reads
      (chunk ++ line, rest, found)
    | lf :: after => (chunk.takeWhile (· != 0x0a) ++ [lf], after :: reads, true)

/-- Reads a line with its LF, which the last line may lack; nothing at the end. A line that the
source fails in is lost. -/
def line (s : Source) : Outcome Octets × Source :=
  let (line, rest, found) := lineOf s.reads
  match found, s.failure with
  | false, some failure => (.error failure.toError, { s with reads := rest })
  | _, _ => (.ok line, { s with reads := rest })

/-- Reads all that is left, which is lost if the source fails. -/
def drain (s : Source) : Outcome Octets × Source :=
  match s.failure with
  | some failure => (.error failure.toError, { s with reads := [] })
  | none => (.ok s.octets, { s with reads := [] })

/-- Taking a line off loses nothing. -/
theorem lineOf_flatten (reads : List Octets) :
    (lineOf reads).1 ++ (lineOf reads).2.1.flatten = reads.flatten := by
  induction reads with
  | nil => rfl
  | cons chunk reads ih =>
    unfold lineOf
    split
    · simp [ih]
    · rename_i lf after h
      have := List.takeWhile_append_dropWhile (p := (· != 0x0a)) (l := chunk)
      rw [h] at this
      simpa using congrArg (· ++ reads.flatten) this

/-- A line takes away exactly the octets that it has. -/
theorem length_line (s : Source) {l : Octets} (h : s.line.1 = .ok l) :
    l.length + s.line.2.octets.length = s.octets.length := by
  have hl := congrArg List.length (lineOf_flatten s.reads)
  rw [List.length_append] at hl
  obtain ⟨reads, failure⟩ := s
  unfold line at h ⊢
  generalize lineOf reads = r at h hl ⊢
  obtain ⟨line, rest, found⟩ := r
  cases found <;> cases failure <;> cases h <;> exact hl

/-- Where the reads were cut matters neither to a line nor to what is left after it. -/
theorem lineOf_eq (reads : List Octets) :
    (lineOf reads).1 = (lineOf [reads.flatten]).1 ∧
      (lineOf reads).2.1.flatten = (lineOf [reads.flatten]).2.1.flatten ∧
      (lineOf reads).2.2 = (lineOf [reads.flatten]).2.2 := by
  induction reads with
  | nil => exact ⟨rfl, rfl, rfl⟩
  | cons chunk reads ih =>
    cases hc : chunk.dropWhile (· != 0x0a) with
    | nil =>
      have hall := (Run.dropWhile_eq_nil_iff _ _).1 hc
      obtain ⟨h₁, h₂, h₃⟩ := ih
      simp only [lineOf, hc, List.flatten_cons, List.dropWhile_append_of_pos hall,
        List.takeWhile_append_of_pos hall, h₁, h₂, h₃]
      cases reads.flatten.dropWhile (· != 0x0a) <;> simp
    | cons lf after =>
      have hlen : (chunk.takeWhile (· != 0x0a)).length ≠ chunk.length := by
        have h := congrArg List.length
          (List.takeWhile_append_dropWhile (p := (· != 0x0a)) (l := chunk))
        rw [List.length_append, hc, List.length_cons] at h
        omega
      have hd : (chunk ++ reads.flatten).dropWhile (· != 0x0a) =
          lf :: (after ++ reads.flatten) := by
        rw [List.dropWhile_append, hc]
        rfl
      have ht : (chunk ++ reads.flatten).takeWhile (· != 0x0a) = chunk.takeWhile (· != 0x0a) := by
        rw [List.takeWhile_append, if_neg hlen]
      simp [lineOf, hc, hd, ht]

end Source

/-! ### Sinks -/

/-- Something that octets are written to. -/
structure Sink where
  written : Octets
  /-- Whether all that was written has been passed on. -/
  flushed : Bool
  /-- How many octets are accepted altogether, and how the sink fails on more. -/
  limit : Option (Nat × StreamFailure)
  /-- How passing on fails, if it does. -/
  flushFailure : Option StreamFailure

namespace Sink

/-- A sink that takes everything: octets in memory. -/
def buffer : Sink := ⟨[], false, none, none⟩

/-- Writes some octets. A sink that is full accepts the first of them, as many as it has room for.
-/
def write (bs : Octets) (s : Sink) : Outcome Unit × Sink :=
  match s.limit with
  | none => (.ok (), { s with written := s.written ++ bs })
  | some (limit, failure) =>
    let room := limit - s.written.length
    (if bs.length ≤ room then .ok () else .error failure.toError,
      { s with written := s.written ++ bs.take room })

/-- Writes pieces one after another, up to the first that is not accepted as a whole. -/
def writeEach (s : Sink) : List Octets → Outcome Unit × Sink
  | [] => (.ok (), s)
  | bs :: pieces =>
    match s.write bs with
    | (.ok (), s) => s.writeEach pieces
    | failed => failed

/-- Passes on what was written. -/
def flush (s : Sink) : Outcome Unit × Sink :=
  match s.flushFailure with
  | none => (.ok (), { s with flushed := true })
  | some failure => (.error failure.toError, s)

/-- Writes some octets and passes them on, if they were all accepted. -/
def deliver (bs : Octets) (s : Sink) : Outcome Unit × Sink :=
  match s.write bs with
  | (.ok (), s) => s.flush
  | failed => failed

end Sink

end InternetMail
