import InternetMail.Stream

/-!
# What a sink accepts

A sink that is written to holds what it held before and the first of the new octets behind that, all
of them if it has room (`Sink.write_of_hasRoom`, `Sink.write_of_not_hasRoom`). So it does not matter
to a sink in how many pieces it is written to (`Sink.writeEach_eq_write`), and a sink that fails
holds a prefix of what it was given (`Sink.exists_of_deliver_eq_error`).

A sink has room for some number of octets, or for any, and may fail when it is flushed. To deliver
is to write and to flush, and what comes of it can be told from the octets and the sink alone
(`Sink.deliver_eq_ok_iff`). A sink that fails on writing has taken what it had room for, and one
that fails on flushing all that it was given.
-/

namespace InternetMail.Sink

variable {s : Sink} {bs : Octets}

/-- Whether the sink accepts all of the octets. -/
def HasRoom (s : Sink) (bs : Octets) : Prop :=
  ∀ l ∈ s.limit, bs.length ≤ l.1 - s.written.length

/-- The failure is that of the sink, on writing or on passing on. -/
def FailsWith (s : Sink) (failure : StreamFailure) : Prop :=
  failure ∈ s.limit.map Prod.snd ∨ failure ∈ s.flushFailure

/-! ### One write -/

/-- A sink with room takes all of the octets, behind those that it had. -/
theorem write_of_hasRoom (h : s.HasRoom bs) :
    s.write bs = (.ok (), { s with written := s.written ++ bs }) := by
  rcases hs : s.limit with - | ⟨limit, failure⟩
  · simp only [write, hs]
  · have hroom : bs.length ≤ limit - s.written.length := h (limit, failure) hs
    simp only [write, hs, if_pos hroom, List.take_of_length_le hroom]

/-- A sink without room takes the octets that it has room for, and fails as its limit says. -/
theorem write_of_not_hasRoom (h : ¬s.HasRoom bs) :
    ∃ limit failure, s.limit = some (limit, failure) ∧ limit - s.written.length < bs.length ∧
      s.write bs = (.error failure.toError,
        { s with written := s.written ++ bs.take (limit - s.written.length) }) := by
  rcases hs : s.limit with - | ⟨limit, failure⟩
  · exact absurd (fun l hl ↦ by rw [hs] at hl; cases hl) h
  · have hroom : ¬bs.length ≤ limit - s.written.length := by
      intro hle
      refine h fun l hl ↦ ?_
      obtain rfl : (limit, failure) = l := Option.some.inj (hs.symm.trans hl)
      exact hle
    exact ⟨limit, failure, rfl, Nat.lt_of_not_le hroom, by simp only [write, hs, if_neg hroom]⟩

/-- There is room for two stretches if there is for the first, and for the second behind it. -/
theorem hasRoom_append_iff {cs : Octets} :
    s.HasRoom (bs ++ cs) ↔
      s.HasRoom bs ∧ ({ s with written := s.written ++ bs } : Sink).HasRoom cs := by
  simp only [HasRoom, List.length_append]
  constructor
  · intro h
    exact ⟨fun l hl ↦ by have := h l hl; omega, fun l hl ↦ by have := h l hl; omega⟩
  · rintro ⟨hbs, hcs⟩ l hl
    have := hbs l hl
    have := hcs l hl
    omega

/-! ### Several writes -/

/-- A sink goes on where it was left. -/
theorem write_append_of_hasRoom (hbs : s.HasRoom bs) (cs : Octets) :
    s.write (bs ++ cs) = ({ s with written := s.written ++ bs } : Sink).write cs := by
  by_cases hcs : ({ s with written := s.written ++ bs } : Sink).HasRoom cs
  · rw [write_of_hasRoom hcs, write_of_hasRoom (hasRoom_append_iff.2 ⟨hbs, hcs⟩),
      List.append_assoc]
  · -- the first stretch is accepted, and of the second what there is room for behind it
    have hboth : ¬s.HasRoom (bs ++ cs) := fun h ↦ hcs (hasRoom_append_iff.1 h).2
    obtain ⟨limit, failure, hs, -, hwrite⟩ := write_of_not_hasRoom hcs
    obtain ⟨limit', failure', hs', -, hwrite'⟩ := write_of_not_hasRoom hboth
    obtain ⟨rfl, rfl⟩ : limit = limit' ∧ failure = failure' :=
      Prod.mk.inj (Option.some.inj (hs.symm.trans hs'))
    have hroom : bs.length ≤ limit - s.written.length := hbs _ hs'
    rw [hwrite, hwrite', List.take_append, List.take_of_length_le hroom, List.append_assoc,
      List.length_append, Nat.sub_sub]

/-- What follows a stretch that is not accepted is not looked at. -/
theorem write_append_of_not_hasRoom (hbs : ¬s.HasRoom bs) (cs : Octets) :
    s.write (bs ++ cs) = s.write bs := by
  have hboth : ¬s.HasRoom (bs ++ cs) := fun h ↦ hbs (hasRoom_append_iff.1 h).1
  obtain ⟨limit, failure, hs, hlt, hwrite⟩ := write_of_not_hasRoom hbs
  obtain ⟨limit', failure', hs', -, hwrite'⟩ := write_of_not_hasRoom hboth
  obtain ⟨rfl, rfl⟩ : limit = limit' ∧ failure = failure' :=
    Prod.mk.inj (Option.some.inj (hs.symm.trans hs'))
  rw [hwrite, hwrite', List.take_append_of_le_length (Nat.le_of_lt hlt)]

/-- It does not matter in how many pieces something is written. -/
theorem writeEach_eq_write (s : Sink) (pieces : List Octets) :
    s.writeEach pieces = s.write pieces.flatten := by
  induction pieces generalizing s with
  | nil =>
    have hroom : s.HasRoom [] := fun _ _ ↦ Nat.zero_le _
    rw [List.flatten_nil, write_of_hasRoom hroom, List.append_nil]
    rfl
  | cons bs pieces ih =>
    rw [writeEach, List.flatten_cons]
    by_cases hbs : s.HasRoom bs
    · rw [write_of_hasRoom hbs, write_append_of_hasRoom hbs]
      exact ih _
    · obtain ⟨_, _, -, -, hwrite⟩ := write_of_not_hasRoom hbs
      rw [write_append_of_not_hasRoom hbs, hwrite]

/-- More pieces are only written if all of those before them were accepted. -/
theorem writeEach_append (s : Sink) (pieces rest : List Octets) :
    s.writeEach (pieces ++ rest) =
      match s.writeEach pieces with
      | (.ok (), s) => s.writeEach rest
      | failed => failed := by
  induction pieces generalizing s with
  | nil => rfl
  | cons bs pieces ih =>
    rw [List.cons_append, writeEach, writeEach]
    rcases s.write bs with ⟨- | -, s'⟩
    · rfl
    · exact ih s'

/-! ### Passing on -/

/-- All is accepted and passed on exactly if there is room for it and passing on does not fail. -/
theorem deliver_eq_ok_iff :
    (s.deliver bs).1 = .ok () ↔ s.HasRoom bs ∧ s.flushFailure = none := by
  rw [deliver]
  by_cases hroom : s.HasRoom bs
  · rw [write_of_hasRoom hroom]
    rcases hs : s.flushFailure with - | failure <;> simp [flush, hroom]
  · obtain ⟨_, _, -, -, hwrite⟩ := write_of_not_hasRoom hroom
    simp [hwrite, hroom]

/-- After a delivery that went well the sink has all of the octets, and has passed them on. -/
theorem deliver_of_ok (h : (s.deliver bs).1 = .ok ()) :
    (s.deliver bs).2 = { s with written := s.written ++ bs, flushed := true } := by
  obtain ⟨hroom, hflush⟩ := deliver_eq_ok_iff.1 h
  rw [deliver, write_of_hasRoom hroom]
  simp only [flush, hflush]

/-- A sink that fails holds a prefix of what it was given, and has passed nothing on. -/
theorem exists_of_deliver_eq_error {e : Error} (h : (s.deliver bs).1 = .error e) :
    ∃ failure sent, s.FailsWith failure ∧ e = failure.toError ∧ sent <+: bs ∧
      (s.deliver bs).2 = { s with written := s.written ++ sent } := by
  rw [deliver] at h ⊢
  by_cases hroom : s.HasRoom bs
  · rw [write_of_hasRoom hroom] at h ⊢
    rcases hs : s.flushFailure with - | failure
    · simp [flush, hs] at h
    · refine ⟨failure, bs, Or.inr hs, ?_, List.prefix_rfl, rfl⟩
      simpa [flush, hs] using h.symm
  · obtain ⟨limit, failure, hs, -, hwrite⟩ := write_of_not_hasRoom hroom
    rw [hwrite] at h ⊢
    exact ⟨failure, _, Or.inl (by simp [hs]), (Except.error.inj h).symm, List.take_prefix _ bs, rfl⟩

/-- The failure of a stream is an input or output error, of the kind of its fault. -/
theorem kind_toError (failure : StreamFailure) : failure.toError.kind = .io failure.fault := rfl

end InternetMail.Sink
