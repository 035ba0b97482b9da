import InternetMail.Content.Registry
import InternetMail.Proofs.Outcome
import InternetMail.Proofs.Stream
import InternetMail.Proofs.Text.Utf8
import Mathlib.Data.List.Induction

/-!
# Content is written as a whole or not at all

A registry is built by registrations and changes of its fallback (`Registry.ofChanges`). Which
handler content of a type goes to can be read off these: the one last registered for the type, or
else for its main type, or else the last fallback (`Registry.selected`, `outcome_lookup_ofChanges`).

Messages are written in pieces, field by field, which comes to the same as to write their octets at
once (`Message.write_eq_deliver`), so that a handler writes the octets of its content
(`Handler.written_eq_octetsOf`). The registry lets it write to memory and only then turns to the
sink (`Registry.value_encode`): the sink gets all that the handler writes, once, or nothing, unless
it is the sink that fails (`Registry.encode_ofChanges`).
-/

namespace InternetMail

open Reported (outcome)

/-! ### Pieces -/

/-- The pieces of a header are its octets. -/
theorem HeaderMap.flatten_pieces (m : HeaderMap) : m.pieces.flatten = Utf8.encode m.render := by
  rw [pieces, render]
  induction m.fields with
  | nil => rfl
  | cons f fs ih =>
    rw [List.flatMap_cons, List.flatMap_cons, List.flatten_append, ih, Utf8.encode_append,
      renderField, Utf8.encode_append, Utf8.encode_append, Utf8.encode_append]
    simp

/-- A message is written as its octets at once, and passed on. -/
theorem Message.write_eq_deliver (m : Message) (s : Sink) : m.write s = s.deliver m.toOctets := by
  have hpieces : (m.headers.pieces ++ [[0x0d, 0x0a], m.body]).flatten = m.toOctets := by
    rw [List.flatten_append, m.headers.flatten_pieces]
    simp [toOctets]
  rw [Sink.deliver, ← hpieces, ← Sink.writeEach_eq_write, Sink.writeEach_append, write,
    HeaderMap.write]
  rcases s.writeEach m.headers.pieces with ⟨- | -, s'⟩ <;> rfl

namespace Handler

variable {h : Handler} {ct : ContentType} {settings : Settings} {c : Content}

/-- The octets that the handler writes to a sink that takes everything. -/
def written [MultiByte.Codec] (ct : ContentType) (settings : Settings) (h : Handler) (c : Content) :
    Outcome Octets :=
  match h.encode ct settings c .buffer with
  | (.ok (), s) => .ok s.written
  | (.error e, _) => .error e

/-- A handler writes the octets of its content at once. -/
theorem encode_eq [MultiByte.Codec] (h : Handler) (ct : ContentType) (settings : Settings)
    (c : Content) (s : Sink) :
    h.encode ct settings c s =
      match h.octetsOf ct settings c with
      | .error e => (.error e, s)
      | .ok bs => if h = .message then s.deliver bs else s.write bs := by
  cases h with
  | text =>
    cases c with
    | text t =>
      have hbind : (charset ct settings).bind (·.encode t) =
          octetsOf .text ct settings (.text t) := rfl
      rw [encode, hbind]
      rcases octetsOf .text ct settings (.text t) with e | bs <;> simp
    | _ => simp only [encode, octetsOf]
  | message =>
    cases c with
    | message m => simp only [encode, octetsOf, m.write_eq_deliver, if_true]
    | _ => simp only [encode, octetsOf]
  | binary => cases c <;> simp [encode, octetsOf]

/-- **What a handler writes are the octets of its content**, into whatever pieces it is cut. -/
theorem written_eq_octetsOf [MultiByte.Codec] :
    written ct settings h c = h.octetsOf ct settings c := by
  rw [written, encode_eq]
  rcases h.octetsOf ct settings c with e | bs
  · rfl
  · by_cases hm : h = .message
    · simp only [if_pos hm]
      rfl
    · simp only [if_neg hm]
      rfl

end Handler

namespace Registry

variable {ct : ContentType} {settings : Settings} {c : Content}

/-- The handler writes to memory, and the sink gets what is there when the handler is done. -/
theorem value_encode [MultiByte.Codec] (r : Registry) (sink : Sink) :
    (r.encode ct settings c sink).value =
      match outcome (r.lookup ct) with
      | .error e => (.error e, sink)
      | .ok h =>
        match h.written ct settings c with
        | .error e => (.error e, sink)
        | .ok bs => sink.deliver bs := by
  rw [encode, Reported.value_bind]
  show _ = match (r.lookup ct).run.value with
    | .error e => _
    | .ok h => _
  rcases (r.lookup ct).run.value with e | h
  · rfl
  · dsimp only
    rw [Handler.written]
    rcases h.encode ct settings c .buffer with ⟨- | -, buffer⟩ <;> rfl

/-- The octets of some content are what the handler for its type writes. -/
theorem outcome_octetsOf [MultiByte.Codec] (r : Registry) :
    outcome (r.octetsOf ct settings c) =
      outcome (r.lookup ct) >>= fun h ↦ h.written ct settings c := by
  refine (Reported.outcome_bind _ _).trans (bind_congr fun h ↦ ?_)
  rw [Handler.written_eq_octetsOf]
  rfl

/-! ### Registries by their changes -/

/-- What may be done to a registry. -/
inductive Change
  | register (mediaType : Text) (h : Handler)
  | setFallback (h : Option Handler)

def change (r : Registry) : Change → Registry
  | .register mediaType h => r.register mediaType h
  | .setFallback h => r.setFallback h

/-- What changes make of a registry without handlers, one after another. -/
def ofChanges (changes : List Change) : Registry :=
  changes.foldl change empty

/-- The registry that the library comes with is built in three changes. -/
example : default = ofChanges [.register "text/*".toList .text,
    .register "message/rfc822".toList .message, .setFallback (some .binary)] := rfl

/-- The handler that is registered for `key`, by the last change that registers one for it. -/
def lastRegistered (key : Text) (changes : List Change) : Option Handler :=
  changes.reverse.findSome? fun
    | .register mediaType h => if (Text.trim mediaType).foldAscii = key then some h else none
    | .setFallback _ => none

/-- The fallback, by the last change of it. -/
def lastFallback (changes : List Change) : Option Handler :=
  (changes.reverse.findSome? fun
    | .register _ _ => none
    | .setFallback h => some h).join

/-- The handler that content of a type goes to. -/
def selected (changes : List Change) (ct : ContentType) : Option Handler :=
  ((lastRegistered ct.base changes).or (lastRegistered ct.wildcard changes)).or
    (lastFallback changes)

/-- The last change is made to what the others made. -/
theorem ofChanges_concat (changes : List Change) (x : Change) :
    ofChanges (changes ++ [x]) = (ofChanges changes).change x := by
  rw [ofChanges, List.foldl_append]
  rfl

/-- The handler of a key is the one that was last registered for it. -/
theorem lookup_handlers_ofChanges (key : Text) (changes : List Change) :
    (ofChanges changes).handlers.lookup key = lastRegistered key changes := by
  induction changes using List.reverseRecOn with
  | nil => rfl
  | append_singleton changes x ih =>
    rw [ofChanges_concat, lastRegistered, List.reverse_concat, List.findSome?_cons]
    cases x with
    | register mediaType h =>
      show (Entries.put _ h (ofChanges changes).handlers).lookup key = _
      by_cases hkey : (Text.trim mediaType).foldAscii = key
      · simp only [hkey, if_true, Entries.lookup_put_self]
      · simp only [if_neg hkey, Entries.lookup_put_of_ne (Ne.symm hkey)]
        exact ih
    | setFallback h => exact ih

/-- The fallback is the last that was set. -/
theorem fallback_ofChanges (changes : List Change) :
    (ofChanges changes).fallback = lastFallback changes := by
  induction changes using List.reverseRecOn with
  | nil => rfl
  | append_singleton changes x ih =>
    rw [ofChanges_concat, lastFallback, List.reverse_concat, List.findSome?_cons]
    cases x with
    | register mediaType h => exact ih
    | setFallback h => rfl

/-- Looking a type up finds the handler that the changes select, and fails if they select none. -/
theorem outcome_lookup_ofChanges (changes : List Change) (ct : ContentType) :
    outcome ((ofChanges changes).lookup ct) =
      match selected changes ct with
      | some h => .ok h
      | none => .error (.noHandler ct) := by
  rw [lookup, selected, lookup_handlers_ofChanges, lookup_handlers_ofChanges, fallback_ofChanges]
  rcases (lastRegistered ct.base changes).or (lastRegistered ct.wildcard changes) with - | h
  · rcases lastFallback changes with - | h <;> rfl
  · rfl

/-! ### All or nothing -/

/-- Without a handler, or if the handler refuses the content, the sink is left as it was. Otherwise
the content is encoded exactly if the sink has room for all that the handler writes and does not
fail to be flushed. Then the sink holds that behind what it held, once, and was flushed. If not, the
failure is one of the sink, which got a prefix of what the handler writes and was not flushed. -/
theorem encode_ofChanges [MultiByte.Codec] (changes : List Change) (ct : ContentType)
    (settings : Settings) (c : Content) (sink : Sink) :
    let (result, after) := ((ofChanges changes).encode ct settings c sink).value
    match selected changes ct with
    | none => result = .error (.noHandler ct) ∧ after = sink
    | some h =>
      match h.written ct settings c with
      | .error e => result = .error e ∧ after = sink
      | .ok bs =>
        (result = .ok () ↔ sink.HasRoom bs ∧ sink.flushFailure = none) ∧
        (result = .ok () → after.written = sink.written ++ bs ∧ after.flushed = true) ∧
        ∀ e, result = .error e →
          (∃ failure, sink.FailsWith failure ∧ e = failure.toError ∧
            e.kind = .io failure.fault) ∧
          (∃ sent, sent <+: bs ∧ after.written = sink.written ++ sent) ∧
          after.flushed = sink.flushed := by
  rw [value_encode, outcome_lookup_ofChanges]
  rcases selected changes ct with - | h
  · exact ⟨rfl, rfl⟩
  · dsimp only
    rcases h.written ct settings c with e | bs
    · exact ⟨rfl, rfl⟩
    · refine ⟨Sink.deliver_eq_ok_iff, fun hok ↦ ?_, fun e he ↦ ?_⟩
      · rw [Sink.deliver_of_ok hok]
        exact ⟨rfl, rfl⟩
      · obtain ⟨failure, sent, hfails, rfl, hsent, hafter⟩ := Sink.exists_of_deliver_eq_error he
        rw [hafter]
        exact ⟨⟨failure, hfails, rfl, Sink.kind_toError failure⟩, ⟨sent, hsent, rfl⟩, rfl⟩

/-- A message of fifteen octets is written to a sink that has room for nine more: the registration
for the type counts, whatever its case, and the sink gets the nine octets of a name, a colon and a
space. -/
theorem encode_ofChanges_full_sink :
    let m : Message := ⟨⟨[(StandardName.subject, ["a".toList])]⟩, [0x62], .default⟩
    let sink : Sink := ⟨[0x2a], false, some (10, ⟨.brokenPipe, "sink is full"⟩), none⟩
    let changes := [.setFallback (some .binary), .register " Message/RFC822".toList .message]
    let (result, after) := ((ofChanges changes).encode ⟨"message".toList, "rfc822".toList, []⟩
      .default (.message m) sink).value
    result ≠ .ok () ∧ after.written = 0x2a :: Octets.ofAscii "Subject: " ∧
      ∃ sent, sent <+: m.toOctets ∧ after.written = sink.written ++ sent := by
  intro m sink changes
  have hall := encode_ofChanges changes ⟨"message".toList, "rfc822".toList, []⟩ .default
    (.message m) sink
  have hselected : selected changes ⟨"message".toList, "rfc822".toList, []⟩ = some .message := by
    decide +kernel
  have hwritten : Handler.written ⟨"message".toList, "rfc822".toList, []⟩ .default .message
      (.message m) = .ok m.toOctets := rfl
  have hresult : ((ofChanges changes).encode ⟨"message".toList, "rfc822".toList, []⟩ .default
      (.message m) sink).value = (.error (.ofStream .brokenPipe "sink is full"),
        { sink with written := 0x2a :: Octets.ofAscii "Subject: " }) := by
    rfl
  rw [hselected, hresult] at hall
  simp only [hwritten] at hall
  rw [hresult]
  exact ⟨by simp, rfl, (hall.2.2 _ rfl).2.1⟩

end Registry

end InternetMail
