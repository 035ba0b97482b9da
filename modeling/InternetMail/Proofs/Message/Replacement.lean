import InternetMail.Proofs.Content.Registry
import InternetMail.Proofs.InPlace
import InternetMail.Proofs.Message.Content

/-!
# Content is replaced as a whole or not at all

Setting content is work on a message in place: the registry writes the content to a sink of its own,
the codec encodes what was written, and only then the header map and the body are replaced
(`Message.replaceContent`). Each of the steps that can fail leaves the message alone, so that a
failure on any of them leaves it as it was (`Message.result_replaceContent`). With the codec of the
library the message that is left is the one that `Message.setContent` gives
(`Message.result_replaceContent_encode`).

The header map is amended: a value is put under the names of two fields, or of three if there was no
version, and a name that is new comes after those that were there (`HeaderMap.Amended`).

Nothing is assumed of the codec, of the handlers or of the content: each of them may fail, and what
they give may be anything. So the result speaks of whatever the codec gave for whatever the registry
wrote. That the message is changed by the last two steps only is seen from the work itself, step by
step, and not from a definition of what failing does.
-/

namespace InternetMail

open Reported (outcome)

/-! ### Header maps in which some fields are replaced -/

/-- The fields of `names` have new values, or are new and come after all others. -/
structure HeaderMap.Amended (names : List HeaderName) (old new : HeaderMap) : Prop where
  lookup_eq : ∀ n ∉ names, new.entries.lookup n = old.entries.lookup n
  keys_eq : ∃ added, new.entries.keys = old.entries.keys ++ added ∧
    ∀ n ∈ added, n ∈ names ∧ n ∉ old.entries.keys

namespace HeaderMap.Amended

variable {names : List HeaderName} {old new : HeaderMap} {n : HeaderName}

theorem refl (names : List HeaderName) (m : HeaderMap) : Amended names m m :=
  ⟨fun _ _ ↦ rfl, [], by simp, by simp⟩

/-- Another of the fields may be set. -/
theorem set (h : Amended names old new) (hn : n ∈ names) (value : Text) :
    Amended names old (new.set n value) := by
  obtain ⟨added, hkeys, hadded⟩ := h.keys_eq
  refine ⟨fun k hk ↦ ?_, ?_⟩
  · have hne : k ≠ n := fun heq ↦ hk (heq ▸ hn)
    rw [HeaderMap.set, Entries.lookup_put_of_ne hne]
    exact h.lookup_eq k hk
  · rw [HeaderMap.set, Entries.keys_put]
    split
    · exact ⟨added, hkeys, hadded⟩
    · rename_i hnew
      rw [hkeys, List.mem_append, not_or] at hnew
      refine ⟨added ++ [n], by rw [hkeys, List.append_assoc], fun k hk ↦ ?_⟩
      rcases List.mem_append.1 hk with hk | hk
      · exact hadded k hk
      · obtain rfl := List.mem_singleton.1 hk
        exact ⟨hn, hnew.1⟩

end HeaderMap.Amended

/-- The names of the fields that are set with content. A version that is there is kept. -/
def HeaderMap.describingNames (m : HeaderMap) : List HeaderName :=
  ((if m.contains StandardName.mimeVersion then [] else [StandardName.mimeVersion]) ++
    [StandardName.contentType, StandardName.contentTransferEncoding]).map .ofStandard

namespace Message

theorem amended_describeContent (headers : HeaderMap) (ct : ContentType) (e : TransferEncoding) :
    HeaderMap.Amended headers.describingNames headers (describeContent headers ct e) := by
  have hversion : HeaderMap.Amended headers.describingNames headers
      (if headers.contains StandardName.mimeVersion then headers
        else headers.set StandardName.mimeVersion "1.0".toList) := by
    split
    · exact .refl _ _
    · rename_i hnone
      refine (HeaderMap.Amended.refl _ _).set ?_ _
      simp [HeaderMap.describingNames, hnone]
  exact (hversion.set (by simp [HeaderMap.describingNames]) _).set
    (by simp [HeaderMap.describingNames]) _

end Message

/-! ### What is worked with -/

/-- The codec of the library. -/
def TransferEncoding.codec (e : TransferEncoding) (body : Octets) : Attempt Octets :=
  liftExcept (e.encode body)

/-- The octets that a registry writes to a sink that does not fail. -/
def Registry.written [MultiByte.Codec] (r : Registry) (ct : ContentType) (settings : Settings)
    (c : Content) : Attempt Octets := do
  let (done, sink) ← r.encode ct settings c .buffer
  match done with
  | .ok () => return sink.written
  | .error e => throw e

theorem Registry.outcome_written [MultiByte.Codec] (r : Registry) (ct : ContentType)
    (settings : Settings) (c : Content) :
    outcome (r.written ct settings c) = outcome (r.octetsOf ct settings c) := by
  rw [written, Reported.outcome_bind, Reported.outcome_lift, value_encode, outcome_octetsOf,
    ok_bind]
  rcases outcome (r.lookup ct) with e | h
  · rfl
  · rw [ok_bind]
    dsimp only
    cases h.written ct settings c <;> rfl

namespace Message

variable {m m' : Message} {r : Registry} {ct : ContentType} {c : Content}
  {codec : TransferEncoding → Octets → Attempt Octets}

/-- Makes some content the body of the message that is worked on. The header map is completed in a
copy. -/
def replaceContent [MultiByte.Codec] (codec : TransferEncoding → Octets → Attempt Octets)
    (r : Registry) (ct : ContentType) (c : Content) : InPlace Message Unit := do
  let ct := typeFor ct c
  let raw ← .attempt (r.written ct (← get).settings c)
  let e := encodingFor ct raw
  let body ← .attempt (codec e raw)
  let headers := describeContent (← get).headers ct e
  modify fun m ↦ { m with headers }
  modify fun m ↦ { m with body }

/-- The message is described anew once all that can fail is done. -/
theorem result_replaceContent [MultiByte.Codec] (codec : TransferEncoding → Octets → Attempt Octets)
    (r : Registry) (ct : ContentType) (c : Content) (m : Message) :
    (replaceContent codec r ct c).result m =
      match outcome (r.octetsOf (typeFor ct c) m.settings c) with
      | .error e => (.error e, m)
      | .ok raw =>
        match outcome (codec (encodingFor (typeFor ct c) raw) raw) with
        | .error e => (.error e, m)
        | .ok body =>
          (.ok (), m.described (typeFor ct c) (encodingFor (typeFor ct c) raw) body) := by
  rw [replaceContent, InPlace.result_bind, InPlace.result_get]
  simp only [InPlace.result_bind, InPlace.result_attempt, Registry.outcome_written]
  cases outcome (r.octetsOf (typeFor ct c) m.settings c) with
  | error e => rfl
  | ok raw =>
    simp only
    cases outcome (codec (encodingFor (typeFor ct c) raw) raw) with
    | error e => rfl
    | ok body => rfl

/-- With the codec of the library, what is left is the message that some content was set in. -/
theorem result_replaceContent_encode [MultiByte.Codec] (r : Registry) (ct : ContentType)
    (c : Content) (m : Message) : (replaceContent TransferEncoding.codec r ct c).result m =
      match outcome (m.setContent r ct c) with
      | .ok m' => (.ok (), m')
      | .error e => (.error e, m) := by
  rw [result_replaceContent, setContent]
  simp only [TransferEncoding.codec, Reported.outcome_bind, Reported.outcome_liftExcept]
  cases outcome (r.octetsOf (typeFor ct c) m.settings c) with
  | error e => rfl
  | ok raw =>
    simp only [ok_bind]
    cases (encodingFor (typeFor ct c) raw).encode raw with
    | error e => rfl
    | ok body => rfl

/-- The content of `m` was replaced: the body is what the codec made of the octets that the registry
wrote, in the encoding that the message says, and of the rest only the fields that say so differ. -/
structure Replaced [MultiByte.Codec] (codec : TransferEncoding → Octets → Attempt Octets)
    (r : Registry) (ct : ContentType) (c : Content) (m m' : Message) : Prop where
  exists_written : ∃ raw, outcome (r.written (typeFor ct c) m.settings c) = .ok raw ∧
    m'.transferEncoding = encodingFor (typeFor ct c) raw ∧
    outcome (codec m'.transferEncoding raw) = .ok m'.body
  headers : HeaderMap.Amended m.headers.describingNames m.headers m'.headers
  settings_eq : m'.settings = m.settings

theorem replaced_described [MultiByte.Codec] {raw body : Octets}
    (hraw : outcome (r.octetsOf (typeFor ct c) m.settings c) = .ok raw)
    (hbody : outcome (codec (encodingFor (typeFor ct c) raw) raw) = .ok body) :
    Replaced codec r ct c m
      (m.described (typeFor ct c) (encodingFor (typeFor ct c) raw) body) := by
  have hencoding : transferEncoding (m.described (typeFor ct c)
      (encodingFor (typeFor ct c) raw) body) = encodingFor (typeFor ct c) raw :=
    transferEncoding_described (encodingFor_mem_supported (typeFor ct c) raw)
  refine ⟨⟨raw, ?_, hencoding, ?_⟩, amended_describeContent _ _ _, rfl⟩
  · rw [Registry.outcome_written, hraw]
  · rw [hencoding, hbody]
    rfl

/-- **Content is replaced as a whole or not at all**, with any codec. If the work fails, the message
is left as it was. With the codec of the library it is what setting the content gives. -/
theorem replaceContent_atomic [MultiByte.Codec] (codec : TransferEncoding → Octets → Attempt Octets)
    (r : Registry) (ct : ContentType) (c : Content) (m : Message) :
    (∀ e m', (replaceContent codec r ct c).result m = (.error e, m') → m' = m) ∧
    (∀ m', (replaceContent codec r ct c).result m = (.ok (), m') → Replaced codec r ct c m m') ∧
    (replaceContent TransferEncoding.codec r ct c).result m =
      match outcome (m.setContent r ct c) with
      | .ok m' => (.ok (), m')
      | .error e => (.error e, m) := by
  refine ⟨fun e m' h ↦ ?_, fun m' h ↦ ?_, result_replaceContent_encode r ct c m⟩
  all_goals rw [result_replaceContent] at h
  · split at h
    · exact (congrArg Prod.snd h).symm
    · split at h
      · exact (congrArg Prod.snd h).symm
      · cases h
  · split at h
    · cases h
    · rename_i raw hraw
      split at h
      · cases h
      · rename_i body hbody
        cases h
        exact replaced_described hraw hbody

/-- A letter that US-ASCII does not have leaves the message alone. Where the charset is chosen for
the text, the version and the subject are kept, and the encoding is a new field at the end. -/
theorem replaceContent_atomic_naive : ∃ m m' : Message, ∃ e : Error,
    m.headers.fields = [(.ofStandard .mimeVersion, "1.0 (old)".toList),
      (.ofStandard .contentType, "text/html".toList), (.ofStandard .subject, "x".toList)] ∧
    (replaceContent TransferEncoding.codec .default
      ⟨"text".toList, "plain".toList, [("charset".toList, "us-ascii".toList)]⟩
      (.text "naïve".toList)).result m = (.error e, m) ∧
    Replaced TransferEncoding.codec .default ⟨"text".toList, "plain".toList, []⟩
      (.text "naïve".toList) m m' ∧
    m'.headers.fields = [(.ofStandard .mimeVersion, "1.0 (old)".toList),
      (.ofStandard .contentType, "text/plain; charset=utf-8".toList),
      (.ofStandard .subject, "x".toList),
      (.ofStandard .contentTransferEncoding, "quoted-printable".toList)] ∧
    m'.body = Octets.ofAscii "na=C3=AFve" := by
  let m : Message := ⟨⟨[(.ofStandard .mimeVersion, ["1.0 (old)".toList]),
    (.ofStandard .contentType, ["text/html".toList]), (.ofStandard .subject, ["x".toList])]⟩,
    Octets.ofAscii "old", .default⟩
  obtain ⟨hfailed, -⟩ := replaceContent_atomic TransferEncoding.codec .default
    ⟨"text".toList, "plain".toList, [("charset".toList, "us-ascii".toList)]⟩
    (.text "naïve".toList) m
  obtain ⟨-, hreplaced, -⟩ := replaceContent_atomic TransferEncoding.codec .default
    ⟨"text".toList, "plain".toList, []⟩ (.text "naïve".toList) m
  have hfails : ((replaceContent TransferEncoding.codec .default
      ⟨"text".toList, "plain".toList, [("charset".toList, "us-ascii".toList)]⟩
      (.text "naïve".toList)).result m).1.isOk = false := by
    decide +kernel
  have hends : ((replaceContent TransferEncoding.codec .default
      ⟨"text".toList, "plain".toList, []⟩ (.text "naïve".toList)).result m).1.isOk = true ∧
      ((replaceContent TransferEncoding.codec .default ⟨"text".toList, "plain".toList, []⟩
        (.text "naïve".toList)).result m).2.headers.fields =
          [(.ofStandard .mimeVersion, "1.0 (old)".toList),
            (.ofStandard .contentType, "text/plain; charset=utf-8".toList),
            (.ofStandard .subject, "x".toList),
            (.ofStandard .contentTransferEncoding, "quoted-printable".toList)] ∧
      ((replaceContent TransferEncoding.codec .default ⟨"text".toList, "plain".toList, []⟩
        (.text "naïve".toList)).result m).2.body = Octets.ofAscii "na=C3=AFve" := by
    decide +kernel
  rcases hrun : (replaceContent TransferEncoding.codec .default
    ⟨"text".toList, "plain".toList, [("charset".toList, "us-ascii".toList)]⟩
    (.text "naïve".toList)).result m with ⟨e | _, m₁⟩
  · rcases hrun' : (replaceContent TransferEncoding.codec .default
      ⟨"text".toList, "plain".toList, []⟩ (.text "naïve".toList)).result m with ⟨_ | _, m₂⟩
    · rw [hrun'] at hends
      cases hends.1
    · rw [hrun'] at hends
      rw [hfailed e m₁ hrun] at hrun
      exact ⟨m, m₂, e, rfl, hrun, hreplaced m₂ hrun', hends.2⟩
  · rw [hrun] at hfails
    cases hfails

end Message

end InternetMail
