import InternetMail.Proofs.Base64
import InternetMail.Proofs.QuotedPrintable.Body
import InternetMail.TransferEncoding

/-!
# Transfer encodings undone

Each supported encoding has a form for every body, and undoing it gives the body back, but for the
line breaks of quoted-printable (`TransferEncoding.exists_encode`). The encoding that is chosen for
octets is one that keeps these as well (`TransferEncoding.carried_forOctets`).

What a body comes back as is a function of the body and the encoding (`TransferEncoding.carried`):
the body itself, or the body with its lines ended anew. So a result about a body that is chosen an
encoding has to look at the choice only as far as it tells whether that is quoted-printable, and
then at the line breaks of the body.
-/

namespace InternetMail.TransferEncoding

variable {e : TransferEncoding} {body : Octets}

/-- What is left of a body that travels in an encoding. -/
def carried (e : TransferEncoding) (body : Octets) : Octets :=
  if e = quotedPrintable then QuotedPrintable.endedLines body else body

/-! ### Names -/

/-- A supported encoding is meant by its name. -/
theorem ofOctets_encode_name (he : e ∈ supported) : ofOctets (Utf8.encode e.name) = e := by
  revert e
  decide

theorem forText_mem_supported (body : Octets) : forText body ∈ supported := by
  simp only [forText]
  split
  · decide
  · split <;> decide

theorem forOctets_mem_supported (body : Octets) : forOctets body ∈ supported := by
  unfold forOctets
  split
  · decide
  · exact forText_mem_supported body

/-! ### Base64 in lines -/

/-- No octet of base64 is white space. -/
theorem isSpace_of_mem_encode (body : Octets) :
    ∀ b ∈ Base64.encode body, Octet.isSpace b = false := by
  have hsymbol : ∀ n < 64, Octet.isSpace (Base64.symbol n) = false := by decide
  intro b hb
  obtain rfl | ⟨n, hn, rfl⟩ := Base64.eq_of_mem_encode body b hb
  · rfl
  · exact hsymbol n hn

/-- The line breaks of base64 do not count. -/
theorem filter_base64Lines (body : Octets) :
    (base64Lines body).filter (!Octet.isSpace ·) = Base64.encode body := by
  have hlines : ∀ pieces : List Octets, (pieces.flatMap (· ++ [0x0d, 0x0a])).filter
      (!Octet.isSpace ·) = pieces.flatten.filter (!Octet.isSpace ·) := by
    intro pieces
    induction pieces with
    | nil => rfl
    | cons piece pieces ih =>
      rw [List.flatMap_cons, List.flatten_cons, List.filter_append, List.filter_append,
        List.filter_append, ih, show [0x0d, 0x0a].filter (!Octet.isSpace ·) = [] from rfl,
        List.append_nil]
  rw [base64Lines, hlines, Run.flatten_pieces, List.filter_eq_self]
  exact fun b hb ↦ by rw [isSpace_of_mem_encode body b hb]; rfl

/-! ### There and back -/

/-- A supported encoding has a form for every body, which is read as what it carries of that. -/
theorem exists_encode (he : e ∈ supported) (body : Octets) :
    ∃ form, e.encode body = .ok form ∧ e.decode form = .ok (e.carried body) := by
  cases e with
  | sevenBit => exact ⟨body, rfl, rfl⟩
  | eightBit => exact ⟨body, rfl, rfl⟩
  | binary => exact ⟨body, rfl, rfl⟩
  | base64 =>
    refine ⟨base64Lines body, rfl, ?_⟩
    rw [decode, filter_base64Lines, Base64.readRun_encode]
    rfl
  | quotedPrintable =>
    refine ⟨QuotedPrintable.encode body, rfl, ?_⟩
    rw [decode, QuotedPrintable.decode_encode]
    rfl
  | other name => simp [supported] at he

theorem carried_of_ne (he : e ≠ quotedPrintable) (body : Octets) : e.carried body = body :=
  if_neg he

theorem carried_of_keeps (e : TransferEncoding) (h : QuotedPrintable.Keeps body) :
    e.carried body = body := by
  rw [carried, QuotedPrintable.endedLines_eq_self_iff.2 h, ite_self]

/-- Octets whose line breaks are CR LF come back from quoted-printable as they were. -/
theorem endedLines_of_hasBareBreak (h : hasBareBreak false body = false) :
    QuotedPrintable.endedLines body = body := by
  fun_induction QuotedPrintable.endedLines body with
  | case1 => rfl
  | case2 => cases h
  | case3 bs ih => rw [ih (by simpa [hasBareBreak] using h)]
  | case4 bs ih => cases h
  | case5 b bs hend hbreak hfeed ih =>
    simp only [hasBareBreak, Bool.or_eq_false_iff] at h
    by_cases hb : b = 0x0d
    · -- a CR that is not bare stands before an LF
      subst hb
      have hhead : bs.head? = some 0x0a := by simpa using h.1.1
      obtain ⟨bs, rfl⟩ : ∃ rest, bs = 0x0a :: rest := List.head?_eq_some_iff.1 hhead
      exact absurd rfl (hbreak bs rfl)
    · rw [beq_false_of_ne hb] at h
      rw [ih h.2]

/-- The encoding that is chosen for octets carries all of them. -/
theorem carried_forOctets (body : Octets) : (forOctets body).carried body = body := by
  unfold forOctets
  split
  · rfl
  · rename_i h
    rw [Bool.not_eq_true, Bool.or_eq_false_iff] at h
    rw [carried, endedLines_of_hasBareBreak h.1, ite_self]

end InternetMail.TransferEncoding
