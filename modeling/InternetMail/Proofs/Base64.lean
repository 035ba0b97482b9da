import InternetMail.Base64
import InternetMail.Proofs.Outcome
import InternetMail.Proofs.Run

/-!
# Base64 reads what it writes

Octets are written block by block. `encode_induction` says once what a block is: symbols of values
that make up octets and leave no bits over, filled up to four, the last of them only. That they are
read as the octets, block by block (`readBlocks_encode`) or as one run (`readRun_encode`), and what
they are made of (`eq_of_mem_encode`) follow from it.

The reading of a run counts the symbols it took and knows that a filling is due only from the third
place of a block on (`lastValues_append`), so it is given all blocks but the last at once and the
last of them with its fillings (`encode_eq_nil_or_exists`). The arithmetic of a block is in
`isBlock_one`, `isBlock_two` and `isBlock_three` and nowhere else.
-/

namespace InternetMail.Base64

/-- A symbol is read as its value. -/
theorem value?_symbol : ∀ n < 64, value? (symbol n) = some n := by
  decide

/-- No symbol is a filling. -/
theorem symbol_ne_pad : ∀ n < 64, (symbol n == pad) = false := by
  decide

/-! ### What is written -/

/-- Four symbols and fillings that write some octets. -/
structure IsBlock (octets : Octets) (values : List Nat) (fillings : Octets) : Prop where
  value_lt : ∀ v ∈ values, v < 64
  filling_eq : ∀ b ∈ fillings, b = pad
  two_le : 2 ≤ values.length
  length_eq : values.length + fillings.length = 4
  octetsOf_eq : octetsOf values = (octets, 0)

/-- One octet is two symbols, and the last four bits of them are zero. -/
theorem isBlock_one (a : UInt8) {n : Nat} (hn : n = a.toNat * 16) :
    IsBlock [a] [n / 64, n % 64] [pad, pad] := by
  have ha := a.toNat_lt
  have h₁ : (n / 64 * 64 + n % 64) / 16 = a.toNat := by omega
  have h₂ : n % 64 % 16 = 0 := by omega
  refine ⟨?_, by simp, by simp, rfl, ?_⟩
  · simp only [List.forall_mem_cons, List.not_mem_nil, false_imp_iff, implies_true, and_true]
    omega
  · simp only [octetsOf, h₁, h₂, UInt8.ofNat_toNat]

/-- Two octets are three symbols, and the last two bits are zero. -/
theorem isBlock_two (a b : UInt8) {n : Nat} (hn : n = (a.toNat * 256 + b.toNat) * 4) :
    IsBlock [a, b] [n / 4096, n / 64 % 64, n % 64] [pad] := by
  have ha := a.toNat_lt
  have hb := b.toNat_lt
  have hwhole : (n / 4096 * 64 + n / 64 % 64) * 64 + n % 64 = n := by omega
  have h₁ : n / 1024 = a.toNat := by omega
  have h₂ : n / 4 % 256 = b.toNat := by omega
  have h₃ : n % 64 % 4 = 0 := by omega
  refine ⟨?_, by simp, by simp, rfl, ?_⟩
  · simp only [List.forall_mem_cons, List.not_mem_nil, false_imp_iff, implies_true, and_true]
    omega
  · simp only [octetsOf, hwhole, h₁, h₂, h₃, UInt8.ofNat_toNat]

/-- Three octets are four symbols, with no bits over. -/
theorem isBlock_three (a b c : UInt8) {n : Nat}
    (hn : n = (a.toNat * 256 + b.toNat) * 256 + c.toNat) :
    IsBlock [a, b, c] [n / 262144, n / 4096 % 64, n / 64 % 64, n % 64] [] := by
  have ha := a.toNat_lt
  have hb := b.toNat_lt
  have hc := c.toNat_lt
  have hwhole : ((n / 262144 * 64 + n / 4096 % 64) * 64 + n / 64 % 64) * 64 + n % 64 = n := by
    omega
  have h₁ : n / 65536 = a.toNat := by omega
  have h₂ : n / 256 % 256 = b.toNat := by omega
  have h₃ : n % 256 = c.toNat := by omega
  refine ⟨?_, by simp, by simp, rfl, ?_⟩
  · simp only [List.forall_mem_cons, List.not_mem_nil, false_imp_iff, implies_true, and_true]
    omega
  · simp only [octetsOf, hwhole, h₁, h₂, h₃, UInt8.ofNat_toNat]

/-- Octets are written as blocks, one after another, and only the last one is filled up. -/
theorem encode_induction {motive : Octets → Octets → Prop} (nil : motive [] [])
    (block : ∀ octets values fillings rest, IsBlock octets values fillings →
      (fillings ≠ [] → rest = []) → motive rest (encode rest) →
      motive (octets ++ rest) (values.map symbol ++ fillings ++ encode rest))
    (bs : Octets) : motive bs (encode bs) := by
  fun_induction encode bs with
  | case1 => exact nil
  | case2 a n => exact block [a] _ _ [] (isBlock_one a rfl) (fun _ ↦ rfl) nil
  | case3 a b n => exact block [a, b] _ _ [] (isBlock_two a b rfl) (fun _ ↦ rfl) nil
  | case4 a b c rest n ih =>
    exact block [a, b, c] _ _ rest (isBlock_three a b c rfl) (absurd rfl) ih

/-- Only symbols and fillings are written. -/
theorem eq_of_mem_encode (bs : Octets) : ∀ b ∈ encode bs, b = pad ∨ ∃ n < 64, b = symbol n := by
  refine encode_induction (motive := fun _ written ↦ ∀ b ∈ written, b = pad ∨
    ∃ n < 64, b = symbol n) (by simp) (fun octets values fillings rest hblock _ ih b hb ↦ ?_) bs
  rcases List.mem_append.1 hb with hb | hb
  · rcases List.mem_append.1 hb with hb | hb
    · obtain ⟨v, hv, rfl⟩ := List.mem_map.1 hb
      exact Or.inr ⟨v, hblock.value_lt v hv, rfl⟩
    · exact Or.inl (hblock.filling_eq b hb)
  · exact ih b hb

/-- What is written is whole blocks. -/
theorem length_encode_mod (bs : Octets) : (encode bs).length % 4 = 0 := by
  refine encode_induction (motive := fun _ written ↦ written.length % 4 = 0) rfl
    (fun octets values fillings rest hblock _ ih ↦ ?_) bs
  have hfour := hblock.length_eq
  rw [List.length_append, List.length_append, List.length_map]
  omega

/-! ### Reading it block by block -/

/-- Symbols of a block are read as their values. -/
theorem blockValues_map_symbol (position : Nat) {vs : List Nat} (h : ∀ v ∈ vs, v < 64) :
    blockValues position (vs.map symbol) = .ok vs := by
  induction vs generalizing position with
  | nil => rfl
  | cons v vs ih =>
    rw [List.forall_mem_cons] at h
    rw [List.map_cons, blockValues, value?_symbol v h.1]
    simp only [ih (position + 1) h.2]
    rfl

/-- A block is read as the octets that it writes. -/
theorem IsBlock.readBlock {octets fillings : Octets} {values : List Nat}
    (h : IsBlock octets values fillings) (position : Nat) :
    readBlock position (values.map symbol ++ fillings) = .ok octets := by
  have hstrip : Run.stripEnd (· == pad) (values.map symbol ++ fillings) = values.map symbol := by
    refine Run.stripEnd_append (fun b hb ↦ ?_) fun b hb ↦ beq_iff_eq.2 (h.filling_eq b hb)
    obtain ⟨v, hv, rfl⟩ := List.mem_map.1 hb
    exact symbol_ne_pad v (h.value_lt v hv)
  have hread : readUnfilled position (values.map symbol) = .ok octets := by
    rw [readUnfilled, bind_eq_ok_iff]
    exact ⟨values, blockValues_map_symbol position h.value_lt, by simp [h.octetsOf_eq]⟩
  have hlong : ¬(values.map symbol).length < 2 := by
    rw [List.length_map]
    exact Nat.not_lt.2 h.two_le
  rw [Base64.readBlock, hstrip, if_neg hlong, hread]

/-- A block and what follows it are read one after the other. -/
theorem readBlocksAt_append (position : Nat) {block rest octets octets' : Octets}
    (hlength : block.length = 4) (hblock : readBlock position block = .ok octets)
    (hrest : readBlocksAt (position + 4) rest = .ok octets') :
    readBlocksAt position (block ++ rest) = .ok (octets ++ octets') := by
  obtain ⟨a, b, c, d, rfl⟩ : ∃ a b c d, block = [a, b, c, d] := by
    match block, hlength with
    | [a, b, c, d], _ => exact ⟨a, b, c, d, rfl⟩
  show readBlocksAt position (a :: b :: c :: d :: rest) = _
  rw [readBlocksAt, hblock, hrest]
  rfl

/-- The blocks that octets are written as are read as these octets. -/
theorem readBlocks_encode (bs : Octets) : readBlocks (encode bs) = .ok bs := by
  have hall : ∀ position, readBlocksAt position (encode bs) = .ok bs := by
    refine encode_induction (motive := fun octets written ↦ ∀ position,
      readBlocksAt position written = .ok octets) (fun _ ↦ rfl)
      (fun octets values fillings rest hblock _ ih position ↦ ?_) bs
    have hfour := hblock.length_eq
    exact readBlocksAt_append position (by simpa using hfour) (hblock.readBlock position)
      (ih (position + 4))
  rw [readBlocks, if_neg (by simp [length_encode_mod bs]), hall 0]

/-! ### Reading it as one run -/

/-- Symbols of a run are read as their values. -/
theorem valuesAt_map_symbol (position : Nat) {vs : List Nat} (h : ∀ v ∈ vs, v < 64) :
    valuesAt position (vs.map symbol) = .ok vs := by
  induction vs generalizing position with
  | nil => rfl
  | cons v vs ih =>
    rw [List.forall_mem_cons] at h
    rw [List.map_cons, valuesAt, value?_symbol v h.1]
    simp only [ih (position + 1) h.2]
    rfl

/-- Fillings that come after two values at least are counted. -/
theorem lastValues_fillings (position : Nat) {taken : Nat} {fillings : Octets}
    (found : Option (Nat × Nat)) (h : ∀ b ∈ fillings, b = pad) (htaken : 2 ≤ taken) :
    lastValues position taken found fillings =
      .ok ([], (found.map Prod.snd).getD 0 + fillings.length) := by
  induction fillings generalizing taken found with
  | nil => rfl
  | cons b fillings ih =>
    rw [List.forall_mem_cons] at h
    obtain ⟨rfl, h⟩ := h
    rw [lastValues.eq_def]
    simp only [beq_self_eq_true, if_true, Nat.not_lt.2 htaken, if_false]
    rw [ih _ h (Nat.le_succ_of_le htaken)]
    cases found <;> simp [Nat.add_assoc, Nat.add_comm 1]

/-- Symbols with fillings behind them, of which none comes too early. -/
theorem lastValues_append (position : Nat) {taken : Nat} {vs : List Nat} {fillings : Octets}
    (hvs : ∀ v ∈ vs, v < 64) (h : ∀ b ∈ fillings, b = pad) (htaken : 2 ≤ taken + vs.length) :
    lastValues position taken none (vs.map symbol ++ fillings) = .ok (vs, fillings.length) := by
  induction vs generalizing taken with
  | nil =>
    have hfillings := lastValues_fillings position none h (show 2 ≤ taken from htaken)
    simpa using hfillings
  | cons v vs ih =>
    rw [List.forall_mem_cons] at hvs
    have hlonger : 2 ≤ taken + 1 + vs.length := by
      rw [List.length_cons] at htaken
      omega
    have hrest := ih hvs.2 hlonger
    rw [List.map_cons, List.cons_append, lastValues, if_neg (by simp [symbol_ne_pad v hvs.1])]
    simp only [value?_symbol v hvs.1, hrest]
    rfl

/-- The last block of a run is read as the octets that it writes, whatever is asked of its fillings.
-/
theorem IsBlock.readLast {octets fillings : Octets} {values : List Nat}
    (h : IsBlock octets values fillings) (padding : Padding) (position : Nat) :
    readLast padding position (values.map symbol ++ fillings) = .ok octets := by
  have hlength : 2 ≤ 0 + values.length := by simpa using h.two_le
  have hvalues := lastValues_append position h.value_lt h.filling_eq hlength
  rw [Base64.readLast, hvalues, bind_eq_ok_iff]
  refine ⟨_, rfl, ?_⟩
  simp [Nat.not_lt.2 h.two_le, h.length_eq, h.octetsOf_eq]

/-- Octets are written as nothing, or as blocks without fillings and a last block. -/
theorem encode_eq_nil_or_exists (bs : Octets) :
    (bs = [] ∧ encode bs = []) ∨
      ∃ vs octets values fillings, (∀ v ∈ vs, v < 64) ∧ vs.length % 4 = 0 ∧
        IsBlock octets values fillings ∧ bs = octetsOfBlocks vs ++ octets ∧
        encode bs = vs.map symbol ++ (values.map symbol ++ fillings) := by
  refine encode_induction (motive := fun bs written ↦ (bs = [] ∧ written = []) ∨
      ∃ vs octets values fillings, (∀ v ∈ vs, v < 64) ∧ vs.length % 4 = 0 ∧
        IsBlock octets values fillings ∧ bs = octetsOfBlocks vs ++ octets ∧
        written = vs.map symbol ++ (values.map symbol ++ fillings)) (Or.inl ⟨rfl, rfl⟩)
    (fun octets values fillings rest hblock hfilled ih ↦ Or.inr ?_) bs
  obtain ⟨rfl, hrest⟩ | ⟨vs, octets', values', fillings', hvs, hlength, hlast, rfl, hrest⟩ := ih
  · refine ⟨[], octets, values, fillings, by simp, rfl, hblock, List.append_nil octets, ?_⟩
    rw [hrest, List.append_nil]
    rfl
  -- only the last block has fillings, so this one is full
  · obtain rfl : fillings = [] := by
      by_contra hne
      have hnil := congrArg encode (hfilled hne)
      have htwo := hlast.two_le
      rw [hrest] at hnil
      have := congrArg List.length hnil
      simp only [List.length_append, List.length_map, encode, List.length_nil] at this
      omega
    obtain ⟨a, b, c, d, rfl⟩ : ∃ a b c d, values = [a, b, c, d] := by
      match values, hblock.length_eq with
      | [a, b, c, d], _ => exact ⟨a, b, c, d, rfl⟩
    refine ⟨a :: b :: c :: d :: vs, octets', values', fillings', ?_, ?_, hlast, ?_, ?_⟩
    · intro v hv
      rcases List.mem_append.1 (show v ∈ [a, b, c, d] ++ vs from hv) with hv | hv
      · exact hblock.value_lt v hv
      · exact hvs v hv
    · simpa [List.length_cons, Nat.add_assoc] using hlength
    · rw [octetsOfBlocks, hblock.octetsOf_eq, List.append_assoc]
    · rw [hrest]
      rfl

/-- The run that octets are written as is read as these octets. -/
theorem readRun_encode (padding : Padding) (bs : Octets) :
    readRun padding (encode bs) = .ok bs := by
  obtain ⟨rfl, hnil⟩ | ⟨vs, octets, values, fillings, hvs, hlength, hlast, rfl, hwritten⟩ :=
    encode_eq_nil_or_exists bs
  · rw [hnil]
    rfl
  · have hfour : (values.map symbol ++ fillings).length = 4 := by
      rw [List.length_append, List.length_map, hlast.length_eq]
    have hexcess : (vs.map symbol ++ (values.map symbol ++ fillings)).length % 4 = 0 := by
      rw [List.length_append, List.length_map, hfour]
      omega
    have hwhole : (vs.map symbol ++ (values.map symbol ++ fillings)).length - 4 =
        (vs.map symbol).length := by
      rw [List.length_append, hfour, Nat.add_sub_cancel]
    simp only [readRun, hwritten, hexcess, hwhole, if_true, List.take_left, List.drop_left,
      valuesAt_map_symbol 0 hvs, hlast.readLast]
    rfl

end InternetMail.Base64
