import InternetMail.Flags.Basic
import InternetMail.Proofs.Entries
import Mathlib.Data.Finset.Basic
import Mathlib.Data.Fintype.Basic
import Mathlib.Data.List.Sort

/-!
# Flags as a set of bits and a map

What a set of flags comes to is a set of bits, and for each lower-case name that is there the
spelling it is shown in (`Flags.View`). Adding flags is union, taking flags away is difference, and
retaining replaces the bits and restricts the names (`view_add`, `view_remove`, `view_retain`).

A script says how a set of flags is made from nothing, with sets that are made in the same way as
operands. The flags of the user are kept without any order, so that a script may yield one of many
lists of them: `Script.Yields` lets each step leave them in whatever order. There is always one
(`Script.exists_yields`), and all of them have the view that the script has
(`Script.Yields.refines`).

Bits are kept as a machine word and seen as a set of positions, which is where union, difference and
inclusion are the familiar ones (`toFinset_union`, `toFinset_diff`, `contains_iff`). Taking flags
away goes by a complement, and that stays inside the flags with a name, so `toFinset_diff` needs
what was there to have had one (`IsDeclared`). Every set that a script makes has only such bits.

The spelling of a name is not part of what a set of flags is: two sets are equal if their bits and
their names are, in whatever spelling (`beq_iff`), and equal sets have equal keys to be hashed by
(`key_eq_of_beq`).
-/

namespace InternetMail

/-! ### Bits -/

namespace SystemFlags

/-- The bits of the set, by their position. -/
def toFinset (a : SystemFlags) : Finset (Fin 32) :=
  Finset.univ.filter fun i ↦ a.bits.toBitVec.getLsbD i

/-- All flags of the set have a name. -/
def IsDeclared (a : SystemFlags) : Prop :=
  all.contains a = true

variable {a b : SystemFlags}

@[simp]
theorem mem_toFinset {i : Fin 32} : i ∈ a.toFinset ↔ a.bits.toBitVec.getLsbD i = true := by
  simp [toFinset]

/-- A set of flags is told by its bits. -/
theorem toFinset_inj : a.toFinset = b.toFinset ↔ a = b := by
  refine ⟨fun h ↦ ?_, congrArg toFinset⟩
  have hbits : a.bits.toBitVec = b.bits.toBitVec := by
    refine BitVec.eq_of_getLsbD_eq fun i hi ↦ Bool.eq_iff_iff.2 ?_
    rw [← mem_toFinset (a := a) (i := ⟨i, hi⟩), h, mem_toFinset]
  obtain ⟨x⟩ := a
  obtain ⟨y⟩ := b
  exact congrArg mk (UInt32.toBitVec_inj.1 hbits)

@[simp]
theorem toFinset_empty : empty.toFinset = ∅ := by
  decide

@[simp]
theorem toFinset_union (a b : SystemFlags) : (a.union b).toFinset = a.toFinset ∪ b.toFinset := by
  ext i
  simp [union]

theorem toFinset_inter (a b : SystemFlags) :
    toFinset ⟨a.bits &&& b.bits⟩ = a.toFinset ∩ b.toFinset := by
  ext i
  simp

/-- To contain a set is to have all of its bits. -/
theorem contains_iff : a.contains b = true ↔ b.toFinset ⊆ a.toFinset := by
  rw [← Finset.inter_eq_right, ← toFinset_inter, toFinset_inj, contains, beq_iff_eq]
  exact ⟨congrArg mk, congrArg bits⟩

/-- To meet a set is to have one of its bits. -/
theorem meets_iff : a.meets b = true ↔ ∃ i ∈ b.toFinset, i ∈ a.toFinset := by
  have hempty : a.meets b = true ↔ (⟨a.bits &&& b.bits⟩ : SystemFlags) ≠ empty := by
    rw [meets, bne_iff_ne, Ne, Ne, empty, mk.injEq]
  rw [hempty, Ne, ← toFinset_inj, toFinset_inter, toFinset_empty, ← Ne,
    ← Finset.nonempty_iff_ne_empty, Finset.inter_comm]
  simp only [Finset.Nonempty, Finset.mem_inter]

/-- Difference is by the complement among all flags with a name, so that bits without one would be
lost with it. There are none. -/
theorem toFinset_diff (ha : a.IsDeclared) : (a.diff b).toFinset = a.toFinset \ b.toFinset := by
  ext i
  have hall : i ∈ a.toFinset → i ∈ all.toFinset := fun hi ↦ contains_iff.1 ha hi
  simp [diff] at hall ⊢
  tauto

theorem isDeclared_empty : empty.IsDeclared :=
  rfl

/-- No bit without a name comes in by union. -/
theorem IsDeclared.union (ha : a.IsDeclared) (hb : b.IsDeclared) : (a.union b).IsDeclared := by
  rw [IsDeclared, contains_iff] at ha hb ⊢
  rw [toFinset_union]
  exact Finset.union_subset ha hb

theorem IsDeclared.diff (ha : a.IsDeclared) : (a.diff b).IsDeclared := by
  have hdiff := toFinset_diff (b := b) ha
  rw [IsDeclared, contains_iff] at ha ⊢
  rw [hdiff]
  exact Finset.sdiff_subset.trans ha

end SystemFlags

namespace Flags

/-! ### Views -/

/-- A set of bits, and the spelling of each name that is there, by its lower case. -/
@[ext]
structure View where
  system : Finset (Fin 32)
  user : Text → Option Text

namespace View

/-- The names that are there. -/
def keys (v : View) : Set Text :=
  {k | (v.user k).isSome = true}

/-- Nothing. -/
def empty : View := ⟨∅, fun _ ↦ none⟩

/-- Both together, with the spelling of the second for a name of both. -/
def union (v w : View) : View :=
  ⟨v.system ∪ w.system, fun k ↦ (w.user k).or (v.user k)⟩

/-- What is in the first alone. -/
def diff (v w : View) : View :=
  ⟨v.system \ w.system, fun k ↦ if (w.user k).isSome then none else v.user k⟩

/-- The bits of the second, and of the names of the first those that are in the second. -/
def restrict (v w : View) : View :=
  ⟨w.system, fun k ↦ if (w.user k).isSome then v.user k else none⟩

/-- One name in a spelling. -/
def single (key spelling : Text) : View :=
  ⟨∅, fun k ↦ if k = key then some spelling else none⟩

/-- Where both have a name, the spelling is that of the second, which was added later. -/
theorem user_union (v w : View) (k : Text) : (v.union w).user k = (w.user k).or (v.user k) :=
  rfl

theorem user_single (key spelling k : Text) :
    (single key spelling).user k = if k = key then some spelling else none :=
  rfl

/-- What is left of a difference is spelled as before. -/
theorem user_of_diff {v w : View} {k spelling : Text} (h : (v.diff w).user k = some spelling) :
    v.user k = some spelling := by
  simp only [diff] at h
  split at h
  · cases h
  · exact h

/-- So is what is left of a restriction. -/
theorem user_of_restrict {v w : View} {k spelling : Text}
    (h : (v.restrict w).user k = some spelling) : v.user k = some spelling := by
  simp only [restrict] at h
  split at h
  · exact h
  · cases h

/-- The names that are left of a restriction are those of both. -/
theorem keys_restrict (v w : View) : (v.restrict w).keys = v.keys ∩ w.keys := by
  ext k
  simp only [keys, restrict, Set.mem_ofPred_eq, Set.mem_inter_iff]
  cases (w.user k).isSome <;> simp

end View

/-- What the flags come to. -/
def view (f : Flags) : View :=
  ⟨f.system.toFinset, fun k ↦ f.user.lookup k⟩

/-- What an operand comes to. -/
def operandView : FlagOperand → View
  | .system flags => ⟨flags.toFinset, fun _ ↦ none⟩
  | .user name => .single (Text.lower name) name
  | .set g => g.view

/-- All system flags have a name, and each name of the user stands once, under its lower case. -/
structure IsOrderly (f : Flags) : Prop where
  declared : f.system.IsDeclared
  nodup : f.user.keys.Nodup
  keyed : ∀ e ∈ f.user, e.1 = Text.lower e.2

/-- What an operand would add is orderly. -/
def OperandIsOrderly : FlagOperand → Prop
  | .system flags => flags.IsDeclared
  | .user _ => True
  | .set g => g.IsOrderly

variable {f g : Flags}

theorem isOrderly_empty : empty.IsOrderly :=
  ⟨SystemFlags.isDeclared_empty, List.nodup_nil, by simp [empty]⟩

/-- The names that are there are the keys of the map. -/
theorem mem_keys_view {k : Text} : k ∈ f.view.keys ↔ k ∈ f.user.keys :=
  Entries.isSome_lookup_iff

/-! ### Operations -/

/-- **Adding is union**, and the spelling is that of the flags that were added. -/
theorem view_add (f : Flags) (o : FlagOperand) (ho : OperandIsOrderly o) :
    (f.add o).view = f.view.union (operandView o) := by
  cases o with
  | system flags => simp [view, add, View.union, operandView]
  | user name =>
    ext k
    · simp [view, add, View.union, operandView, View.single]
    · simp only [view, add, View.union, operandView, View.single]
      by_cases hk : k = Text.lower name
      · simp [hk]
      · simp [hk, Entries.lookup_put_of_ne hk]
  | set g =>
    simp only [view, add, View.union, operandView, SystemFlags.toFinset_union,
      Entries.lookup_foldl_put (IsOrderly.nodup ho)]

/-- Adding keeps one entry for each name and no bit without a name. -/
theorem IsOrderly.add (hf : f.IsOrderly) (o : FlagOperand) (ho : OperandIsOrderly o) :
    (f.add o).IsOrderly := by
  cases o with
  | system flags => exact ⟨hf.declared.union ho, hf.nodup, hf.keyed⟩
  | user name =>
    refine ⟨hf.declared, Entries.nodup_keys_put hf.nodup, fun e he ↦ ?_⟩
    rcases Entries.mem_put he with rfl | he
    · rfl
    · exact hf.keyed e he
  | set g =>
    have hg : g.IsOrderly := ho
    refine ⟨hf.declared.union hg.declared, Entries.nodup_keys_foldl_put hf.nodup, fun e he ↦ ?_⟩
    exact (Entries.mem_foldl_put he).elim (hg.keyed e) (hf.keyed e)

/-- Names are filtered in the order in which they stand. -/
theorem IsOrderly.filter (hf : f.IsOrderly) {system : SystemFlags} (hsystem : system.IsDeclared)
    (p : Text × Text → Bool) : IsOrderly ⟨system, f.user.filter p⟩ :=
  ⟨hsystem, Entries.nodup_keys_filter p hf.nodup, fun e he ↦ hf.keyed e (List.mem_filter.1 he).1⟩

/-- **Removing is difference**. What is removed need not be there. -/
theorem view_remove (hf : f.IsOrderly) (o : FlagOperand) :
    (f.remove o).view = f.view.diff (operandView o) := by
  cases o with
  | system flags =>
    rw [view, remove, SystemFlags.toFinset_diff hf.declared]
    simp [view, View.diff, operandView]
  | user name =>
    ext k
    · simp [view, remove, View.diff, operandView, View.single]
    · simp only [view, remove, View.diff, operandView, View.single]
      by_cases hk : k = Text.lower name
      · simp [hk]
      · simp [hk, Entries.lookup_remove_of_ne hk]
  | set g =>
    ext k
    · simp [view, remove, View.diff, operandView, SystemFlags.toFinset_diff hf.declared]
    · have hlookup : (f.remove (.set g)).view.user k =
          if !g.hasKey k then f.user.lookup k else none :=
        Entries.lookup_filter_key (!g.hasKey ·) k f.user
      have hdiff : (f.view.diff (operandView (.set g))).user k =
          if g.hasKey k then none else f.user.lookup k := rfl
      rw [hlookup, hdiff]
      cases g.hasKey k <;> rfl

/-- Removing makes no name stand twice. -/
theorem IsOrderly.remove (hf : f.IsOrderly) (o : FlagOperand) : (f.remove o).IsOrderly := by
  cases o with
  | system flags => exact ⟨hf.declared.diff, hf.nodup, hf.keyed⟩
  | user name => exact hf.filter hf.declared _
  | set g => exact hf.filter hf.declared.diff _

/-- **Retaining takes the bits of the other set**, and keeps the names of both as they were spelled.
-/
theorem view_retain (f g : Flags) : (f.retain g).view = f.view.restrict g.view := by
  simp only [view, retain, View.restrict, View.mk.injEq, true_and,
    Entries.lookup_filter_key (g.hasKey ·)]
  rfl

/-- Retaining keeps both, as the bits come from a set that has only bits with a name. -/
theorem IsOrderly.retain (hf : f.IsOrderly) (hg : g.IsOrderly) : (f.retain g).IsOrderly :=
  hf.filter hg.declared _

/-- Names that stand in another order come to the same. -/
theorem view_reorder (hf : f.IsOrderly) {user : Entries Text Text} (h : f.user.Perm user) :
    view ⟨f.system, user⟩ = f.view := by
  simp only [view, Entries.lookup_perm hf.nodup h]

/-- The order of the names does not matter for that. -/
theorem IsOrderly.reorder (hf : f.IsOrderly) {user : Entries Text Text} (h : f.user.Perm user) :
    IsOrderly ⟨f.system, user⟩ :=
  ⟨hf.declared, (h.map Prod.fst).nodup_iff.1 hf.nodup, fun e he ↦ hf.keyed e (h.mem_iff.2 he)⟩

/-! ### Questions -/

/-- For system flags one bit of them is enough. -/
theorem contains_system_iff (f : Flags) (flags : SystemFlags) :
    f.contains (.system flags) = true ↔ ∃ i ∈ flags.toFinset, i ∈ f.view.system :=
  SystemFlags.meets_iff

/-- A name is looked up by its lower case. -/
theorem contains_user_iff (f : Flags) (name : Text) :
    f.contains (.user name) = true ↔ Text.lower name ∈ f.view.keys :=
  Iff.rfl

/-- For a set of flags all of them have to be there. -/
theorem contains_set_iff (f g : Flags) : f.contains (.set g) = true ↔
    g.view.system ⊆ f.view.system ∧ g.view.keys ⊆ f.view.keys := by
  rw [contains, Bool.and_eq_true, SystemFlags.contains_iff, List.all_eq_true]
  exact and_congr_right fun _ ↦
    ⟨fun h k hk ↦ h k (mem_keys_view.1 hk), fun h k hk ↦ h (mem_keys_view.2 hk)⟩

/-- A name of the user is shown as the view spells it. -/
theorem mem_userNames_iff (hf : f.IsOrderly) {name : Text} :
    name ∈ f.userNames ↔ f.view.user (Text.lower name) = some name := by
  rw [userNames, List.mem_mergeSort, List.mem_map]
  constructor
  · rintro ⟨e, he, rfl⟩
    rw [← hf.keyed e he]
    exact Entries.lookup_of_mem hf.nodup he
  · exact fun h ↦ ⟨_, Entries.mem_of_lookup h, rfl⟩

/-- Retaining changes something just if the bits or the names are others afterwards. -/
theorem isChangedByRetain_iff (f g : Flags) : f.isChangedByRetain g = true ↔
    (f.retain g).view.system ≠ f.view.system ∨ (f.retain g).view.keys ≠ f.view.keys := by
  have hsystem : f.system ≠ g.system ↔ (f.retain g).view.system ≠ f.view.system := by
    rw [ne_comm]
    exact SystemFlags.toFinset_inj.not.symm
  have hkeys : f.user.length = (f.retain g).user.length ↔
      (f.retain g).view.keys = f.view.keys := by
    rw [view_retain, View.keys_restrict, Set.inter_eq_left, eq_comm, retain,
      List.length_filter_eq_length_iff]
    constructor
    · intro h k hk
      obtain ⟨e, he, rfl⟩ := List.mem_map.1 (mem_keys_view.1 hk)
      exact h e he
    · exact fun h e he ↦ h (mem_keys_view.2 (List.mem_map_of_mem he))
  rw [isChangedByRetain, Bool.or_eq_true, bne_iff_ne, bne_iff_ne, hsystem, Ne, Ne, Ne, hkeys]

/-- The names of two sets are the same in some order exactly if they are the same, since none stands
twice. -/
theorem perm_keys_iff (hf : f.IsOrderly) (hg : g.IsOrderly) :
    f.user.keys.Perm g.user.keys ↔ f.view.keys = g.view.keys := by
  rw [List.perm_ext_iff_of_nodup hf.nodup hg.nodup, Set.ext_iff]
  simp only [mem_keys_view]

/-- Two sets are equal if they have the same bits and the same names, and the spelling is not looked
at. -/
theorem beq_iff (hf : f.IsOrderly) (hg : g.IsOrderly) : (f == g) = true ↔
    f.view.system = g.view.system ∧ f.view.keys = g.view.keys := by
  have hbeq : (f == g) = (f.system == g.system && f.user.length == g.user.length &&
    f.user.keys.all g.hasKey) := rfl
  rw [hbeq, Bool.and_eq_true, Bool.and_eq_true, beq_iff_eq, beq_iff_eq, List.all_eq_true, and_assoc]
  refine and_congr SystemFlags.toFinset_inj.symm ?_
  rw [← perm_keys_iff hf hg]
  constructor
  · rintro ⟨hlength, hall⟩
    exact Entries.perm_keys_of_subset hf.nodup
      (fun k hk ↦ Entries.isSome_lookup_iff.1 (hall k hk)) hlength
  · intro hperm
    refine ⟨by simpa [Entries.keys] using hperm.length_eq, fun k hk ↦ ?_⟩
    exact Entries.isSome_lookup_iff.2 (hperm.mem_iff.1 hk)

/-- Texts in any order are sorted in one way. -/
theorem mergeSort_eq_of_perm {ts us : List Text} (h : ts.Perm us) :
    ts.mergeSort (fun a b ↦ (compare a b).isLE) = us.mergeSort fun a b ↦ (compare a b).isLE := by
  have htotal : ∀ a b : Text, ((compare a b).isLE || (compare b a).isLE) = true := by
    intro a b
    rw [Std.OrientedOrd.eq_swap (a := b) (b := a)]
    cases compare a b <;> rfl
  have hsorted : ∀ ts : List Text, (ts.mergeSort fun a b ↦ (compare a b).isLE).Pairwise
      fun a b ↦ (compare a b).isLE = true :=
    List.pairwise_mergeSort (fun _ _ _ ↦ Std.TransCmp.isLE_trans) htotal
  refine List.Perm.eq_of_pairwise (fun a b _ _ hab hba ↦ ?_) (hsorted ts) (hsorted us) ?_
  · exact Std.LawfulEqCmp.eq_of_compare (Std.OrientedCmp.isLE_antisymm hab hba)
  · exact (List.mergeSort_perm ts _).trans (h.trans (List.mergeSort_perm us _).symm)

/-- Sets that are equal are told apart by nothing. -/
theorem key_eq_of_beq (hf : f.IsOrderly) (hg : g.IsOrderly) (h : (f == g) = true) :
    f.key = g.key := by
  obtain ⟨hsystem, hkeys⟩ := (beq_iff hf hg).1 h
  rw [key, key, mergeSort_eq_of_perm ((perm_keys_iff hf hg).2 hkeys),
    SystemFlags.toFinset_inj.1 hsystem]

/-! ### Scripts -/

/-- How a set of flags is made. -/
inductive Script
  | new
  | addSystem (s : Script) (flags : SystemFlags)
  | addUser (s : Script) (name : Text)
  | addSet (s t : Script)
  | removeSystem (s : Script) (flags : SystemFlags)
  | removeUser (s : Script) (name : Text)
  | removeSet (s t : Script)
  | retain (s t : Script)
  | clearSystem (s : Script)
  | clearUser (s : Script)

namespace Script

/-- What a script comes to. -/
def view : Script → View
  | new => .empty
  | addSystem s flags => s.view.union (operandView (.system flags))
  | addUser s name => s.view.union (operandView (.user name))
  | addSet s t => s.view.union t.view
  | removeSystem s flags => s.view.diff (operandView (.system flags))
  | removeUser s name => s.view.diff (operandView (.user name))
  | removeSet s t => s.view.diff t.view
  | retain s t => s.view.restrict t.view
  | clearSystem s => ⟨∅, s.view.user⟩
  | clearUser s => ⟨s.view.system, fun _ ↦ none⟩

/-- The spelling in which a name was added last, if it ever was. -/
def lastAdded : Script → Text → Option Text
  | new, _ => none
  | addUser s name, k => if k = Text.lower name then some name else s.lastAdded k
  | addSet s t, k => (t.view.user k).or (s.lastAdded k)
  | addSystem s _, k | removeSystem s _, k | removeUser s _, k | removeSet s _, k | retain s _, k
  | clearSystem s, k | clearUser s, k => s.lastAdded k

/-- The script may make these flags. Each step may leave the names of the user in any order. -/
inductive Yields : Script → Flags → Prop
  | new : Yields .new .empty
  | addSystem {s f flags} : Yields s f → SystemFlags.IsDeclared flags →
      Yields (.addSystem s flags) (f.add (.system flags))
  | addUser {s f} (name : Text) : Yields s f → Yields (.addUser s name) (f.add (.user name))
  | addSet {s t f g} : Yields s f → Yields t g → Yields (.addSet s t) (f.add (.set g))
  | removeSystem {s f} (flags : SystemFlags) : Yields s f →
      Yields (.removeSystem s flags) (f.remove (.system flags))
  | removeUser {s f} (name : Text) : Yields s f →
      Yields (.removeUser s name) (f.remove (.user name))
  | removeSet {s t f g} : Yields s f → Yields t g → Yields (.removeSet s t) (f.remove (.set g))
  | retain {s t f g} : Yields s f → Yields t g → Yields (.retain s t) (f.retain g)
  | clearSystem {s f} : Yields s f → Yields (.clearSystem s) f.clearSystem
  | clearUser {s f} : Yields s f → Yields (.clearUser s) f.clearUser
  | reorder {s f user} : Yields s f → f.user.Perm user → Yields s ⟨f.system, user⟩

/-- All system flags that the script adds have a name. -/
def IsDeclared : Script → Prop
  | new => True
  | addSystem s flags => s.IsDeclared ∧ flags.IsDeclared
  | addSet s t | removeSet s t | retain s t => s.IsDeclared ∧ t.IsDeclared
  | addUser s _ | removeSystem s _ | removeUser s _ | clearSystem s | clearUser s => s.IsDeclared

/-- A script that adds such flags alone makes something. -/
theorem exists_yields {s : Script} (h : s.IsDeclared) : ∃ f, s.Yields f := by
  induction s with
  | new => exact ⟨_, .new⟩
  | addSystem s flags ih => exact (ih h.1).imp' _ fun _ hf ↦ .addSystem hf h.2
  | addUser s name ih => exact (ih h).imp' _ fun _ hf ↦ .addUser name hf
  | removeSystem s flags ih => exact (ih h).imp' _ fun _ hf ↦ .removeSystem flags hf
  | removeUser s name ih => exact (ih h).imp' _ fun _ hf ↦ .removeUser name hf
  | clearSystem s ih => exact (ih h).imp' _ fun _ hf ↦ .clearSystem hf
  | clearUser s ih => exact (ih h).imp' _ fun _ hf ↦ .clearUser hf
  | addSet s t ihs iht =>
    obtain ⟨g, hg⟩ := iht h.2
    exact (ihs h.1).imp' _ fun _ hf ↦ .addSet hf hg
  | removeSet s t ihs iht =>
    obtain ⟨g, hg⟩ := iht h.2
    exact (ihs h.1).imp' _ fun _ hf ↦ .removeSet hf hg
  | retain s t ihs iht =>
    obtain ⟨g, hg⟩ := iht h.2
    exact (ihs h.1).imp' _ fun _ hf ↦ .retain hf hg

/-- What a script makes comes to what the script does, in whatever order. -/
theorem Yields.view_eq {s : Script} {f : Flags} (h : s.Yields f) :
    f.IsOrderly ∧ f.view = s.view := by
  induction h with
  | new => exact ⟨isOrderly_empty, by simp [Flags.view, Flags.empty, view, View.empty]⟩
  | @addSystem _ _ flags _ hflags ih =>
    obtain ⟨hf, heq⟩ := ih
    exact ⟨hf.add (.system flags) hflags, by rw [view_add _ (.system flags) hflags, heq, view]⟩
  | addUser name _ ih =>
    obtain ⟨hf, heq⟩ := ih
    exact ⟨hf.add (.user name) trivial, by rw [view_add _ (.user name) trivial, heq, view]⟩
  | @addSet _ _ _ g _ _ ihf ihg =>
    obtain ⟨hf, hfeq⟩ := ihf
    obtain ⟨hg, hgeq⟩ := ihg
    exact ⟨hf.add (.set g) hg, by rw [view_add _ (.set g) hg, operandView, hfeq, hgeq, view]⟩
  | removeSystem flags _ ih =>
    obtain ⟨hf, heq⟩ := ih
    exact ⟨hf.remove _, by rw [view_remove hf, heq, view]⟩
  | removeUser name _ ih =>
    obtain ⟨hf, heq⟩ := ih
    exact ⟨hf.remove _, by rw [view_remove hf, heq, view]⟩
  | removeSet _ _ ihf ihg =>
    obtain ⟨hf, hfeq⟩ := ihf
    exact ⟨hf.remove _, by rw [view_remove hf, operandView, hfeq, ihg.2, view]⟩
  | retain _ _ ihf ihg =>
    exact ⟨ihf.1.retain ihg.1, by rw [view_retain, ihf.2, ihg.2, view]⟩
  | clearSystem _ ih =>
    obtain ⟨hf, heq⟩ := ih
    refine ⟨⟨SystemFlags.isDeclared_empty, hf.nodup, hf.keyed⟩, ?_⟩
    rw [view, ← heq]
    simp [Flags.view, Flags.clearSystem]
  | clearUser _ ih =>
    obtain ⟨hf, heq⟩ := ih
    refine ⟨⟨hf.declared, List.nodup_nil, by simp [Flags.clearUser]⟩, ?_⟩
    rw [view, ← heq]
    simp [Flags.view, Flags.clearUser]
  | reorder _ hperm ih =>
    exact ⟨ih.1.reorder hperm, by rw [view_reorder ih.1 hperm, ih.2]⟩

/-- A name that is there is spelled as it was added last. -/
theorem lastAdded_of_view {s : Script} {k spelling : Text} (h : s.view.user k = some spelling) :
    s.lastAdded k = some spelling := by
  induction s with
  | new => cases h
  | addSystem s flags ih => exact ih h
  | addUser s name ih =>
    rw [view, View.user_union, operandView, View.user_single] at h
    rw [lastAdded]
    by_cases hk : k = Text.lower name
    · rw [if_pos hk] at h ⊢
      exact h
    · rw [if_neg hk] at h ⊢
      exact ih h
  | addSet s t ihs iht =>
    rw [lastAdded, Option.or_eq_some_iff]
    exact (Option.or_eq_some_iff.1 h).imp_right fun hs ↦ ⟨hs.1, ihs hs.2⟩
  | removeSystem s flags ih => exact ih (View.user_of_diff h)
  | removeUser s name ih => exact ih (View.user_of_diff h)
  | removeSet s t ihs iht => exact ihs (View.user_of_diff h)
  | retain s t ihs iht => exact ihs (View.user_of_restrict h)
  | clearSystem s ih => exact ih h
  | clearUser s ih => cases h

/-! ### Main statement -/

/-- **Flags are a set of bits and a map.** Whatever a script makes, in whatever order the names of
the user stand at each step, comes to what the script does by union, difference, replacement and
restriction. System flags are contained if one of their bits is there, a name if it is there in
lower case, and a set of flags if its bits and its names are all there. Retaining says whether the
bits or the names are others afterwards. Two sets are equal if their bits and their names are, and
nothing tells them apart then. A name is shown as it was spelled when it was added last. -/
theorem Yields.refines {s : Script} {f : Flags} (hf : s.Yields f) :
    f.view = s.view ∧
    (∀ flags, f.contains (.system flags) = true ↔ ∃ i ∈ flags.toFinset, i ∈ s.view.system) ∧
    (∀ name, f.contains (.user name) = true ↔ Text.lower name ∈ s.view.keys) ∧
    (∀ name, name ∈ f.userNames ↔ s.view.user (Text.lower name) = some name) ∧
    (∀ k spelling, s.view.user k = some spelling →
      k = Text.lower spelling ∧ s.lastAdded k = some spelling) ∧
    ∀ t g, Yields t g →
      (f.contains (.set g) = true ↔
        t.view.system ⊆ s.view.system ∧ t.view.keys ⊆ s.view.keys) ∧
      (f.isChangedByRetain g = true ↔
        (Script.retain s t).view.system ≠ s.view.system ∨
          (Script.retain s t).view.keys ≠ s.view.keys) ∧
      ((f == g) = true ↔ s.view.system = t.view.system ∧ s.view.keys = t.view.keys) ∧
      ((f == g) = true → f.key = g.key) := by
  obtain ⟨hforderly, hfview⟩ := hf.view_eq
  rw [← hfview]
  refine ⟨rfl, contains_system_iff f, contains_user_iff f, fun name ↦ mem_userNames_iff hforderly,
    fun k spelling hk ↦ ⟨hforderly.keyed _ (Entries.mem_of_lookup hk), ?_⟩, fun t g hg ↦ ?_⟩
  · rw [hfview] at hk
    exact lastAdded_of_view hk
  · obtain ⟨hgorderly, hgview⟩ := hg.view_eq
    rw [← (hf.retain hg).view_eq.2, ← hgview]
    exact ⟨contains_set_iff f g, isChangedByRetain_iff f g, beq_iff hforderly hgorderly,
      key_eq_of_beq hforderly hgorderly⟩

/-- Two scripts that spell their names differently and add them in a different order. -/
theorem Yields.refines_two_spellings :
    ∃ (s t : Script) (f g : Flags),
      s = (((Script.new.addSystem .seen).addUser "Work".toList).addUser "$Junk".toList).addSet
        (Script.new.addUser "WORK".toList) ∧
      t = ((Script.new.addUser "$JUNK".toList).addUser "work".toList).addSystem .seen ∧
      s.Yields f ∧ t.Yields g ∧ "WORK".toList ∈ f.userNames ∧
      s.lastAdded "work".toList = some "WORK".toList ∧
      f.contains (.set g) = true ∧ f.isChangedByRetain g = false ∧ f.key = g.key := by
  have hseen : SystemFlags.IsDeclared .seen := rfl
  have hs := (((Yields.new.addSystem hseen).addUser "Work".toList).addUser "$Junk".toList).addSet
    (Yields.new.addUser "WORK".toList)
  have ht := ((Yields.new.addUser "$JUNK".toList).addUser "work".toList).addSystem hseen
  obtain ⟨-, -, -, hnames, hspelled, hboth⟩ := hs.refines
  obtain ⟨-, -, -, hkey⟩ := hboth _ _ ht
  refine ⟨_, _, _, _, rfl, rfl, hs, ht, (hnames _).2 ?_, (hspelled _ _ ?_).2, ?_, ?_, hkey ?_⟩
  · decide +kernel
  · decide +kernel
  · decide +kernel
  · decide +kernel
  · decide +kernel

end Script

end Flags

end InternetMail
