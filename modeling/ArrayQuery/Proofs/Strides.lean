import ArrayQuery.Proofs.Segments
import ArrayQuery.Proofs.Structs
import Mathlib.Data.List.Forall2

/-! The stride of an array in a storage buffer, by the layout rules of the kernel language. It comes to
the device stride of the elements, with the structs that the kernel declares for their records. -/

set_option autoImplicit false
namespace ArrayQuery

namespace Kernel

def roundUp (k n : Nat) : Nat :=
  (n + k - 1) / k * k

/-- Three components are aligned like four, but take no more than their own bytes. -/
def vectorExtent? : Nat → Option Extent
  | 2 => some ⟨8, 8⟩
  | 3 => some ⟨12, 16⟩
  | 4 => some ⟨16, 16⟩
  | _ => none

/-- The extent of a type in storage, where the structs have the given ones. Truth values cannot be
stored, and a matrix is an array of its columns. -/
def KernelType.extent? (structs : List (String × Extent)) : KernelType → Option Extent
  | bool => none
  | i32 | u32 | f32 => some ⟨4, 4⟩
  | vector n => vectorExtent? n
  | matrix columns rows =>
    (vectorExtent? rows).map fun e => ⟨columns * roundUp e.align e.size, e.align⟩
  | struct name => structs.lookup name

def membersExtent? (structs : List (String × Extent)) (sofar : Extent) :
    List (String × KernelType) → Option Extent
  | [] => some sofar
  | (_, k) :: rest => do
    let e ← k.extent? structs
    membersExtent? structs ⟨roundUp e.align sofar.size + e.size, max sofar.align e.align⟩ rest

def Struct.extent? (structs : List (String × Extent)) (s : Struct) : Option Extent :=
  (membersExtent? structs ⟨0, 1⟩ s.fields).map fun e => ⟨roundUp e.align e.size, e.align⟩

def structExtents? (structs : List Struct) : Option (List (String × Extent)) :=
  structs.foldlM (fun known s => do return known ++ [(s.name, ← s.extent? known)]) []

def KernelType.stride? (structs : List (String × Extent)) (k : KernelType) : Option Nat :=
  (k.extent? structs).map fun e => roundUp e.align e.size

def Program.stride? (p : Program) : Option Nat := do
  p.storage.stride? (← structExtents? p.structs)

end Kernel

open Kernel

theorem roundUp_eq {k n q : Nat} (above : q * k < n + k) (below : n ≤ q * k) : roundUp k n = q * k := by
  have first : q * k ≤ n + k - 1 := by omega
  have last : n + k - 1 < (q + 1) * k := by
    rw [Nat.succ_mul]
    omega
  unfold roundUp
  rw [Nat.div_eq_of_lt_le first last]

theorem roundUp_mul (k q : Nat) : roundUp k (q * k) = q * k := by
  cases k with
  | zero => rfl
  | succ k => exact roundUp_eq (by omega) le_rfl

theorem alignUp_eq_roundUp (n : Nat) {k : Nat} (positive : 0 < k) : alignUp n k = roundUp k n := by
  have whole := Nat.div_add_mod' n k
  have rest := Nat.mod_lt n positive
  unfold alignUp
  rw [if_neg positive.ne']
  split
  · next even =>
    rw [even, Nat.add_zero] at whole
    rw [← whole, roundUp_mul]
  · next odd =>
    have multiple : n + (k - n % k) = (n / k + 1) * k := by
      rw [Nat.succ_mul]
      omega
    rw [multiple, roundUp_eq]
    · rw [Nat.succ_mul]
      omega
    · omega

namespace ElementType

theorem align_le_extentFrom (side : Side) (sofar : Extent) (fields : List (String × ElementType)) :
    sofar.align ≤ (extentFrom side sofar fields).align := by
  induction fields generalizing sofar with
  | nil => exact le_rfl
  | cons field rest ih => exact (le_max_left _ _).trans (ih (sofar.push (field.2.extent side)))

theorem align_pos (side : Side) (t : ElementType) : 0 < (t.extent side).align := by
  cases t with
  | leaf l => cases side <;> cases l <;> decide
  | record name fields => exact align_le_extentFrom side ⟨0, 1⟩ fields

mutual
theorem size_pos (side : Side) : ∀ t : ElementType, t.leaves ≠ [] → 0 < (t.extent side).size
  | .leaf l, _ => by cases side <;> cases l <;> decide
  | .record _ fields, nonempty => by
    have inner := sizeFrom_pos side ⟨0, 1⟩ fields nonempty
    exact inner.trans_le (le_alignUp _ _)

theorem sizeFrom_pos (side : Side) (sofar : Extent) : ∀ fields : List (String × ElementType),
    leavesIn fields ≠ [] → 0 < (extentFrom side sofar fields).size
  | [], nonempty => absurd rfl nonempty
  | (_, t) :: rest, nonempty => by
    by_cases own : t.leaves = []
    · refine sizeFrom_pos side _ rest fun none => nonempty ?_
      rw [leavesIn, own, none, List.append_nil]
    · have first := size_pos side t own
      have pushed : 0 < (sofar.push (t.extent side)).size := Nat.add_pos_right _ first
      exact pushed.trans_le (size_le_extentFrom side _ rest)
end

theorem extent_record (side : Side) (name : String) (fields : List (String × ElementType)) :
    (record name fields).extent side =
      ⟨roundUp (extentFrom side ⟨0, 1⟩ fields).align (extentFrom side ⟨0, 1⟩ fields).size,
        (extentFrom side ⟨0, 1⟩ fields).align⟩ := by
  rw [extent, Extent.close, alignUp_eq_roundUp _ (align_le_extentFrom side ⟨0, 1⟩ fields)]

/-- The device strides follow the rule for arrays, though those of leaves are computed otherwise. -/
theorem deviceStride_eq (t : ElementType) :
    t.deviceStride = roundUp (t.extent .device).align (t.extent .device).size := by
  cases t with
  | leaf l => cases l <;> decide +kernel
  | record name fields =>
    rw [deviceStride, extent_record]
    exact (roundUp_mul _ _).symm

theorem deviceStride_pos {t : ElementType} (nonempty : t.leaves ≠ []) : 0 < t.deviceStride :=
  (size_pos .device t nonempty).trans_le (device_size_le_stride t)

end ElementType

/-! ## Structs -/

namespace Kernel

open ElementType

theorem leaf_extent {structs : List (String × Extent)} {l : Leaf} {k : KernelType}
    (spelled : ofLeaf l = some k) (plain : l ≠ .bool) :
    k.extent? structs = some (l.extent .device) := by
  cases l with
  | bool => exact absurd rfl plain
  | f64 => exact nomatch spelled
  | _ =>
    cases spelled
    rfl

theorem membersExtent_eq {structs : List (String × Extent)} {fields : List (String × ElementType)}
    {members : List (String × KernelType)} (sofar : Extent)
    (each : List.Forall₂ (fun field m => m.2.extent? structs = some (field.2.extent .device))
      fields members) :
    membersExtent? structs sofar members = some (extentFrom .device sofar fields) := by
  induction each generalizing sofar with
  | nil => rfl
  | @cons field m fields members first rest ih =>
    have placed := alignUp_eq_roundUp sofar.size (align_pos .device field.2)
    rw [extentFrom, membersExtent?, first, Option.bind_eq_bind, Option.bind_some, ih, Extent.push,
      placed]

theorem lookup_of_mem {β : Type} {entries : List (String × β)} {name : String} {b : β}
    (distinct : (entries.map Prod.fst).Nodup) (member : (name, b) ∈ entries) :
    entries.lookup name = some b := by
  obtain ⟨before, after, rfl⟩ := List.append_of_mem member
  refine List.lookup_eq_some_iff.mpr ⟨before, after, rfl, fun entry held => ?_⟩
  rw [List.map_append, List.map_cons] at distinct
  have apart := (List.nodup_append.mp distinct).2.2 _ (List.mem_map_of_mem held) name List.mem_cons_self
  exact bne_iff_ne.mpr apart.symm

def RecordNames.extents (names : RecordNames) : List (String × Extent) :=
  names.assigned.map fun named => (named.2, named.1.type.extent .device)

theorem RecordNames.extents_distinct {names : RecordNames} (distinct : names.Distinct) :
    (names.extents.map Prod.fst).Nodup := by
  rw [extents, List.map_map]
  exact distinct.nodup

theorem RecordNames.getElem?_extents {names : RecordNames} {i : Nat} {r : RecordType} {name : String}
    (found : names.assigned[i]? = some (r, name)) :
    names.extents[i]? = some (name, r.type.extent .device) := by
  rw [extents, List.getElem?_map, found]
  rfl

section Declared

variable {d : Draft} (arranged : Arranged d)
include arranged

theorem Arranged.lookup_extents {i j : Nat} {r : RecordType} {name : String}
    (found : d.records.assigned[i]? = some (r, name)) (before : i < j) :
    (d.records.extents.take j).lookup name = some (r.type.extent .device) := by
  have distinct := RecordNames.extents_distinct arranged.distinct
  have sublist : ((d.records.extents.take j).map Prod.fst).Sublist (d.records.extents.map Prod.fst) :=
    (List.take_sublist j _).map Prod.fst
  have place : (d.records.extents.take j)[i]? = some (name, r.type.extent .device) := by
    rw [List.getElem?_take_of_lt before, RecordNames.getElem?_extents found]
  exact lookup_of_mem (sublist.nodup distinct) (List.mem_of_getElem? place)

theorem Arranged.extent {j : Nat} {r : RecordType} {name : String} {s : Struct}
    (found : d.records.assigned[j]? = some (r, name)) (declares : Declares d.records (r, name) s) :
    s.extent? (d.records.extents.take j) = some (r.type.extent .device) := by
  have placed : d.records.assigned[j]?.map Prod.fst = some r := by
    rw [found]
    rfl
  have spellable := (isSpellable_record r.name r.fields).mp
    (arranged.arranged.spellable _ (List.mem_of_getElem? found))
  have each : List.Forall₂ (fun field m =>
      m.2.extent? (d.records.extents.take j) = some (field.2.extent .device)) r.fields s.fields := by
    have held := (List.forall₂_and_left r.fields s.fields).mpr ⟨fun _ => id, declares.members⟩
    refine held.imp fun field m ⟨member, _, known⟩ => ?_
    obtain ⟨field, t⟩ := field
    cases t with
    | leaf l =>
      refine leaf_extent (RecordNames.typeOf_leaf_ok.mp known) ?_
      rintro rfl
      exact (spellable _ member).1 rfl
    | record n fields =>
      -- A record among the fields has been declared before this one.
      obtain ⟨inner, named, same⟩ := RecordNames.typeOf_record_ok.mp known
      obtain ⟨i, before, entry⟩ :=
        arranged.named_before (arranged.declaresAt placed) member rfl named
      rw [same]
      exact arranged.lookup_extents entry before
  rw [Struct.extent?, membersExtent_eq ⟨0, 1⟩ each, Option.map_some, RecordType.type, extent_record]

theorem Arranged.structExtents_take {j : Nat} (within : j ≤ d.structs.length) :
    structExtents? (d.structs.take j) = some (d.records.extents.take j) := by
  induction j with
  | zero => rfl
  | succ j ih =>
    have place := List.getElem?_eq_getElem (Nat.lt_of_succ_le within)
    obtain ⟨⟨r, name⟩, found, declares⟩ := getElem?_forall₂ arranged.structs.flip place
    have known := ih (Nat.le_of_succ_le within)
    unfold structExtents? at known ⊢
    rw [List.take_add_one, List.take_add_one, place, RecordNames.getElem?_extents found,
      List.foldlM_append, known]
    simp [arranged.extent found declares, declares.name]

/-- The structs come to what the device has laid out for their records. -/
theorem Arranged.structExtents : structExtents? d.structs = some d.records.extents := by
  have counted := arranged.structs.length_eq
  have whole := arranged.structExtents_take le_rfl
  rwa [List.take_length, ← counted, List.take_of_length_le] at whole
  exact (List.length_map _).le

theorem Arranged.stored_extent {t : ElementType} {k : KernelType}
    (stored : d.records.storageOf t = .ok k) :
    k.extent? d.records.extents = some (t.extent .device) := by
  unfold RecordNames.storageOf at stored
  split at stored
  · next truth =>
    cases stored
    rw [truth]
    rfl
  · next plain =>
    cases t with
    | leaf l => exact leaf_extent (RecordNames.typeOf_leaf_ok.mp stored) fun same => plain (same ▸ rfl)
    | record n fields =>
      obtain ⟨name, named, rfl⟩ := RecordNames.typeOf_record_ok.mp stored
      obtain ⟨i, place⟩ := List.getElem?_of_mem (RecordNames.get_assigned named)
      have within : i < d.records.extents.length := by
        rw [RecordNames.extents, List.length_map]
        exact (List.getElem?_eq_some_iff.mp place).1
      have found := arranged.lookup_extents place within
      rwa [List.take_length] at found

end Declared

theorem compile_stride {root : Expr} {workgroupSize : Nat} {p : Program} (faithful : root.Faithful)
    (compiled : compile workgroupSize root = .ok p) : p.stride? = some root.type.deviceStride := by
  obtain ⟨_, d, _, _, arranged, _, stored, structs, _, _⟩ := compile_arranged faithful compiled
  rw [Program.stride?, structs, arranged.structExtents, Option.bind_eq_bind, Option.bind_some,
    KernelType.stride?, arranged.stored_extent stored, Option.map_some, deviceStride_eq]

end Kernel
end ArrayQuery
