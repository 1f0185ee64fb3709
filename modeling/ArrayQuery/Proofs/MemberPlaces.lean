import ArrayQuery.Proofs.Copies
import ArrayQuery.Proofs.Strides
import ArrayQuery.Proofs.TransposedBodies

/-! Where the members of an element lie. The accessors that are written for a chain of members lead to
one place in storage, by the layout rules of the kernel language, and the names of the chain to another
in the memory of the host; copies of arrays carry what is at the one to the other. -/

set_option autoImplicit false
namespace ArrayQuery

open Segment (Carries)
open Kernel (identifier roundUp)

/-! ## Places by the layout rules -/

/-- Where the first member of a name starts, and its type, if what is before the listed ones ends at
`sofar`. Members are in order, each at a multiple of its own alignment. -/
def namedPlace? {τ : Type} (extent? : τ → Option Extent) (name : String) (sofar : Nat) :
    List (String × τ) → Option (Nat × τ)
  | [] => none
  | (member, t) :: rest => do
    let e ← extent? t
    let start := roundUp e.align sofar
    if name = member then some (start, t) else namedPlace? extent? name (start + e.size) rest

/-- Where a path leads to in a whole, and the type of what is there. A step says how far it goes from
where the value before it starts. -/
def pathPlace? {τ σ : Type} (step : τ → σ → Option (Nat × τ)) (whole : τ) (path : List σ) :
    Option (Nat × τ) :=
  path.foldlM (fun reached s => (step reached.2 s).map fun next => (reached.1 + next.1, next.2))
    (0, whole)

theorem pathPlace?_concat {τ σ : Type} {step : τ → σ → Option (Nat × τ)} {whole t u : τ}
    {path : List σ} {s : σ} {start n : Nat} (before : pathPlace? step whole path = some (start, t))
    (last : step t s = some (n, u)) : pathPlace? step whole (path ++ [s]) = some (start + n, u) := by
  unfold pathPlace? at before ⊢
  simp [before, last]

/-- Where a member of a value starts on the host. The components of vectors are packed, and the cells
of matrices too, row by row. -/
def ElementType.memberPlace? : ElementType → String → Option (Nat × ElementType)
  | .leaf l, name =>
    if l.isMatrix then (l.cell? name).map fun cell => (4 * (cell.1 * l.shape.2 + cell.2), .f32)
    else (l.components.idxOf? name).map fun i => (4 * i, .f32)
  | .record _ fields, name => namedPlace? (fun t => some (t.extent .host)) name 0 fields

/-- Where an accessor leads to in a value that is stored on the device. A matrix is an array of its
columns. -/
def Kernel.KernelType.place? (structs : List Kernel.Struct) :
    Kernel.KernelType → Kernel.Access → Option (Nat × Kernel.KernelType)
  | .vector n, .field name =>
    ((Kernel.componentNames.take n).idxOf? name).map fun i => (4 * i, .f32)
  | .matrix columns rows, .cell column row => do
    let e ← Kernel.vectorExtent? rows
    if column < columns ∧ row < rows then some (column * roundUp e.align e.size + 4 * row, .f32)
    else none
  | .struct name, .field member => do
    let s ← structs.find? (·.name == name)
    let extents ← Kernel.structExtents? structs
    namedPlace? (Kernel.KernelType.extent? extents) member 0 s.fields
  | _, _ => none

namespace ElementType

/-- Whether the bytes of a part lie in a whole element, from the given offsets on. -/
def LiesAt (whole : ElementType) (host device : Nat) (part : ElementType) : Prop :=
  ∀ i j, Carries (leafSegments 0 0 part) i j →
    Carries (leafSegments 0 0 whole) (host + i) (device + j)

theorem liesAt_self (t : ElementType) : t.LiesAt 0 0 t := by
  intro i j found
  rwa [Nat.zero_add, Nat.zero_add]

theorem LiesAt.trans {t u v : ElementType} {h d h' d' : Nat} (outer : t.LiesAt h d u)
    (inner : u.LiesAt h' d' v) : t.LiesAt (h + h') (d + d') v := by
  intro i j found
  rw [Nat.add_assoc, Nat.add_assoc]
  exact outer _ _ (inner i j found)

theorem carries_leaf {l : Leaf} {i j : Nat} :
    Carries (leafSegments 0 0 (.leaf l)) i j ↔ i = j ∧ j < (l.extent .host).size := by
  simp only [Carries, leafSegments, List.mem_singleton, exists_eq_left, Nat.zero_add]
  constructor
  · rintro ⟨k, inside, rfl, rfl⟩
    exact ⟨rfl, inside⟩
  · rintro ⟨rfl, inside⟩
    exact ⟨i, inside, rfl, rfl⟩

/-- Four bytes in a leaf, at the same place on both sides, are a number in it. -/
theorem liesAt_number {l : Leaf} {n : Nat} (within : n + 4 ≤ (l.extent .host).size) :
    (leaf l).LiesAt n n .f32 := by
  intro i j found
  obtain ⟨rfl, inside⟩ := carries_leaf.mp found
  have short : i < 4 := inside
  exact carries_leaf.mpr ⟨rfl, by omega⟩

theorem carries_moved {t : ElementType} {i j : Nat} (host device : Nat)
    (found : Carries (leafSegments 0 0 t) i j) :
    Carries (leafSegments host device t) (host + i) (device + j) := by
  obtain ⟨way, l, part, k, inside, rfl, rfl⟩ := carries_iff.mp found
  exact carries_iff.mpr ⟨way, l, part, k, inside, by omega, by omega⟩

end ElementType

namespace Kernel

open Compile ElementType

theorem cell_place {l : Leaf} {name : String} {row column : Nat}
    (cell : l.cell? name = some (row, column)) : ∃ n,
    (ElementType.leaf l).memberPlace? name = some (n, .f32) ∧
    (∀ structs, (KernelType.matrix l.shape.1 l.shape.2).place? structs (.cell row column) =
      some (n, .f32)) ∧
    n + 4 ≤ (l.extent .host).size := by
  obtain ⟨below, below'⟩ := cell_bounds cell
  have each : ∀ l ∈ Leaf.all, ∀ row < l.shape.1, ∀ column < l.shape.2, l.isMatrix = true ∧
      ((vectorExtent? l.shape.2).map fun e => row * roundUp e.align e.size + 4 * column) =
        some (4 * (row * l.shape.2 + column)) ∧
      4 * (row * l.shape.2 + column) + 4 ≤ (l.extent .host).size := by
    decide
  obtain ⟨matrix, place, within⟩ := each l (leaf_mem l) row below column below'
  obtain ⟨e, known, same⟩ := Option.map_eq_some_iff.mp place
  refine ⟨4 * (row * l.shape.2 + column), ?_, fun structs => ?_, within⟩
  · rw [memberPlace?, if_pos matrix, cell, Option.map_some]
  · simp only [KernelType.place?, known, Option.bind_eq_bind, Option.bind_some,
      if_pos (And.intro below below'), same]

theorem component_place {l : Leaf} {name : String} (component : name ∈ l.components) : ∃ n,
    (ElementType.leaf l).memberPlace? name = some (n, .f32) ∧
    (∀ structs, (KernelType.vector l.components.length).place? structs (.field name) =
      some (n, .f32)) ∧
    n + 4 ≤ (l.extent .host).size := by
  have each : ∀ l ∈ Leaf.all, ∀ name ∈ l.components, l.isMatrix = false ∧
      componentNames.take l.components.length = l.components ∧
      ∃ i < 4, l.components.idxOf? name = some i ∧ 4 * i + 4 ≤ (l.extent .host).size := by
    decide
  obtain ⟨vector, names, i, _, index, within⟩ := each l (leaf_mem l) name component
  refine ⟨4 * i, ?_, fun structs => ?_, within⟩
  · rw [memberPlace?, vector, if_neg Bool.false_ne_true, index, Option.map_some]
  · rw [KernelType.place?, names, index, Option.map_some]

theorem field_place {names : RecordNames} {extents : List (String × Extent)}
    {fields : List (String × ElementType)} {members : List (String × KernelType)}
    (held : List.Forall₂ (fun field m => IsMember names field m ∧
      m.2.extent? extents = some (field.2.extent .device)) fields members)
    (distinct : (fields.map fun field => identifier field.1).Nodup) {name : String} {t : ElementType}
    (found : fields.lookup name = some t) (atHost atDevice : Extent) :
    ∃ start goal k, namedPlace? (fun t => some (t.extent .host)) name atHost.size fields =
        some (start, t) ∧
      namedPlace? (KernelType.extent? extents) (identifier name) atDevice.size members =
        some (goal, k) ∧
      names.typeOf t = .ok k ∧
      ∀ i j, Carries (leafSegments 0 0 t) i j →
        Carries (fieldSegments 0 0 atHost atDevice fields) (start + i) (goal + j) := by
  induction held generalizing atHost atDevice with
  | nil => exact nomatch found
  | @cons field m fields members first _ ih =>
    obtain ⟨own, u⟩ := field
    obtain ⟨⟨named, known⟩, extent⟩ := first
    obtain ⟨absent, apart⟩ := List.nodup_cons.mp distinct
    -- Both sides push the same field, so that the induction is over any two extents.
    have onHost := alignUp_eq_roundUp atHost.size (align_pos .host u)
    have onDevice := alignUp_eq_roundUp atDevice.size (align_pos .device u)
    simp only [namedPlace?, extent, Option.bind_eq_bind, Option.bind_some, fieldSegments]
    rw [← onHost, ← onDevice]
    rw [List.lookup_cons] at found
    split at found
    · next same =>
      obtain rfl := Option.some.inj found
      obtain rfl := beq_iff_eq.mp same
      rw [if_pos rfl, if_pos named.symm]
      refine ⟨_, _, m.2, rfl, rfl, known, fun i j carried => ?_⟩
      refine (Segment.carries_append _ _ _ _).mpr (.inl ?_)
      rw [Nat.zero_add, Nat.zero_add]
      exact carries_moved _ _ carried
    · next other =>
      have elsewhere : identifier name ≠ m.1 := fun same =>
        identifier_ne absent found (same.trans named)
      rw [if_neg (beq_eq_false_iff_ne.mp other), if_neg elsewhere]
      obtain ⟨start, goal, k, host, device, type, carried⟩ :=
        ih apart found (atHost.push (u.extent .host)) (atDevice.push (u.extent .device))
      refine ⟨start, goal, k, host, device, type, fun i j inside => ?_⟩
      exact (Segment.carries_append _ _ _ _).mpr (.inr (carried i j inside))

/-- Whether the fields of the records in a type have different identifiers. -/
def HasDistinctMembers (t : ElementType) : Prop :=
  ∀ r ∈ t.records, (r.fields.map fun field => identifier field.1).Nodup

instance (t : ElementType) : Decidable (HasDistinctMembers t) :=
  inferInstanceAs (Decidable (∀ r ∈ t.records, _))

theorem HasDistinctMembers.field {name : String} {fields : List (String × ElementType)}
    (distinct : HasDistinctMembers (.record name fields)) {field : String} {t : ElementType}
    (found : fields.lookup field = some t) : HasDistinctMembers t := by
  have inside : (field, t) ∈ fields := mem_of_lookup found
  have recorded : ∀ r ∈ t.records, r ∈ ElementType.recordsIn fields := by
    clear distinct found
    induction fields with
    | nil => exact absurd inside List.not_mem_nil
    | cons first rest ih =>
      intro r member
      rcases List.mem_cons.mp inside with rfl | later
      · exact List.mem_append_left _ member
      · exact List.mem_append_right _ (ih later r member)
  exact fun r member => distinct r (List.mem_cons_of_mem _ (recorded r member))

theorem Arranged.struct_members {d : Draft} (arranged : Arranged d) {r : RecordType} {name : String}
    (known : d.records.get? r = some name) :
    ∃ s, d.structs.find? (·.name == name) = some s ∧
      List.Forall₂ (fun field m => IsMember d.records field m ∧
        m.2.extent? d.records.extents = some (field.2.extent .device)) r.fields s.fields := by
  obtain ⟨s, member, rfl, held⟩ := arranged.declares known
  have spellable := (isSpellable_record r.name r.fields).mp
    (arranged.arranged.spellable _ (RecordNames.get_assigned known))
  refine ⟨s, ?_, ?_⟩
  · rw [← List.head?_filter, filter_named arranged.structs_nodup member, List.head?_cons]
  · have each := (List.forall₂_and_left r.fields s.fields).mpr ⟨fun _ => id, held⟩
    refine each.imp fun field m ⟨inside, typed⟩ => ⟨typed, arranged.stored_extent ?_⟩
    rw [RecordNames.storageOf, if_neg (spellable field inside).1, typed.2]

theorem member_place {d : Draft} (arranged : Arranged d) {t u : ElementType} {k : KernelType}
    (known : d.records.typeOf t = .ok k) (distinct : HasDistinctMembers t) {name : String}
    {a : Access} (accessed : accessOf t name = some a) (found : t.member? name = some u) :
    ∃ start goal l, t.memberPlace? name = some (start, u) ∧
      k.place? d.structs a = some (goal, l) ∧ d.records.typeOf u = .ok l ∧
      HasDistinctMembers u ∧ t.LiesAt start goal u := by
  cases t with
  | leaf l =>
    have leaf := RecordNames.typeOf_leaf_ok.mp known
    obtain rfl := member?_leaf found
    have none : HasDistinctMembers .f32 := fun _ member => absurd member List.not_mem_nil
    rcases accessOf_leaf accessed with ⟨row, column, cell, rfl⟩ | ⟨component, rfl⟩
    · obtain ⟨n, host, device, within⟩ := cell_place cell
      -- Only matrices have cells, which tells the kernel's type.
      have matrix : ∀ l ∈ Leaf.all, 0 < l.shape.1 → l.isMatrix = true := by decide
      obtain rfl := matrix_shape
        (matrix l (leaf_mem l) (Nat.zero_lt_of_lt (cell_bounds cell).1)) leaf
      exact ⟨n, n, .f32, host, device d.structs, rfl, none, liesAt_number within⟩
    · obtain ⟨n, host, device, within⟩ := component_place component
      have vector : ∀ l ∈ Leaf.all, l.components ≠ [] →
          ofLeaf l = some (.vector l.components.length) := by
        decide
      obtain rfl := Option.some.inj
        ((vector l (leaf_mem l) (List.ne_nil_of_mem component)).symm.trans leaf)
      exact ⟨n, n, .f32, host, device d.structs, rfl, none, liesAt_number within⟩
  | record n fields =>
    obtain ⟨struct, named, rfl⟩ := RecordNames.typeOf_record_ok.mp known
    have inside : fields.lookup name = some u := found
    obtain ⟨s, declared, held⟩ := arranged.struct_members named
    obtain ⟨start, goal, k, host, device, typed, carried⟩ :=
      field_place held (distinct _ List.mem_cons_self) inside ⟨0, 1⟩ ⟨0, 1⟩
    obtain rfl := Option.some.inj ((accessOf_field inside).symm.trans accessed)
    refine ⟨start, goal, k, host, ?_, typed, distinct.field inside, carried⟩
    simp only [KernelType.place?, declared, arranged.structExtents, Option.bind_eq_bind,
      Option.bind_some, device]

/-- Whether a chain of names leads from a value of a type to a part, and by which accessors. -/
inductive Leads (t : ElementType) : List String → List Access → ElementType → Prop where
  | here : Leads t [] [] t
  | on {names : List String} {suffix : List Access} {u v : ElementType} {name : String} {a : Access}
      (before : Leads t names suffix u) (accessed : accessOf u name = some a)
      (found : u.member? name = some v) : Leads t (names ++ [name]) (suffix ++ [a]) v

theorem Leads.type {t u : ElementType} {names : List String} {suffix : List Access}
    (leads : Leads t names suffix u) : names.foldlM ElementType.member? t = some u := by
  induction leads with
  | here => rfl
  | on _ _ found ih => simp [List.foldlM_append, ih, found]

theorem Leads.place {d : Draft} (arranged : Arranged d) {t u : ElementType} {k : KernelType}
    (known : d.records.typeOf t = .ok k) (distinct : HasDistinctMembers t) {names : List String}
    {suffix : List Access} (leads : Leads t names suffix u) :
    ∃ start goal l, pathPlace? ElementType.memberPlace? t names = some (start, u) ∧
      pathPlace? (KernelType.place? d.structs) k suffix = some (goal, l) ∧
      d.records.typeOf u = .ok l ∧ HasDistinctMembers u ∧ t.LiesAt start goal u := by
  induction leads with
  | here => exact ⟨0, 0, k, rfl, rfl, known, distinct, liesAt_self t⟩
  | on _ accessed found ih =>
    obtain ⟨start, goal, l, host, device, typed, inner, lies⟩ := ih
    obtain ⟨m, n, l', host', device', typed', inner', lies'⟩ :=
      member_place arranged typed inner accessed found
    exact ⟨start + m, goal + n, l', pathPlace?_concat host host', pathPlace?_concat device device',
      typed', inner', lies.trans lies'⟩

end Kernel

def Expr.chain (e : Expr) (members : List (String × ElementType)) : Expr :=
  members.foldl (fun e m => .member e m.1 m.2) e

theorem Expr.chain_concat (e : Expr) (members : List (String × ElementType))
    (m : String × ElementType) : e.chain (members ++ [m]) = .member (e.chain members) m.1 m.2 :=
  List.foldl_concat _ _ _ _

namespace Kernel

open Compile ElementType

def Term.accessAll (e : Term) (suffix : List Access) : Term :=
  suffix.foldl .access e

theorem Term.text_accessAll (e : Term) (suffix : List Access) :
    (e.accessAll suffix).text = e.text ++ String.join (suffix.map Access.text) := by
  induction suffix generalizing e with
  | nil => simp [accessAll]
  | cons a rest ih =>
    rw [accessAll, List.foldl_cons, List.map_cons, String.join_cons, ← String.append_assoc]
    exact ih (.access e a)

theorem isPlace_chain (p : Parameter) (members : List (String × ElementType)) :
    isPlace ((Expr.parameter p).chain members) = true := by
  induction members using List.reverseRecOn with
  | nil => rfl
  | append_singleton members m _ =>
    rw [Expr.chain_concat]
    rfl

theorem chainType_leads {node : Expr} {p : Parameter} {members : List (String × ElementType)}
    {d e : Draft} {t : ElementType}
    (run : chainType node ((Expr.parameter p).chain members) d = .ok (t, e)) :
    (members.map Prod.fst).foldlM ElementType.member? p.type = some t := by
  induction members using List.reverseRecOn generalizing t e with
  | nil =>
    obtain ⟨rfl, _⟩ := pure_ok.mp run
    rfl
  | append_singleton members m ih =>
    rw [Expr.chain_concat] at run
    obtain ⟨container, a, c, chain, followed⟩ := chainType_member_ok run
    obtain ⟨_, found, _⟩ := follow_ok followed
    simp [List.foldlM_append, ih chain, found]

theorem translate_leads {scope : Scope} {p : Parameter} {members : List (String × ElementType)}
    {d f : Draft} {term : Term}
    (run : translate scope ((Expr.parameter p).chain members) d = .ok (term, f)) :
    ∃ o suffix t, scope.lookup p.name = some o ∧ term = o.term.accessAll suffix ∧
      Leads p.type (members.map Prod.fst) suffix t := by
  induction members using List.reverseRecOn generalizing d f term with
  | nil =>
    obtain ⟨o, found, rfl, _⟩ := translate_parameter_ok run
    exact ⟨o, [], p.type, found, rfl, .here⟩
  | append_singleton members m ih =>
    rw [Expr.chain_concat] at run
    obtain ⟨container, a, t, b, c, inner, chain, followed, inside, rfl⟩ := translate_member_ok run
    obtain ⟨o, suffix, u, found, rfl, leads⟩ := ih inside
    obtain rfl := Option.some.inj (leads.type.symm.trans (chainType_leads chain))
    obtain ⟨accessed, typed, _⟩ := follow_ok followed
    refine ⟨o, suffix ++ [a], t, found, ?_, ?_⟩
    · rw [if_pos (isPlace_chain p members), Term.accessAll, Term.accessAll, List.foldl_concat]
    · rw [List.map_append]
      exact leads.on accessed typed

end Kernel

/-! ## Copies of members -/

/-- Whether copies of arrays to the device put a part, which starts at `start` in every element on the
host, to `goal` in every element on the device. Each leaf of the part goes to where the device has it in
the part; a part without fields is a leaf, and goes there in one piece. -/
def ElementType.PutsAt (t : ElementType) (start goal : Nat) (part : ElementType) : Prop :=
  ∀ (count : Nat) (host device : Slice), count * t.hostStride ≤ host.bytes.length →
    count * t.deviceStride ≤ device.bytes.length →
    ∃ image, (Layout.of t).hostToDevice count host.bytes device.bytes = some image ∧
      ∀ e < count, ∀ way l, part.part? way = some (.leaf l) → ∀ i < (l.extent .host).size,
        image[e * t.deviceStride + (goal + (part.offset .device way + i))]? =
          host.bytes[e * t.hostStride + (start + (part.offset .host way + i))]?

theorem ElementType.LiesAt.puts {t part : ElementType} {start goal : Nat}
    (lies : t.LiesAt start goal part) : t.PutsAt start goal part := by
  intro count host device readable writable
  obtain ⟨image, copied, spec⟩ := Layout.hostToDevice_copied t count (Slice.counted readable)
    host.bytes device.bytes readable writable
  refine ⟨image, copied, fun e bound way l leaf i inside => ?_⟩
  have carried : Carries (leafSegments 0 0 part) (part.offset .host way + i)
      (part.offset .device way + i) :=
    carries_iff.mpr ⟨way, l, leaf, i, inside, by omega, by omega⟩
  apply spec.carried e bound
  exact (Segment.merge_carries _ _ _).mpr (lies _ _ carried)

namespace Kernel

open Compile ElementType

/-- The accessors that stand for a chain of members on a parameter lead to where the member is put when
an array of the type of the parameter is copied to the device. So they do in every kernel that has a type
for the values of the parameter, whatever else it declares. -/
theorem translate_member_place {scope : Scope} {p : Parameter}
    {members : List (String × ElementType)} {d e f : Draft} {term : Term} {k : KernelType}
    (distinct : HasDistinctMembers p.type)
    (run : translate scope ((Expr.parameter p).chain members) d = .ok (term, e))
    (arranged : Arranged f) (known : f.records.typeOf p.type = .ok k) :
    ∃ o suffix start goal part l, scope.lookup p.name = some o ∧
      term = o.term.accessAll suffix ∧
      term.text = o.term.text ++ String.join (suffix.map Access.text) ∧
      pathPlace? ElementType.memberPlace? p.type (members.map Prod.fst) = some (start, part) ∧
      pathPlace? (KernelType.place? f.structs) k suffix = some (goal, l) ∧
      f.records.typeOf part = .ok l ∧ p.type.PutsAt start goal part := by
  obtain ⟨o, suffix, part, found, rfl, leads⟩ := translate_leads run
  obtain ⟨start, goal, l, host, device, typed, _, lies⟩ := leads.place arranged known distinct
  exact ⟨o, suffix, start, goal, part, l, found, rfl, o.term.text_accessAll suffix, host, device, typed,
    lies.puts⟩

def spotRecord : RecordType := ⟨"Spot", [("tag", .f32), ("place", .vector3)]⟩

def markerRecord : RecordType := ⟨"Marker", [("weight", .f32), ("spot", spotRecord.type)]⟩

def markerDraft : Draft where
  records := ⟨[(spotRecord, "spot"), (markerRecord, "marker")]⟩
  structs := [⟨"spot", [("tag", .f32), ("place", .vector 3)]⟩,
    ⟨"marker", [("weight", .f32), ("spot", .struct "spot")]⟩]

theorem markerDraft_arranged : Arranged markerDraft where
  distinct := by
    refine ⟨?_, by decide⟩
    have each : ∀ name ∈ ["spot", "marker"], isWord name = true ∧ isTaken name.toList = false := by
      decide
    exact each
  structs := by
    refine .cons ⟨rfl, ?_⟩ (.cons ⟨rfl, ?_⟩ .nil)
    · exact .cons ⟨by decide, rfl⟩ (.cons ⟨by decide, rfl⟩ .nil)
    · exact .cons ⟨by decide, rfl⟩ (.cons ⟨by decide, rfl⟩ .nil)
  storage _ member := absurd member List.not_mem_nil
  steps _ member := absurd member List.not_mem_nil
  arranged := by
    refine ⟨by decide, by decide, ?_⟩
    have inner : ∀ field ∈ markerRecord.fields, field.2.record?.all (· = spotRecord) = true := by
      decide
    have none : ∀ field ∈ spotRecord.fields, field.2.record? = none := by decide
    rintro (_ | _ | j) r found field member s same
    · obtain rfl := Option.some.inj found
      have plain := none field member
      rw [same] at plain
      exact nomatch plain
    · obtain rfl := Option.some.inj found
      have only := inner field member
      rw [same] at only
      exact ⟨0, Nat.zero_lt_one, congrArg some (of_decide_eq_true only).symm⟩
    · exact nomatch found

/-- The second number of the vector is at 12 on the host. -/
theorem translate_member_place_marker : ∃ term e suffix goal l,
    HasDistinctMembers markerRecord.type ∧
    translate [("m", ⟨.buffer 0, markerRecord.type⟩)]
      ((Expr.parameter ⟨"m", markerRecord.type⟩).chain
        [("spot", spotRecord.type), ("place", .vector3), ("y", .f32)]) markerDraft = .ok (term, e) ∧
    Arranged markerDraft ∧ markerDraft.records.typeOf markerRecord.type = .ok (.struct "marker") ∧
    term = (Operand.term ⟨.buffer 0, markerRecord.type⟩).accessAll suffix ∧
    term.text = "buf0[gid.x].spot.place.y" ∧
    pathPlace? (KernelType.place? markerDraft.structs) (.struct "marker") suffix = some (goal, l) ∧
    markerRecord.type.PutsAt 12 goal .f32 := by
  have run : translate [("m", ⟨.buffer 0, markerRecord.type⟩)]
      ((Expr.parameter ⟨"m", markerRecord.type⟩).chain
        [("spot", spotRecord.type), ("place", .vector3), ("y", .f32)]) markerDraft = .ok (_, _) := rfl
  obtain ⟨o, suffix, start, goal, part, l, found, same, _, host, device, _, puts⟩ :=
    translate_member_place (k := .struct "marker") (by decide) run markerDraft_arranged rfl
  obtain rfl := Option.some.inj found
  obtain ⟨rfl, rfl⟩ := Prod.mk.inj (Option.some.inj host)
  exact ⟨_, _, suffix, goal, l, by decide, run, markerDraft_arranged, rfl, same, by decide, device, puts⟩

example : pathPlace? (KernelType.place? markerDraft.structs) (.struct "marker")
    [.field "spot", .field "place", .field "y"] = some (36, .f32) := rfl

/-- A record is not put anywhere in one piece: the vector of a spot is at 4 in it on the host, and at 16
on the device. -/
theorem member_in_pieces : ∃ term e image,
    (∀ l ∈ markerRecord.type.leaves, l ≠ .bool ∧ l ≠ .f64) ∧ HasDistinctMembers markerRecord.type ∧
    translate [("m", ⟨.buffer 0, markerRecord.type⟩)]
      ((Expr.parameter ⟨"m", markerRecord.type⟩).chain [("spot", spotRecord.type)]) markerDraft =
        .ok (term, e) ∧
    Arranged markerDraft ∧ markerDraft.records.typeOf markerRecord.type = .ok (.struct "marker") ∧
    term = (Operand.term ⟨.buffer 0, markerRecord.type⟩).accessAll [.field "spot"] ∧
    pathPlace? ElementType.memberPlace? markerRecord.type ["spot"] = some (4, spotRecord.type) ∧
    pathPlace? (KernelType.place? markerDraft.structs) (.struct "marker") [.field "spot"] =
      some (16, .struct "spot") ∧
    (Layout.of markerRecord.type).hostToDevice 1 ((List.range 20).map UInt8.ofNat)
      (List.replicate 48 0) = some image ∧
    ¬∀ i < spotRecord.type.hostStride,
      image[0 * markerRecord.type.deviceStride + (16 + i)]? =
        ((List.range 20).map UInt8.ofNat)[0 * markerRecord.type.hostStride + (4 + i)]? := by
  have copied : (Layout.of markerRecord.type).hostToDevice 1 ((List.range 20).map UInt8.ofNat)
      (List.replicate 48 0) = some _ := rfl
  have run : translate [("m", ⟨.buffer 0, markerRecord.type⟩)]
      ((Expr.parameter ⟨"m", markerRecord.type⟩).chain [("spot", spotRecord.type)]) markerDraft =
        .ok (_, _) := rfl
  refine ⟨_, _, _, by decide, by decide, run, markerDraft_arranged, rfl, rfl, rfl, rfl, copied, ?_⟩
  intro each
  exact absurd (each 4 (by decide)) (by decide)

end Kernel
end ArrayQuery
