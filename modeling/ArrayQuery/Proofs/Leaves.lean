import ArrayQuery.Proofs.Segments

/-! The leaves of a type by the way to them, which says the place of a field in the record, and so on
inwards. The segments of a type are its leaves, in the order of the fields, and on neither side do two of
them overlap. -/

set_option autoImplicit false
namespace ArrayQuery

namespace ElementType

/-- What stands at the end of a way into a type. -/
def part? : ElementType → List Nat → Option ElementType
  | t, [] => some t
  | .leaf _, _ :: _ => none
  | .record _ fields, k :: way => fields[k]?.bind fun field => field.2.part? way

mutual
def offset (side : Side) : ElementType → List Nat → Nat
  | .leaf _, _ => 0
  | .record _ fields, way => offsetFrom side ⟨0, 1⟩ fields way

def offsetFrom (side : Side) (sofar : Extent) : List (String × ElementType) → List Nat → Nat
  | (_, t) :: _, 0 :: way => alignUp sofar.size (t.extent side).align + t.offset side way
  | (_, t) :: rest, (k + 1) :: way => offsetFrom side (sofar.push (t.extent side)) rest (k :: way)
  | _, _ => 0
end

def further : List Nat → List Nat
  | [] => []
  | k :: way => (k + 1) :: way

mutual
/-- The leaves of a type with the ways to them, in the order of the fields. -/
def leafWays : ElementType → List (List Nat × Leaf)
  | .leaf l => [([], l)]
  | .record _ fields => leafWaysIn fields

def leafWaysIn : List (String × ElementType) → List (List Nat × Leaf)
  | [] => []
  | (_, t) :: rest =>
    t.leafWays.map (fun p => (0 :: p.1, p.2)) ++ (leafWaysIn rest).map fun p => (further p.1, p.2)
end

theorem offsetFrom_further (side : Side) (sofar : Extent) (name : String) (t : ElementType)
    (rest : List (String × ElementType)) (way : List Nat) :
    offsetFrom side sofar ((name, t) :: rest) (further way) =
      offsetFrom side (sofar.push (t.extent side)) rest way := by
  cases way with
  | nil => cases rest <;> rfl
  | cons k way => rfl

mutual
theorem mem_leafWays : ∀ (t : ElementType) (way : List Nat) (l : Leaf),
    (way, l) ∈ t.leafWays ↔ t.part? way = some (.leaf l)
  | .leaf m, [], l => by simp [leafWays, part?, eq_comm]
  | .leaf m, k :: way, l => by simp [leafWays, part?]
  | .record name fields, [], l => by simp [leafWays, mem_leafWaysIn fields, part?]
  | .record name fields, k :: way, l => by
    rw [leafWays, mem_leafWaysIn fields, part?]
    constructor
    · rintro ⟨_, _, same, found⟩
      obtain ⟨rfl, rfl⟩ := List.cons.inj same
      exact found
    · exact fun found => ⟨k, way, rfl, found⟩

theorem mem_leafWaysIn : ∀ (fields : List (String × ElementType)) (way : List Nat) (l : Leaf),
    (way, l) ∈ leafWaysIn fields ↔ ∃ k rest, way = k :: rest ∧
      (fields[k]?.bind fun field => field.2.part? rest) = some (.leaf l)
  | [], way, l => by simp [leafWaysIn]
  | (name, t) :: fields, way, l => by
    have first := mem_leafWays t
    have others := mem_leafWaysIn fields
    rw [leafWaysIn, List.mem_append]
    simp only [List.mem_map, Prod.exists, Prod.mk.injEq]
    constructor
    · rintro (⟨rest, _, member, rfl, rfl⟩ | ⟨inner, _, member, rfl, rfl⟩)
      · exact ⟨0, rest, rfl, (first _ _).mp member⟩
      · obtain ⟨k, rest, rfl, found⟩ := (others _ _).mp member
        exact ⟨k + 1, rest, rfl, found⟩
    · rintro ⟨k | k, rest, rfl, found⟩
      · exact .inl ⟨rest, l, (first _ _).mpr found, rfl, rfl⟩
      · exact .inr ⟨k :: rest, l, (others _ _).mpr ⟨k, rest, rfl, found⟩, rfl, rfl⟩
end

theorem leafWaysIn_ne_nil {fields : List (String × ElementType)} {p : List Nat × Leaf}
    (member : p ∈ leafWaysIn fields) : ∃ k way, p.1 = k :: way := by
  obtain ⟨k, rest, same, _⟩ := (mem_leafWaysIn fields p.1 p.2).mp member
  exact ⟨k, rest, same⟩

mutual
/-- The leaves come in the order of the fields: of two ways the first one turns to an earlier field
where they part. -/
theorem leafWays_ordered : ∀ t : ElementType, t.leafWays.Pairwise fun p q => p.1 < q.1
  | .leaf _ => List.pairwise_singleton _ _
  | .record _ fields => leafWaysIn_ordered fields

theorem leafWaysIn_ordered : ∀ fields : List (String × ElementType),
    (leafWaysIn fields).Pairwise fun p q => p.1 < q.1
  | [] => .nil
  | (name, t) :: fields => by
    rw [leafWaysIn, List.pairwise_append]
    refine ⟨?_, ?_, ?_⟩
    · refine List.pairwise_map.mpr ((leafWays_ordered t).imp ?_)
      exact fun before => List.cons_lt_cons_iff.mpr (.inr ⟨rfl, before⟩)
    · refine List.pairwise_map.mpr ((leafWaysIn_ordered fields).imp_of_mem ?_)
      intro p q hp hq before
      obtain ⟨k, way, hk⟩ := leafWaysIn_ne_nil hp
      obtain ⟨m, way', hm⟩ := leafWaysIn_ne_nil hq
      rw [hk, hm] at before ⊢
      refine List.cons_lt_cons_iff.mpr ?_
      exact (List.cons_lt_cons_iff.mp before).imp Nat.succ_lt_succ fun same => ⟨by rw [same.1], same.2⟩
    · intro p first q later
      -- Ways into the first field start with zero, and ways into later ones do not.
      obtain ⟨_, _, rfl⟩ := List.mem_map.mp first
      obtain ⟨r, member, rfl⟩ := List.mem_map.mp later
      obtain ⟨k, way, hk⟩ := leafWaysIn_ne_nil member
      rw [hk]
      exact List.cons_lt_cons_iff.mpr (.inl (Nat.succ_pos k))
end

def leafSegment (t : ElementType) (host device : Nat) (p : List Nat × Leaf) : Segment :=
  ⟨host + t.offset .host p.1, device + t.offset .device p.1, (p.2.extent .host).size⟩

mutual
theorem leafSegments_eq (host device : Nat) : ∀ t : ElementType,
    leafSegments host device t = t.leafWays.map (t.leafSegment host device)
  | .leaf l => rfl
  | .record name fields => by
    rw [leafSegments, fieldSegments_eq host device ⟨0, 1⟩ ⟨0, 1⟩ fields]
    rfl

theorem fieldSegments_eq (host device : Nat) (atHost atDevice : Extent) :
    ∀ fields : List (String × ElementType),
    fieldSegments host device atHost atDevice fields = (leafWaysIn fields).map fun p =>
      ⟨host + offsetFrom .host atHost fields p.1, device + offsetFrom .device atDevice fields p.1,
        (p.2.extent .host).size⟩
  | [] => rfl
  | (name, t) :: fields => by
    rw [fieldSegments, leafSegments_eq _ _ t, fieldSegments_eq _ _ _ _ fields, leafWaysIn,
      List.map_append, List.map_map, List.map_map]
    congr 1
    · refine List.map_congr_left fun p _ => ?_
      simp only [leafSegment, Function.comp_apply, offsetFrom, Nat.add_assoc]
    · refine List.map_congr_left fun p _ => ?_
      simp only [Function.comp_apply, offsetFrom_further]
end

mutual
theorem leafWays_apart (side : Side) : ∀ t : ElementType,
    t.leafWays.Pairwise (fun p q =>
      t.offset side p.1 + (p.2.extent side).size ≤ t.offset side q.1) ∧
    ∀ p ∈ t.leafWays, t.offset side p.1 + (p.2.extent side).size ≤ (t.extent side).size
  | .leaf l => by
    refine ⟨List.pairwise_singleton _ _, fun p member => ?_⟩
    obtain rfl := List.mem_singleton.mp member
    exact Nat.le_of_eq (Nat.zero_add _)
  | .record name fields => by
    obtain ⟨apart, within⟩ := leafWaysIn_apart side ⟨0, 1⟩ fields
    refine ⟨apart, fun p member => Nat.le_trans (within p member).2 (le_alignUp _ _)⟩

theorem leafWaysIn_apart (side : Side) (sofar : Extent) : ∀ fields : List (String × ElementType),
    (leafWaysIn fields).Pairwise (fun p q =>
      offsetFrom side sofar fields p.1 + (p.2.extent side).size ≤
        offsetFrom side sofar fields q.1) ∧
    ∀ p ∈ leafWaysIn fields, sofar.size ≤ offsetFrom side sofar fields p.1 ∧
      offsetFrom side sofar fields p.1 + (p.2.extent side).size ≤
        (extentFrom side sofar fields).size
  | [] => ⟨.nil, fun _ member => absurd member List.not_mem_nil⟩
  | (name, t) :: fields => by
    obtain ⟨firstApart, firstWithin⟩ := leafWays_apart side t
    obtain ⟨restApart, restWithin⟩ := leafWaysIn_apart side (sofar.push (t.extent side)) fields
    -- The first field starts behind what was there, and what follows starts where it ends.
    have start := le_alignUp sofar.size (t.extent side).align
    have last := size_le_extentFrom side (sofar.push (t.extent side)) fields
    simp only [Extent.push] at restWithin last
    rw [leafWaysIn, List.pairwise_append, List.forall_mem_append, List.pairwise_map,
      List.pairwise_map]
    simp only [List.forall_mem_map, offsetFrom_further, offsetFrom, extentFrom, Extent.push]
    refine ⟨⟨?_, restApart, ?_⟩, ?_, ?_⟩
    · exact firstApart.imp fun before => by omega
    · intro p hp q hq
      have := firstWithin p hp
      have := restWithin q hq
      omega
    · intro p member
      have := firstWithin p member
      omega
    · intro p member
      have := restWithin p member
      omega
end

end ElementType

theorem Leaf.host_le_device (l : Leaf) : (l.extent .host).size ≤ (l.extent .device).size := by
  cases l <;> decide

namespace ElementType

/-- The segments of a type lie in order, within the strides of its elements. -/
theorem segments_placed (t : ElementType) :
    Segment.Placed t.hostStride t.deviceStride (Layout.of t).segments := by
  apply Segment.merge_placed
  obtain ⟨hostApart, hostWithin⟩ := leafWays_apart .host t
  obtain ⟨deviceApart, deviceWithin⟩ := leafWays_apart .device t
  rw [leafSegments_eq]
  refine ⟨List.pairwise_map.mpr ((hostApart.and deviceApart).imp ?_), List.forall_mem_map.mpr ?_⟩
  · rintro p q ⟨onHost, onDevice⟩
    have short := p.2.host_le_device
    simp only [Segment.Before, leafSegment]
    omega
  · intro p member
    have onHost := hostWithin p member
    have onDevice := deviceWithin p member
    have short := p.2.host_le_device
    have stride := t.device_size_le_stride
    simp only [Segment.Within, leafSegment, hostStride]
    omega

theorem carries_iff {host device i j : Nat} {t : ElementType} :
    Segment.Carries (leafSegments host device t) i j ↔ ∃ way l, t.part? way = some (.leaf l) ∧
      ∃ k < (l.extent .host).size,
        i = host + t.offset .host way + k ∧ j = device + t.offset .device way + k := by
  rw [leafSegments_eq]
  constructor
  · rintro ⟨_, member, found⟩
    obtain ⟨⟨way, l⟩, leaf, rfl⟩ := List.mem_map.mp member
    exact ⟨way, l, (mem_leafWays t way l).mp leaf, found⟩
  · rintro ⟨way, l, part, found⟩
    exact ⟨_, List.mem_map_of_mem ((mem_leafWays t way l).mpr part), found⟩

end ElementType
end ArrayQuery
