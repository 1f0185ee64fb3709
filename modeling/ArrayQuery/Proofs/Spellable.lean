import ArrayQuery.Proofs.StepLines

/-! The types that a kernel can hold, and the records that are structs of one: each comes once, after the
records inside it, and holds neither truth values nor double precision. -/

set_option autoImplicit false
namespace ArrayQuery

namespace ElementType

mutual
def leaves : ElementType → List Leaf
  | .leaf l => [l]
  | .record _ fields => leavesIn fields

def leavesIn : List (String × ElementType) → List Leaf
  | [] => []
  | (_, t) :: rest => t.leaves ++ leavesIn rest
end

/-- Whether kernels have values of a type: there is no double precision in them, and no truth value in
a record. -/
def IsSpellable : ElementType → Prop
  | .leaf l => l ≠ .f64
  | .record _ fields => ∀ l ∈ leavesIn fields, l ≠ .bool ∧ l ≠ .f64

instance : DecidablePred IsSpellable
  | .leaf l => inferInstanceAs (Decidable (l ≠ .f64))
  | .record _ fields => inferInstanceAs (Decidable (∀ l ∈ leavesIn fields, l ≠ .bool ∧ l ≠ .f64))

theorem isSpellable_field (t : ElementType) :
    (∀ l ∈ t.leaves, l ≠ .bool ∧ l ≠ .f64) ↔ t ≠ .bool ∧ t.IsSpellable := by
  cases t with
  | leaf l => simp [leaves, IsSpellable]
  | record name fields => simp [leaves, IsSpellable]

theorem isSpellable_record (name : String) (fields : List (String × ElementType)) :
    (record name fields).IsSpellable ↔
      ∀ field ∈ fields, field.2 ≠ .bool ∧ field.2.IsSpellable := by
  change (∀ l ∈ leavesIn fields, l ≠ .bool ∧ l ≠ .f64) ↔ _
  induction fields with
  | nil => simp [leavesIn]
  | cons field rest ih =>
    simp only [leavesIn, List.forall_mem_append, List.forall_mem_cons, ih, isSpellable_field]

end ElementType

namespace Kernel

open Compile

/-- Whether the records with a name have come in an order in which they can be declared, each once. -/
structure RecordNames.Arranged (names : RecordNames) : Prop where
  once : (names.assigned.map Prod.fst).Nodup
  spellable : ∀ named ∈ names.assigned, named.1.type.IsSpellable
  inside : ∀ (j : Nat) (r : RecordType), names.assigned[j]?.map Prod.fst = some r →
    ∀ field ∈ r.fields, ∀ s : RecordType, field.2 = s.type →
      ∃ i < j, names.assigned[i]?.map Prod.fst = some s

namespace RecordNames

variable {names : RecordNames}

theorem get_none {r : RecordType} (absent : names.get? r = none) :
    r ∉ names.assigned.map Prod.fst := by
  intro member
  obtain ⟨named, held, rfl⟩ := List.mem_map.mp member
  have other := List.lookup_eq_none_iff.mp absent named held
  simp at other

theorem get_assigned {r : RecordType} {name : String} (found : names.get? r = some name) :
    (r, name) ∈ names.assigned :=
  mem_of_lookup found

theorem arranged_start : Arranged {} where
  once := .nil
  spellable _ member := nomatch member
  inside _ _ found := nomatch found

theorem Arranged.typeOf (arranged : names.Arranged) {t : ElementType} {k : KernelType}
    (found : names.typeOf t = .ok k) : t.IsSpellable := by
  cases t with
  | leaf l =>
    rintro rfl
    exact nomatch typeOf_leaf_ok.mp found
  | record n fields =>
    obtain ⟨name, known, _⟩ := typeOf_record_ok.mp found
    exact arranged.spellable _ (get_assigned known)

theorem typeOf_place {r : RecordType} {k : KernelType} (found : names.typeOf r.type = .ok k) :
    ∃ i < names.assigned.length, names.assigned[i]?.map Prod.fst = some r := by
  obtain ⟨name, known, _⟩ := typeOf_record_ok.mp found
  obtain ⟨i, place⟩ := List.getElem?_of_mem (get_assigned known)
  refine ⟨i, (List.getElem?_eq_some_iff.mp place).1, ?_⟩
  rw [place]
  rfl

/-- A new name is for a record whose fields can be named, and comes last. -/
theorem Arranged.assign (arranged : names.Arranged) {r : RecordType} (absent : names.get? r = none)
    (fields : ∀ field ∈ r.fields, field.2 ≠ .bool ∧ ∃ k, names.typeOf field.2 = .ok k) :
    (names.assign r).2.Arranged := by
  have assigned : (names.assign r).2.assigned =
      names.assigned ++ [(r, names.freeName (identifier r.name))] := by
    unfold RecordNames.assign
    rw [absent]
  refine ⟨?_, ?_, ?_⟩
  · rw [assigned, List.map_append]
    exact arranged.once.append (List.nodup_singleton _)
      (List.disjoint_singleton.mpr (get_none absent))
  · intro named member
    rw [assigned] at member
    obtain member | member := List.mem_append.mp member
    · exact arranged.spellable named member
    · obtain rfl := List.mem_singleton.mp member
      refine (ElementType.isSpellable_record r.name r.fields).mpr fun field held => ?_
      obtain ⟨plain, k, known⟩ := fields field held
      exact ⟨plain, arranged.typeOf known⟩
  · intro j s found field held inner same
    obtain ⟨named, place, rfl⟩ := Option.map_eq_some_iff.mp found
    rw [assigned] at place ⊢
    obtain place | ⟨rfl, rfl⟩ := getElem?_concat place
    · have known : names.assigned[j]?.map Prod.fst = some named.1 := by
        rw [place]
        rfl
      obtain ⟨i, before, found⟩ := arranged.inside j named.1 known field held inner same
      refine ⟨i, before, ?_⟩
      have within := (List.getElem?_eq_some_iff.mp place).1
      rwa [List.getElem?_append_left (before.trans within)]
    · -- The fields of the new record had their names before it.
      obtain ⟨_, k, known⟩ := fields field held
      rw [same] at known
      obtain ⟨i, before, found⟩ := typeOf_place known
      exact ⟨i, before, by rwa [List.getElem?_append_left before]⟩

end RecordNames

/-- Whether a draft declares its structs in an order in which they can be declared. -/
structure Arranged (d : Draft) : Prop extends Sound d where
  arranged : d.records.Arranged

theorem arranged_start : Arranged {} :=
  ⟨sound_start, RecordNames.arranged_start⟩

theorem addStruct_records {r : RecordType} {members : List (String × KernelType)} {d e : Draft}
    (run : addStruct r members d = .ok ((), e)) : e.records = (d.records.assign r).2 := by
  obtain rfl := modify_ok.mp run
  rfl

theorem declareFields_plain {node : Expr} {record : String} {fields : List (String × ElementType)}
    {d e : Draft} {members : List (String × KernelType)}
    (run : declareFields node record fields d = .ok (members, e)) :
    ∀ field ∈ fields, field.2 ≠ .bool := by
  induction fields generalizing d members with
  | nil => exact fun _ member => absurd member List.not_mem_nil
  | cons field rest ih =>
    obtain ⟨plain, _, _, _, _, _, more, _⟩ := declareFields_cons_ok run
    exact List.forall_mem_cons.mpr ⟨plain, ih more⟩

mutual
-- The records inside a record have got their names when it gets its own.
theorem declare_arranged (node : Expr) : ∀ (t : ElementType) {d e : Draft}, Arranged d →
    declare node t d = .ok ((), e) → Arranged e
  | .leaf _, _, _, arranged, run => declare_leaf run ▸ arranged
  | .record name fields, d, e, arranged, run => by
    have sound := declare_sound node _ arranged.toSound run
    rcases declare_record_ok run with ⟨_, rfl⟩ | ⟨absent, members, c, declared, added⟩
    · exact arranged
    · have inner := declareFields_arranged node name fields arranged declared
      obtain ⟨_, typed⟩ := declareFields_sound node name fields arranged.toSound declared
      have smaller : sizeOf fields < sizeOf (RecordType.mk name fields).type :=
        sizeOf_fields name fields
      have absent' := declareFields_fresh node name fields smaller d members c declared absent
      refine ⟨sound, addStruct_records added ▸ inner.arranged.assign absent' fun field held => ?_⟩
      obtain ⟨member, _, known⟩ := exists_of_forall₂ typed.flip held
      exact ⟨declareFields_plain declared field held, member.2, known.2⟩

theorem declareFields_arranged (node : Expr) (record : String) :
    ∀ (fields : List (String × ElementType)) {d e : Draft} {members : List (String × KernelType)},
    Arranged d → declareFields node record fields d = .ok (members, e) → Arranged e
  | [], _, _, _, arranged, run => by
    obtain ⟨rfl, rfl⟩ := pure_ok.mp run
    exact arranged
  | (field, t) :: fields, d, e, members, arranged, run => by
    obtain ⟨_, c, k, others, declared, typed, rest, rfl⟩ := declareFields_cons_ok run
    exact declareFields_arranged node record fields (declare_arranged node t arranged declared) rest
end

theorem bindArray_arranged {node : Expr} {a : SharedArray} {d e : Draft} {slot : Nat}
    (arranged : Arranged d) (run : bindArray node a d = .ok (slot, e)) : Arranged e := by
  refine ⟨bindArray_sound arranged.toSound run, ?_⟩
  rcases bindArray_ok run with ⟨_, rfl⟩ | ⟨_, _, storage, c, stored, rfl⟩
  · exact arranged.arranged
  · exact (declare_arranged node _ arranged (storageType_ok.mp stored).1).arranged

theorem arranged_kept : Kept (fun d e => Arranged d → Arranged e) (fun _ => True) fun _ => True where
  toStable := stable_invariant _
  declared node t _ _ _ run arranged := declare_arranged node t arranged run
  bound _ _ _ _ _ _ run arranged := bindArray_arranged arranged run
  overridden tag t _ d _ e run arranged := by
    obtain rfl := modify_ok.mp run
    exact ⟨⟨arranged.distinct, arranged.structs, arranged.storage, arranged.steps⟩, arranged.arranged⟩

theorem translate_arranged {scope : Scope} {body : Expr} {d e : Draft} {term : Term}
    (run : translate scope body d = .ok (term, e)) : Arranged d → Arranged e :=
  translate_keeps arranged_kept scope body (fun _ _ => trivial) (fun _ _ => trivial) d term e run

theorem emit_arranged {node body : Expr} {tag : Tag} {params : List Parameter} {inputs : List Operand}
    {d e : Draft} {o : Operand} (arranged : Arranged d)
    (run : emit node tag params body inputs d = .ok (o, e)) : Arranged e := by
  refine ⟨emit_sound arranged.toSound run, ?_⟩
  obtain ⟨_, k, b, value, c, typed, translated, rfl, rfl⟩ := emit_ok run
  have declared := declare_arranged node _ arranged (valueType_ok.mp typed).1
  exact (translate_arranged translated declared).arranged

theorem bindSource_arranged {node : Expr} {a : SharedArray} {d e : Draft} {o : Operand}
    (arranged : Arranged d) (run : bindSource node a d = .ok (o, e)) : Arranged e := by
  obtain ⟨slot, bound, _⟩ := bindSource_bound run
  exact bindArray_arranged (d := { d with sourceCount := some a.data.count })
    ⟨⟨arranged.distinct, arranged.structs, arranged.storage, arranged.steps⟩, arranged.arranged⟩ bound

theorem Steps.arranged {node : Expr} {d e : Draft} {o : Operand} (run : Steps node d o e)
    (arranged : Arranged d) : Arranged e := by
  induction run with
  | source bound => exact bindSource_arranged arranged bound
  | shared => exact arranged
  | select _ _ last ih => exact emit_arranged (ih arranged) last
  | zip _ _ _ last ihl ihr => exact emit_arranged (ihr (ihl arranged)) last

theorem root_arranged {root : Expr} {r : Operand × KernelType} {d : Draft}
    (run : Compile.root root {} = .ok (r, d)) : Arranged d := by
  obtain ⟨_, _, _, stepped, _, stored⟩ := root_ok run
  have before := (steps_of_step root stepped).arranged arranged_start
  exact declare_arranged root _ before (storageType_ok.mp stored).1

end Kernel
end ArrayQuery
