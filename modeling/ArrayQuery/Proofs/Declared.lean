import ArrayQuery.Proofs.Typing

/-! What a draft has declared: a struct for each record with a name, the buffers of its inputs, and the
values of its steps. Declarations stay as they are while the draft grows. -/

set_option autoImplicit false
namespace ArrayQuery.Kernel

open Compile

def IsValueName (name : String) : Prop :=
  name = "gid" ∨ isGenerated name.toList = true

theorem bufferName_generated (k : Nat) : isGenerated (Program.bufferName k).toList = true := by
  have digits := Decimal.all_isDigit_toDigits k
  simp [Program.bufferName, Variable.name, Nat.toString_eq_repr, Nat.toList_repr, isGenerated,
    isNumbered, digits, Nat.toDigits_ne_nil]

theorem stepName_generated (k : Nat) : isGenerated (Variable.step k).name.toList = true := by
  have digits := Decimal.all_isDigit_toDigits k
  simp [Variable.name, Nat.toString_eq_repr, Nat.toList_repr, isGenerated, isNumbered, digits,
    Nat.toDigits_ne_nil]

theorem IsFree.not_value {name : String} (free : IsFree name) : ¬IsValueName name := by
  rintro (rfl | generated)
  · exact absurd free.2 (by decide)
  · have taken : isTaken name.toList = true := by rw [isTaken, generated, Bool.or_true]
    rw [free.2] at taken
    exact Bool.false_ne_true taken

theorem builtin_not_value : ∀ t ∈ KernelType.builtin, ¬IsValueName t.text := by
  unfold IsValueName
  decide

theorem stepName_ne_bufferName (k l : Nat) : (Variable.step k).name ≠ Program.bufferName l := by
  intro same
  have texts := congrArg String.toList same
  simp [Program.bufferName, Variable.name] at texts

theorem generated_ne {name word : String} (generated : isGenerated name.toList = true)
    (other : isGenerated word.toList = false) : name ≠ word := by
  rintro rfl
  rw [generated] at other
  exact Bool.noConfusion other

theorem generated_ne_keyword {name : String} (generated : isGenerated name.toList = true) :
    ¬(name = "true" ∨ name = "false") :=
  not_or.mpr ⟨generated_ne generated (by decide), generated_ne generated (by decide)⟩

theorem stepName_ne_keyword (k : Nat) :
    ¬((Variable.step k).name = "true" ∨ (Variable.step k).name = "false") :=
  generated_ne_keyword (stepName_generated k)

theorem bufferName_ne_keyword (k : Nat) :
    ¬(Program.bufferName k = "true" ∨ Program.bufferName k = "false") :=
  generated_ne_keyword (bufferName_generated k)

def namedArrays (inputs : List Input) : List (String × FormType) :=
  inputs.zipIdx.map fun i => (Program.bufferName i.2, .array i.1.storage)

def namedSteps (lets : List Let) : List (String × FormType) :=
  (lets.zipIdx 1).map fun l => ((Variable.step l.2).name, .value l.1.type)

def namedValues (inputs : List Input) (lets : List Let) : List (String × FormType) :=
  ("gid", .indices) :: (namedArrays inputs ++ namedSteps lets)

def Draft.declarations (d : Draft) : Declarations where
  structs := d.structs
  values := namedValues d.inputs d.lets

theorem lookup_namedArrays (inputs : List Input) (k : Nat) :
    (namedArrays inputs).lookup (Program.bufferName k) =
      inputs[k]?.map fun i => .array i.storage := by
  have found := lookup_numbered bufferName_injective (fun i : Input => FormType.array i.storage)
    inputs 0 k
  rwa [Nat.zero_add] at found

theorem lookup_namedSteps (lets : List Let) (k : Nat) :
    (namedSteps lets).lookup (Variable.step (1 + k)).name = lets[k]?.map fun l => .value l.type :=
  lookup_numbered stepName_injective (fun l : Let => FormType.value l.type) lets 1 k

theorem mem_of_lookup {α β : Type} [BEq α] [LawfulBEq α] {xs : List (α × β)} {a : α} {b : β}
    (found : xs.lookup a = some b) : (a, b) ∈ xs := by
  obtain ⟨before, after, rfl, _⟩ := List.lookup_eq_some_iff.mp found
  exact List.mem_append_right _ List.mem_cons_self

theorem exists_of_forall₂ {α β : Type} {R : α → β → Prop} {xs : List α} {ys : List β}
    (each : List.Forall₂ R xs ys) {y : β} (member : y ∈ ys) : ∃ x ∈ xs, R x y := by
  induction each with
  | nil => exact nomatch member
  | cons first _ ih =>
    rcases List.mem_cons.mp member with rfl | member
    · exact ⟨_, List.mem_cons_self, first⟩
    · obtain ⟨x, held, related⟩ := ih member
      exact ⟨x, List.mem_cons_of_mem _ held, related⟩

theorem lookup_numbered_name {α β : Type} (name : Nat → String) (f : α → β) {xs : List α} {n : Nat}
    {s : String} {b : β}
    (found : ((xs.zipIdx n).map fun x => (name x.2, f x.1)).lookup s = some b) :
    ∃ k, s = name (n + k) ∧ xs[k]?.map f = some b := by
  obtain ⟨⟨x, k⟩, held, same⟩ := List.mem_map.mp (mem_of_lookup found)
  obtain ⟨rfl, rfl⟩ := Prod.mk.inj same
  obtain ⟨above, place⟩ := List.mk_mem_zipIdx_iff_le_and_getElem?_sub.mp held
  refine ⟨k - n, by rw [Nat.add_sub_cancel' above], ?_⟩
  rw [place, Option.map_some]

theorem lookup_array {inputs : List Input} (lets : List Let) {k : Nat} {i : Input}
    (found : inputs[k]? = some i) :
    (namedValues inputs lets).lookup (Program.bufferName k) = some (.array i.storage) := by
  have other : (Program.bufferName k == "gid") = false :=
    beq_eq_false_iff_ne.mpr (generated_ne (bufferName_generated k) (by decide))
  rw [namedValues, List.lookup_cons, other]
  simp only [List.lookup_append, lookup_namedArrays, found, Option.map_some, Option.some_or]

theorem lookup_namedArrays_step (inputs : List Input) (k : Nat) :
    (namedArrays inputs).lookup (Variable.step k).name = none := by
  cases found : (namedArrays inputs).lookup (Variable.step k).name with
  | none => rfl
  | some t =>
    obtain ⟨l, same, _⟩ := lookup_numbered_name Program.bufferName
      (fun i : Input => FormType.array i.storage) found
    exact absurd same (stepName_ne_bufferName k _)

theorem lookup_step (inputs : List Input) {lets : List Let} {k : Nat} {l : Let}
    (found : lets[k]? = some l) :
    (namedValues inputs lets).lookup (Variable.step (1 + k)).name = some (.value l.type) := by
  have other : ((Variable.step (1 + k)).name == "gid") = false :=
    beq_eq_false_iff_ne.mpr (generated_ne (stepName_generated _) (by decide))
  rw [namedValues, List.lookup_cons, other]
  simp only [List.lookup_append, lookup_namedArrays_step, lookup_namedSteps, found,
    Option.map_some, Option.none_or]

/-- What stands for a value is the index of the invocation, a buffer or a step. -/
theorem lookup_values {inputs : List Input} {lets : List Let} {name : String} {t : FormType}
    (found : (namedValues inputs lets).lookup name = some t) :
    (name = "gid" ∧ t = .indices) ∨
      (∃ k i, name = Program.bufferName k ∧ inputs[k]? = some i ∧ t = .array i.storage) ∨
      ∃ k l, name = (Variable.step (1 + k)).name ∧ lets[k]? = some l ∧ t = .value l.type := by
  rw [namedValues, List.lookup_cons] at found
  split at found
  · next same => exact .inl ⟨beq_iff_eq.mp same, (Option.some.inj found).symm⟩
  · rw [List.lookup_append] at found
    rcases Option.or_eq_some_iff.mp found with found | ⟨_, found⟩
    · obtain ⟨k, rfl, known⟩ := lookup_numbered_name Program.bufferName
        (fun i : Input => FormType.array i.storage) found
      obtain ⟨i, held, rfl⟩ := Option.map_eq_some_iff.mp known
      exact .inr (.inl ⟨k, i, by rw [Nat.zero_add], held, rfl⟩)
    · obtain ⟨k, rfl, known⟩ := lookup_numbered_name (fun k => (Variable.step k).name)
        (fun l : Let => FormType.value l.type) found
      obtain ⟨l, held, rfl⟩ := Option.map_eq_some_iff.mp known
      exact .inr (.inr ⟨k, l, rfl, held, rfl⟩)

theorem lookup_isValueName {inputs : List Input} {lets : List Let} {name : String} {t : FormType}
    (found : (namedValues inputs lets).lookup name = some t) : IsValueName name := by
  rcases lookup_values found with ⟨rfl, _⟩ | ⟨k, _, rfl, _⟩ | ⟨k, _, rfl, _⟩
  · exact .inl rfl
  · exact .inr (bufferName_generated k)
  · exact .inr (stepName_generated _)

theorem lookup_extends {α β : Type} [BEq α] {xs ys : List (α × β)} (more : xs <+: ys) {a : α} {b : β}
    (found : xs.lookup a = some b) : ys.lookup a = some b := by
  obtain ⟨rest, rfl⟩ := more
  rw [List.lookup_append, found, Option.some_or]

namespace RecordNames

variable {names more : RecordNames}

theorem typeOf_extends (extended : names.assigned <+: more.assigned) {t : ElementType}
    {k : KernelType} (found : names.typeOf t = .ok k) : more.typeOf t = .ok k := by
  cases t with
  | leaf l => exact found
  | record n fields =>
    obtain ⟨name, known, rfl⟩ := typeOf_record_ok.mp found
    exact typeOf_record_ok.mpr ⟨name, lookup_extends extended known, rfl⟩

theorem storageOf_extends (extended : names.assigned <+: more.assigned) {t : ElementType}
    {k : KernelType} (found : names.storageOf t = .ok k) : more.storageOf t = .ok k := by
  unfold storageOf at found ⊢
  split at found
  · next truth => rwa [if_pos truth]
  · next other =>
    rw [if_neg other]
    exact typeOf_extends extended found

end RecordNames

/-! ## Sound drafts -/

def IsMember (names : RecordNames) (field : String × ElementType) (member : String × KernelType) :
    Prop :=
  member.1 = identifier field.1 ∧ names.typeOf field.2 = .ok member.2

structure Declares (names : RecordNames) (named : RecordType × String) (s : Struct) : Prop where
  name : s.name = named.2
  members : List.Forall₂ (IsMember names) named.1.fields s.fields

theorem IsMember.extends {names more : RecordNames} (extended : names.assigned <+: more.assigned)
    {field : String × ElementType} {member : String × KernelType} (held : IsMember names field member) :
    IsMember more field member :=
  ⟨held.1, RecordNames.typeOf_extends extended held.2⟩

theorem Declares.extends {names more : RecordNames} (extended : names.assigned <+: more.assigned)
    {named : RecordType × String} {s : Struct} (held : Declares names named s) :
    Declares more named s :=
  ⟨held.name, held.members.imp fun _ _ member => member.extends extended⟩

/-- Whether an operand is what its type says: an element of a bound array, or the value of a step. -/
def Operand.IsValid (d : Draft) (o : Operand) : Prop :=
  match o.target with
  | .buffer slot => ∃ i, d.inputs[slot]? = some i ∧ i.array.element = o.type
  | .step n => ∃ k l, n = 1 + k ∧ d.lets[k]? = some l ∧ d.records.typeOf o.type = .ok l.type

/-- Whether the names that a draft gives out stand for what it has declared. -/
structure Sound (d : Draft) : Prop where
  distinct : d.records.Distinct
  structs : List.Forall₂ (Declares d.records) d.records.assigned d.structs
  storage : ∀ i ∈ d.inputs, d.records.storageOf i.array.element = .ok i.storage
  steps : ∀ p ∈ d.steps, p.2.IsValid d

/-- Whether a draft has everything that an earlier one has. -/
structure Later (d e : Draft) : Prop where
  inputs : d.inputs <+: e.inputs
  lets : d.lets <+: e.lets
  structs : d.structs <+: e.structs
  records : d.records.assigned <+: e.records.assigned

theorem Compile.Grows.later {d e : Draft} (grows : Grows d e) : Later d e :=
  ⟨grows.inputs, by rw [grows.lets], grows.structs, grows.records⟩

theorem getElem?_extends {α : Type} {xs ys : List α} (more : xs <+: ys) {k : Nat} {a : α}
    (found : xs[k]? = some a) : ys[k]? = some a := by
  obtain ⟨rest, rfl⟩ := more
  obtain ⟨inside, same⟩ := List.getElem?_eq_some_iff.mp found
  rw [List.getElem?_append_left inside, found]

theorem Operand.IsValid.later {d e : Draft} {o : Operand} (valid : o.IsValid d) (later : Later d e) :
    o.IsValid e := by
  unfold Operand.IsValid at valid ⊢
  split at valid
  · obtain ⟨i, found, same⟩ := valid
    exact ⟨i, getElem?_extends later.inputs found, same⟩
  · obtain ⟨k, l, rfl, found, typed⟩ := valid
    exact ⟨k, l, rfl, getElem?_extends later.lets found,
      RecordNames.typeOf_extends later.records typed⟩

theorem sound_start : Sound {} where
  distinct := ⟨nofun, .nil⟩
  structs := .nil
  storage _ member := nomatch member
  steps _ member := nomatch member

theorem declares_names {names : RecordNames} {assigned : List (RecordType × String)}
    {structs : List Struct} (held : List.Forall₂ (Declares names) assigned structs) :
    structs.map Struct.name = assigned.map Prod.snd := by
  induction held with
  | nil => rfl
  | cons first _ ih => rw [List.map_cons, List.map_cons, first.name, ih]

theorem Sound.taken {d : Draft} (sound : Sound d) : d.structs.map Struct.name = d.records.taken :=
  declares_names sound.structs

theorem Sound.structs_nodup {d : Draft} (sound : Sound d) : (d.structs.map Struct.name).Nodup := by
  rw [sound.taken]
  exact sound.distinct.nodup

theorem Sound.bind {d : Draft} (sound : Sound d) {i : Input}
    (stored : d.records.storageOf i.array.element = .ok i.storage) :
    Sound { d with inputs := d.inputs ++ [i] } where
  distinct := sound.distinct
  structs := sound.structs
  storage j member := by
    rcases List.mem_append.mp member with member | member
    · exact sound.storage j member
    · obtain rfl := List.mem_singleton.mp member
      exact stored
  steps p member := (sound.steps p member).later
    ⟨List.prefix_append _ _, List.prefix_rfl, List.prefix_rfl, List.prefix_rfl⟩

/-! ## Declaring structs -/

theorem sizeOf_fields (name : String) (fields : List (String × ElementType)) :
    sizeOf fields < sizeOf (ElementType.record name fields) := by
  rw [ElementType.record.sizeOf_spec]
  omega

/-- A record is none of those inside a smaller type, and has no name before they have. -/
theorem addStruct_fresh {r s : RecordType} (other : r ≠ s) (fields : List (String × KernelType)) :
    Keeps (fun d e => d.records.get? r = none → e.records.get? r = none) (addStruct s fields) := by
  intro d _ e run absent
  obtain rfl := modify_ok.mp run
  change (d.records.assign s).2.get? r = none
  unfold RecordNames.assign
  split
  · exact absent
  · have apart : (r == s) = false := beq_eq_false_iff_ne.mpr other
    unfold RecordNames.get? at absent ⊢
    simp only [List.lookup_append, absent, List.lookup_cons, apart, List.lookup_nil,
      Option.or_none]

mutual
-- A record is larger than what it is made of, so that it cannot come up inside itself.
theorem declare_fresh (node : Expr) {r : RecordType} : ∀ t : ElementType,
    sizeOf t < sizeOf r.type →
    Keeps (fun d e => d.records.get? r = none → e.records.get? r = none) (declare node t)
  | .leaf _, _ => keeps_pure (stable_invariant _) ()
  | .record name fields, smaller => fun d _ e run absent => by
    rcases declare_record_ok run with ⟨_, rfl⟩ | ⟨_, members, c, declared, added⟩
    · exact absent
    · have inside : sizeOf fields < sizeOf r.type := (sizeOf_fields name fields).trans smaller
      have other : r ≠ ⟨name, fields⟩ := by
        rintro rfl
        exact absurd smaller (Nat.lt_irrefl _)
      exact addStruct_fresh other members c () e added
        (declareFields_fresh node name fields inside d members c declared absent)

theorem declareFields_fresh (node : Expr) (record : String) {r : RecordType} :
    ∀ fields : List (String × ElementType), sizeOf fields < sizeOf r.type →
    Keeps (fun d e => d.records.get? r = none → e.records.get? r = none)
      (declareFields node record fields)
  | [], _ => keeps_pure (stable_invariant _) []
  | (field, t) :: fields, smaller => fun d _ e run absent => by
    obtain ⟨_, c, _, others, declared, _, rest, _⟩ := declareFields_cons_ok run
    have head : sizeOf t < sizeOf r.type := by
      simp at smaller
      omega
    have tail : sizeOf fields < sizeOf r.type := by
      simp at smaller
      omega
    exact declareFields_fresh node record fields tail c others e rest
      (declare_fresh node t head d () c declared absent)
end

theorem addStruct_sound {r : RecordType} {members : List (String × KernelType)} {d e : Draft}
    (sound : Sound d) (absent : d.records.get? r = none)
    (typed : List.Forall₂ (IsMember d.records) r.fields members)
    (run : addStruct r members d = .ok ((), e)) : Sound e := by
  have later := (grows_addStruct r members d () e run).later
  obtain rfl := modify_ok.mp run
  dsimp only at later ⊢
  have assigned : d.records.assign r =
      (d.records.freeName (identifier r.name),
        ⟨d.records.assigned ++ [(r, d.records.freeName (identifier r.name))]⟩) := by
    unfold RecordNames.assign
    rw [absent]
  have distinct := RecordNames.assign_distinct sound.distinct r
  rw [assigned] at later distinct ⊢
  refine ⟨distinct, ?_, fun i member => ?_, fun p member => (sound.steps p member).later later⟩
  · refine List.rel_append ?_ (.cons ⟨rfl, ?_⟩ .nil)
    · exact sound.structs.imp fun _ _ held => held.extends later.records
    · exact typed.imp fun _ _ held => held.extends later.records
  · exact RecordNames.storageOf_extends later.records (sound.storage i member)

mutual
-- The members of a struct need the names of the records inside it, which are given out before its own.
theorem declare_sound (node : Expr) : ∀ (t : ElementType) {d e : Draft}, Sound d →
    declare node t d = .ok ((), e) → Sound e
  | .leaf _, _, _, sound, run => declare_leaf run ▸ sound
  | .record name fields, d, e, sound, run => by
    rcases declare_record_ok run with ⟨_, rfl⟩ | ⟨absent, members, c, declared, added⟩
    · exact sound
    · obtain ⟨sound', typed⟩ := declareFields_sound node name fields sound declared
      have smaller : sizeOf fields < sizeOf (RecordType.mk name fields).type :=
        sizeOf_fields name fields
      have absent' := declareFields_fresh node name fields smaller d members c declared absent
      exact addStruct_sound sound' absent' typed added

theorem declareFields_sound (node : Expr) (record : String) :
    ∀ (fields : List (String × ElementType)) {d e : Draft} {members : List (String × KernelType)},
    Sound d → declareFields node record fields d = .ok (members, e) →
    Sound e ∧ List.Forall₂ (IsMember e.records) fields members
  | [], _, _, _, sound, run => by
    obtain ⟨rfl, rfl⟩ := pure_ok.mp run
    exact ⟨sound, .nil⟩
  | (field, t) :: fields, d, e, members, sound, run => by
    obtain ⟨_, c, k, others, declared, typed, rest, rfl⟩ := declareFields_cons_ok run
    obtain ⟨sound', held⟩ :=
      declareFields_sound node record fields (declare_sound node t sound declared) rest
    have grows : Grows c e :=
      declareFields_keeps grows_stable grows_addStruct node record fields c others e rest
    exact ⟨sound', .cons ⟨rfl, RecordNames.typeOf_extends grows.records typed⟩ held⟩
end

theorem bindArray_sound {node : Expr} {a : SharedArray} {d e : Draft} {slot : Nat} (sound : Sound d)
    (run : bindArray node a d = .ok (slot, e)) : Sound e := by
  rcases bindArray_ok run with ⟨_, rfl⟩ | ⟨_, _, storage, c, stored, rfl⟩
  · exact sound
  · obtain ⟨declared, spelled⟩ := storageType_ok.mp stored
    exact (declare_sound node _ sound declared).bind spelled

theorem sound_kept : Kept (fun d e => Sound d → Sound e) (fun _ => True) fun _ => True where
  toStable := stable_invariant _
  declared node t _ _ _ run sound := declare_sound node t sound run
  bound _ _ _ _ _ _ run sound := bindArray_sound sound run
  overridden tag t _ d _ e run sound := by
    obtain rfl := modify_ok.mp run
    exact ⟨sound.distinct, sound.structs, sound.storage, sound.steps⟩

theorem translate_sound {scope : Scope} {body : Expr} {d e : Draft} {term : Term}
    (run : translate scope body d = .ok (term, e)) : Sound d → Sound e :=
  translate_keeps sound_kept scope body (fun _ _ => trivial) (fun _ _ => trivial) d term e run

theorem filter_named {structs : List Struct} (distinct : (structs.map Struct.name).Nodup)
    {s : Struct} (member : s ∈ structs) : structs.filter (·.name == s.name) = [s] := by
  induction structs with
  | nil => exact nomatch member
  | cons first rest ih =>
    obtain ⟨absent, apart⟩ := List.nodup_cons.mp distinct
    rcases List.mem_cons.mp member with rfl | later
    · have none : rest.filter (·.name == s.name) = [] := by
        refine List.filter_eq_nil_iff.mpr fun t held same => absent ?_
        rw [← beq_iff_eq.mp same]
        exact List.mem_map_of_mem held
      rw [List.filter_cons, beq_self_eq_true, if_pos rfl, none]
    · have other : (first.name == s.name) = false := by
        refine beq_eq_false_iff_ne.mpr fun same => absent ?_
        rw [same]
        exact List.mem_map_of_mem later
      rw [List.filter_cons, other, if_neg Bool.false_ne_true, ih apart later]

theorem Sound.struct? {d : Draft} (sound : Sound d) {s : Struct} (member : s ∈ d.structs)
    (nonempty : s.fields ≠ []) (distinct : (s.fields.map Prod.fst).Nodup) :
    d.declarations.struct? s.name = some s := by
  have only : d.declarations.structs.filter (·.name == s.name) = [s] :=
    filter_named sound.structs_nodup member
  unfold Declarations.struct?
  rw [only]
  exact if_pos ⟨nonempty, distinct⟩

theorem struct?_some {g : Declarations} {name : String} {s : Struct}
    (found : g.struct? name = some s) :
    s ∈ g.structs ∧ s.name = name ∧ s.fields ≠ [] ∧ (s.fields.map Prod.fst).Nodup := by
  unfold Declarations.struct? at found
  split at found
  · next t only =>
    have held : t ∈ g.structs.filter (·.name == name) := by
      rw [only]
      exact List.mem_cons_self
    obtain ⟨member, named⟩ := List.mem_filter.mp held
    split at found
    · next formed =>
      obtain rfl := Option.some.inj found
      exact ⟨member, beq_iff_eq.mp named, formed⟩
    · exact nomatch found
  · exact nomatch found

theorem lookup_not_value {inputs : List Input} {lets : List Let} {name : String}
    (other : ¬IsValueName name) : (namedValues inputs lets).lookup name = none := by
  cases found : (namedValues inputs lets).lookup name with
  | none => rfl
  | some t => exact absurd (lookup_isValueName found) other

theorem Draft.type?_eq (d : Draft) {name : String} (other : ¬IsValueName name) :
    d.declarations.type? name = (KernelType.builtin.find? (·.text == name)).or
      ((d.declarations.struct? name).map fun s => .struct s.name) := by
  have absent : d.declarations.values.lookup name = none := lookup_not_value other
  rw [Declarations.type?, absent]
  rfl

theorem type?_not_value {d : Draft} (sound : Sound d) {name : String} {t : KernelType}
    (found : d.declarations.type? name = some t) : ¬IsValueName name := by
  unfold Declarations.type? at found
  split at found
  · exact nomatch found
  · rcases Option.or_eq_some_iff.mp found with builtin | ⟨_, declared⟩
    · have named : t.text = name := by simpa using List.find?_some builtin
      rw [← named]
      exact builtin_not_value t (List.mem_of_find?_eq_some builtin)
    · obtain ⟨s, known, _⟩ := Option.map_eq_some_iff.mp declared
      obtain ⟨member, rfl, _⟩ := struct?_some known
      refine IsFree.not_value (sound.distinct.free s.name ?_)
      rw [← sound.taken]
      exact List.mem_map_of_mem member

theorem Draft.type?_builtin (d : Draft) {t : KernelType} (builtin : t ∈ KernelType.builtin) :
    d.declarations.type? t.text = some t := by
  have found : ∀ t ∈ KernelType.builtin, KernelType.builtin.find? (·.text == t.text) = some t := by
    decide
  rw [d.type?_eq (builtin_not_value t builtin), found t builtin, Option.some_or]

theorem Sound.type?_struct {d : Draft} (sound : Sound d) {s : Struct}
    (found : d.declarations.struct? s.name = some s) :
    d.declarations.type? s.name = some (.struct s.name) := by
  obtain ⟨member, _⟩ := struct?_some found
  have free : IsFree s.name := by
    refine sound.distinct.free s.name ?_
    rw [← sound.taken]
    exact List.mem_map_of_mem member
  have others : ∀ t ∈ KernelType.builtin, isWord t.text = false ∨ isTaken t.text.toList = true := by
    decide
  have builtin : KernelType.builtin.find? (·.text == s.name) = none := by
    refine List.find?_eq_none.mpr fun t held same => ?_
    rw [beq_iff_eq] at same
    rcases others t held with other | other
    · rw [same, free.1] at other
      exact Bool.false_ne_true other.symm
    · rw [same, free.2] at other
      exact Bool.false_ne_true other
  rw [d.type?_eq free.not_value, builtin, Option.none_or, found]
  rfl

theorem Sound.extends {d e : Draft} (sound : Sound d) (sound' : Sound e) (later : Later d e) :
    d.declarations.Extends e.declarations := by
  have structs : ∀ name s, d.declarations.struct? name = some s →
      e.declarations.struct? name = some s := by
    intro name s found
    obtain ⟨member, rfl, nonempty, distinct⟩ := struct?_some found
    exact sound'.struct? (later.structs.subset member) nonempty distinct
  refine ⟨fun name t found => ?_, fun name t found => ?_, structs⟩
  · rcases lookup_values found with ⟨rfl, rfl⟩ | ⟨k, i, rfl, held, rfl⟩ | ⟨k, l, rfl, held, rfl⟩
    · rfl
    · exact lookup_array _ (getElem?_extends later.inputs held)
    · exact lookup_step _ (getElem?_extends later.lets held)
  · -- A type's name stands for no value, in the later draft either, so that nothing hides it there.
    have other := type?_not_value sound found
    rw [d.type?_eq other] at found
    rw [e.type?_eq other]
    rcases Option.or_eq_some_iff.mp found with builtin | ⟨none, declared⟩
    · rw [builtin, Option.some_or]
    · obtain ⟨s, known, same⟩ := Option.map_eq_some_iff.mp declared
      rw [none, Option.none_or, structs name s known, Option.map_some, same]

end ArrayQuery.Kernel
