import ArrayQuery.Proofs.Bindings
import ArrayQuery.Proofs.Spellable

/-! The structs of a kernel. Each record that the kernel names is declared by one struct, which comes
after those of the records inside it. -/

set_option autoImplicit false
namespace ArrayQuery

def ElementType.record? : ElementType → Option RecordType
  | .leaf _ => none
  | .record name fields => some ⟨name, fields⟩

namespace Value

mutual
def constructed : Value → List RecordType
  | record r values => r :: constructedAll values
  | _ => []

def constructedAll : List Value → List RecordType
  | [] => []
  | v :: rest => v.constructed ++ constructedAll rest
end

end Value

namespace Expr

mutual
def constructed : Expr → List RecordType
  | constant v => v.constructed
  | binary _ l r _ => l.constructed ++ r.constructed
  | negate e _ | convert _ e _ | member e _ _ | index _ e _ => e.constructed
  | construct r args => r :: constructedAll args
  | call _ args _ => constructedAll args
  | _ => []

def constructedAll : List Expr → List RecordType
  | [] => []
  | e :: rest => e.constructed ++ constructedAll rest
end

/-- The records that the kernel of a query names: as the type of a value or of the elements of a buffer,
or to make a value. -/
def schemas (root : Expr) : List RecordType :=
  (root.queries.flatMap fun q => q.type.record?.toList ++ q.body?.toList.flatMap constructed) ++
    root.bound.filterMap fun a => a.data.element.record?

end Expr

namespace Kernel

open Compile

/-! ## Structs that a kernel names -/

def KernelType.struct? : KernelType → Option String
  | struct name => some name
  | _ => none

namespace Term

mutual
def structs : Term → List String
  | literal _ | step _ | element _ => []
  | index _ e | nonzero e | negate e | negateMatrix e | group e | access e _ => e.structs
  | binary _ l r => l.structs ++ r.structs
  | call (.type k) args => k.struct?.toList ++ structsAll args
  | call (.function _) args => structsAll args

def structsAll : List Term → List String
  | [] => []
  | e :: rest => e.structs ++ structsAll rest
end

end Term

namespace Program

def valueStructs (p : Program) : List String :=
  (p.lets.flatMap fun l => l.type.struct?.toList ++ l.value.structs) ++
    (p.inputs.filterMap fun i => i.storage.struct?) ++ p.storage.struct?.toList

def structNames (p : Program) : List String :=
  p.valueStructs ++ p.structs.flatMap fun s => s.fields.filterMap fun m => m.2.struct?

end Program

/-- Whether some names are those of some records. -/
structure NamesOf (names : RecordNames) (rs : List RecordType) (found : List String) : Prop where
  all : ∀ r ∈ rs, ∃ name ∈ found, names.get? r = some name
  only : ∀ name ∈ found, ∃ r ∈ rs, names.get? r = some name

namespace NamesOf

variable {names more : RecordNames} {rs ss : List RecordType} {xs ys : List String}

theorem none : NamesOf names [] [] :=
  ⟨fun _ member => absurd member List.not_mem_nil, fun _ member => absurd member List.not_mem_nil⟩

theorem one {r : RecordType} {name : String} (found : names.get? r = some name) :
    NamesOf names [r] [name] := by
  constructor
  · intro s member
    rw [List.mem_singleton.mp member]
    exact ⟨name, List.mem_cons_self, found⟩
  · intro other member
    rw [List.mem_singleton.mp member]
    exact ⟨r, List.mem_cons_self, found⟩

theorem append (first : NamesOf names rs xs) (second : NamesOf names ss ys) :
    NamesOf names (rs ++ ss) (xs ++ ys) := by
  constructor
  · intro r member
    obtain member | member := List.mem_append.mp member
    · obtain ⟨name, held, found⟩ := first.all r member
      exact ⟨name, List.mem_append_left _ held, found⟩
    · obtain ⟨name, held, found⟩ := second.all r member
      exact ⟨name, List.mem_append_right _ held, found⟩
  · intro name member
    obtain member | member := List.mem_append.mp member
    · obtain ⟨r, held, found⟩ := first.only name member
      exact ⟨r, List.mem_append_left _ held, found⟩
    · obtain ⟨r, held, found⟩ := second.only name member
      exact ⟨r, List.mem_append_right _ held, found⟩

theorem swap (named : NamesOf names (rs ++ ss) xs) : NamesOf names (ss ++ rs) xs := by
  constructor
  · intro r member
    exact named.all r (List.mem_append.mpr (List.mem_append.mp member).symm)
  · intro name member
    obtain ⟨r, held, found⟩ := named.only name member
    exact ⟨r, List.mem_append.mpr (List.mem_append.mp held).symm, found⟩

theorem flatMap {α β : Type} {as : List α} {bs : List β} {f : α → List RecordType}
    {g : β → List String} (every : ∀ a ∈ as, ∃ b ∈ bs, NamesOf names (f a) (g b))
    (each : ∀ b ∈ bs, ∃ a ∈ as, NamesOf names (f a) (g b)) :
    NamesOf names (as.flatMap f) (bs.flatMap g) := by
  constructor
  · intro r member
    obtain ⟨a, held, inside⟩ := List.mem_flatMap.mp member
    obtain ⟨b, held', named⟩ := every a held
    obtain ⟨name, spelled, found⟩ := named.all r inside
    exact ⟨name, List.mem_flatMap.mpr ⟨b, held', spelled⟩, found⟩
  · intro name member
    obtain ⟨b, held, inside⟩ := List.mem_flatMap.mp member
    obtain ⟨a, held', named⟩ := each b held
    obtain ⟨r, spelled, found⟩ := named.only name inside
    exact ⟨r, List.mem_flatMap.mpr ⟨a, held', spelled⟩, found⟩

theorem again (named : NamesOf names rs xs) (other : NamesOf names ss ys) (among : ∀ r ∈ ss, r ∈ rs) :
    NamesOf names rs (xs ++ ys) := by
  constructor
  · intro r member
    obtain ⟨name, held, found⟩ := named.all r member
    exact ⟨name, List.mem_append_left _ held, found⟩
  · intro name member
    obtain member | member := List.mem_append.mp member
    · exact named.only name member
    · obtain ⟨r, held, found⟩ := other.only name member
      exact ⟨r, among r held, found⟩

theorem later (extended : names.assigned <+: more.assigned) (named : NamesOf names rs xs) :
    NamesOf more rs xs := by
  constructor
  · intro r member
    obtain ⟨name, held, found⟩ := named.all r member
    exact ⟨name, held, lookup_extends extended found⟩
  · intro name member
    obtain ⟨r, held, found⟩ := named.only name member
    exact ⟨r, held, lookup_extends extended found⟩

theorem typeOf {t : ElementType} {k : KernelType} (found : names.typeOf t = .ok k) :
    NamesOf names t.record?.toList k.struct?.toList := by
  cases t with
  | leaf l =>
    have leaf := RecordNames.typeOf_leaf_ok.mp found
    cases l <;> cases leaf <;> exact none
  | record n fields =>
    obtain ⟨name, known, rfl⟩ := RecordNames.typeOf_record_ok.mp found
    exact one known

theorem storageOf {t : ElementType} {k : KernelType} (found : names.storageOf t = .ok k) :
    NamesOf names t.record?.toList k.struct?.toList := by
  unfold RecordNames.storageOf at found
  split at found
  · next truth =>
    cases found
    rw [truth]
    exact none
  · exact typeOf found

end NamesOf

theorem floatLiterals_structs {xs : List Single} {ts : List Term}
    (found : floatLiterals xs = .ok ts) : Term.structsAll ts = [] := by
  induction xs generalizing ts with
  | nil =>
    obtain rfl := Except.ok.inj found
    rfl
  | cons x xs ih =>
    obtain ⟨rest, _, others, rfl⟩ := floatLiterals_cons_ok found
    rw [Term.structsAll, Term.structs, ih others]
    rfl

namespace RecordNames

theorem literal_packed_names {names : RecordNames} {v : Value} {k : KernelType} {xs : List Single}
    {t : Term} (packed : names.literal v = do
      return .call (.type k) (← floatLiterals xs)) (plain : k.struct? = none)
    (found : names.literal v = .ok t) : NamesOf names [] t.structs := by
  obtain ⟨ts, cells, rfl⟩ := literal_packed_ok packed found
  rw [Term.structs, plain, floatLiterals_structs cells]
  exact .none

mutual
theorem literal_names {names : RecordNames} : ∀ (v : Value) {t : Term}, names.literal v = .ok t →
    NamesOf names v.constructed t.structs
  | .bool b, t, found => by
    obtain rfl := Except.ok.inj found
    exact .none
  | .i32 n, t, found => by
    obtain rfl := Except.ok.inj found
    exact .none
  | .u32 n, t, found => by
    obtain rfl := Except.ok.inj found
    exact .none
  | .f32 x, t, found => by
    obtain ⟨rfl, _⟩ := floatLiteral_ok found
    exact .none
  | .f64 x, t, found => by
    obtain ⟨rfl, _⟩ := floatLiteral_ok found
    exact .none
  | .vector2 v, t, found => literal_packed_names rfl rfl found
  | .vector3 v, t, found => literal_packed_names rfl rfl found
  | .vector4 v, t, found => literal_packed_names rfl rfl found
  | .matrix4x4 m, t, found => literal_packed_names rfl rfl found
  | .matrix3x2 m, t, found => literal_packed_names rfl rfl found
  | .record r values, t, found => by
    obtain ⟨counted, args, name, fields, known, rfl⟩ := literal_record_ok found
    exact (NamesOf.one known).append (fieldLiterals_names values counted fields)

theorem fieldLiterals_names {names : RecordNames} : ∀ (values : List Value) {node : String}
    {fields : List (String × ElementType)} {ts : List Term}, values.length = fields.length →
    fieldLiterals names node fields values = .ok ts →
    NamesOf names (Value.constructedAll values) (Term.structsAll ts)
  | [], _, _, ts, _, found => by
    obtain rfl := Except.ok.inj found
    exact .none
  | _ :: _, _, [], _, counted, _ => nomatch counted
  | v :: values, node, (field, u) :: fields, ts, counted, found => by
    obtain ⟨_, t, rest, first, others, rfl⟩ := fieldLiterals_cons_ok found
    exact (literal_names v first).append
      (fieldLiterals_names values (Nat.succ.inj counted) others)
end

end RecordNames

mutual
theorem translate_names {scope : Scope} : ∀ (e : Expr) {d f : Draft} {t : Term},
    translate scope e d = .ok (t, f) → NamesOf f.records e.constructed t.structs
  | .constant v, d, f, t, run => by
    obtain ⟨_, found⟩ := translate_constant_ok run
    exact RecordNames.literal_names v found
  | .parameter p, d, f, t, run => by
    obtain ⟨operand, _, rfl, _⟩ := translate_parameter_ok run
    have bare : operand.term.structs = [] := by
      unfold Operand.term
      split
      · rfl
      · split <;> rfl
    rw [bare]
    exact .none
  | .binary op l r u, d, f, t, run => by
    obtain ⟨_, first, second, c, rfl, ⟨_, run, run'⟩ | ⟨_, run, run'⟩⟩ := translate_binary_ok run
    · -- The right operand is written first; the names are the same in the other order.
      have inner := (translate_names r run).later (translate_grows run').records
      exact (inner.append (translate_names l run')).swap
    · have inner := (translate_names l run).later (translate_grows run').records
      exact inner.append (translate_names r run')
  | .negate e u, d, f, t, run => by
    obtain ⟨inner, inside, shape⟩ := translate_negate_ok run
    have named := translate_names e inside
    obtain ⟨_, rfl⟩ | ⟨_, rfl⟩ := shape <;> exact named
  | .convert tag e u, d, f, t, run => by
    obtain ⟨c, k, inner, _, scalar, typed, inside, rfl⟩ := translate_convert_ok run
    -- Only scalars are converted to, and these are no structs.
    have bare : k.struct? = none := by
      cases target : (c.overrides.lookup tag).getD u with
      | record n fields =>
        rw [target] at scalar
        exact absurd scalar Bool.false_ne_true
      | leaf l =>
        rw [target] at typed
        have leaf := RecordNames.typeOf_leaf_ok.mp typed
        cases l <;> cases leaf <;> rfl
    rw [Term.structs, bare, Term.structsAll, Term.structsAll, List.append_nil]
    exact translate_names e inside
  | .member e name u, d, f, t, run => by
    obtain ⟨_, _, _, _, c, inner, _, _, inside, rfl⟩ := translate_member_ok run
    have named := translate_names e inside
    split <;> exact named
  | .index a i u, d, f, t, run => by
    obtain ⟨_, _, c, inner, _, _, inside, rfl⟩ := translate_index_ok run
    have named := translate_names i inside
    split <;> exact named
  | .construct r args, d, f, t, run => by
    obtain ⟨_, k, c, terms, typed, inside, rfl⟩ := translate_construct_ok run
    have own := (NamesOf.typeOf (valueType_ok.mp typed).2).later (translateAll_grows inside).records
    exact own.append (translateAll_names args inside)
  | .call fn args u, d, f, t, run => by
    obtain ⟨c, terms, _, inside, rfl⟩ := translate_call_ok run
    exact translateAll_names args inside
  | .select .., _, _, _, run => (translate_query_ok (.inl rfl) run).elim
  | .zip .., _, _, _, run => (translate_query_ok (.inl rfl) run).elim
  | .array a, _, _, _, run => (translate_query_ok (.inr ⟨a, rfl⟩) run).elim

theorem translateAll_names {scope : Scope} : ∀ (es : List Expr) {d f : Draft} {ts : List Term},
    translateAll scope es d = .ok (ts, f) →
    NamesOf f.records (Expr.constructedAll es) (Term.structsAll ts)
  | [], _, _, _, run => by
    obtain ⟨rfl, _⟩ := pure_ok.mp run
    exact .none
  | e :: es, d, f, ts, run => by
    obtain ⟨head, tail, c, first, rest, rfl⟩ := translateAll_cons_ok run
    have own := (translate_names e first).later (translateAll_grows rest).records
    exact own.append (translateAll_names es rest)
end

theorem Emitted.names {before : List Expr} {node : Expr} {d e : Draft}
    (emitted : Emitted before node d e) :
    ∃ l body, node.body? = some body ∧ e.lets = d.lets ++ [l] ∧
      e.records.typeOf node.type = .ok l.type ∧ NamesOf e.records body.constructed l.value.structs := by
  have each : ∀ {tag : Tag} {params : List Parameter} {body : Expr} {inputs : List Operand}
      {o : Operand}, emit node tag params body inputs d = .ok (o, e) → ∃ l : Let,
      e.lets = d.lets ++ [l] ∧ e.records.typeOf body.type = .ok l.type ∧
        NamesOf e.records body.constructed l.value.structs := by
    intro tag params body inputs o run
    obtain ⟨_, k, b, value, c, typed, translated, _, rfl⟩ := emit_ok run
    obtain ⟨declared, known⟩ := valueType_ok.mp typed
    have grows := translate_grows translated
    have names := translate_names body translated
    refine ⟨⟨k, value⟩, ?_, RecordNames.typeOf_extends grows.records known, names⟩
    rw [grows.lets, (declare_grows declared).lets]
  cases emitted with
  | select _ run =>
    obtain ⟨l, held⟩ := each run
    exact ⟨l, _, rfl, held⟩
  | zip _ _ run =>
    obtain ⟨l, held⟩ := each run
    exact ⟨l, _, rfl, held⟩

theorem Traced.names {root : Expr} {nodes : List Expr} {d : Draft} (traced : Traced root nodes d)
    {k : Nat} {node : Expr} (known : nodes[k]? = some node) :
    ∃ l, d.lets[k]? = some l ∧
      NamesOf d.records (node.type.record?.toList ++ node.body?.toList.flatMap Expr.constructed)
        (l.type.struct?.toList ++ l.value.structs) := by
  obtain ⟨c, e, _, rfl, emitted, onward⟩ := traced.emitted k node known
  obtain ⟨l, body, bodied, lets, typed, names⟩ := emitted.names
  refine ⟨l, getElem?_extends onward.lets ?_, ?_⟩
  · rw [lets, List.getElem?_concat_length]
  · rw [bodied, Option.toList_some, List.flatMap_singleton]
    exact ((NamesOf.typeOf typed).append names).later onward.records

def charAt? (line : String) (column : Nat) : Option Char :=
  line.toList[column]?

theorem charAt_append {s : String} (t : String) {column : Nat} (inside : charAt? s column ≠ none) :
    charAt? (s ++ t) column = charAt? s column := by
  have within : column < s.toList.length :=
    lt_of_not_ge fun short => inside (List.getElem?_eq_none short)
  unfold charAt?
  rw [String.toList_append, List.getElem?_append_left within]

namespace Program

theorem sizeLine_start (p : Program) : charAt? p.sizeLine 0 = some 'c' := by
  unfold sizeLine
  rw [String.append_assoc]
  exact charAt_append _ (by decide)

theorem bufferLines_start (p : Program) : ∀ line ∈ p.bufferLines, charAt? line 0 = some '@' := by
  have start (slot : Nat) (element access : String) :
      charAt? (bufferLine slot element access) 0 = some '@' := by
    unfold bufferLine
    simp only [String.append_assoc]
    exact charAt_append _ (by decide)
  intro line member
  obtain member | member := List.mem_append.mp member
  · obtain ⟨i, _, rfl⟩ := List.mem_map.mp member
    exact start _ _ _
  · rw [List.mem_singleton.mp member]
    exact start _ _ _

theorem margin_start (inner : String) : charAt? ("    " ++ inner) 0 = some ' ' :=
  charAt_append _ (by decide)

theorem bodyLines_start (p : Program) : ∀ line ∈ p.bodyLines, charAt? line 0 = some ' ' := by
  intro line member
  obtain ⟨inner, _, rfl⟩ := List.mem_map.mp member
  exact margin_start inner

/-! ## Lines of structs -/

def isStructLine (line : String) : Bool :=
  "struct ".toList.isPrefixOf line.toList

theorem isStructLine_header (name : String) : isStructLine ("struct " ++ name ++ " \x7b") = true := by
  unfold isStructLine
  rw [List.isPrefixOf_iff_prefix]
  simp only [String.toList_append, List.append_assoc]
  exact List.prefix_append _ _

theorem not_isStructLine {line : String} {c : Char} (start : charAt? line 0 = some c)
    (other : c ≠ 's') : isStructLine line = false := by
  refine Bool.eq_false_iff.mpr fun struct => other ?_
  obtain ⟨rest, chars⟩ := List.isPrefixOf_iff_prefix.mp struct
  rw [charAt?, ← chars, List.getElem?_append_left (by decide)] at start
  exact (Option.some.inj start).symm

theorem filter_structLines {lines : List String} {c : Char}
    (start : ∀ line ∈ lines, charAt? line 0 = some c) (other : c ≠ 's') :
    lines.filter isStructLine = [] :=
  List.filter_eq_nil_iff.mpr fun line member =>
    Bool.eq_false_iff.mp (not_isStructLine (start line member) other)

theorem structLines_filter (s : Struct) :
    (structLines s).filter isStructLine = ["struct " ++ s.name ++ " \x7b"] := by
  have members : (s.fields.map fun f => "    " ++ (f.1 ++ ": " ++ f.2.text ++ ",")).filter isStructLine =
      [] := by
    refine filter_structLines (c := ' ') (fun line member => ?_) (by decide)
    obtain ⟨m, _, rfl⟩ := List.mem_map.mp member
    exact margin_start _
  have last : ["\x7d"].filter isStructLine = [] := by decide
  simp only [structLines, List.filter_append, List.filter_cons, isStructLine_header, if_true, members,
    last, List.append_nil]

/-- Structs are declared where the kernel lists them, and nowhere else. -/
theorem lines_structs (p : Program) : (p.lines ++ [""]).filter isStructLine =
    p.structs.map fun s => "struct " ++ s.name ++ " \x7b" := by
  have structs : (p.structs.flatMap structLines).filter isStructLine =
      p.structs.map fun s => "struct " ++ s.name ++ " \x7b" := by
    rw [List.filter_flatMap]
    simp only [structLines_filter]
    induction p.structs with
    | nil => rfl
    | cons s rest ih => rw [List.flatMap_cons, ih, List.map_cons, List.singleton_append]
  have entry : ∀ line ∈ entryLines p.outputSlot, isStructLine line = false := by
    intro line member
    simp only [entryLines, List.mem_cons, List.not_mem_nil, or_false] at member
    obtain rfl | rfl | rfl | rfl | rfl := member
    · decide
    · decide
    · refine not_isStructLine (c := ' ') ?_ (by decide)
      rw [String.append_assoc]
      exact charAt_append _ (by decide)
    · decide
    · decide
  have size : isStructLine p.sizeLine = false := not_isStructLine p.sizeLine_start (by decide)
  have body : ∀ line ∈ p.bodyLines, isStructLine line = false := fun line member =>
    not_isStructLine (p.bodyLines_start line member) (by decide)
  rw [p.filter_lines (by decide) size entry body (by decide), structs,
    filter_structLines p.bufferLines_start (by decide), List.append_nil]

end Program

def DeclaresAt (names : RecordNames) (structs : List Struct) (j : Nat) (r : RecordType) : Prop :=
  ∃ name s, names.assigned[j]? = some (r, name) ∧ structs[j]? = some s ∧ Declares names (r, name) s

theorem getElem?_forall₂ {α β : Type} {R : α → β → Prop} {xs : List α} {ys : List β}
    (each : List.Forall₂ R xs ys) {j : Nat} {x : α} (found : xs[j]? = some x) :
    ∃ y, ys[j]? = some y ∧ R x y := by
  induction each generalizing j with
  | nil => exact nomatch found
  | @cons x y _ _ first _ ih =>
    cases j with
    | zero =>
      obtain rfl := Option.some.inj found
      exact ⟨y, rfl, first⟩
    | succ j => exact ih found

section Places

variable {d : Draft} (arranged : Arranged d)
include arranged

theorem Arranged.declaresAt {j : Nat} {r : RecordType}
    (placed : d.records.assigned[j]?.map Prod.fst = some r) :
    DeclaresAt d.records d.structs j r := by
  obtain ⟨⟨_, name⟩, found, rfl⟩ := Option.map_eq_some_iff.mp placed
  obtain ⟨s, place, declares⟩ := getElem?_forall₂ arranged.structs found
  exact ⟨name, s, found, place, declares⟩

theorem Arranged.unique {i j : Nat} {r : RecordType} (first : DeclaresAt d.records d.structs i r)
    (second : DeclaresAt d.records d.structs j r) : i = j := by
  obtain ⟨_, _, found, _⟩ := first
  obtain ⟨_, _, found', _⟩ := second
  have same : (d.records.assigned.map Prod.fst)[i]? = (d.records.assigned.map Prod.fst)[j]? := by
    rw [List.getElem?_map, List.getElem?_map, found, found']
    rfl
  have inside : i < (d.records.assigned.map Prod.fst).length := by
    rw [List.length_map]
    exact (List.getElem?_eq_some_iff.mp found).1
  exact (List.getElem?_inj inside arranged.arranged.once).mp same

theorem Arranged.complete {r : RecordType} {name : String} (found : d.records.get? r = some name) :
    ∃! j, DeclaresAt d.records d.structs j r := by
  obtain ⟨j, place⟩ := List.getElem?_of_mem (RecordNames.get_assigned found)
  have placed : d.records.assigned[j]?.map Prod.fst = some r := by
    rw [place]
    rfl
  exact ⟨j, arranged.declaresAt placed, fun i other => arranged.unique other (arranged.declaresAt placed)⟩

theorem Arranged.fields {j : Nat} {r s : RecordType} (declared : DeclaresAt d.records d.structs j r)
    {field : String × ElementType} (member : field ∈ r.fields) (same : field.2 = s.type) :
    ∃ i < j, DeclaresAt d.records d.structs i s := by
  obtain ⟨_, _, found, _⟩ := declared
  have placed : d.records.assigned[j]?.map Prod.fst = some r := by
    rw [found]
    rfl
  obtain ⟨i, before, place⟩ := arranged.arranged.inside j r placed field member s same
  exact ⟨i, before, arranged.declaresAt place⟩

theorem Arranged.plain {j : Nat} {r : RecordType} (declared : DeclaresAt d.records d.structs j r) :
    ∀ l ∈ r.type.leaves, l ≠ .bool ∧ l ≠ .f64 := by
  obtain ⟨_, _, found, _⟩ := declared
  exact arranged.arranged.spellable _ (List.mem_of_getElem? found)

theorem Arranged.each {j : Nat} {s : Struct} (found : d.structs[j]? = some s) :
    ∃ r, DeclaresAt d.records d.structs j r := by
  obtain ⟨named, place, _⟩ := getElem?_forall₂ arranged.structs.flip found
  refine ⟨named.1, arranged.declaresAt ?_⟩
  rw [place]
  rfl

theorem Arranged.named_before {j : Nat} {r s : RecordType} (declared : DeclaresAt d.records d.structs j r)
    {field : String × ElementType} (member : field ∈ r.fields) (same : field.2 = s.type) {name : String}
    (named : d.records.get? s = some name) : ∃ i < j, d.records.assigned[i]? = some (s, name) := by
  obtain ⟨i, before, inner⟩ := arranged.fields declared member same
  -- The place of the name is the one before, since a record has one place only.
  obtain ⟨k, entry⟩ := List.getElem?_of_mem (RecordNames.get_assigned named)
  have outer : DeclaresAt d.records d.structs k s := arranged.declaresAt (by rw [entry]; rfl)
  obtain rfl := arranged.unique inner outer
  exact ⟨i, before, entry⟩

theorem Arranged.members {j : Nat} {s : Struct} (found : d.structs[j]? = some s)
    {m : String × KernelType} (member : m ∈ s.fields) {name : String} (type : m.2 = .struct name) :
    ∃ i < j, d.structs[i]?.map Struct.name = some name := by
  obtain ⟨r, declared⟩ := arranged.each found
  have ⟨_, _, _, place, declares⟩ := declared
  obtain rfl := Option.some.inj (found.symm.trans place)
  obtain ⟨field, held, _, known⟩ := exists_of_forall₂ declares.members member
  obtain ⟨f, t⟩ := field
  cases t with
  | leaf l =>
    have leaf := RecordNames.typeOf_leaf_ok.mp known
    rw [type] at leaf
    cases l <;> cases leaf
  | record n fields =>
    obtain ⟨name', named, same⟩ := RecordNames.typeOf_record_ok.mp known
    obtain rfl := KernelType.struct.inj (type.symm.trans same)
    obtain ⟨i, before, entry⟩ := arranged.named_before declared held rfl named
    obtain ⟨t, found', declares'⟩ := getElem?_forall₂ arranged.structs entry
    exact ⟨i, before, by rw [found', Option.map_some, declares'.name]⟩

end Places

section Compiled

variable {root : Expr} {workgroupSize : Nat} {p : Program}

theorem compile_arranged (faithful : root.Faithful) (compiled : compile workgroupSize root = .ok p) :
    ∃ nodes d, Traced root nodes d ∧ (∀ q, q ∈ nodes ↔ q ∈ root.queries) ∧ Arranged d ∧
      root ∈ root.queries ∧ d.records.storageOf root.type = .ok p.storage ∧
      p.structs = d.structs ∧ p.inputs = d.inputs ∧ p.lets = d.lets := by
  obtain ⟨result, storage, d, rooted, rfl⟩ := compile_ok compiled
  obtain ⟨nodes, _, _, _, _, _, traced, all, last, stored, _⟩ := root_traced faithful rooted
  exact ⟨nodes, d, traced, all, root_arranged rooted, (all root).mp (List.mem_of_getLast? last), stored,
    rfl, rfl, rfl⟩

/-- The records that a query names are those whose structs its kernel names. -/
theorem compile_names (faithful : root.Faithful) (compiled : compile workgroupSize root = .ok p) :
    ∃ d, Arranged d ∧ p.structs = d.structs ∧ NamesOf d.records root.schemas p.valueStructs := by
  obtain ⟨_, bound⟩ := compile_bound faithful compiled
  obtain ⟨nodes, d, traced, all, arranged, own, stored, structs, inputs, lets⟩ :=
    compile_arranged faithful compiled
  -- The operators go with the statements place by place, and the arrays with the inputs.
  have values : NamesOf d.records
      (root.queries.flatMap fun q => q.type.record?.toList ++ q.body?.toList.flatMap Expr.constructed)
      (p.lets.flatMap fun l => l.type.struct?.toList ++ l.value.structs) := by
    rw [lets]
    refine .flatMap (fun q query => ?_) (fun l inside => ?_)
    · obtain ⟨k, place⟩ := List.getElem?_of_mem ((all q).mpr query)
      obtain ⟨l, found, named⟩ := traced.names place
      exact ⟨l, List.mem_of_getElem? found, named⟩
    · obtain ⟨k, found⟩ := List.getElem?_of_mem inside
      have within : k < nodes.length := traced.length ▸ (List.getElem?_eq_some_iff.mp found).1
      obtain ⟨l', found', named⟩ := traced.names (List.getElem?_eq_getElem within)
      obtain rfl := Option.some.inj (found.symm.trans found')
      exact ⟨nodes[k], (all _).mp (List.getElem_mem within), named⟩
  have buffers : NamesOf d.records (root.bound.filterMap fun a => a.data.element.record?)
      (p.inputs.filterMap fun i => i.storage.struct?) := by
    have storage : ∀ i ∈ p.inputs, NamesOf d.records i.shared.data.element.record?.toList
        i.storage.struct?.toList := fun i member =>
      .storageOf (arranged.storage i (inputs ▸ member))
    rw [List.filterMap_eq_flatMap_toList, List.filterMap_eq_flatMap_toList]
    refine .flatMap (fun a used => ?_) (fun i member => ?_)
    · obtain ⟨i, member, rfl⟩ := List.mem_map.mp ((bound a).mpr used)
      exact ⟨i, member, storage i member⟩
    · exact ⟨i.shared, (bound _).mp (List.mem_map_of_mem member), storage i member⟩
  refine ⟨d, arranged, structs, (values.append buffers).again (.storageOf stored) fun r member => ?_⟩
  exact List.mem_append_left _ (List.mem_flatMap.mpr ⟨root, own, List.mem_append_left _ member⟩)

/-- Whether the structs of a kernel are those that its query needs. -/
structure HasStructs (root : Expr) (p : Program) (names : RecordNames) : Prop where
  /-- The kernel names the records that the query needs. -/
  named : NamesOf names root.schemas p.valueStructs
  /-- Each of them is declared by one struct. -/
  complete : ∀ r ∈ root.schemas, ∃! j, DeclaresAt names p.structs j r
  /-- So are the records inside a declared one, and before it. -/
  fields : ∀ j r, DeclaresAt names p.structs j r → ∀ field ∈ r.fields, ∀ s : RecordType,
    field.2 = s.type → ∃ i < j, DeclaresAt names p.structs i s ∧
      ∀ k, DeclaresAt names p.structs k s → k = i
  each : ∀ j s, p.structs[j]? = some s → ∃ r, DeclaresAt names p.structs j r
  distinct : (p.structs.map Struct.name).Nodup
  plain : ∀ j r, DeclaresAt names p.structs j r → ∀ l ∈ r.type.leaves, l ≠ .bool ∧ l ≠ .f64
  members : ∀ (j : Nat) (s : Struct), p.structs[j]? = some s → ∀ m ∈ s.fields, ∀ name, m.2 = .struct name →
    ∃ i < j, p.structs[i]?.map Struct.name = some name
  mentioned : ∀ name ∈ p.structNames, (p.structs.filter (·.name == name)).length = 1
  lines : (readLines p.text).filter Program.isStructLine =
    p.structs.map fun s => "struct " ++ s.name ++ " \x7b"

/-- The structs of a compiled query are complete, each is declared once, and after those of its members;
and no truth value and no double-precision number is in any of them. -/
theorem compile_structs (faithful : root.Faithful) (compiled : compile workgroupSize root = .ok p) :
    ∃ names, HasStructs root p names := by
  obtain ⟨d, arranged, structs, named⟩ := compile_names faithful compiled
  have distinct : (d.structs.map Struct.name).Nodup := by
    rw [arranged.taken]
    exact arranged.distinct.nodup
  have declared : ∀ s ∈ d.structs, (d.structs.filter (·.name == s.name)).length = 1 := by
    intro s member
    rw [filter_named distinct member]
    rfl
  refine ⟨d.records, named, ?_, ?_, ?_, ?_, ?_, ?_, ?_, ?_⟩
  all_goals rw [structs]
  · intro r member
    obtain ⟨name, _, found⟩ := named.all r member
    exact arranged.complete found
  · intro j r outer field member s same
    obtain ⟨i, before, inner⟩ := arranged.fields outer member same
    exact ⟨i, before, inner, fun k other => arranged.unique other inner⟩
  · intro j s found
    exact arranged.each found
  · exact distinct
  · intro j r found
    exact arranged.plain found
  · intro j s found m member name type
    exact arranged.members found member type
  · intro name member
    obtain member | member := List.mem_append.mp member
    · obtain ⟨r, _, found⟩ := named.only name member
      obtain ⟨s, held, declares⟩ := exists_of_forall₂ arranged.structs.flip
        (RecordNames.get_assigned found)
      have counted := declared s held
      rwa [declares.name] at counted
    · obtain ⟨s, held, member⟩ := List.mem_flatMap.mp member
      obtain ⟨m, inside, type⟩ := List.mem_filterMap.mp member
      obtain ⟨j, found⟩ := List.getElem?_of_mem (structs ▸ held)
      have struct : m.2 = .struct name := by
        cases spelled : m.2 <;> rw [spelled] at type <;> cases type
        rfl
      obtain ⟨i, _, place⟩ := arranged.members found inside struct
      obtain ⟨t, found', rfl⟩ := Option.map_eq_some_iff.mp place
      exact declared t (List.mem_of_getElem? found')
  · rw [Program.readLines_text (compile_spelled faithful compiled), Program.lines_structs, structs]

end Compiled

def pointRecord : RecordType := ⟨"Pair", [("x", .f32), ("y", .f32)]⟩

/-- A record with the name of the records inside it, but for its case. -/
def spanRecord : RecordType := ⟨"pair", [("from", pointRecord.type), ("to", pointRecord.type)]⟩

def spanQuery : Expr :=
  let values : SharedArray := ⟨1, .ofList [(5 : UInt32), 7, 9]⟩
  let n : Parameter := ⟨"n", .u32⟩
  let x := Expr.convert 3 (.parameter n) .f32
  let origin := Expr.constant (.record pointRecord [.f32 (.mk 0), .f32 (.mk 0)])
  .select 2 (.array values) [n] (.construct spanRecord [origin, .construct pointRecord [x, x]])

theorem spanQuery_structs : ∃ p names, compile 64 spanQuery = .ok p ∧ p.structs.length = 2 ∧
    HasStructs spanQuery p names := by
  have faithful : spanQuery.Faithful := by
    constructor <;>
    · simp [spanQuery, Expr.queries, Expr.arrays, Expr.arraysAll, Expr.stepTag?]
  have compiled : compile 64 spanQuery = .ok _ := rfl
  obtain ⟨names, structs⟩ := compile_structs faithful compiled
  exact ⟨_, names, compiled, rfl, structs⟩

end Kernel
end ArrayQuery
