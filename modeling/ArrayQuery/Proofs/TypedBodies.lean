import ArrayQuery.Proofs.TypedTerms

/-! Bodies whose nodes carry the types that the host gives them are translated to well-typed kernel
expressions, whatever the bodies before them were. -/

set_option autoImplicit false
namespace ArrayQuery

namespace Expr

mutual
/-- Whether each node has its type from its operands, and each parameter that of its variable. -/
def IsHostTyped (scope : Kernel.Scope) : Expr → Prop
  | constant v => v.IsFormed
  | parameter p => ∀ o, scope.lookup p.name = some o → p.type = o.type
  | binary _ l r t => t = Kernel.operatorType l.type r.type ∧ l.IsHostTyped scope ∧
    r.IsHostTyped scope
  | negate e t => t = e.type ∧ e.IsHostTyped scope
  | convert _ e t => e.type.isScalar = true ∧ t.isScalar = true ∧ e.IsHostTyped scope
  | member e name t => e.type.member? name = some t ∧ e.IsHostTyped scope
  | index a i t => (∃ source, a = array source) ∧ a.type = t ∧ i.type = .u32 ∧ i.IsHostTyped scope
  | construct r args => args.map type = r.fields.map Prod.snd ∧ AreHostTyped scope args
  | call _ args _ => AreHostTyped scope args
  | _ => True

def AreHostTyped (scope : Kernel.Scope) : List Expr → Prop
  | [] => True
  | e :: rest => e.IsHostTyped scope ∧ AreHostTyped scope rest
end

mutual
def IsCallFree : Expr → Prop
  | binary _ l r _ => l.IsCallFree ∧ r.IsCallFree
  | negate e _ | convert _ e _ | member e _ _ | index _ e _ => e.IsCallFree
  | construct _ args => AreCallFree args
  | call .. => False
  | _ => True

def AreCallFree : List Expr → Prop
  | [] => True
  | e :: rest => e.IsCallFree ∧ AreCallFree rest
end

mutual
def types : Expr → List ElementType
  | binary _ l r t => t :: (l.types ++ r.types)
  | negate e t | convert _ e t | member e _ t => t :: e.types
  | index a i t => t :: (a.types ++ i.types)
  | construct r args => r.type :: typesAll args
  | call _ args t => t :: typesAll args
  | constant v => [v.type]
  | array a => [a.data.element]
  | parameter p => [p.type]
  | select _ _ _ body | zip _ _ _ _ body => [body.type]

def typesAll : List Expr → List ElementType
  | [] => []
  | e :: rest => e.types ++ typesAll rest
end

def HasStructs (e : Expr) : Prop :=
  ∀ t ∈ e.types, ∀ r ∈ t.records, r.IsStruct

/-- The type that a body has in a kernel: double-precision literals are held in single precision. -/
def kernelType : Expr → ElementType
  | constant v => v.kernelType
  | e => e.type

theorem kernelType_eq {e : Expr} (single : e.type ≠ .f64) : e.kernelType = e.type := by
  cases e with
  | constant v => exact Value.kernelType_eq single
  | _ => rfl

theorem type_mem (e : Expr) : e.type ∈ e.types := by
  cases e <;> exact List.mem_cons_self

/-- The bodies of a query, those of shared operators once for each use. -/
def lambdas : Expr → List Expr
  | select _ source _ body => body :: source.lambdas
  | zip _ first second _ body => body :: (first.lambdas ++ second.lambdas)
  | _ => []

end Expr

namespace Kernel

open Compile

theorem overrides_kept :
    Kept (fun d e => e.overrides = d.overrides) (fun _ => False) fun _ => True where
  refl _ := rfl
  trans first second := second.trans first
  declared node t d _ e run := (declare_frame node t d () e run).2
  bound _ _ _ _ _ _ run := bindArray_overrides run
  overridden _ _ known := known.elim

theorem overrideWrapper_free {tag : Tag} {t : ElementType} {e : Expr} {d c : Draft}
    (free : e.IsCallFree) (run : overrideWrapper tag t e d = .ok ((), c)) : c = d := by
  cases e with
  | call fn args u => exact free.elim
  | _ =>
    obtain ⟨_, rfl⟩ := pure_ok.mp run
    rfl

mutual
theorem translate_overrides {scope : Scope} : ∀ (e : Expr) {d f : Draft} {t : Term}, e.IsCallFree →
    translate scope e d = .ok (t, f) → f.overrides = d.overrides
  | .constant v, d, f, t, _, run =>
    (declare_frame _ _ d () f (translate_constant_ok run).1).2
  | .parameter p, _, _, _, _, run => by
    obtain ⟨_, _, _, rfl⟩ := translate_parameter_ok run
    rfl
  | .binary op l r u, d, f, t, free, run => by
    obtain ⟨_, first, second, c, _, ⟨_, run, run'⟩ | ⟨_, run, run'⟩⟩ := translate_binary_ok run
    · exact (translate_overrides l free.1 run').trans (translate_overrides r free.2 run)
    · exact (translate_overrides r free.2 run').trans (translate_overrides l free.1 run)
  | .negate e u, d, f, t, free, run => by
    obtain ⟨inner, run, _⟩ := translate_negate_ok run
    exact translate_overrides e free run
  | .convert tag e u, d, f, t, free, run => by
    obtain ⟨c, _, inner, wrapped, _, _, inside, _⟩ := translate_convert_ok run
    have operand : e.IsCallFree := free
    obtain rfl := overrideWrapper_free operand wrapped
    exact translate_overrides e operand inside
  | .member e name u, d, f, t, free, run => by
    obtain ⟨container, access, v, b, c, inner, chain, followed, run, _⟩ := translate_member_ok run
    exact (translate_overrides e free run).trans (reached_keeps overrides_kept chain followed)
  | .index a i u, d, f, t, free, run => by
    obtain ⟨source, slot, c, inner, _, bound, run, _⟩ := translate_index_ok run
    exact (translate_overrides i free run).trans (bindArray_overrides bound)
  | .construct r args, d, f, t, free, run => by
    obtain ⟨_, k, c, terms, typed, run, _⟩ := translate_construct_ok run
    rw [translateAll_overrides args free run]
    exact (declare_frame _ _ d () c (valueType_ok.mp typed).1).2
  | .select .., _, _, _, _, run => (translate_query_ok (.inl rfl) run).elim
  | .zip .., _, _, _, _, run => (translate_query_ok (.inl rfl) run).elim
  | .array a, _, _, _, _, run => (translate_query_ok (.inr ⟨a, rfl⟩) run).elim

theorem translateAll_overrides {scope : Scope} : ∀ (es : List Expr) {d f : Draft} {ts : List Term},
    Expr.AreCallFree es → translateAll scope es d = .ok (ts, f) → f.overrides = d.overrides
  | [], _, _, _, _, run => by
    obtain ⟨_, rfl⟩ := pure_ok.mp run
    rfl
  | e :: es, d, f, ts, free, run => by
    obtain ⟨head, tail, c, first, rest, _⟩ := translateAll_cons_ok run
    exact (translateAll_overrides es free.2 rest).trans (translate_overrides e free.1 first)
end

/-- What does not change while bodies are translated: names stand for what is declared, bound inputs
are the arrays that they have the tags of, and the given conversions have their own types. -/
structure Steady (known : List SharedArray) (tags : List Tag) (d : Draft) : Prop where
  sound : Sound d
  agreed : Agreed known d.inputs
  plain : ∀ tag ∈ tags, d.overrides.lookup tag = none

section Steadiness

variable {known : List SharedArray} {tags : List Tag}
  (faithful : ∀ a ∈ known, ∀ b ∈ known, a.tag = b.tag → a = b)
include faithful

theorem steady_kept : Kept (fun d e => Steady known tags d → Steady known tags e) (· ∉ tags)
    (· ∈ known) where
  toStable := stable_invariant _
  declared node t d _ e run steady := by
    obtain ⟨inputs, overrides⟩ := declare_frame node t d () e run
    refine ⟨declare_sound node t steady.sound run, ?_, ?_⟩
    · rw [inputs]
      exact steady.agreed
    · rw [overrides]
      exact steady.plain
  bound node a member d slot e run steady := by
    obtain ⟨_, agreed⟩ := bindArray_slot faithful member steady.agreed run
    refine ⟨bindArray_sound steady.sound run, agreed, ?_⟩
    rw [bindArray_overrides run]
    exact steady.plain
  overridden tag t other d _ e run steady := by
    obtain rfl := modify_ok.mp run
    obtain ⟨sound, agreed, plain⟩ := steady
    refine ⟨⟨sound.distinct, sound.structs, sound.storage, sound.steps⟩, agreed, ?_⟩
    intro tag' member
    have apart : (tag' == tag) = false := by
      refine beq_eq_false_iff_ne.mpr ?_
      rintro rfl
      exact other member
    simp only [List.lookup_cons, apart]
    exact plain tag' member

theorem Steady.translate_free {scope : Scope} {e : Expr} {d f : Draft} {t : Term}
    (steady : Steady known tags d) (within : ∀ a ∈ e.arrays, a ∈ known) (free : e.IsCallFree)
    (run : translate scope e d = .ok (t, f)) : Steady known tags f := by
  have kept := translate_keeps (@steady_kept known [] faithful) scope e
    (fun _ _ => List.not_mem_nil) within d t f run
  obtain ⟨sound, agreed, _⟩ := kept ⟨steady.sound, steady.agreed, nofun⟩
  refine ⟨sound, agreed, ?_⟩
  rw [translate_overrides e free run]
  exact steady.plain

end Steadiness

theorem valid_later {scope : Scope} {d e : Draft} (later : Later d e)
    (valid : ∀ p ∈ scope, p.2.IsValid d) : ∀ p ∈ scope, p.2.IsValid e :=
  fun p member => (valid p member).later later

theorem chainType_type {node : Expr} {scope : Scope} : ∀ (e : Expr) {d c : Draft} {t : ElementType},
    e.IsHostTyped scope → chainType node e d = .ok (t, c) → t = e.type
  | .member target name u, d, c, t, typed, run => by
    obtain ⟨container, a, b, chain, followed⟩ := chainType_member_ok run
    obtain rfl := chainType_type target typed.2 chain
    obtain ⟨_, found, _⟩ := follow_ok followed
    exact Option.some.inj (found.symm.trans typed.1)
  | .constant _, _, _, _, _, run | .array _, _, _, _, _, run | .parameter _, _, _, _, _, run
  | .select .., _, _, _, _, run | .zip .., _, _, _, _, run | .binary .., _, _, _, _, run
  | .negate .., _, _, _, _, run | .convert .., _, _, _, _, run | .index .., _, _, _, _, run
  | .construct .., _, _, _, _, run | .call .., _, _, _, _, run => by
    obtain ⟨rfl, _⟩ := pure_ok.mp run
    rfl

theorem member_single {t u : ElementType} {name : String} (found : t.member? name = some u) :
    t ≠ .f64 := by
  rintro rfl
  simp [ElementType.member?, Leaf.isMatrix, Leaf.components] at found

theorem signed_single {t : ElementType} (signed : t = .i32 ∨ t = .f32 ∨ t.isVector = true) :
    t ≠ .f64 := by
  rintro rfl
  simp [ElementType.isVector, Leaf.isVector] at signed

/-! ## Bodies of the host -/

/-- Whether a body without calls is typed as the host types it, refers to known arrays, and has no
conversions but the given ones. -/
structure Admitted (known : List SharedArray) (tags : List Tag) (scope : Scope) (e : Expr) : Prop where
  typed : e.IsHostTyped scope
  free : e.IsCallFree
  structs : e.HasStructs
  arrays : ∀ a ∈ e.arrays, a ∈ known
  conversions : ∀ tag ∈ e.conversions, tag ∈ tags

structure AllAdmitted (known : List SharedArray) (tags : List Tag) (scope : Scope)
    (es : List Expr) : Prop where
  typed : Expr.AreHostTyped scope es
  free : Expr.AreCallFree es
  structs : ∀ t ∈ Expr.typesAll es, ∀ r ∈ t.records, r.IsStruct
  arrays : ∀ a ∈ Expr.arraysAll es, a ∈ known
  conversions : ∀ tag ∈ Expr.conversionsAll es, tag ∈ tags

section Admission

variable {known : List SharedArray} {tags : List Tag} {scope : Scope}

theorem Admitted.left {op : BinaryOp} {l r : Expr} {t : ElementType}
    (admitted : Admitted known tags scope (.binary op l r t)) : Admitted known tags scope l where
  typed := admitted.typed.2.1
  free := admitted.free.1
  structs u member := admitted.structs u (List.mem_cons_of_mem _ (List.mem_append_left _ member))
  arrays a member := admitted.arrays a (List.mem_append_left _ member)
  conversions tag member := admitted.conversions tag (List.mem_append_left _ member)

theorem Admitted.right {op : BinaryOp} {l r : Expr} {t : ElementType}
    (admitted : Admitted known tags scope (.binary op l r t)) : Admitted known tags scope r where
  typed := admitted.typed.2.2
  free := admitted.free.2
  structs u member := admitted.structs u (List.mem_cons_of_mem _ (List.mem_append_right _ member))
  arrays a member := admitted.arrays a (List.mem_append_right _ member)
  conversions tag member := admitted.conversions tag (List.mem_append_right _ member)

theorem Admitted.negated {e : Expr} {t : ElementType}
    (admitted : Admitted known tags scope (.negate e t)) : Admitted known tags scope e where
  typed := admitted.typed.2
  free := admitted.free
  structs u member := admitted.structs u (List.mem_cons_of_mem _ member)
  arrays := admitted.arrays
  conversions := admitted.conversions

theorem Admitted.converted {tag : Tag} {e : Expr} {t : ElementType}
    (admitted : Admitted known tags scope (.convert tag e t)) : Admitted known tags scope e where
  typed := admitted.typed.2.2
  free := admitted.free
  structs u member := admitted.structs u (List.mem_cons_of_mem _ member)
  arrays := admitted.arrays
  conversions tag member := admitted.conversions tag (List.mem_cons_of_mem _ member)

theorem Admitted.target {e : Expr} {name : String} {t : ElementType}
    (admitted : Admitted known tags scope (.member e name t)) : Admitted known tags scope e where
  typed := admitted.typed.2
  free := admitted.free
  structs u member := admitted.structs u (List.mem_cons_of_mem _ member)
  arrays := admitted.arrays
  conversions := admitted.conversions

theorem Admitted.position {a i : Expr} {t : ElementType}
    (admitted : Admitted known tags scope (.index a i t)) : Admitted known tags scope i where
  typed := admitted.typed.2.2.2
  free := admitted.free
  structs u member := admitted.structs u (List.mem_cons_of_mem _ (List.mem_append_right _ member))
  arrays b member := admitted.arrays b (List.mem_append_right _ member)
  conversions := admitted.conversions

theorem Admitted.args {r : RecordType} {args : List Expr}
    (admitted : Admitted known tags scope (.construct r args)) :
    AllAdmitted known tags scope args where
  typed := admitted.typed.2
  free := admitted.free
  structs u member := admitted.structs u (List.mem_cons_of_mem _ member)
  arrays := admitted.arrays
  conversions := admitted.conversions

theorem AllAdmitted.head {e : Expr} {es : List Expr}
    (admitted : AllAdmitted known tags scope (e :: es)) : Admitted known tags scope e where
  typed := admitted.typed.1
  free := admitted.free.1
  structs u member := admitted.structs u (List.mem_append_left _ member)
  arrays a member := admitted.arrays a (List.mem_append_left _ member)
  conversions tag member := admitted.conversions tag (List.mem_append_left _ member)

theorem AllAdmitted.tail {e : Expr} {es : List Expr}
    (admitted : AllAdmitted known tags scope (e :: es)) : AllAdmitted known tags scope es where
  typed := admitted.typed.2
  free := admitted.free.2
  structs u member := admitted.structs u (List.mem_append_right _ member)
  arrays a member := admitted.arrays a (List.mem_append_right _ member)
  conversions tag member := admitted.conversions tag (List.mem_append_right _ member)

end Admission

structure Supplied (known : List SharedArray) (tags : List Tag) (scope : Scope) (d : Draft) :
    Prop extends Steady known tags d where
  valid : ∀ p ∈ scope, p.2.IsValid d

theorem matrix_single {t : ElementType} (matrix : t.isMatrix = true) : t ≠ .f64 := by
  rintro rfl
  exact absurd matrix (by decide)

theorem kernelType_scalar {e : Expr} (scalar : e.type.isScalar = true) :
    e.kernelType.isScalar = true := by
  by_cases double : e.type = .f64
  · cases e with
    | constant v =>
      cases v with
      | f64 x => rfl
      | _ => exact scalar
    | _ => exact scalar
  · rwa [Expr.kernelType_eq double]

theorem HasType.grouped {d : Draft} {t : ElementType} {e : Form} (typed : HasType d t e) :
    HasType d t (.paren e) := by
  obtain ⟨k, known, spelled⟩ := typed
  exact ⟨k, known, by rw [Form.type?, spelled]⟩

theorem translateAll_sound {scope : Scope} {es : List Expr} {d e : Draft} {ts : List Term}
    (run : translateAll scope es d = .ok (ts, e)) : Sound d → Sound e :=
  translateAll_keeps sound_kept scope es (fun _ _ => trivial) (fun _ _ => trivial) d ts e run

theorem translateAll_grows {scope : Scope} {es : List Expr} {d e : Draft} {ts : List Term}
    (run : translateAll scope es d = .ok (ts, e)) : Grows d e :=
  translateAll_keeps grows_kept scope es (fun _ _ => trivial) (fun _ _ => trivial) d ts e run

section Bodies

variable {known : List SharedArray} {tags : List Tag}
  (faithful : ∀ a ∈ known, ∀ b ∈ known, a.tag = b.tag → a = b) {scope : Scope}
include faithful

theorem supplied_kept : Kept (fun d e => Supplied known tags scope d → Supplied known tags scope e)
    (· ∉ tags) (· ∈ known) where
  toStable := stable_invariant _
  declared node t d u e run supplied :=
    ⟨(steady_kept faithful).declared node t d u e run supplied.toSteady,
      valid_later (grows_kept.declared node t d u e run).later supplied.valid⟩
  bound node a member d slot e run supplied :=
    ⟨(steady_kept faithful).bound node a member d slot e run supplied.toSteady,
      valid_later (grows_kept.bound node a trivial d slot e run).later supplied.valid⟩
  overridden tag t other d u e run supplied :=
    ⟨(steady_kept faithful).overridden tag t other d u e run supplied.toSteady,
      valid_later (grows_kept.overridden tag t trivial d u e run).later supplied.valid⟩

theorem Supplied.translated {e : Expr} {d f : Draft} {t : Term}
    (supplied : Supplied known tags scope d) (admitted : Admitted known tags scope e)
    (run : translate scope e d = .ok (t, f)) : Supplied known tags scope f where
  toSteady := supplied.toSteady.translate_free faithful admitted.arrays admitted.free run
  valid := valid_later (translate_grows run).later supplied.valid

omit faithful in
theorem HasType.translated {e : Expr} {d f : Draft} {t : Term} {u : ElementType} {x : Form}
    (typed : HasType d u x) (sound : Sound d) (run : translate scope e d = .ok (t, f)) :
    HasType f u x :=
  typed.later sound (translate_sound run sound) (translate_grows run).later

mutual
theorem translate_typed : ∀ (e : Expr) {d f : Draft} {t : Term}, Admitted known tags scope e →
    Supplied known tags scope d → translate scope e d = .ok (t, f) →
    HasType f e.kernelType t.form
  | .constant v, d, f, t, admitted, supplied, run => by
    obtain ⟨declared, found⟩ := translate_constant_ok run
    have sound := declare_sound _ _ supplied.sound declared
    exact literal_typed sound v t admitted.typed (admitted.structs v.type List.mem_cons_self) found
  | .parameter p, d, f, t, admitted, supplied, run => by
    obtain ⟨operand, found, rfl, rfl⟩ := translate_parameter_ok run
    have member : (p.name, operand) ∈ scope := mem_of_lookup found
    have same : p.type = operand.type := admitted.typed operand found
    have typed := operand_typed supplied.sound (supplied.valid _ member)
    rw [← same] at typed
    exact typed
  | .binary op l r u, d, f, t, admitted, supplied, run => by
    obtain ⟨rfl, _⟩ := admitted.typed
    obtain ⟨defined, first, second, c, rfl, ⟨rfl, run₁, run₂⟩ | ⟨other, run₁, run₂⟩⟩ :=
      translate_binary_ok run
    · -- The right operand is translated before the left one, and written before it.
      have supplied' := supplied.translated faithful admitted.right run₁
      have right := (translate_typed r admitted.right supplied run₁).translated supplied'.sound run₂
      have left := translate_typed l admitted.left supplied' run₂
      rw [Expr.kernelType_eq (operator_single defined).2] at right
      rw [Expr.kernelType_eq (operator_single defined).1] at left
      exact type?_operator defined left right
    · have supplied' := supplied.translated faithful admitted.left run₁
      have left := (translate_typed l admitted.left supplied run₁).translated supplied'.sound run₂
      have right := translate_typed r admitted.right supplied' run₂
      rw [Expr.kernelType_eq (operator_single defined).1] at left
      rw [Expr.kernelType_eq (operator_single defined).2] at right
      have typed := type?_operator defined left right
      rw [if_neg other] at typed
      exact typed
  | .negate e u, d, f, t, admitted, supplied, run => by
    obtain ⟨rfl, _⟩ := admitted.typed
    obtain ⟨inner, inside, ⟨signed, rfl⟩ | ⟨matrix, rfl⟩⟩ := translate_negate_ok run
    · have typed := translate_typed e admitted.negated supplied inside
      rw [Expr.kernelType_eq (signed_single signed)] at typed
      exact type?_opposite signed typed
    · have typed := translate_typed e admitted.negated supplied inside
      rw [Expr.kernelType_eq (matrix_single matrix)] at typed
      exact type?_scaled matrix typed
  | .convert tag e u, d, f, t, admitted, supplied, run => by
    obtain ⟨scalar, scalar', _⟩ := admitted.typed
    obtain ⟨c, k, inner, wrapped, _, known, inside, rfl⟩ := translate_convert_ok run
    -- Without calls, no conversion has another type than its own.
    obtain rfl := overrideWrapper_free admitted.converted.free wrapped
    rw [supplied.plain tag (admitted.conversions tag List.mem_cons_self), Option.getD_none] at known
    have typed := translate_typed e admitted.converted supplied inside
    exact type?_converted scalar' (kernelType_scalar scalar)
      (RecordNames.typeOf_extends (translate_grows inside).records known) typed
  | .member e name u, d, f, t, admitted, supplied, run => by
    obtain ⟨found, _⟩ := admitted.typed
    obtain ⟨container, access, v, b, c, inner, chain, followed, inside, rfl⟩ :=
      translate_member_ok run
    have kept := @supplied_kept known tags faithful scope
    have supplied' := reached_keeps kept chain followed supplied
    obtain rfl := chainType_type e admitted.target.typed chain
    have typed := translate_typed e admitted.target supplied' inside
    rw [Expr.kernelType_eq (member_single found)] at typed
    have sound := translate_sound inside supplied'.sound
    have structs := admitted.structs e.type (List.mem_cons_of_mem _ e.type_mem)
    obtain ⟨accessed, _⟩ := follow_ok followed
    split
    · exact access_typed sound structs accessed found typed
    · exact access_typed sound structs accessed found typed.grouped
  | .index a i u, d, f, t, admitted, supplied, run => by
    obtain ⟨source, slot, c, inner, rfl, bound, inside, rfl⟩ := translate_index_ok run
    obtain ⟨_, rfl, unsigned, _⟩ := admitted.typed
    have member := admitted.arrays source List.mem_cons_self
    have supplied' := (supplied_kept faithful).bound _ source member d slot c bound supplied
    obtain ⟨k, known, position⟩ := translate_typed i admitted.position supplied' inside
    -- Indices are unsigned, as the device takes them.
    obtain rfl : k = .u32 := by
      rw [Expr.kernelType_eq (by rw [unsigned]; decide), unsigned] at known
      exact (Except.ok.inj known).symm
    obtain ⟨held, _⟩ := bindArray_slot faithful member supplied.agreed bound
    obtain ⟨input, found, data⟩ := Option.map_eq_some_iff.mp held
    have found' := getElem?_extends (translate_grows inside).inputs found
    have stored := (translate_sound inside supplied'.sound).storage input (List.mem_of_getElem? found')
    rw [data] at stored
    exact type?_stored stored (e := .index slot inner) (type?_at found' position)
  | .construct r args, d, f, t, admitted, supplied, run => by
    obtain ⟨_, k, c, terms, typed, inside, rfl⟩ := translate_construct_ok run
    have supplied' := valueType_keeps (supplied_kept faithful) _ r.type d k c typed supplied
    obtain ⟨name, named, rfl⟩ := RecordNames.typeOf_record_ok.mp (valueType_ok.mp typed).2
    have formed : r.IsStruct := admitted.structs r.type List.mem_cons_self r List.mem_cons_self
    obtain ⟨s, rfl, declared, held⟩ := supplied'.sound.struct_of formed named
    have sound := translateAll_sound inside supplied'.sound
    have grows := translateAll_grows inside
    have values := translateAll_typed args admitted.typed.1 held admitted.args supplied' inside
    -- The struct was declared before the arguments were translated, and is declared still.
    have declared' := (supplied'.sound.extends sound grows.later).structs _ _ declared
    exact ⟨.struct s.name, RecordNames.typeOf_extends grows.records (valueType_ok.mp typed).2,
      sound.type?_made declared' values⟩
  | .call .., _, _, _, admitted, _, _ => admitted.free.elim
  | .select .., _, _, _, _, _, run => (translate_query_ok (.inl rfl) run).elim
  | .zip .., _, _, _, _, _, run => (translate_query_ok (.inl rfl) run).elim
  | .array a, _, _, _, _, _, run => (translate_query_ok (.inr ⟨a, rfl⟩) run).elim

theorem translateAll_typed : ∀ (es : List Expr) {fields : List (String × ElementType)}
    {members : List (String × KernelType)} {d f : Draft} {ts : List Term},
    es.map Expr.type = fields.map Prod.snd → List.Forall₂ (IsMember d.records) fields members →
    AllAdmitted known tags scope es → Supplied known tags scope d →
    translateAll scope es d = .ok (ts, f) →
    Form.typeAll? f.declarations (Term.formAll ts) = some (members.map fun m => .value m.2)
  | [], fields, members, d, f, ts, same, held, _, _, run => by
    obtain ⟨rfl, rfl⟩ := pure_ok.mp run
    obtain rfl := List.map_eq_nil_iff.mp same.symm
    obtain rfl := List.forall₂_nil_left_iff.mp held
    rfl
  | e :: es, fields, members, d, f, ts, same, held, admitted, supplied, run => by
    obtain ⟨head, tail, c, first, rest, rfl⟩ := translateAll_cons_ok run
    cases held with
    | nil => exact nomatch same
    | @cons field m fields members known held =>
      obtain ⟨type, types⟩ := List.cons.inj same
      have supplied' := supplied.translated faithful admitted.head first
      have later := (translate_grows first).records
      obtain ⟨k, found, typed⟩ := translate_typed e admitted.head supplied first
      obtain rfl : k = m.2 := by
        rw [Expr.kernelType_eq (type ▸ typeOf_single known.2), type,
          (known.extends later).2] at found
        exact (Except.ok.inj found).symm
      have sound := translateAll_sound rest supplied'.sound
      have extended := supplied'.sound.extends sound (translateAll_grows rest).later
      have others := translateAll_typed es types (held.imp fun _ _ member => member.extends later)
        admitted.tail supplied' rest
      simp only [Term.formAll, Form.typeAll?, Form.type?_extends extended _ _ typed, others,
        Option.bind_eq_bind, Option.bind_some]
      rfl
end

end Bodies

end Kernel
end ArrayQuery
