import ArrayQuery.Proofs.SharedQueries
import Mathlib.Logic.Embedding.Basic

/-! Queries with other identities: of the nodes, of the arrays, and of the parameters by their names.
As long as what differs stays different, the kernel is the same, with the same buffers. -/

set_option autoImplicit false
namespace ArrayQuery

/-- New identities for all nodes, arrays and names of parameters; different ones stay different. -/
structure Renaming where
  node : Tag ↪ Tag
  array : Tag ↪ Tag
  parameter : String ↪ String

variable (ρ : Renaming)

def SharedArray.rename (a : SharedArray) : SharedArray :=
  { a with tag := ρ.array a.tag }

def Parameter.rename (p : Parameter) : Parameter :=
  { p with name := ρ.parameter p.name }

namespace Expr

mutual
def rename : Expr → Expr
  | constant v => constant v
  | array a => array (a.rename ρ)
  | parameter p => parameter (p.rename ρ)
  | select tag source params body =>
    select (ρ.node tag) source.rename (params.map (Parameter.rename ρ)) body.rename
  | zip tag first second params body =>
    zip (ρ.node tag) first.rename second.rename (params.map (Parameter.rename ρ)) body.rename
  | binary op l r t => binary op l.rename r.rename t
  | negate e t => negate e.rename t
  | convert tag e t => convert (ρ.node tag) e.rename t
  | member e name t => member e.rename name t
  | index a i t => index a.rename i.rename t
  | construct r args => construct r (renameAll args)
  | call fn args t => call fn (renameAll args) t

def renameAll : List Expr → List Expr
  | [] => []
  | e :: rest => e.rename :: renameAll rest
end

@[simp] theorem rename_type : ∀ e : Expr, (e.rename ρ).type = e.type
  | select _ _ _ body | zip _ _ _ _ body => rename_type body
  | constant _ | array _ | parameter _ | binary .. | negate .. | convert .. | member .. | index ..
  | construct .. | call .. => rfl

@[simp] theorem rename_isQuery (e : Expr) : (e.rename ρ).isQuery = e.isQuery := by
  cases e <;> rfl

@[simp] theorem length_renameAll (es : List Expr) : (renameAll ρ es).length = es.length := by
  induction es with
  | nil => rfl
  | cons e es ih => simp only [renameAll, List.length_cons, ih]

end Expr

namespace Kernel

open ArrayQuery.Expr

def rekey {κ α : Type} (f : κ ↪ κ) (entries : List (κ × α)) : List (κ × α) :=
  entries.map fun entry => (f entry.1, entry.2)

theorem lookup_rekey {κ α : Type} [BEq κ] [LawfulBEq κ] (f : κ ↪ κ) (entries : List (κ × α))
    (k : κ) : (rekey f entries).lookup (f k) = entries.lookup k := by
  induction entries with
  | nil => rfl
  | cons entry entries ih =>
    obtain ⟨key, value⟩ := entry
    have same : (f k == f key) = (k == key) := by
      rw [Bool.eq_iff_iff, beq_iff_eq, beq_iff_eq, f.apply_eq_iff_eq]
    simp only [rekey, List.map_cons, List.lookup_cons, same] at ih ⊢
    rw [ih]

@[simp] theorem isPlace_rename (e : Expr) : isPlace (e.rename ρ) = isPlace e := by
  cases e <;> rfl

def Input.rename (i : Input) : Input :=
  { i with tag := ρ.array i.tag }

def Draft.rename (d : Draft) : Draft :=
  { d with
    inputs := d.inputs.map (Input.rename ρ)
    steps := rekey ρ.node d.steps
    overrides := rekey ρ.node d.overrides }

namespace Compile

def Renamed (d d' : Draft) : Prop :=
  d' = d.rename ρ

theorem Renamed.shares : SharesRecords (Renamed ρ) where
  same renamed := renamed ▸ rfl
  added _ _ renamed := renamed ▸ rfl

theorem scopeOf_rename (params : List Parameter) (inputs : List Operand) :
    scopeOf (params.map (Parameter.rename ρ)) inputs =
      rekey ρ.parameter (scopeOf params inputs) := by
  simp [scopeOf, rekey, List.zip_map_left, Function.comp_def, Parameter.rename]

/-- An array has the same slot, since its new identity is that of no other array. -/
theorem rename_bindArray (node node' : Expr) (a : SharedArray) :
    Agree (Renamed ρ) (bindArray node a) (bindArray node' (a.rename ρ)) := by
  apply agree_get
  rintro d _ rfl
  have same : (fun i : Input => i.tag == (a.rename ρ).tag) ∘ Input.rename ρ =
      fun i => i.tag == a.tag := by
    funext i
    rw [Bool.eq_iff_iff, Function.comp_apply, beq_iff_eq, beq_iff_eq]
    exact ρ.array.apply_eq_iff_eq i.tag a.tag
  dsimp only [Draft.rename]
  rw [List.findIdx?_map, List.length_map, same]
  cases d.inputs.findIdx? (·.tag == a.tag) with
  | some slot => exact agree_pure slot
  | none =>
    apply (agree_storageType (Renamed.shares ρ) node node' a.data.element).bind
    intro storage
    refine Agree.bind (agree_modify ?_) fun _ => agree_pure _
    rintro d _ rfl
    simp [Renamed, Draft.rename, Input.rename, SharedArray.rename]

theorem rename_override (tag : Tag) (t : ElementType) :
    Agree (Renamed ρ) (override tag t) (override (ρ.node tag) t) := by
  apply agree_modify
  rintro d _ rfl
  rfl

theorem rename_overrideArguments (args : List Expr) (params : List ElementType) :
    Agree (Renamed ρ) (overrideArguments args params)
      (overrideArguments (renameAll ρ args) params) := by
  induction args generalizing params with
  | nil => exact agree_pure ()
  | cons e args ih =>
    cases params with
    | nil => cases e <;> exact agree_pure ()
    | cons p params =>
      cases e with
      | convert tag e t =>
        simp only [renameAll, rename, overrideArguments]
        split
        · exact (rename_override ρ tag p).bind fun _ => ih params
        · exact ih params
      | _ => exact ih params

theorem rename_overrideCall (fn : MathFn) (args : List Expr) :
    Agree (Renamed ρ) (overrideCall fn args) (overrideCall fn (renameAll ρ args)) := by
  unfold overrideCall
  cases fn.signature? with
  | none => exact agree_pure ()
  | some signature => exact rename_overrideArguments ρ args signature.2

theorem rename_overrideWrapper (tag : Tag) (t : ElementType) (e : Expr) :
    Agree (Renamed ρ) (overrideWrapper tag t e) (overrideWrapper (ρ.node tag) t (e.rename ρ)) := by
  cases e with
  | call fn args _ =>
    simp only [rename, overrideWrapper]
    cases fn.signature? with
    | none => exact agree_pure ()
    | some signature =>
      obtain ⟨returns, params⟩ := signature
      have rest := rename_overrideArguments ρ args params
      dsimp only
      split
      · exact (rename_override ρ tag returns).bind fun _ => rest
      · exact rest
  | _ => exact agree_pure ()

theorem rename_chainType (node node' : Expr) : ∀ e : Expr,
    Agree (Renamed ρ) (chainType node e) (chainType node' (e.rename ρ))
  | .member target name _ => by
    unfold rename chainType
    exact (rename_chainType node node' target).bind fun container =>
      (agree_follow (Renamed.shares ρ) node node' container name).bind fun _ => agree_pure _
  | .select tag source params body => by
    change Agree _ (pure body.type) (pure (body.rename ρ).type)
    rw [rename_type]
    exact agree_pure _
  | .zip tag first second params body => by
    change Agree _ (pure body.type) (pure (body.rename ρ).type)
    rw [rename_type]
    exact agree_pure _
  | .constant _ | .array _ | .parameter _ | .binary .. | .negate .. | .convert .. | .index ..
  | .construct .. | .call .. => agree_pure _

end Compile

open Compile

mutual
/-- A body under new identities is translated to the same expression, in a scope under new names. -/
theorem rename_translate (scope : Scope) : ∀ e : Expr,
    Agree (Renamed ρ) (translate scope e) (translate (rekey ρ.parameter scope) (e.rename ρ))
  | .constant v => by
    unfold rename translate
    exact (agree_declare (Renamed.shares ρ) _ _ _).bind fun _ =>
      agree_names (Renamed.shares ρ) fun names => names.literal v
  | .parameter p => by
    unfold rename translate
    dsimp only [Parameter.rename]
    rw [lookup_rekey]
    cases scope.lookup p.name with
    | none => exact agree_refuse _ _ _ _
    | some operand => exact agree_pure _
  | .binary op l r _ => by
    have left := rename_translate scope l
    have right := rename_translate scope r
    unfold rename translate
    rw [rename_type, rename_type]
    apply lockstep_guard
    intro _
    by_cases product : op = .mul
    · simp only [product, if_true]
      exact right.bind fun _ => left.bind fun _ => agree_pure _
    · simp only [product, if_false]
      exact left.bind fun _ => right.bind fun _ => agree_pure _
  | .negate e _ => by
    have inner := rename_translate scope e
    unfold rename translate
    rw [rename_type]
    dsimp only
    split
    · exact inner.bind fun _ => agree_pure _
    · split
      · exact inner.bind fun _ => agree_pure _
      · exact agree_refuse _ _ _ _
  | .convert tag e t => by
    have inner := rename_translate scope e
    unfold rename translate
    -- The type to spell is looked up after the overrides of the primitive inside are made.
    apply (rename_overrideWrapper ρ tag t e).bind
    intro _
    apply agree_get
    rintro d _ rfl
    dsimp only [Draft.rename]
    rw [lookup_rekey]
    apply lockstep_guard
    intro _
    exact (agree_typeOf (Renamed.shares ρ) _).bind fun _ => inner.bind fun _ => agree_pure _
  | .member target name _ => by
    have inner := rename_translate scope target
    unfold rename translate
    rw [isPlace_rename]
    exact (rename_chainType ρ _ _ target).bind fun container =>
      (agree_follow (Renamed.shares ρ) _ _ container name).bind fun _ =>
        inner.bind fun _ => agree_pure _
  | .index a i t => by
    have position := rename_translate scope i
    cases a with
    | array source =>
      simp only [rename, translate]
      exact (rename_bindArray ρ _ _ source).bind fun _ => position.bind fun _ => agree_pure _
    | _ =>
      simp only [rename, translate]
      exact agree_refuse _ _ _ _
  | .construct r args => by
    have values := rename_translateAll scope args
    unfold rename translate
    rw [length_renameAll]
    apply lockstep_guard
    intro _
    exact (agree_valueType (Renamed.shares ρ) _ _ r.type).bind fun _ =>
      values.bind fun _ => agree_pure _
  | .call fn args _ => by
    have values := rename_translateAll scope args
    unfold rename translate
    rw [length_renameAll]
    apply lockstep_guard
    intro _
    exact (rename_overrideCall ρ fn args).bind fun _ => values.bind fun _ => agree_pure _
  | .select .. => by
    unfold rename translate
    exact agree_refuse _ _ _ _
  | .zip .. => by
    unfold rename translate
    exact agree_refuse _ _ _ _
  | .array _ => by
    unfold rename translate
    exact agree_refuse _ _ _ _

theorem rename_translateAll (scope : Scope) : ∀ es : List Expr,
    Agree (Renamed ρ) (translateAll scope es)
      (translateAll (rekey ρ.parameter scope) (renameAll ρ es))
  | [] => agree_pure []
  | e :: es => by
    unfold renameAll translateAll
    exact (rename_translate scope e).bind fun _ =>
      (rename_translateAll scope es).bind fun _ => agree_pure _
end

namespace Compile

theorem rename_bindSource (node node' : Expr) (a : SharedArray) :
    Agree (Renamed ρ) (bindSource node a) (bindSource node' (a.rename ρ)) := by
  have slot := (rename_bindArray ρ node node' a).bind fun slot =>
    agree_pure (⟨.buffer slot, a.data.element⟩ : Operand)
  apply agree_get
  rintro d _ rfl
  dsimp only [Draft.rename]
  cases d.sourceCount with
  | none =>
    refine Agree.bind (agree_modify ?_) fun _ => slot
    rintro d _ rfl
    rfl
  | some count =>
    by_cases same : count = a.data.count
    · simp only [same, SharedArray.rename, ne_eq, not_true_eq_false, if_false]
      exact slot
    · simp only [same, SharedArray.rename, ne_eq, not_false_eq_true, if_true]
      exact fun _ _ _ => trivial

theorem rename_emit (node node' : Expr) (tag : Tag) (params : List Parameter) (body : Expr)
    (inputs : List Operand) :
    Agree (Renamed ρ) (emit node tag params body inputs)
      (emit node' (ρ.node tag) (params.map (Parameter.rename ρ)) (body.rename ρ) inputs) := by
  unfold emit
  rw [List.length_map, rename_type, scopeOf_rename]
  by_cases counted : params.length = inputs.length
  · simp only [counted, ne_eq, not_true_eq_false, if_false]
    apply (agree_valueType (Renamed.shares ρ) node node' body.type).bind
    intro k
    apply (rename_translate ρ (scopeOf params inputs) body).bind
    -- The step is entered under its new identity; its number is the same.
    rintro value d _ rfl
    exact ⟨rfl, rfl⟩
  · simp only [counted, ne_eq, not_false_eq_true, if_true]
    exact fun _ _ _ => trivial

theorem rename_memo (tag : Tag) {m m' : Compile Operand} (rest : Agree (Renamed ρ) m m') :
    Agree (Renamed ρ)
      (do
        match (← get).steps.lookup tag with
        | some operand => return operand
        | none => m)
      (do
        match (← get).steps.lookup (ρ.node tag) with
        | some operand => return operand
        | none => m') := by
  apply agree_get
  rintro d _ rfl
  dsimp only [Draft.rename]
  rw [lookup_rekey]
  cases d.steps.lookup tag with
  | some operand => exact agree_pure operand
  | none => exact rest

theorem rename_step : ∀ node : Expr, Agree (Renamed ρ) (step node) (step (node.rename ρ))
  | .array a => rename_bindSource ρ _ _ a
  | .select tag source params body => by
    unfold rename step
    exact rename_memo ρ tag ((rename_step source).bind fun input =>
      rename_emit ρ _ _ tag params body [input])
  | .zip tag first second params body => by
    unfold rename step
    exact rename_memo ρ tag ((rename_step first).bind fun a => (rename_step second).bind fun b =>
      rename_emit ρ _ _ tag params body [a, b])
  | .constant _ | .parameter _ | .binary .. | .negate .. | .convert .. | .member .. | .index ..
  | .construct .. | .call .. => agree_refuse _ _ _ _

theorem rename_root (node : Expr) :
    Agree (Renamed ρ) (Compile.root node) (Compile.root (node.rename ρ)) := by
  unfold Compile.root
  rw [rename_isQuery, rename_type]
  by_cases query : node.isQuery = true
  · simp only [query, Bool.not_true, Bool.false_eq_true, if_false]
    exact (rename_step ρ node).bind fun _ =>
      (agree_storageType (Renamed.shares ρ) _ _ node.type).bind fun _ => agree_pure _
  · simp only [query, Bool.not_false, if_true]
    exact fun _ _ _ => trivial

end Compile

def Program.rename (p : Program) : Program :=
  { p with inputs := p.inputs.map (Input.rename ρ) }

theorem ofProgram_rename (p : Program) :
    CompiledQuery.ofProgram (p.rename ρ) = CompiledQuery.ofProgram p := by
  have count : (p.rename ρ).count = p.count := by
    cases inputs : p.inputs <;> simp [Program.count, Program.rename, inputs, Input.rename]
  have slot : (p.rename ρ).outputSlot = p.outputSlot :=
    List.length_map _
  have declared : ∀ d : Document, Program.declareInputs d (p.inputs.map (Input.rename ρ)) =
      Program.declareInputs d p.inputs := fun d => by
    simp only [Program.declareInputs, List.zipIdx_map, List.foldl_map, Prod.map_fst, Prod.map_snd,
      Input.rename, id]
  have text : (p.rename ρ).text = p.text := by
    simp only [Program.text, Program.document, Program.storeLine, slot]
    simp only [Program.rename, declared]
  simp only [CompiledQuery.ofProgram, text, count, slot]
  simp only [Program.rename, List.zipIdx_map, List.map_map, Function.comp_def, Prod.map_fst,
    Prod.map_snd, Input.rename, id]

/-- A query under new identities has a kernel exactly if it has one under the old ones, and the two
have the same text, the same buffers in the same slots, and the same output. -/
theorem compile_rename (c : Config) (root : Expr) (q : CompiledQuery) :
    CompiledQuery.compile c (root.rename ρ) = .ok q ↔ CompiledQuery.compile c root = .ok q := by
  have start : Renamed ρ {} {} := rfl
  rw [CompiledQuery.compile, CompiledQuery.compile, compile_root, compile_root]
  obtain ⟨cause, cause', run, run'⟩ | ⟨result, d, d', run, run', rfl⟩ :=
    (rename_root ρ root).cases start
  · rw [run, run']
    constructor <;> rintro ⟨⟩
  · rw [run, run']
    -- The drafts differ in their tables alone, of which the program keeps the bound arrays.
    have same := ofProgram_rename ρ
      ⟨c.workgroupSize, d.structs, d.inputs, d.lets, result.1, result.2⟩
    exact Eq.congr_left (congrArg Except.ok same)

end Kernel
end ArrayQuery
