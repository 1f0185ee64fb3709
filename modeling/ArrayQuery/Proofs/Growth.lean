import ArrayQuery.Proofs.Runs
import Mathlib.Data.List.Infix

/-! Relations between the drafts before and after an operation that every translation of a body
keeps; above all, that a draft only grows. -/

set_option autoImplicit false
namespace ArrayQuery

namespace Expr

mutual
def conversions : Expr → List Tag
  | convert tag e _ => tag :: e.conversions
  | binary _ l r _ => l.conversions ++ r.conversions
  | negate e _ | member e _ _ | index _ e _ => e.conversions
  | construct _ args | call _ args _ => conversionsAll args
  | _ => []

def conversionsAll : List Expr → List Tag
  | [] => []
  | e :: rest => e.conversions ++ conversionsAll rest
end

mutual
def arrays : Expr → List SharedArray
  | array a => [a]
  | select _ source _ body => source.arrays ++ body.arrays
  | zip _ first second _ body => first.arrays ++ (second.arrays ++ body.arrays)
  | binary _ l r _ => l.arrays ++ r.arrays
  | negate e _ | convert _ e _ | member e _ _ => e.arrays
  | index a i _ => a.arrays ++ i.arrays
  | construct _ args | call _ args _ => arraysAll args
  | constant _ | parameter _ => []

def arraysAll : List Expr → List SharedArray
  | [] => []
  | e :: rest => e.arrays ++ arraysAll rest
end

end Expr

namespace Kernel

namespace Compile

variable {α β : Type} {R : Draft → Draft → Prop}

/-- Whether every run that succeeds relates the drafts before and after it. -/
def Keeps (R : Draft → Draft → Prop) (m : Compile α) : Prop :=
  ∀ d a e, m d = .ok (a, e) → R d e

structure Stable (R : Draft → Draft → Prop) : Prop where
  refl : ∀ d, R d d
  trans : ∀ {d e f}, R d e → R e f → R d f

theorem stable_invariant (P : Draft → Prop) : Stable fun d e => P d → P e where
  refl _ := id
  trans first second := second ∘ first

theorem keeps_bind (stable : Stable R) {m : Compile α} {f : α → Compile β} (first : Keeps R m)
    (rest : ∀ a, Keeps R (f a)) : Keeps R (m >>= f) := by
  intro d b e run
  obtain ⟨a, c, run, run'⟩ := bind_ok.mp run
  exact stable.trans (first d a c run) (rest a c b e run')

theorem keeps_when (stable : Stable R) {c : Prop} [Decidable c] {m : Compile Unit}
    {f : Unit → Compile β} (first : Keeps R m) (rest : ∀ u, Keeps R (f u)) :
    Keeps R (if c then m >>= f else f ()) := by
  by_cases held : c
  · simp only [held, if_true]
    exact keeps_bind stable first rest
  · simp only [held, if_false]
    exact rest ()

theorem keeps_pure (stable : Stable R) (a : α) : Keeps R (pure a : Compile α) := by
  intro d b e run
  obtain ⟨_, rfl⟩ := pure_ok.mp run
  exact stable.refl d

mutual
theorem declare_keeps (stable : Stable R) (added : ∀ r fields, Keeps R (addStruct r fields))
    (node : Expr) : ∀ t : ElementType, Keeps R (declare node t)
  | .leaf _ => keeps_pure stable ()
  | .record name fields => fun d _ e run => by
    rcases declare_record_ok run with ⟨_, rfl⟩ | ⟨_, members, c, declared, last⟩
    · exact stable.refl _
    · exact stable.trans (declareFields_keeps stable added node name fields d members c declared)
        (added _ members c () e last)

theorem declareFields_keeps (stable : Stable R) (added : ∀ r fields, Keeps R (addStruct r fields))
    (node : Expr) (record : String) : ∀ fields : List (String × ElementType),
    Keeps R (declareFields node record fields)
  | [] => keeps_pure stable []
  | (_, t) :: fields => fun d _ e run => by
    obtain ⟨_, c, _, others, declared, _, rest, _⟩ := declareFields_cons_ok run
    exact stable.trans (declare_keeps stable added node t d () c declared)
      (declareFields_keeps stable added node record fields c others e rest)
end

/-- A relation that holds around every declaration, every binding of an array that is held, and every
override of a known conversion. -/
structure Kept (R : Draft → Draft → Prop) (known : Tag → Prop) (held : SharedArray → Prop) : Prop
    extends Stable R where
  declared : ∀ node t, Keeps R (declare node t)
  bound : ∀ node a, held a → Keeps R (bindArray node a)
  overridden : ∀ tag t, known tag → Keeps R (override tag t)

theorem bindArray_keeps (stable : Stable R) (declared : ∀ node t, Keeps R (declare node t))
    (extended : ∀ (i : Input) (d : Draft), R d { d with inputs := d.inputs ++ [i] })
    (node : Expr) (a : SharedArray) : Keeps R (bindArray node a) := by
  intro d slot e run
  rcases bindArray_ok run with ⟨_, rfl⟩ | ⟨_, _, storage, c, stored, rfl⟩
  · exact stable.refl _
  · exact stable.trans (declared node _ d () c (storageType_ok.mp stored).1) (extended _ c)

section Translation

variable {known : Tag → Prop} {held : SharedArray → Prop} (kept : Kept R known held)
include kept

theorem valueType_keeps (node : Expr) (t : ElementType) : Keeps R (valueType node t) :=
  fun d _ e run => kept.declared node t d () e (valueType_ok.mp run).1

theorem follow_keeps (node : Expr) (container : ElementType) (member : String) :
    Keeps R (follow node container member) :=
  fun d a e run => kept.declared node a.2 d () e (follow_ok (a := a.1) run).2.2

theorem chainType_keeps (node : Expr) : ∀ e : Expr, Keeps R (chainType node e)
  | .member target name _ => fun d t f run => by
    obtain ⟨container, a, c, chain, followed⟩ := chainType_member_ok run
    exact kept.trans (chainType_keeps node target d container c chain)
      (follow_keeps kept node container name c (a, t) f followed)
  | .constant _ | .array _ | .parameter _ | .select .. | .zip .. | .binary .. | .negate ..
  | .convert .. | .index .. | .construct .. | .call .. => keeps_pure kept.toStable _

theorem reached_keeps {node node' target : Expr} {name : String} {container : ElementType}
    {step : Access × ElementType} {d b c : Draft}
    (chain : chainType node target d = .ok (container, b))
    (followed : follow node' container name b = .ok (step, c)) : R d c :=
  kept.trans (chainType_keeps kept node target d container b chain)
    (follow_keeps kept node' container name b step c followed)

theorem overrideArguments_keeps : ∀ (args : List Expr) (params : List ElementType),
    (∀ tag ∈ Expr.conversionsAll args, known tag) → Keeps R (overrideArguments args params)
  | [], _, _ => keeps_pure kept.toStable ()
  | e :: _, [], _ => by
    cases e <;> exact keeps_pure kept.toStable ()
  | e :: args, p :: params, within => by
    have rest := overrideArguments_keeps args params fun tag member =>
      within tag (List.mem_append_right _ member)
    cases e with
    | convert tag operand t =>
      have own := within tag (List.mem_append_left _ List.mem_cons_self)
      exact keeps_when kept.toStable (kept.overridden tag p own) fun _ => rest
    | _ => exact rest

theorem overrideCall_keeps (fn : MathFn) (args : List Expr)
    (within : ∀ tag ∈ Expr.conversionsAll args, known tag) : Keeps R (overrideCall fn args) := by
  unfold overrideCall
  split
  · exact overrideArguments_keeps kept args _ within
  · exact keeps_pure kept.toStable ()

theorem overrideWrapper_keeps (tag : Tag) (t : ElementType) (e : Expr) (own : known tag)
    (within : ∀ tag ∈ e.conversions, known tag) : Keeps R (overrideWrapper tag t e) := by
  cases e with
  | call fn args u =>
    cases found : fn.signature? with
    | none =>
      simp only [overrideWrapper, found]
      exact keeps_pure kept.toStable ()
    | some signature =>
      simp only [overrideWrapper, found]
      exact keeps_when kept.toStable (kept.overridden tag _ own) fun _ =>
        overrideArguments_keeps kept args _ within
  | _ => exact keeps_pure kept.toStable ()

mutual
/-- A relation that holds between the drafts around every declaration, and every binding of an array
and every override of a conversion in a body, holds between those around its translation. -/
theorem translate_keeps (scope : Scope) : ∀ e : Expr, (∀ tag ∈ e.conversions, known tag) →
    (∀ a ∈ e.arrays, held a) → Keeps R (translate scope e)
  | .constant v, _, _ => fun d term f run => kept.declared _ _ d () f (translate_constant_ok run).1
  | .parameter p, _, _ => fun d term f run => by
    obtain ⟨_, _, _, rfl⟩ := translate_parameter_ok run
    exact kept.refl _
  | .binary op l r t, within, inside => fun d term f run => by
    have left := translate_keeps scope l (fun tag member => within tag (List.mem_append_left _ member))
      fun a member => inside a (List.mem_append_left _ member)
    have right := translate_keeps scope r
      (fun tag member => within tag (List.mem_append_right _ member))
      fun a member => inside a (List.mem_append_right _ member)
    -- The operator decides which operand is translated first; the relation holds along both orders.
    obtain ⟨_, first, second, c, _, ⟨_, run, run'⟩ | ⟨_, run, run'⟩⟩ := translate_binary_ok run
    · exact kept.trans (right d first c run) (left c second f run')
    · exact kept.trans (left d first c run) (right c second f run')
  | .negate e t, within, inside => fun d term f run => by
    obtain ⟨inner, run, _⟩ := translate_negate_ok run
    exact translate_keeps scope e within inside d inner f run
  | .convert tag e t, within, inside => fun d term f run => by
    obtain ⟨c, _, inner, wrapped, _, _, run, _⟩ := translate_convert_ok run
    have deeper : ∀ tag ∈ e.conversions, known tag := fun tag member =>
      within tag (List.mem_cons_of_mem _ member)
    have wrapper := overrideWrapper_keeps kept tag t e (within tag List.mem_cons_self) deeper
    exact kept.trans (wrapper d () c wrapped) (translate_keeps scope e deeper inside c inner f run)
  | .member e name t, within, inside => fun d term f run => by
    obtain ⟨container, access, u, b, c, inner, chain, followed, run, _⟩ := translate_member_ok run
    exact kept.trans (reached_keeps kept chain followed)
      (translate_keeps scope e within inside c inner f run)
  | .index a i t, within, inside => fun d term f run => by
    obtain ⟨source, slot, c, inner, rfl, found, run, _⟩ := translate_index_ok run
    exact kept.trans (kept.bound _ source (inside source List.mem_cons_self) d slot c found)
      (translate_keeps scope i within (fun b member => inside b (List.mem_cons_of_mem _ member))
        c inner f run)
  | .construct r args, within, inside => fun d term f run => by
    obtain ⟨_, k, c, terms, typed, run, _⟩ := translate_construct_ok run
    exact kept.trans (valueType_keeps kept _ r.type d k c typed)
      (translateAll_keeps scope args within inside c terms f run)
  | .call fn args t, within, inside => fun d term f run => by
    obtain ⟨c, terms, overrides, run, _⟩ := translate_call_ok run
    exact kept.trans (overrideCall_keeps kept fn args within d () c overrides)
      (translateAll_keeps scope args within inside c terms f run)
  | .select .., _, _ => fun _ _ _ run => (translate_query_ok (.inl rfl) run).elim
  | .zip .., _, _ => fun _ _ _ run => (translate_query_ok (.inl rfl) run).elim
  | .array a, _, _ => fun _ _ _ run => (translate_query_ok (.inr ⟨a, rfl⟩) run).elim

theorem translateAll_keeps (scope : Scope) : ∀ es : List Expr,
    (∀ tag ∈ Expr.conversionsAll es, known tag) → (∀ a ∈ Expr.arraysAll es, held a) →
    Keeps R (translateAll scope es)
  | [], _, _ => keeps_pure kept.toStable []
  | e :: es, within, inside => fun d terms f run => by
    obtain ⟨head, tail, c, run, run', _⟩ := translateAll_cons_ok run
    have first := translate_keeps scope e
      (fun tag member => within tag (List.mem_append_left _ member))
      fun a member => inside a (List.mem_append_left _ member)
    have others := translateAll_keeps scope es
      (fun tag member => within tag (List.mem_append_right _ member))
      fun a member => inside a (List.mem_append_right _ member)
    exact kept.trans (first d head c run) (others c tail f run')
end

end Translation

/-- What declarations, bound arrays and translations do to a draft: they only add to it, and leave
the steps alone. -/
structure Grows (d e : Draft) : Prop where
  lets : e.lets = d.lets
  steps : e.steps = d.steps
  sourceCount : e.sourceCount = d.sourceCount
  inputs : d.inputs <+: e.inputs
  structs : d.structs <+: e.structs
  records : d.records.assigned <+: e.records.assigned

theorem grows_stable : Stable Grows where
  refl _ := ⟨rfl, rfl, rfl, List.prefix_rfl, List.prefix_rfl, List.prefix_rfl⟩
  trans first second := ⟨second.lets.trans first.lets, second.steps.trans first.steps,
    second.sourceCount.trans first.sourceCount, first.inputs.trans second.inputs,
    first.structs.trans second.structs, first.records.trans second.records⟩

theorem assign_extends (names : RecordNames) (r : RecordType) :
    names.assigned <+: (names.assign r).2.assigned := by
  unfold RecordNames.assign
  split
  · exact List.prefix_rfl
  · exact List.prefix_append _ _

theorem grows_addStruct (r : RecordType) (fields : List (String × KernelType)) :
    Keeps Grows (addStruct r fields) := by
  intro d _ e run
  obtain rfl := modify_ok.mp run
  exact ⟨rfl, rfl, rfl, List.prefix_rfl, List.prefix_append _ _, assign_extends _ r⟩

theorem grows_kept : Kept Grows (fun _ => True) fun _ => True where
  toStable := grows_stable
  declared := declare_keeps grows_stable grows_addStruct
  bound node a _ := bindArray_keeps grows_stable (declare_keeps grows_stable grows_addStruct)
    (fun _ _ => ⟨rfl, rfl, rfl, List.prefix_append _ _, List.prefix_rfl, List.prefix_rfl⟩) node a
  overridden tag t _ := by
    intro d _ e run
    obtain rfl := modify_ok.mp run
    exact ⟨rfl, rfl, rfl, List.prefix_rfl, List.prefix_rfl, List.prefix_rfl⟩

theorem declare_frame (node : Expr) (t : ElementType) :
    Keeps (fun d e => e.inputs = d.inputs ∧ e.overrides = d.overrides) (declare node t) := by
  refine declare_keeps ⟨fun _ => ⟨rfl, rfl⟩, fun first second =>
    ⟨second.1.trans first.1, second.2.trans first.2⟩⟩ ?_ node t
  intro r fields d _ e run
  obtain rfl := modify_ok.mp run
  exact ⟨rfl, rfl⟩

theorem bindArray_overrides {node : Expr} {a : SharedArray} {d e : Draft} {slot : Nat}
    (run : bindArray node a d = .ok (slot, e)) : e.overrides = d.overrides :=
  bindArray_keeps (R := fun d e => e.overrides = d.overrides)
    ⟨fun _ => rfl, fun first second => second.trans first⟩
    (fun node t d _ e run => (declare_frame node t d () e run).2) (fun _ _ => rfl) node a d slot e
    run

theorem declare_grows {node : Expr} {t : ElementType} {d e : Draft}
    (run : declare node t d = .ok ((), e)) : Grows d e :=
  grows_kept.declared node t d () e run

theorem bindArray_grows {node : Expr} {a : SharedArray} {d e : Draft} {slot : Nat}
    (run : bindArray node a d = .ok (slot, e)) : Grows d e :=
  grows_kept.bound node a trivial d slot e run

theorem translate_grows {scope : Scope} {body : Expr} {d e : Draft} {term : Term}
    (run : translate scope body d = .ok (term, e)) : Grows d e :=
  translate_keeps grows_kept scope body (fun _ _ => trivial) (fun _ _ => trivial) d term e run

theorem emit_inputs {node body : Expr} {tag : Tag} {params : List Parameter} {inputs : List Operand}
    {d e : Draft} {o : Operand} (run : emit node tag params body inputs d = .ok (o, e)) :
    e.sourceCount = d.sourceCount ∧ d.inputs <+: e.inputs := by
  obtain ⟨_, k, b, value, c, typed, translated, _, rfl⟩ := emit_ok run
  have before := declare_grows (valueType_ok.mp typed).1
  have after := translate_grows translated
  exact ⟨after.sourceCount.trans before.sourceCount, before.inputs.trans after.inputs⟩

theorem step_inputs : ∀ (node : Expr) {d e : Draft} {o : Operand}, step node d = .ok (o, e) →
    d.inputs <+: e.inputs
  | .array a, d, e, o, run => by
    obtain ⟨slot, c, ⟨_, rfl⟩ | ⟨_, rfl⟩, bound, _⟩ := bindSource_ok run
    · exact (bindArray_grows bound).inputs
    · exact (bindArray_grows bound).inputs
  | .select tag source params body, d, e, o, run => by
    rcases step_select_ok run with ⟨_, rfl⟩ | ⟨_, input, c, compiled, emitted⟩
    · exact List.prefix_rfl
    · exact (step_inputs source compiled).trans (emit_inputs emitted).2
  | .zip tag first second params body, d, e, o, run => by
    rcases step_zip_ok run with ⟨_, rfl⟩ | ⟨_, x, y, b, c, compiled, compiled', emitted⟩
    · exact List.prefix_rfl
    · exact (step_inputs first compiled).trans
        ((step_inputs second compiled').trans (emit_inputs emitted).2)
  | .constant _, _, _, _, run | .parameter _, _, _, _, run | .binary .., _, _, _, run
  | .negate .., _, _, _, run | .convert .., _, _, _, run | .member .., _, _, _, run
  | .index .., _, _, _, run | .construct .., _, _, _, run | .call .., _, _, _, run =>
    (refuse_ok.mp run).elim

end Compile
end Kernel
end ArrayQuery
