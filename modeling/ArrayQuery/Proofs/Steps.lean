import ArrayQuery.Proofs.Declared

/-! Runs of the compilation of operators, as relations between the drafts before and after them. -/

set_option autoImplicit false
namespace ArrayQuery.Kernel

open Compile

/-- A run of `step` that succeeds. An operator that has been compiled is not compiled again; of the
others the sources come first. -/
inductive Steps : Expr → Draft → Operand → Draft → Prop where
  | source {a : SharedArray} {d e : Draft} {o : Operand}
      (bound : bindSource (.array a) a d = .ok (o, e)) : Steps (.array a) d o e
  | shared {node : Expr} {tag : Tag} {d : Draft} {o : Operand} (tagged : node.stepTag? = some tag)
      (found : d.steps.lookup tag = some o) : Steps node d o d
  | select {tag : Tag} {source body : Expr} {params : List Parameter} {d c e : Draft} {x o : Operand}
      (fresh : d.steps.lookup tag = none) (first : Steps source d x c)
      (last : emit (.select tag source params body) tag params body [x] c = .ok (o, e)) :
      Steps (.select tag source params body) d o e
  | zip {tag : Tag} {first second body : Expr} {params : List Parameter} {d b c e : Draft}
      {x y o : Operand} (fresh : d.steps.lookup tag = none) (left : Steps first d x b)
      (right : Steps second b y c)
      (last : emit (.zip tag first second params body) tag params body [x, y] c = .ok (o, e)) :
      Steps (.zip tag first second params body) d o e

theorem steps_of_step : ∀ (node : Expr) {d e : Draft} {o : Operand}, step node d = .ok (o, e) →
    Steps node d o e
  | .array _, _, _, _, run => .source run
  | .select tag source params body, d, e, o, run => by
    rcases step_select_ok run with ⟨found, rfl⟩ | ⟨fresh, x, c, first, last⟩
    · exact .shared rfl found
    · exact .select fresh (steps_of_step source first) last
  | .zip tag first second params body, d, e, o, run => by
    rcases step_zip_ok run with ⟨found, rfl⟩ | ⟨fresh, x, y, b, c, left, right, last⟩
    · exact .shared rfl found
    · exact .zip fresh (steps_of_step first left) (steps_of_step second right) last
  | .constant _, _, _, _, run | .parameter _, _, _, _, run | .binary .., _, _, _, run
  | .negate .., _, _, _, run | .convert .., _, _, _, run | .member .., _, _, _, run
  | .index .., _, _, _, run | .construct .., _, _, _, run | .call .., _, _, _, run =>
    (refuse_ok.mp run).elim

/-- Binding a source does nothing but settle the length of the sources, and bind the array. -/
theorem bindSource_bound {node : Expr} {a : SharedArray} {d e : Draft} {o : Operand}
    (run : bindSource node a d = .ok (o, e)) :
    ∃ slot, bindArray node a { d with sourceCount := some a.data.count } = .ok (slot, e) ∧
      o = ⟨.buffer slot, a.data.element⟩ ∧
      (d.sourceCount = none ∨ d.sourceCount = some a.data.count) := by
  obtain ⟨slot, c, ⟨none, rfl⟩ | ⟨counted, rfl⟩, bound, rfl⟩ := bindSource_ok run
  · exact ⟨slot, bound, rfl, .inl none⟩
  · refine ⟨slot, ?_, rfl, .inr counted⟩
    rw [← counted]
    exact bound

theorem Later.refl (d : Draft) : Later d d :=
  ⟨List.prefix_rfl, List.prefix_rfl, List.prefix_rfl, List.prefix_rfl⟩

theorem Later.trans {d e f : Draft} (first : Later d e) (second : Later e f) : Later d f :=
  ⟨first.inputs.trans second.inputs, first.lets.trans second.lets,
    first.structs.trans second.structs, first.records.trans second.records⟩

theorem bindSource_later {node : Expr} {a : SharedArray} {d e : Draft} {o : Operand}
    (run : bindSource node a d = .ok (o, e)) : Later d e := by
  obtain ⟨slot, bound, _⟩ := bindSource_bound run
  exact ⟨(bindArray_grows bound).inputs, (bindArray_grows bound).later.lets,
    (bindArray_grows bound).structs, (bindArray_grows bound).records⟩

/-- What `emit` adds to a draft: declarations and inputs, and then the value of the operator, which
has the next number. -/
theorem emit_added {node body : Expr} {tag : Tag} {params : List Parameter} {inputs : List Operand}
    {d e : Draft} {o : Operand} (run : emit node tag params body inputs d = .ok (o, e)) :
    ∃ k value, e.lets = d.lets ++ [⟨k, value⟩] ∧ o = ⟨.step (d.lets.length + 1), body.type⟩ ∧
      e.steps = (tag, o) :: d.steps := by
  obtain ⟨_, k, b, value, c, typed, translated, rfl, rfl⟩ := emit_ok run
  have before := declare_grows (valueType_ok.mp typed).1
  have after := translate_grows translated
  have lets := after.lets.trans before.lets
  exact ⟨k, value, by rw [lets], by rw [lets], by rw [after.steps, before.steps]⟩

theorem emit_later {node body : Expr} {tag : Tag} {params : List Parameter} {inputs : List Operand}
    {d e : Draft} {o : Operand} (run : emit node tag params body inputs d = .ok (o, e)) :
    Later d e := by
  obtain ⟨_, _, lets, _, _⟩ := emit_added run
  obtain ⟨_, k, b, value, c, typed, translated, _, rfl⟩ := emit_ok run
  have before := declare_grows (valueType_ok.mp typed).1
  have after := translate_grows translated
  refine ⟨before.inputs.trans after.inputs, ?_, before.structs.trans after.structs,
    before.records.trans after.records⟩
  rw [lets]
  exact List.prefix_append _ _

theorem Steps.later {node : Expr} {d e : Draft} {o : Operand} (run : Steps node d o e) :
    Later d e := by
  induction run with
  | source bound => exact bindSource_later bound
  | shared => exact .refl _
  | select _ _ last ih => exact ih.trans (emit_later last)
  | zip _ _ _ last ihl ihr => exact ihl.trans (ihr.trans (emit_later last))

theorem Steps.memo {node : Expr} {d e : Draft} {o : Operand} (run : Steps node d o e) :
    d.steps <:+ e.steps := by
  induction run with
  | source bound =>
    obtain ⟨slot, bound, _⟩ := bindSource_bound bound
    rw [(bindArray_grows bound).steps]
  | shared => exact List.suffix_rfl
  | select _ _ last ih =>
    obtain ⟨_, _, _, _, steps⟩ := emit_added last
    rw [steps]
    exact ih.trans (List.suffix_cons _ _)
  | zip _ _ _ last ihl ihr =>
    obtain ⟨_, _, _, _, steps⟩ := emit_added last
    rw [steps]
    exact ihl.trans (ihr.trans (List.suffix_cons _ _))

theorem Sound.value {d : Draft} (sound : Sound d) {t : ElementType} {k : KernelType}
    (known : d.records.typeOf t = .ok k) (tag : Tag) (value : Term) :
    Sound { d with lets := d.lets ++ [⟨k, value⟩],
                   steps := (tag, ⟨.step (d.lets.length + 1), t⟩) :: d.steps } where
  distinct := sound.distinct
  structs := sound.structs
  storage := sound.storage
  steps p member := by
    rcases List.mem_cons.mp member with rfl | member
    · exact ⟨d.lets.length, ⟨k, value⟩, Nat.add_comm _ _, List.getElem?_concat_length, known⟩
    · exact (sound.steps p member).later
        ⟨List.prefix_rfl, List.prefix_append _ _, List.prefix_rfl, List.prefix_rfl⟩

theorem emit_sound {node body : Expr} {tag : Tag} {params : List Parameter} {inputs : List Operand}
    {d e : Draft} {o : Operand} (sound : Sound d)
    (run : emit node tag params body inputs d = .ok (o, e)) : Sound e := by
  obtain ⟨_, k, b, value, c, typed, translated, rfl, rfl⟩ := emit_ok run
  obtain ⟨declared, known⟩ := valueType_ok.mp typed
  have sound' := declare_sound node _ sound declared
  exact (translate_sound translated sound').value
    (RecordNames.typeOf_extends (translate_grows translated).records known) tag value

theorem bindSource_sound {node : Expr} {a : SharedArray} {d e : Draft} {o : Operand} (sound : Sound d)
    (run : bindSource node a d = .ok (o, e)) : Sound e := by
  obtain ⟨slot, bound, _⟩ := bindSource_bound run
  exact bindArray_sound (d := { d with sourceCount := some a.data.count })
    ⟨sound.distinct, sound.structs, sound.storage, sound.steps⟩ bound

theorem Steps.sound {node : Expr} {d e : Draft} {o : Operand} (run : Steps node d o e)
    (sound : Sound d) : Sound e := by
  induction run with
  | source bound => exact bindSource_sound sound bound
  | shared => exact sound
  | select _ _ last ih => exact emit_sound (ih sound) last
  | zip _ _ _ last ihl ihr => exact emit_sound (ihr (ihl sound)) last

theorem mem_scopeOf {params : List Parameter} {inputs : List Operand} {p : String × Operand}
    (member : p ∈ scopeOf params inputs) : p.2 ∈ inputs :=
  List.of_mem_zip (List.mem_reverse.mp member) |>.2

end ArrayQuery.Kernel
