import ArrayQuery.Proofs.Decisions

/-! The compiler accepts what is supported, and nothing else. -/

set_option autoImplicit false
namespace ArrayQuery.Kernel

open Compile ArrayQuery.Expr
open Use (Calm after)

section Bodies

variable {known : List SharedArray} {b b' : List Tag}

theorem decides_spelled {m : Compile Term} {c : Prop} (node : Expr) (target : ElementType)
    (inner : Decides (Prepared known b) m c fun _ => Prepared known b') :
    Decides (Prepared known b) (spelled node target m) (target.IsConvertible ∧ c)
      fun _ => Prepared known b' := by
  unfold spelled
  cases target with
  | record name fields =>
    refine (decides_guard (c := False) fun passed => absurd rfl passed).congr ?_
    simp [ElementType.IsConvertible]
  | leaf l =>
    refine (decides_guard fun _ => decides_bind (decides_typeOf l) fun k =>
      decides_map _ inner).congr ?_
    cases l <;> simp [ElementType.IsConvertible, ElementType.isScalar, Leaf.isScalar]

theorem target_own {declared : Option ElementType} {e : Expr} {t : ElementType}
    (single : ∀ p, declared = some p → p = .f32)
    (other : ((wrapped? t e).or declared).getD t ≠ .f32) :
    ((wrapped? t e).or declared).getD t = t := by
  cases wrapped : wrapped? t e with
  | some p =>
    rw [wrapped] at other
    exact absurd (wrapped?_single wrapped) other
  | none =>
    rw [wrapped] at other
    cases declared with
    | some p => exact absurd (single p rfl) other
    | none => rfl

/-- Where it is calm, a conversion is spelled with the type that it has at its own place. -/
theorem target_settled {declared : Option ElementType} {tag : Tag} {e : Expr} {t : ElementType}
    (single : ∀ p, declared = some p → p = .f32) (ready : Ready b declared (.convert tag e t))
    (calm : Calm b ((Expr.convert tag e t).uses declared)) :
    (if tag ∈ after b (wrapperUses tag t e) then some .f32 else none : Option ElementType).getD t =
      ((wrapped? t e).or declared).getD t := by
  by_cases alone : ((wrapped? t e).or declared).getD t = .f32
  · rw [alone, target_single ready alone]
  · rw [uses, Use.calm_append, if_neg alone] at calm
    rw [if_neg calm.2.1, target_own single alone]
    rfl

theorem decides_convert {scope : Scope} {tag : Tag} {e : Expr} {t : ElementType} {c : Prop}
    {declared : Option ElementType} (single : ∀ p, declared = some p → p = .f32)
    (ready : Ready b declared (.convert tag e t))
    (calm : Calm b ((Expr.convert tag e t).uses declared))
    (inner : ∀ {b : List Tag}, Calm b (e.uses none) → Decides (Prepared known b) (translate scope e) c
      fun _ => Prepared known (after b (e.uses none))) :
    Decides (Prepared known b) (translate scope (.convert tag e t))
      ((((wrapped? t e).or declared).getD t).IsConvertible ∧ c)
      fun _ => Prepared known (after b ((Expr.convert tag e t).uses declared)) := by
  have settled := target_settled single ready calm
  -- What the conversion itself spells changes nothing.
  have uses : Calm (after b (wrapperUses tag t e)) (e.uses none) ∧
      after b ((Expr.convert tag e t).uses declared) =
        after (after b (wrapperUses tag t e)) (e.uses none) := by
    rw [Expr.uses, Use.calm_append] at calm
    rw [Expr.uses, Use.after_append]
    split at calm
    · next alone => exact ⟨calm.2, by rw [if_pos alone]; rfl⟩
    · next other => exact ⟨calm.2.2, by rw [if_neg other]; rfl⟩
  rw [translate_convert, uses.2]
  refine (decides_bind (decides_overrideWrapper tag t e) fun _ => decides_get fun d prepared =>
    ?_).congr (and_iff_right trivial)
  rw [prepared.tracks tag, settled]
  rintro _ rfl
  exact decides_spelled _ _ (inner uses.1) _ prepared

/-! ## Bodies -/

theorem decides_extended {α : Type} {node target : Expr} {c : Prop} {post : α → Draft → Prop}
    {f : Access × ElementType → Compile α} (name : String)
    (chain : Decides (Prepared known b) (chainType node target) (target.reached?.isSome = true)
      fun t d => target.reached? = some t ∧ Prepared known b d)
    (rest : ∀ p, (target.reached?.bind fun t => t.next? name) = some p.2 →
      Decides (Prepared known b) (f p) c post) :
    Decides (Prepared known b) (do let t ← chainType node target; f (← follow node t name))
      ((target.reached?.bind fun t => t.next? name).isSome = true ∧ c) post := by
  cases reached : target.reached? with
  | none =>
    rw [reached] at chain
    have unreached : ∀ t, Decides (fun d => none = some t ∧ Prepared known b d)
        (do f (← follow node t name)) True post :=
      fun t => decides_known fun same => nomatch same
    exact (decides_bind chain unreached).congr (by simp)
  | some container =>
    rw [reached] at chain rest
    have followed : ∀ t, Decides (fun d => some container = some t ∧ Prepared known b d)
        (do f (← follow node t name)) ((container.next? name).isSome = true ∧ c) post := by
      refine fun t => decides_known fun same => ?_
      obtain rfl := Option.some.inj same
      exact decides_bind (decides_follow node container name) fun p =>
        decides_known fun same => rest p same
    exact (decides_bind chain followed).congr (and_iff_right rfl)

theorem decides_chainType (node : Expr) : ∀ e : Expr,
    Decides (Prepared known b) (chainType node e) (e.reached?.isSome = true)
      fun t d => e.reached? = some t ∧ Prepared known b d
  | .member target name _ => by
    unfold chainType reached?
    refine (decides_extended name (decides_chainType node target) fun p same =>
      decides_pure fun d prepared => ⟨same, prepared⟩).congr (and_iff_left trivial)
  | .constant _ | .array _ | .parameter _ | .select .. | .zip .. | .binary .. | .negate ..
  | .convert .. | .index .. | .construct .. | .call .. =>
    (decides_pure fun _ prepared => ⟨rfl, prepared⟩).congr (by simp [reached?])

mutual
/-- A body is translated exactly if it is supported, in whatever draft, as long as no conversion of it
has been overridden elsewhere. -/
theorem decides_translate (faithful : ∀ a ∈ known, ∀ b ∈ known, a.tag = b.tag → a = b) {scope : Scope}
    {names : List String} (named : ∀ name, (∃ o, scope.lookup name = some o) ↔ name ∈ names) :
    ∀ (e : Expr) (declared : Option ElementType) {b : List Tag},
    (∀ p, declared = some p → p = .f32) → Ready b declared e → Calm b (e.uses declared) →
    (∀ a ∈ e.arrays, a ∈ known) → e.IsFormed →
    Decides (Prepared known b) (translate scope e) (e.IsSupported names declared)
      fun _ => Prepared known (after b (e.uses declared))
  | .constant v, _, b, _, _, _, _, formed => by
    unfold translate
    have literal : Decides (fun d => d.records.Covers v.type ∧ Prepared known b d)
        (do (← get).records.literal v) v.IsFinite fun _ => Prepared known b :=
      (decides_names (g := fun names => names.literal v) fun d held =>
        RecordNames.literal_accepts held.2.arranged v formed held.1).weaken fun _ _ held => held.2
    exact (decides_bind (decides_declare _ v.type) fun _ => literal).congr and_comm
  | .parameter p, _, b, _, _, _, _, _ => by
    unfold translate
    rw [IsSupported, ← named p.name]
    cases scope.lookup p.name with
    | none => exact (decides_refuse _ _).congr (by simp)
    | some o =>
      refine Decides.congr (c := True) ?_ (iff_of_true trivial ⟨o, rfl⟩)
      exact decides_pure fun _ => id
  | .binary op l r t, _, b, _, _, calm, within, formed => by
    -- Either operand may be translated first, so that both are decided whatever was used before.
    have left : ∀ {b : List Tag}, Calm b (l.uses none) → Decides (Prepared known b)
        (translate scope l) (l.IsSupported names none) fun _ => Prepared known (after b (l.uses none)) :=
      fun calm => decides_translate faithful named l none single_none (ready_none _ _) calm
        (fun a member => within a (List.mem_append_left _ member)) formed.1
    have right : ∀ {b : List Tag}, Calm b (r.uses none) → Decides (Prepared known b)
        (translate scope r) (r.IsSupported names none) fun _ => Prepared known (after b (r.uses none)) :=
      fun calm => decides_translate faithful named r none single_none (ready_none _ _) calm
        (fun a member => within a (List.mem_append_right _ member)) formed.2
    rw [uses] at calm ⊢
    unfold translate
    by_cases product : op = .mul
    · simp only [product, if_true, Use.calm_append, Use.after_append] at calm ⊢
      refine (decides_guard fun _ => decides_bind (right calm.1) fun second =>
        decides_map _ (left calm.2)).congr ?_
      simp [IsSupported, and_comm]
    · simp only [product, if_false, Use.calm_append, Use.after_append] at calm ⊢
      refine (decides_guard fun _ => decides_bind (left calm.1) fun first =>
        decides_map _ (right calm.2)).congr ?_
      simp [IsSupported]
  | .negate e t, _, b, _, _, calm, within, formed => by
    have inner := decides_translate faithful named e none single_none (ready_none b _) calm within
      formed
    unfold translate
    dsimp only
    split
    · next plain =>
      refine (decides_map _ inner).congr (and_iff_right ?_).symm
      exact plain.imp_right (Or.imp_right .inl)
    · next other =>
      split
      · next matrix =>
        exact (decides_map _ inner).congr (and_iff_right (.inr (.inr (.inr matrix)))).symm
      · next unsigned =>
        -- Neither branch takes the type, and these are all types that have opposites.
        refine (decides_refuse _ _).congr (iff_of_false id fun held => ?_)
        obtain int | float | vector | matrix := held.1
        · exact other (.inl int)
        · exact other (.inr (.inl float))
        · exact other (.inr (.inr vector))
        · exact unsigned matrix
  | .convert tag e t, declared, b, single, ready, calm, within, formed =>
    decides_convert single ready calm fun calm =>
      decides_translate faithful named e none single_none (ready_none _ _) calm within formed
  | .member target name t, _, b, _, _, calm, within, formed => by
    have inner := decides_translate faithful named target none single_none (ready_none b _) calm within
      formed
    unfold translate
    exact decides_extended name (decides_chainType _ target) fun p _ => decides_map _ inner
  | .index a i t, _, b, _, _, calm, within, formed => by
    have inner := decides_translate faithful named i none single_none (ready_none b _) calm
      (fun a member => within a (List.mem_append_right _ member)) formed
    by_cases captured : ∃ source, a = .array source
    · obtain ⟨source, rfl⟩ := captured
      unfold translate
      refine (decides_bind (decides_bindArray faithful _ (within source List.mem_cons_self))
        fun slot => decides_map _ inner).congr ?_
      simp [IsSupported]
    · rw [translate_index_other scope i t fun source same => captured ⟨source, same⟩]
      refine (decides_refuse _ _).congr (iff_of_false id fun held => ?_)
      obtain ⟨⟨source, same, _⟩, _⟩ := held
      exact captured ⟨source, same⟩
  | .construct r args, _, b, _, _, calm, within, formed => by
    have inner := decides_translateAll faithful named args [] (by simp) (readyAll_nil b args) calm within
      formed
    unfold translate
    refine (decides_guard fun _ => decides_bind (decides_valueType _ r.type) fun k =>
      decides_map _ inner).congr ?_
    simp [IsSupported]
  | .call fn args t, _, b, _, _, calm, within, formed => by
    rw [uses, Use.calm_append] at calm
    rw [uses, Use.after_append]
    -- All arguments are overridden before the first of them is translated.
    have ready : ReadyAll (after b (argumentUses args fn.parameters)) fn.parameters args :=
      readyAll_arguments args _ fn.parameters_single fun tag used => Use.mem_after.mpr (.inr used)
    have inner := decides_translateAll faithful named args fn.parameters fn.parameters_single ready
      calm.2 within formed
    unfold translate
    refine (decides_guard fun _ => decides_bind (decides_overrideCall fn args) fun _ =>
      decides_map _ inner).congr ?_
    simp [IsSupported]
  | .select .., _, _, _, _, _, _, _ | .zip .., _, _, _, _, _, _, _ | .array _, _, _, _, _, _, _, _ => by
    unfold translate
    exact decides_refuse _ _

theorem decides_translateAll (faithful : ∀ a ∈ known, ∀ b ∈ known, a.tag = b.tag → a = b) {scope : Scope}
    {names : List String} (named : ∀ name, (∃ o, scope.lookup name = some o) ↔ name ∈ names) :
    ∀ (es : List Expr) (declared : List ElementType) {b : List Tag},
    (∀ p ∈ declared, p = .f32) → ReadyAll b declared es → Calm b (usesAll declared es) →
    (∀ a ∈ arraysAll es, a ∈ known) → AreFormed es →
    Decides (Prepared known b) (translateAll scope es) (AreSupported names declared es)
      fun _ => Prepared known (after b (usesAll declared es))
  | [], _, _, _, _, _, _, _ => decides_pure fun _ => id
  | e :: rest, declared, b, single, ready, calm, within, formed => by
    rw [usesAll, Use.calm_append] at calm
    rw [usesAll, Use.after_append]
    have first := decides_translate faithful named e declared.head?
      (fun p head => single p (List.mem_of_mem_head? head)) ready.1 calm.1
      (fun a member => within a (List.mem_append_left _ member)) formed.1
    have later : ReadyAll (after b (e.uses declared.head?)) declared.tail rest :=
      ready.2.mono fun tag member => Use.mem_after.mpr (.inl member)
    have others := decides_translateAll faithful named rest declared.tail
      (fun p later => single p (List.mem_of_mem_tail later)) later calm.2
      (fun a member => within a (List.mem_append_right _ member)) formed.2
    unfold translateAll
    exact decides_bind first fun t => decides_map _ others
end

theorem lookup_scopeOf {params : List Parameter} {inputs : List Operand}
    (counted : params.length = inputs.length) (name : String) :
    (∃ o, (scopeOf params inputs).lookup name = some o) ↔ name ∈ params.map Parameter.name := by
  have names : (scopeOf params inputs).map Prod.fst = (params.map Parameter.name).reverse := by
    rw [scopeOf, List.map_reverse, List.map_fst_zip (by simp [counted])]
  rw [← List.mem_reverse, ← names, ← Option.isSome_iff_exists, lookup_isSome_iff_mem]

/-- A step is emitted exactly if its lambda has a parameter for each source, and its body and the type of
it are supported. -/
theorem decides_emit (faithful : ∀ a ∈ known, ∀ b ∈ known, a.tag = b.tag → a = b) {node body : Expr}
    {tag : Tag} {params : List Parameter} {inputs : List Operand} (calm : Calm b (body.uses none))
    (within : ∀ a ∈ body.arrays, a ∈ known) (formed : body.IsFormed) :
    Decides (Prepared known b) (emit node tag params body inputs)
      (params.length = inputs.length ∧ body.type.IsSpellable ∧
        body.IsSupported (params.map Parameter.name) none)
      fun _ => Prepared known (after b (body.uses none)) := by
  intro d prepared
  obtain ⟨accepts, keeps⟩ := decides_valueType (b := b) node body.type d prepared
  have translates (counted : params.length = inputs.length) :=
    decides_translate faithful (lookup_scopeOf counted) body none single_none (ready_none b body) calm
      within formed
  refine ⟨⟨?_, ?_⟩, ?_⟩
  · rintro ⟨o, e, run⟩
    obtain ⟨counted, k, d', value, c, typed, translated, _⟩ := emit_ok run
    have supported := (translates counted d' (keeps k d' typed)).1
    exact ⟨counted, accepts.mp ⟨k, d', typed⟩, supported.mp ⟨value, c, translated⟩⟩
  · rintro ⟨counted, spellable, supported⟩
    obtain ⟨k, d', typed⟩ := accepts.mpr spellable
    obtain ⟨value, c, translated⟩ := (translates counted d' (keeps k d' typed)).1.mpr supported
    simp only [emit, counted, ne_eq, not_true_eq_false, if_false]
    exact ⟨_, _, bind_ok.mpr ⟨k, d', typed, bind_ok.mpr ⟨value, c, translated, rfl⟩⟩⟩
  · intro o e run
    have arranged := emit_arranged prepared.toArranged run
    obtain ⟨counted, k, d', value, c, typed, translated, _, rfl⟩ := emit_ok run
    have prepared' := (translates counted d' (keeps k d' typed)).2 value c translated
    exact ⟨arranged, prepared'.agreed, prepared'.tracks⟩

/-- A source is bound exactly if it has the length of the others, and spellable elements. -/
theorem decides_bindSource (faithful : ∀ a ∈ known, ∀ b ∈ known, a.tag = b.tag → a = b) (node : Expr)
    {a : SharedArray} (member : a ∈ known) {d : Draft} (prepared : Prepared known b d) :
    ((∃ o e, bindSource node a d = .ok (o, e)) ↔
      (d.sourceCount = none ∨ d.sourceCount = some a.data.count) ∧ a.data.element.IsSpellable) ∧
    ∀ o e, bindSource node a d = .ok (o, e) → Prepared known b e := by
  have counted : Prepared known b { d with sourceCount := some a.data.count } :=
    ⟨⟨⟨prepared.distinct, prepared.structs, prepared.storage, prepared.steps⟩, prepared.arranged⟩,
      prepared.agreed, prepared.tracks⟩
  obtain ⟨accepts, keeps⟩ := decides_bindArray faithful node member _ counted
  refine ⟨⟨?_, ?_⟩, ?_⟩
  · rintro ⟨o, e, run⟩
    obtain ⟨slot, bound, _, fits⟩ := bindSource_bound run
    exact ⟨fits, accepts.mp ⟨slot, e, bound⟩⟩
  · rintro ⟨fits, spellable⟩
    obtain ⟨slot, e, bound⟩ := accepts.mpr spellable
    refine ⟨⟨.buffer slot, a.data.element⟩, e, ?_⟩
    unfold bindSource
    rw [get_bind]
    obtain none | same := fits
    · rw [none]
      exact bind_ok.mpr ⟨(), _, rfl, bind_ok.mpr ⟨slot, e, bound, rfl⟩⟩
    · rw [same]
      rw [← same] at bound
      simp only [ne_eq, not_true_eq_false, if_false]
      exact bind_ok.mpr ⟨slot, e, bound, rfl⟩
  · intro o e run
    obtain ⟨slot, bound, _, _⟩ := bindSource_bound run
    exact keeps slot e bound

end Bodies

/-! ## Chains -/

section Chains

variable {root : Expr} {done b : List Tag} {d e : Draft} {o : Operand}

structure IsPart (root node : Expr) : Prop where
  queries : ∀ q ∈ node.queries, q ∈ root.queries
  arrays : ∀ a ∈ node.arrays, a ∈ root.arrays
  formed : node.HasFormed

theorem IsPart.select {tag : Tag} {source body : Expr} {params : List Parameter}
    (part : IsPart root (.select tag source params body)) :
    IsPart root source ∧ (∀ a ∈ body.arrays, a ∈ root.arrays) ∧ body.IsFormed where
  left :=
    { queries := fun q member => part.queries q (List.mem_cons_of_mem _ member)
      arrays := fun a member => part.arrays a (List.mem_append_left _ member)
      formed := fun inner member => part.formed inner (List.mem_cons_of_mem _ member) }
  right := ⟨fun a member => part.arrays a (List.mem_append_right _ member),
    part.formed body List.mem_cons_self⟩

theorem IsPart.zip {tag : Tag} {first second body : Expr} {params : List Parameter}
    (part : IsPart root (.zip tag first second params body)) :
    IsPart root first ∧ IsPart root second ∧ (∀ a ∈ body.arrays, a ∈ root.arrays) ∧
      body.IsFormed := by
  obtain ⟨queries, arrays, formed⟩ := part
  simp only [Expr.queries, Expr.arrays, HasFormed, lambdas, List.forall_mem_cons,
    List.forall_mem_append] at queries arrays formed
  exact ⟨⟨queries.2.1, arrays.1, formed.2.1⟩, ⟨queries.2.2, arrays.2.1, formed.2.2⟩, arrays.2.2,
    formed.1⟩

theorem exists_source : ∀ node : Expr, node.IsChain → ∃ a, a ∈ node.sources
  | .array a, _ => ⟨a, List.mem_cons_self⟩
  | .select _ source _ _, chain => exists_source source chain
  | .zip _ first _ _ _, chain => by
    obtain ⟨a, member⟩ := exists_source first chain.1
    exact ⟨a, List.mem_append_left _ member⟩

theorem supported_count {node : Expr} {count count' : Nat} (supported : node.IsSupportedChain count)
    (supported' : node.IsSupportedChain count') : count = count' := by
  obtain ⟨a, member⟩ := exists_source node supported.chain
  rw [← supported.counts a member, supported'.counts a member]

theorem supported_array {a : SharedArray} {count : Nat} :
    (array a).IsSupportedChain count ↔ a.data.count = count ∧ a.data.element.IsSpellable := by
  constructor
  · intro supported
    exact ⟨supported.counts a List.mem_cons_self, supported.elements a List.mem_cons_self⟩
  · rintro ⟨counted, spellable⟩
    refine ⟨trivial, ?_, ?_, fun _ member => absurd member List.not_mem_nil⟩
    · simpa [sources] using counted
    · simpa [sources] using spellable

theorem supported_operator {q body : Expr} (bodied : q.body? = some body) (type : q.type = body.type) :
    q.IsSupportedOperator ↔ q.parameters.length = q.operands.length ∧ body.type.IsSpellable ∧
      body.IsSupported (q.parameters.map Parameter.name) none := by
  constructor
  · intro supported
    exact ⟨supported.counted, type ▸ supported.type, supported.body body bodied⟩
  · rintro ⟨counted, spellable, supported⟩
    refine ⟨counted, type ▸ spellable, fun other bodied' => ?_⟩
    obtain rfl := Option.some.inj (bodied.symm.trans bodied')
    exact supported

theorem supported_select {tag : Tag} {source body : Expr} {params : List Parameter} {count : Nat} :
    (select tag source params body).IsSupportedChain count ↔ source.IsSupportedChain count ∧
      params.length = 1 ∧ body.type.IsSpellable ∧
      body.IsSupported (params.map Parameter.name) none := by
  have operator := supported_operator (q := select tag source params body) rfl rfl
  constructor
  · rintro ⟨chain, counts, elements, operators⟩
    obtain ⟨own, operators⟩ := List.forall_mem_cons.mp operators
    exact ⟨⟨chain, counts, elements, operators⟩, operator.mp own⟩
  · rintro ⟨⟨chain, counts, elements, operators⟩, own⟩
    exact ⟨chain, counts, elements, List.forall_mem_cons.mpr ⟨operator.mpr own, operators⟩⟩

theorem supported_zip {tag : Tag} {first second body : Expr} {params : List Parameter} {count : Nat} :
    (zip tag first second params body).IsSupportedChain count ↔ first.IsSupportedChain count ∧
      second.IsSupportedChain count ∧ params.length = 2 ∧ body.type.IsSpellable ∧
      body.IsSupported (params.map Parameter.name) none := by
  have operator := supported_operator (q := zip tag first second params body) rfl rfl
  constructor
  · rintro ⟨⟨left, right⟩, counts, elements, operators⟩
    simp only [sources, List.forall_mem_append] at counts elements
    simp only [queries, List.forall_mem_append, List.forall_mem_cons] at operators
    exact ⟨⟨left, counts.1, elements.1, operators.2.1⟩,
      ⟨right, counts.2, elements.2, operators.2.2⟩, operator.mp operators.1⟩
  · rintro ⟨left, right, own⟩
    refine ⟨⟨left.chain, right.chain⟩, ?_, ?_, ?_⟩
    · exact List.forall_mem_append.mpr ⟨left.counts, right.counts⟩
    · exact List.forall_mem_append.mpr ⟨left.elements, right.elements⟩
    · exact List.forall_mem_cons.mpr
        ⟨operator.mpr own, List.forall_mem_append.mpr ⟨left.operators, right.operators⟩⟩

/-- What is true of a draft between the steps of a query: the steps that are done are supported, with the
length that sources have. -/
structure Underway (root : Expr) (done b : List Tag) (d : Draft) : Prop
    extends Prepared root.arrays b d where
  done : d.steps.map Prod.fst = done
  settled : ∀ tag o, d.steps.lookup tag = some o → ∃ q ∈ root.queries, q.stepTag? = some tag ∧
    ∃ count, d.sourceCount = some count ∧ q.IsSupportedChain count

theorem underway_start (root : Expr) : Underway root [] [] {} :=
  ⟨prepared_start root.arrays, rfl, fun _ _ found => nomatch found⟩

theorem Underway.mem_done (underway : Underway root done b d) (tag : Tag) :
    tag ∈ done ↔ ∃ o, d.steps.lookup tag = some o := by
  rw [← underway.done, ← Option.isSome_iff_exists, lookup_isSome_iff_mem]

theorem Underway.found (underway : Underway root done b d) (faithful : root.Faithful) {node : Expr}
    {tag : Tag} (member : node ∈ root.queries) (tagged : node.stepTag? = some tag)
    (found : d.steps.lookup tag = some o) :
    ∃ count, d.sourceCount = some count ∧ node.IsSupportedChain count := by
  obtain ⟨q, held, tagged', supported⟩ := underway.settled tag o found
  obtain rfl := faithful.queries q held node member (tagged'.trans tagged.symm)
  exact supported

theorem Underway.source (underway : Underway root done b d) (faithful : root.Faithful)
    {a : SharedArray} (member : a ∈ root.arrays) (run : bindSource (.array a) a d = .ok (o, e)) :
    e.sourceCount = some a.data.count ∧ a.data.element.IsSpellable ∧ Underway root done b e := by
  obtain ⟨accepts, keeps⟩ :=
    decides_bindSource faithful.arrays (.array a) member underway.toPrepared
  obtain ⟨fits, spellable⟩ := accepts.mp ⟨o, e, run⟩
  have counted := bindSource_counted run
  obtain ⟨slot, bound, _⟩ := bindSource_bound run
  have steps : e.steps = d.steps := (bindArray_grows bound).steps
  refine ⟨counted, spellable, keeps o e run, steps ▸ underway.done, ?_⟩
  rw [steps]
  intro tag x found
  obtain ⟨q, held, tagged, count, known, supported⟩ := underway.settled tag x found
  refine ⟨q, held, tagged, count, ?_, supported⟩
  rw [known] at fits
  rw [counted]
  simpa [eq_comm] using fits

theorem Underway.emitted (underway : Underway root done b d) {node body : Expr} {tag : Tag}
    {params : List Parameter} {inputs : List Operand} {count : Nat} (member : node ∈ root.queries)
    (tagged : node.stepTag? = some tag)
    (counted : d.sourceCount = some count) (supported : node.IsSupportedChain count)
    (prepared : Prepared root.arrays (after b (body.uses none)) e)
    (run : emit node tag params body inputs d = .ok (o, e)) :
    e.sourceCount = some count ∧ Underway root (tag :: done) (after b (body.uses none)) e := by
  have count := (emit_inputs run).1.trans counted
  obtain ⟨_, _, _, _, steps⟩ := emit_added run
  refine ⟨count, prepared, by rw [steps, List.map_cons, underway.done], fun tag' x found => ?_⟩
  rw [steps, List.lookup_cons] at found
  split at found
  · next same =>
    obtain rfl := beq_iff_eq.mp same
    exact ⟨node, member, tagged, _, count, supported⟩
  · obtain ⟨q, held, tagged', count', known, supported'⟩ := underway.settled tag' x found
    exact ⟨q, held, tagged', count', (emit_inputs run).1.trans known, supported'⟩

theorem Underway.fresh (underway : Underway root done b d) {tag : Tag}
    (absent : d.steps.lookup tag = none) : tag ∉ done := by
  intro member
  obtain ⟨o, found⟩ := (underway.mem_done tag).mp member
  exact nomatch absent.symm.trans found

theorem step_supported (faithful : root.Faithful) : ∀ (node : Expr) {done b : List Tag} {d e : Draft}
    {o : Operand}, IsPart root node → Calm b (stepUses (node.steps done)) →
    Underway root done b d → step node d = .ok (o, e) →
    (∃ count, e.sourceCount = some count ∧ node.IsSupportedChain count) ∧
      Underway root (((node.steps done).map Prod.fst).reverse ++ done)
        (after b (stepUses (node.steps done))) e
  | .array a, _, _, _, _, _, part, _, underway, run => by
    obtain ⟨counted, spellable, underway'⟩ :=
      underway.source faithful (part.arrays a List.mem_cons_self) run
    exact ⟨⟨_, counted, supported_array.mpr ⟨rfl, spellable⟩⟩, underway'⟩
  | .select tag source params body, done, b, d, e, o, part, calm, underway, run => by
    have member := part.queries _ List.mem_cons_self
    obtain ⟨inner, within, formed⟩ := part.select
    rw [Expr.steps] at calm ⊢
    obtain ⟨known, rfl⟩ | ⟨absent, x, c, compiled, emitted⟩ := step_select_ok run
    · rw [if_pos ((underway.mem_done tag).mpr ⟨o, known⟩)]
      exact ⟨underway.found faithful member rfl known, underway⟩
    · rw [if_neg (underway.fresh absent), stepUses_append, stepUses_single] at calm ⊢
      rw [Use.calm_append] at calm
      rw [Use.after_append, List.map_append, List.reverse_append]
      obtain ⟨⟨count, counted, chain⟩, underway'⟩ :=
        step_supported faithful source inner calm.1 underway compiled
      obtain ⟨accepts, keeps⟩ :=
        decides_emit faithful.arrays calm.2 within formed c underway'.toPrepared
      have supported : (select tag source params body).IsSupportedChain count :=
        supported_select.mpr ⟨chain, accepts.mp ⟨o, e, emitted⟩⟩
      obtain ⟨counted', underway''⟩ :=
        underway'.emitted member rfl counted supported (keeps o e emitted) emitted
      exact ⟨⟨count, counted', supported⟩, underway''⟩
  | .zip tag first second params body, done, b, d, e, o, part, calm, underway, run => by
    have member := part.queries _ List.mem_cons_self
    obtain ⟨left, right, within, formed⟩ := part.zip
    rw [Expr.steps] at calm ⊢
    obtain ⟨known, rfl⟩ | ⟨absent, x, y, c, c', compiled, compiled', emitted⟩ := step_zip_ok run
    · rw [if_pos ((underway.mem_done tag).mpr ⟨o, known⟩)]
      exact ⟨underway.found faithful member rfl known, underway⟩
    · simp only [if_neg (underway.fresh absent), stepUses_append, stepUses_single, Use.calm_append,
        Use.after_append, List.map_append, List.reverse_append, List.append_assoc] at calm ⊢
      obtain ⟨⟨count, counted, chain⟩, underway'⟩ :=
        step_supported faithful first left calm.1 underway compiled
      obtain ⟨⟨count', counted', chain'⟩, underway''⟩ :=
        step_supported faithful second right calm.2.1 underway' compiled'
      obtain ⟨accepts, keeps⟩ :=
        decides_emit faithful.arrays calm.2.2 within formed c' underway''.toPrepared
      -- The second source is held to the length that the first one has settled.
      obtain rfl : count = count' :=
        Option.some.inj (((steps_of_step second compiled').onward.counted _ counted).symm.trans counted')
      have supported : (zip tag first second params body).IsSupportedChain count :=
        supported_zip.mpr ⟨chain, chain', accepts.mp ⟨o, e, emitted⟩⟩
      obtain ⟨counted'', underway'''⟩ :=
        underway''.emitted member rfl counted' supported (keeps o e emitted) emitted
      exact ⟨⟨count, counted'', supported⟩, underway'''⟩
  | .constant _, _, _, _, _, _, _, _, _, run | .parameter _, _, _, _, _, _, _, _, _, run
  | .binary .., _, _, _, _, _, _, _, _, run | .negate .., _, _, _, _, _, _, _, _, run
  | .convert .., _, _, _, _, _, _, _, _, run | .member .., _, _, _, _, _, _, _, _, run
  | .index .., _, _, _, _, _, _, _, _, run | .construct .., _, _, _, _, _, _, _, _, run
  | .call .., _, _, _, _, _, _, _, _, run => (refuse_ok.mp run).elim

theorem step_accepts (faithful : root.Faithful) : ∀ (node : Expr) {done b : List Tag} {d : Draft}
    {count : Nat}, IsPart root node → Calm b (stepUses (node.steps done)) → Underway root done b d →
    (d.sourceCount = none ∨ d.sourceCount = some count) → node.IsSupportedChain count →
    ∃ o e, step node d = .ok (o, e)
  | .array a, _, _, d, count, part, _, underway, fits, supported => by
    obtain ⟨rfl, spellable⟩ := supported_array.mp supported
    have member := part.arrays a List.mem_cons_self
    exact (decides_bindSource faithful.arrays _ member underway.toPrepared).1.mpr ⟨fits, spellable⟩
  | .select tag source params body, done, b, d, count, part, calm, underway, fits, supported => by
    obtain ⟨chain, own⟩ := supported_select.mp supported
    obtain ⟨inner, within, formed⟩ := part.select
    unfold step
    rw [get_bind]
    cases found : d.steps.lookup tag with
    | some o => exact ⟨o, d, rfl⟩
    | none =>
      rw [Expr.steps, if_neg (underway.fresh found), stepUses_append, stepUses_single,
        Use.calm_append] at calm
      -- The source is compiled, and leaves a draft that the body is decided in.
      obtain ⟨x, c, compiled⟩ := step_accepts faithful source inner calm.1 underway fits chain
      obtain ⟨_, underway'⟩ := step_supported faithful source inner calm.1 underway compiled
      have emits : Decides _ (emit (.select tag source params body) tag params body [x]) _ _ :=
        decides_emit faithful.arrays calm.2 within formed
      obtain ⟨o, e, emitted⟩ := (emits c underway'.toPrepared).1.mpr own
      exact ⟨o, e, bind_ok.mpr ⟨x, c, compiled, emitted⟩⟩
  | .zip tag first second params body, done, b, d, count, part, calm, underway, fits, supported => by
    obtain ⟨chain, chain', own⟩ := supported_zip.mp supported
    obtain ⟨left, right, within, formed⟩ := part.zip
    unfold step
    rw [get_bind]
    cases found : d.steps.lookup tag with
    | some o => exact ⟨o, d, rfl⟩
    | none =>
      simp only [Expr.steps, if_neg (underway.fresh found), stepUses_append, stepUses_single,
        Use.calm_append, List.append_assoc] at calm
      obtain ⟨x, c, compiled⟩ := step_accepts faithful first left calm.1 underway fits chain
      obtain ⟨⟨n, counted, settled⟩, underway'⟩ :=
        step_supported faithful first left calm.1 underway compiled
      -- The first source has settled the length that the second one is held to.
      obtain rfl := supported_count settled chain
      obtain ⟨y, c', compiled'⟩ :=
        step_accepts faithful second right calm.2.1 underway' (.inr counted) chain'
      obtain ⟨_, underway''⟩ := step_supported faithful second right calm.2.1 underway' compiled'
      have emits : Decides _ (emit (.zip tag first second params body) tag params body [x, y]) _ _ :=
        decides_emit faithful.arrays calm.2.2 within formed
      obtain ⟨o, e, emitted⟩ := (emits c' underway''.toPrepared).1.mpr own
      exact ⟨o, e, bind_ok.mpr ⟨x, c, compiled, bind_ok.mpr ⟨y, c', compiled', emitted⟩⟩⟩

/-- The kernel of a query can be put together exactly if the query is supported. -/
theorem root_accepts (faithful : root.Faithful) (formed : root.HasFormed)
    (separate : root.IsSeparate) :
    (∃ r d, Compile.root root {} = .ok (r, d)) ↔ root.IsSupportedQuery := by
  have part : IsPart root root := ⟨fun _ => id, fun _ => id, formed⟩
  have calm := separate.calm
  rw [← stepUses_bodies] at calm
  constructor
  · rintro ⟨⟨result, storage⟩, d, run⟩
    obtain ⟨query, o, c, stepped, _, _⟩ := root_ok run
    obtain ⟨⟨count, _, supported⟩, _⟩ :=
      step_supported faithful root part calm (underway_start root) stepped
    exact ⟨query, count, supported⟩
  · rintro ⟨query, count, supported⟩
    obtain ⟨o, c, stepped⟩ :=
      step_accepts faithful root part calm (underway_start root) (.inl rfl) supported
    obtain ⟨_, underway⟩ := step_supported faithful root part calm (underway_start root) stepped
    have own := supported.operators root (mem_queries_self query)
    obtain ⟨k, d, stored⟩ := (decides_storageType root root.type c underway.toPrepared).1.mpr own.type
    simp only [Compile.root, query, Bool.not_true, Bool.false_eq_true, if_false]
    exact ⟨_, _, bind_ok.mpr ⟨o, c, stepped, bind_ok.mpr ⟨k, d, stored, rfl⟩⟩⟩

end Chains

theorem compile_supported {root : Expr} (faithful : root.Faithful) (formed : root.HasFormed)
    (separate : root.IsSeparate) (workgroupSize : Nat) :
    (∃ p, compile workgroupSize root = .ok p) ↔ root.IsSupportedQuery := by
  rw [← root_accepts faithful formed separate, compile_root]
  cases Compile.root root {} with
  | error cause => simp [Except.map]
  | ok r => exact iff_of_true ⟨_, rfl⟩ ⟨r.1, r.2, rfl⟩

/-- The compiler accepts the supported queries, and no others. -/
theorem compile_accepts {root : Expr} (faithful : root.Faithful) (formed : root.HasFormed)
    (separate : root.IsSeparate) (c : Config) :
    (∃ q, CompiledQuery.compile c root = .ok q) ↔ root.IsSupportedQuery := by
  rw [← compile_supported faithful formed separate c.workgroupSize, CompiledQuery.compile]
  cases compile c.workgroupSize root with
  | error cause => simp [Except.map]
  | ok p => simp [Except.map]

def wideQuery (body : Expr) : Expr :=
  let values : SharedArray := ⟨1, .ofList [Single.mk 0x3f000000, Single.mk 0x40300000]⟩
  .select 2 (.array values) [⟨"x", .f32⟩] (.convert 3 (.convert 4 body .f64) .f32)

/-- Around a sine, and inside it, double precision is spelled as single precision; elsewhere it is
refused. -/
theorem wideQuery_accepts :
    (∃ q, CompiledQuery.compile {} (wideQuery (.call .sin [.convert 5 (.parameter ⟨"x", .f32⟩) .f64]
      .f64)) = .ok q) ∧
    ¬∃ q, CompiledQuery.compile {} (wideQuery (.parameter ⟨"x", .f32⟩)) = .ok q := by
  constructor
  · refine (compile_accepts ?_ ?_ (by decide) {}).mpr ⟨rfl, 2, supported_select.mpr ?_⟩
    · constructor <;> simp [wideQuery, queries, arrays, arraysAll, stepTag?]
    · simp [wideQuery, HasFormed, lambdas, IsFormed, AreFormed]
    · refine ⟨supported_array.mpr ⟨rfl, by decide⟩, rfl, by decide, ?_⟩
      simp [IsSupported, AreSupported, ElementType.IsConvertible, wrapped?, MathFn.signature?,
        MathFn.parameters, MathFn.arity]
  · rw [compile_accepts ?_ ?_ (by decide) {}]
    · rintro ⟨_, count, supported⟩
      obtain ⟨_, _, _, held⟩ := supported_select.mp supported
      simp [IsSupported, ElementType.IsConvertible, wrapped?] at held
    · constructor <;> simp [wideQuery, queries, arrays, stepTag?]
    · simp [wideQuery, HasFormed, lambdas, IsFormed]

end ArrayQuery.Kernel
