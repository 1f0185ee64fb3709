import ArrayQuery.Proofs.Lockstep
import ArrayQuery.Proofs.Cancels

/-! Translations of two copies of a body. The first differs from the second exactly where a use of a
conversion is disturbed. -/

set_option autoImplicit false
namespace ArrayQuery

namespace Expr

mutual
theorem type_untagged : ∀ e : Expr, e.untagged.type = e.type
  | constant _ | array _ | parameter _ | binary .. | negate .. | convert .. | member .. | index ..
  | construct .. | call .. => rfl
  | select _ _ _ body | zip _ _ _ _ body => type_untagged body
end

theorem copy_type {e e' : Expr} (copy : e'.untagged = e.untagged) : e'.type = e.type := by
  rw [← type_untagged e', copy, type_untagged]

theorem copy_constant {e' : Expr} {v : Value} (copy : e'.untagged = (constant v).untagged) :
    e' = constant v := by
  cases e' with
  | constant _ => exact copy
  | _ => exact nomatch copy

theorem copy_array {e' : Expr} {a : SharedArray} (copy : e'.untagged = (array a).untagged) :
    e' = array a := by
  cases e' with
  | array _ => exact copy
  | _ => exact nomatch copy

theorem copy_parameter {e' : Expr} {p : Parameter} (copy : e'.untagged = (parameter p).untagged) :
    e' = parameter p := by
  cases e' with
  | parameter _ => exact copy
  | _ => exact nomatch copy

theorem copy_select {e' source body : Expr} {tag : Tag} {params : List Parameter}
    (copy : e'.untagged = (select tag source params body).untagged) :
    ∃ source' body', e' = select tag source' params body' ∧ source'.untagged = source.untagged ∧
      body'.untagged = body.untagged := by
  cases e' with
  | select tag' source' params' body' =>
    obtain ⟨rfl, before, rfl, inner⟩ := select.inj copy
    exact ⟨source', body', rfl, before, inner⟩
  | _ => exact nomatch copy

theorem copy_zip {e' first second body : Expr} {tag : Tag} {params : List Parameter}
    (copy : e'.untagged = (zip tag first second params body).untagged) :
    ∃ first' second' body', e' = zip tag first' second' params body' ∧
      first'.untagged = first.untagged ∧ second'.untagged = second.untagged ∧
      body'.untagged = body.untagged := by
  cases e' with
  | zip tag' first' second' params' body' =>
    obtain ⟨rfl, before, before', rfl, inner⟩ := zip.inj copy
    exact ⟨first', second', body', rfl, before, before', inner⟩
  | _ => exact nomatch copy

theorem copy_binary {e' l r : Expr} {op : BinaryOp} {t : ElementType}
    (copy : e'.untagged = (binary op l r t).untagged) :
    ∃ l' r', e' = binary op l' r' t ∧ l'.untagged = l.untagged ∧ r'.untagged = r.untagged := by
  cases e' with
  | binary op' l' r' t' =>
    obtain ⟨rfl, left, right, rfl⟩ := binary.inj copy
    exact ⟨l', r', rfl, left, right⟩
  | _ => exact nomatch copy

theorem copy_negate {e' e : Expr} {t : ElementType} (copy : e'.untagged = (negate e t).untagged) :
    ∃ inner, e' = negate inner t ∧ inner.untagged = e.untagged := by
  cases e' with
  | negate inner t' =>
    obtain ⟨same, rfl⟩ := negate.inj copy
    exact ⟨inner, rfl, same⟩
  | _ => exact nomatch copy

theorem copy_convert {e' e : Expr} {tag : Tag} {t : ElementType}
    (copy : e'.untagged = (convert tag e t).untagged) :
    ∃ tag' inner, e' = convert tag' inner t ∧ inner.untagged = e.untagged := by
  cases e' with
  | convert tag' inner t' =>
    obtain ⟨_, same, rfl⟩ := convert.inj copy
    exact ⟨tag', inner, rfl, same⟩
  | _ => exact nomatch copy

theorem copy_member {e' e : Expr} {name : String} {t : ElementType}
    (copy : e'.untagged = (member e name t).untagged) :
    ∃ target, e' = member target name t ∧ target.untagged = e.untagged := by
  cases e' with
  | member target name' t' =>
    obtain ⟨same, rfl, rfl⟩ := member.inj copy
    exact ⟨target, rfl, same⟩
  | _ => exact nomatch copy

theorem copy_index {e' a i : Expr} {t : ElementType} (copy : e'.untagged = (index a i t).untagged) :
    ∃ a' i', e' = index a' i' t ∧ a'.untagged = a.untagged ∧ i'.untagged = i.untagged := by
  cases e' with
  | index a' i' t' =>
    obtain ⟨array, position, rfl⟩ := index.inj copy
    exact ⟨a', i', rfl, array, position⟩
  | _ => exact nomatch copy

theorem copy_construct {e' : Expr} {r : RecordType} {args : List Expr}
    (copy : e'.untagged = (construct r args).untagged) :
    ∃ args', e' = construct r args' ∧ untaggedAll args' = untaggedAll args := by
  cases e' with
  | construct r' args' =>
    obtain ⟨rfl, same⟩ := construct.inj copy
    exact ⟨args', rfl, same⟩
  | _ => exact nomatch copy

theorem copy_call {e' : Expr} {fn : MathFn} {args : List Expr} {t : ElementType}
    (copy : e'.untagged = (call fn args t).untagged) :
    ∃ args', e' = call fn args' t ∧ untaggedAll args' = untaggedAll args := by
  cases e' with
  | call fn' args' t' =>
    obtain ⟨rfl, same, rfl⟩ := call.inj copy
    exact ⟨args', rfl, same⟩
  | _ => exact nomatch copy

theorem copies_cons {es e's : List Expr} {e : Expr}
    (copies : untaggedAll e's = untaggedAll (e :: es)) :
    ∃ e' rest, e's = e' :: rest ∧ e'.untagged = e.untagged ∧ untaggedAll rest = untaggedAll es := by
  cases e's with
  | nil => exact nomatch copies
  | cons e' rest =>
    obtain ⟨first, others⟩ := List.cons.inj copies
    exact ⟨e', rest, rfl, first, others⟩

theorem copies_length : ∀ {es e's : List Expr}, untaggedAll e's = untaggedAll es →
    e's.length = es.length
  | [], e's, copies => by
    cases e's with
    | nil => rfl
    | cons _ _ => exact nomatch copies
  | e :: es, e's, copies => by
    obtain ⟨e', rest, rfl, _, others⟩ := copies_cons copies
    exact congrArg (· + 1) (copies_length others)

theorem copy_not_call {e' e : Expr} (copy : e'.untagged = e.untagged)
    (plain : ∀ fn args u, e ≠ call fn args u) : ∀ fn args u, e' ≠ call fn args u := by
  rintro fn args u rfl
  obtain ⟨_, same, _⟩ := copy_call copy.symm
  exact plain _ _ _ same

theorem copy_wrapped {e' e : Expr} (copy : e'.untagged = e.untagged) (t : ElementType) :
    wrapped? t e' = wrapped? t e := by
  by_cases primitive : ∃ fn args u, e = call fn args u
  · obtain ⟨fn, args, u, rfl⟩ := primitive
    obtain ⟨args', rfl, _⟩ := copy_call copy
    rfl
  · have plain : ∀ fn args u, e ≠ call fn args u :=
      fun fn args u same => primitive ⟨fn, args, u, same⟩
    rw [wrapped?.eq_2 _ _ plain, wrapped?.eq_2 _ _ (copy_not_call copy plain)]

theorem copy_isPlace {e' e : Expr} (copy : e'.untagged = e.untagged) :
    Kernel.isPlace e' = Kernel.isPlace e := by
  have kept : ∀ e : Expr, Kernel.isPlace e.untagged = Kernel.isPlace e := fun e => by
    cases e <;> rfl
  rw [← kept e', copy, kept]

theorem wrapped_overridden {t : ElementType} {e : Expr} (tag : Tag) (wrapped : wrapped? t e ≠ none) :
    .overridden tag ∈ wrapperUses tag t e := by
  by_cases primitive : ∃ fn args u, e = call fn args u
  · obtain ⟨fn, args, u, rfl⟩ := primitive
    rw [wrapperUses, if_neg wrapped]
    exact List.mem_cons_self
  · exact absurd (wrapped?.eq_2 t e fun fn args u same => primitive ⟨fn, args, u, same⟩) wrapped

end Expr

namespace Kernel

open Compile ArrayQuery.Expr
open Use (Calm after)

variable {α β γ : Type}

/-! ## Operations with uses -/

namespace Compile

/-- Whether the first of two operations gives what the second does as long as its uses are calm, and
other results that are still alike otherwise. -/
def Follows (alike : α → α → Prop) (b b' : List Tag) (us us' : List Use) (m m' : Compile α) : Prop :=
  ∀ base base', Lockstep (Alongside base base' b b') m m'
    (fun a a' d d' => alike a a' ∧ (a = a' ↔ Calm b us) ∧
      Alongside base base' (after b us) (after b' us') d d') (¬Calm b us)

variable {alike : α → α → Prop} {alike₂ : β → β → Prop} {alike₃ : γ → γ → Prop}
  {b b' : List Tag} {us us' vs vs' : List Use} {m m' : Compile α}

theorem follows_pure {a : α} (same : alike a a) : Follows alike b b' [] [] (pure a) (pure a) :=
  fun _ _ => lockstep_pure fun _ _ related => ⟨same, by simp [Calm], related⟩

theorem follows_refuse (node node' : Expr) (cause cause' : Unsupported) :
    Follows alike b b' us us' (refuse node cause) (refuse node' cause') :=
  fun _ _ => lockstep_refuse node node' cause cause'

theorem follows_guard {c : Prop} [Decidable c] {node node' : Expr} {cause cause' : Unsupported}
    {g g' : Unit → Compile α} (rest : ¬c → Follows alike b b' us us' (g ()) (g' ())) :
    Follows alike b b' us us' (if c then refuse node cause >>= g else g ())
      (if c then refuse node' cause' >>= g' else g' ()) :=
  fun base base' => lockstep_guard fun passed => rest passed base base'

theorem follows_neutral {m m' : Compile β} {f f' : β → Compile α} (neutral : Neutral m m')
    (rest : ∀ a, Follows alike b b' us us' (f a) (f' a)) :
    Follows alike b b' us us' (m >>= f) (m' >>= f') := by
  intro base base'
  refine lockstep_bind (lockstep_weaken (neutral base base' b b') (fun _ _ _ _ => id) False.elim)
    fun a a' d d' => ?_
  rintro ⟨rfl, related⟩
  exact rest a base base' d d' related

theorem follows_map (g : α → β) (first : Follows alike b b' us us' m m')
    (kept : ∀ a a', alike a a' → alike₂ (g a) (g a'))
    (injective : ∀ a a', g a = g a' → a = a') :
    Follows alike₂ b b' us us' (do return g (← m)) (do return g (← m')) := by
  intro base base'
  refine lockstep_bind (first base base') fun a a' => lockstep_known fun close =>
    lockstep_known fun same => lockstep_pure fun d d' related => ?_
  exact ⟨kept a a' close, ⟨fun equal => same.mp (injective a a' equal),
    fun calm => congrArg g (same.mpr calm)⟩, related⟩

theorem follows_map₂ {n n' : Compile β} (g : α → β → γ) (first : Follows alike b b' us us' m m')
    (second : Follows alike₂ (after b us) (after b' us') vs vs' n n')
    (kept : ∀ a a' c c', alike a a' → alike₂ c c' → alike₃ (g a c) (g a' c'))
    (injective : ∀ a a' c c', g a c = g a' c' → a = a' ∧ c = c') :
    Follows alike₃ b b' (us ++ vs) (us' ++ vs') (do let a ← m; return g a (← n))
      (do let a ← m'; return g a (← n')) := by
  intro base base'
  rw [Use.calm_append, Use.after_append, Use.after_append]
  refine lockstep_bind (lockstep_weaken (first base base') (fun _ _ _ _ => id) ?_) fun a a' =>
    lockstep_known fun close => lockstep_known fun same => ?_
  · exact fun disturbed both => disturbed both.1
  refine lockstep_bind (lockstep_weaken (second base base') (fun _ _ _ _ => id) ?_) fun c c' =>
    lockstep_known fun close' => lockstep_known fun same' => lockstep_pure fun d d' related => ?_
  · exact fun disturbed both => disturbed both.2
  refine ⟨kept a a' c c' close close', ?_, related⟩
  rw [← same, ← same']
  exact ⟨injective a a' c c', fun ⟨one, two⟩ => by rw [one, two]⟩

theorem follows_override {m m' : Compile Unit} {f f' : Unit → Compile α}
    (run : ∀ base base', Lockstep (Alongside base base' b b') m m'
      (fun _ _ => Alongside base base' (after b us) (after b' us')) False)
    (overrides : ∀ u ∈ us, u = .overridden u.tag)
    (rest : Follows alike (after b us) (after b' us') vs vs' (f ()) (f' ())) :
    Follows alike b b' (us ++ vs) (us' ++ vs') (m >>= f) (m' >>= f') := by
  intro base base'
  rw [Use.calm_append, iff_true_intro (Use.calm_overrides overrides), true_and,
    Use.after_append, Use.after_append]
  refine lockstep_bind (lockstep_weaken (run base base') (fun _ _ _ _ => id) False.elim)
    fun _ _ => ?_
  exact rest base base'

variable {base base' : Draft}

theorem Tracks.cons {overridden : List Tag} {overrides : List (Tag × ElementType)}
    (tracks : Tracks overridden overrides) (tag : Tag) :
    Tracks (tag :: overridden) ((tag, .f32) :: overrides) := by
  intro other
  rw [List.lookup_cons, tracks other]
  by_cases same : other = tag
  · simp [same]
  · simp [same, beq_eq_false_iff_ne.mpr same]

theorem override_lockstep (tag tag' : Tag) :
    Lockstep (Alongside base base' b b') (override tag .f32) (override tag' .f32)
      (fun _ _ => Alongside base base' (tag :: b) (tag' :: b')) False :=
  fun _ _ related => ⟨related.records, related.structs, related.inputs, related.steps,
    related.sourceCount, related.lets, related.copied, related.kept, related.tracks.cons tag,
    related.copies.cons tag'⟩

theorem overrideArguments_lockstep : ∀ (args args' : List Expr) (params : List ElementType)
    {b b' : List Tag}, untaggedAll args' = untaggedAll args → (∀ p ∈ params, p = .f32) →
    Lockstep (Alongside base base' b b') (overrideArguments args params)
      (overrideArguments args' params) (fun _ _ => Alongside base base'
        (after b (argumentUses args params)) (after b' (argumentUses args' params))) False
  | [], args', params, b, b', copies, _ => by
    cases args' with
    | nil => exact fun _ _ related => related
    | cons _ _ => exact nomatch copies
  | e :: args, args', [], b, b', copies, _ => by
    obtain ⟨e', rest, rfl, _, _⟩ := copies_cons copies
    have none : ∀ (e : Expr) (args : List Expr), argumentUses (e :: args) [] = [] ∧
        overrideArguments (e :: args) [] = pure () := by
      intro e args
      cases e <;> exact ⟨rfl, rfl⟩
    rw [(none e args).1, (none e args).2, (none e' rest).1, (none e' rest).2]
    exact fun _ _ related => related
  | e :: args, args', p :: params, b, b', copies, single => by
    obtain ⟨e', rest, rfl, copy, others⟩ := copies_cons copies
    have later : ∀ {b b'}, Lockstep (Alongside base base' b b') (overrideArguments args params)
        (overrideArguments rest params) (fun _ _ => Alongside base base'
          (after b (argumentUses args params)) (after b' (argumentUses rest params))) False :=
      overrideArguments_lockstep args rest params others
        fun q member => single q (List.mem_cons_of_mem _ member)
    by_cases conversion : ∃ tag inner t, e = convert tag inner t
    · -- The argument of a copy is a conversion to the same type, under its own tag.
      obtain ⟨tag, inner, t, rfl⟩ := conversion
      obtain ⟨tag', inner', rfl, _⟩ := copy_convert copy
      obtain rfl := single p List.mem_cons_self
      simp only [overrideArguments, argumentUses]
      by_cases other : t ≠ .f32
      · simp only [other, if_true, after, not_false_eq_true, ne_eq]
        exact lockstep_bind (override_lockstep tag tag') fun _ _ => later
      · simp only [other, if_false]
        exact later
    · have plain : ∀ tag inner t, e ≠ convert tag inner t :=
        fun tag inner t same => conversion ⟨tag, inner, t, same⟩
      have plain' : ∀ tag inner t, e' ≠ convert tag inner t := by
        rintro tag inner t rfl
        obtain ⟨_, _, same, _⟩ := copy_convert copy.symm
        exact plain _ _ _ same
      rw [overrideArguments.eq_2 _ _ _ _ plain, overrideArguments.eq_2 _ _ _ _ plain',
        argumentUses.eq_2 _ _ _ _ plain, argumentUses.eq_2 _ _ _ _ plain']
      exact later

theorem overrideCall_lockstep (fn : MathFn) {args args' : List Expr}
    (copies : untaggedAll args' = untaggedAll args) :
    Lockstep (Alongside base base' b b') (overrideCall fn args) (overrideCall fn args')
      (fun _ _ => Alongside base base' (after b (argumentUses args fn.parameters))
        (after b' (argumentUses args' fn.parameters))) False := by
  unfold overrideCall MathFn.parameters
  cases declared : fn.signature? with
  | none =>
    have none : ∀ args, argumentUses args [] = [] := fun args => by
      cases args with
      | nil => rfl
      | cons e _ => cases e <;> rfl
    rw [none, none]
    exact fun _ _ related => related
  | some signature =>
    exact overrideArguments_lockstep args args' _ copies (MathFn.signature?_single declared).2

theorem overrideWrapper_call (tag : Tag) (t u : ElementType) (fn : MathFn) (args : List Expr) :
    overrideWrapper tag t (.call fn args u) =
      if wrapped? t (.call fn args u) = none then overrideCall fn args
      else override tag .f32 >>= fun _ => overrideCall fn args := by
  rcases Option.eq_none_or_eq_some fn.signature? with declared | ⟨⟨returns, params⟩, declared⟩
  · simp [overrideWrapper, overrideCall, wrapped?, declared]
  · obtain rfl := (MathFn.signature?_single declared).1
    by_cases wrapped : t = .f64 ∧ .f32 ≠ t
    · simp only [overrideWrapper, overrideCall, wrapped?, declared, if_pos wrapped, reduceCtorEq,
        if_false]
    · simp only [overrideWrapper, overrideCall, wrapped?, declared, if_neg wrapped, if_true]

theorem overrideWrapper_lockstep (tag tag' : Tag) (t : ElementType) {e e' : Expr}
    (copy : e'.untagged = e.untagged) :
    Lockstep (Alongside base base' b b') (overrideWrapper tag t e) (overrideWrapper tag' t e')
      (fun _ _ => Alongside base base' (after b (wrapperUses tag t e))
        (after b' (wrapperUses tag' t e'))) False := by
  by_cases primitive : ∃ fn args u, e = call fn args u
  · obtain ⟨fn, args, u, rfl⟩ := primitive
    obtain ⟨args', rfl, copies⟩ := copy_call copy
    have inner : ∀ {b b'}, Lockstep (Alongside base base' b b') (overrideCall fn args)
        (overrideCall fn args') (fun _ _ => Alongside base base'
          (after b (argumentUses args fn.parameters)) (after b' (argumentUses args' fn.parameters)))
        False :=
      overrideCall_lockstep fn copies
    rw [overrideWrapper_call, overrideWrapper_call, wrapperUses, wrapperUses]
    by_cases unwrapped : wrapped? t (call fn args u) = none
    · have unwrapped' : wrapped? t (call fn args' u) = none := unwrapped
      simp only [unwrapped, unwrapped', if_true]
      exact inner
    · have wrapped' : wrapped? t (call fn args' u) ≠ none := unwrapped
      simp only [unwrapped, wrapped', if_false]
      exact lockstep_bind (override_lockstep tag tag') fun _ _ => inner
  · have plain : ∀ fn args u, e ≠ call fn args u :=
      fun fn args u same => primitive ⟨fn, args, u, same⟩
    have plain' := copy_not_call copy plain
    rw [overrideWrapper.eq_2 _ _ _ plain, overrideWrapper.eq_2 _ _ _ plain',
      wrapperUses.eq_2 _ _ _ plain, wrapperUses.eq_2 _ _ _ plain']
    exact fun _ _ related => related

end Compile

def spelled (node : Expr) (target : ElementType) (inner : Compile Term) : Compile Term := do
  if !target.isScalar then refuse node (.notNumeric target)
  let k ← typeOf target
  return .call (.type k) [← inner]

theorem translate_convert (scope : Scope) (tag : Tag) (e : Expr) (t : ElementType) :
    translate scope (.convert tag e t) = overrideWrapper tag t e >>= fun _ => get >>= fun d =>
      spelled (.convert tag e t) ((d.overrides.lookup tag).getD t) (translate scope e) := by
  rw [translate]
  rfl

section Conversions

variable {b b' : List Tag} {us us' : List Use} {m m' : Compile Term}

theorem spelled_follows (node node' : Expr) (target : ElementType)
    (inner : Follows Term.Alike b b' us us' m m') :
    Follows Term.Alike b b' us us' (spelled node target m) (spelled node' target m') := by
  unfold spelled
  refine follows_guard fun _ => ?_
  refine follows_neutral (neutral_typeOf target) fun k => ?_
  refine follows_map (fun x => Term.call (.type k) [x]) inner
    (fun a a' close => Term.alike_call (cancels_refl _) (.cons close .nil)) fun a a' same => ?_
  simpa using same

theorem callee_apart {k : KernelType} (other : k = .bool ∨ k = .i32 ∨ k = .u32) :
    Cancels (fun c : Callee => c.text.toList) (.type .f32) (.type k) := by
  rcases other with rfl | rfl | rfl
  · exact cancels_of_head (c := 'f') (d := 'b') rfl rfl (by decide)
  · exact cancels_of_head (c := 'f') (d := 'i') rfl rfl (by decide)
  · exact cancels_of_head (c := 'f') (d := 'u') rfl rfl (by decide)

theorem typeOf_other {names : RecordNames} {t : ElementType} {k : KernelType}
    (scalar : t.isScalar = true) (other : t ≠ .f32) (found : names.typeOf t = .ok k) :
    k = .bool ∨ k = .i32 ∨ k = .u32 := by
  cases t with
  | record name fields => exact absurd scalar Bool.false_ne_true
  | leaf l =>
    cases l with
    | bool => exact .inl (Except.ok.inj found).symm
    | i32 => exact .inr (.inl (Except.ok.inj found).symm)
    | u32 => exact .inr (.inr (Except.ok.inj found).symm)
    | f32 => exact absurd rfl other
    | f64 => simp [RecordNames.typeOf, ofLeaf] at found
    | _ => exact absurd scalar Bool.false_ne_true

theorem spelled_apart {base base' : Draft} (node node' : Expr) {t : ElementType} (other : t ≠ .f32)
    (inner : Follows Term.Alike b b' us us' m m') :
    Lockstep (Alongside base base' b b') (spelled node .f32 m) (spelled node' t m')
      (fun x x' d d' => Term.Alike x x' ∧ x ≠ x' ∧
        Alongside base base' (after b us) (after b' us') d d') True := by
  intro d d' related
  -- Where the copy fails, nothing is said of the body.
  have alone : ∀ {post : Term → Term → Draft → Draft → Prop} (x : Except ComputeError (Term × Draft))
      (cause : ComputeError), Outcome post True x (.error cause) := by
    intro post x cause
    cases x with
    | error _ => trivial
    | ok _ => trivial
  by_cases scalar : t.isScalar = true
  · have first : spelled node .f32 m d = Except.bind (m d) fun p => .ok (.call (.type .f32) [p.1], p.2) :=
      rfl
    have second : spelled node' t m' d' = Except.bind (d'.records.typeOf t) fun k =>
        Except.bind (m' d') fun p => .ok (.call (.type k) [p.1], p.2) := by
      simp only [spelled, scalar, Bool.not_true, Bool.false_eq_true, if_false]
      change Except.bind (Except.bind _ _) _ = _
      cases d'.records.typeOf t <;> rfl
    rw [first, second]
    cases found : d'.records.typeOf t with
    | error cause => exact alone _ cause
    | ok k =>
      have callee := callee_apart (typeOf_other scalar other found)
      have reached := inner base base' d d' related
      cases run : m d with
      | error cause =>
        cases run' : m' d' with
        | error cause' => trivial
        | ok p' =>
          rw [run, run'] at reached
          exact reached.elim
      | ok p =>
        cases run' : m' d' with
        | error cause' => trivial
        | ok p' =>
          rw [run, run'] at reached
          obtain ⟨close, _, related'⟩ := reached
          refine ⟨Term.alike_call callee (.cons close .nil), ?_, related'⟩
          rintro same
          obtain ⟨same, _⟩ := Term.call.inj same
          obtain rfl := Callee.type.inj same
          rcases typeOf_other scalar other found with same | same | same <;> exact nomatch same
  · have failed : spelled node' t m' d' = .error (.unsupportedAt (.notNumeric t) node'.spell) := by
      simp only [spelled, scalar]
      rfl
    rw [failed]
    exact alone _ _

def Ready (b : List Tag) (declared : Option ElementType) (e : Expr) : Prop :=
  ∀ tag inner t, e = .convert tag inner t → declared ≠ none → t ≠ .f32 → tag ∈ b

def ReadyAll (b : List Tag) : List ElementType → List Expr → Prop
  | _, [] => True
  | declared, e :: rest => Ready b declared.head? e ∧ ReadyAll b declared.tail rest

theorem single_none (p : ElementType) (declared : none = some p) : p = .f32 := by
  simp at declared

theorem target_single {declared : Option ElementType} {tag : Tag} {e : Expr} {t : ElementType}
    (ready : Ready b declared (.convert tag e t))
    (single : ((wrapped? t e).or declared).getD t = .f32) :
    (if tag ∈ after b (wrapperUses tag t e) then some .f32 else none : Option ElementType).getD t =
      .f32 := by
  split
  · rfl
  · next absent =>
    rw [Use.mem_after, not_or] at absent
    have unwrapped : wrapped? t e = none := by
      by_cases wrapped : wrapped? t e = none
      · exact wrapped
      · exact absurd (wrapped_overridden tag wrapped) absent.2
    rw [unwrapped, Option.none_or] at single
    cases declared with
    | none => exact single
    | some p =>
      by_cases other : t = .f32
      · exact other
      · exact absurd (ready tag e t rfl nofun other) absent.1

theorem convert_follows {scope : Scope} {tag tag' : Tag} {e e' : Expr} {t : ElementType}
    {declared : Option ElementType} (copy : e'.untagged = e.untagged)
    (single : ∀ p, declared = some p → p = .f32)
    (ready : Ready b declared (.convert tag e t)) (ready' : Ready b' declared (.convert tag' e' t))
    (calm : Calm b' ((Expr.convert tag' e' t).uses declared))
    (inner : ∀ {b b'}, Calm b' (e'.uses none) →
      Follows Term.Alike b b' (e.uses none) (e'.uses none) (translate scope e) (translate scope e')) :
    Follows Term.Alike b b' ((Expr.convert tag e t).uses declared)
      ((Expr.convert tag' e' t).uses declared) (translate scope (.convert tag e t))
      (translate scope (.convert tag' e' t)) := by
  have overrides : ∀ u ∈ wrapperUses tag t e, u = .overridden u.tag := by
    intro u used
    rcases wrapperUses_cases used with ⟨rfl, _⟩ | ⟨_, same⟩
    · rfl
    · exact same
  rw [uses, Use.calm_append] at calm
  rw [translate_convert, translate_convert, uses, uses]
  refine follows_override (fun _ _ => overrideWrapper_lockstep tag tag' t copy) overrides ?_
  intro base base' d d' related
  change Outcome _ _ (spelled (.convert tag e t) ((d.overrides.lookup tag).getD t)
    (translate scope e) d) (spelled (.convert tag' e' t) ((d'.overrides.lookup tag').getD t)
    (translate scope e') d')
  rw [related.tracks tag, related.copies tag']
  have calm' := calm.2
  rw [copy_wrapped copy] at calm' ⊢
  -- A conversion to single precision is the same in both copies. Any other one is its own type in the
  -- copy, which is calm, and so differs from the body exactly where the body is disturbed.
  by_cases alone : ((wrapped? t e).or declared).getD t = .f32
  · have alone' := alone
    rw [← copy_wrapped copy] at alone'
    rw [target_single ready alone, target_single ready' alone']
    simp only [alone, if_true, List.nil_append] at calm' ⊢
    exact spelled_follows _ _ _ (inner calm') base base' d d' related
  · have unwrapped : wrapped? t e = none := by
      cases wrapped : wrapped? t e with
      | none => rfl
      | some p => exact absurd (by rw [wrapped, wrapped?_single wrapped]; rfl) alone
    have plain : declared = none := by
      cases declared with
      | none => rfl
      | some p => exact absurd (by rw [unwrapped, single p rfl]; rfl) alone
    have other : t ≠ .f32 := by
      rw [unwrapped, plain] at alone
      exact alone
    simp only [alone, if_false, List.cons_append, List.nil_append, Calm, after] at calm' ⊢
    simp only [calm'.1, if_false, Option.getD_none]
    by_cases disturbed : tag ∈ after b (wrapperUses tag t e)
    · simp only [disturbed, if_true, Option.getD_some]
      refine lockstep_weaken (spelled_apart _ _ other (inner calm'.2)) ?_ ?_ d d' related
      · rintro x x' d d' ⟨close, apart, related⟩
        exact ⟨close, ⟨fun same => absurd same apart, fun calm => absurd trivial calm.1⟩, related⟩
      · exact fun _ calm => calm.1 trivial
    · simp only [disturbed, if_false, Option.getD_none, not_false_eq_true, true_and]
      exact spelled_follows _ _ t (inner calm'.2) base base' d d' related

end Conversions

/-! ## Bodies -/

section Bodies

variable {b b' : List Tag}

theorem Ready.mono {b c : List Tag} (more : ∀ tag ∈ b, tag ∈ c) {declared : Option ElementType}
    {e : Expr} (ready : Ready b declared e) : Ready c declared e :=
  fun tag inner t same isDeclared other => more tag (ready tag inner t same isDeclared other)

theorem ReadyAll.mono {b c : List Tag} (more : ∀ tag ∈ b, tag ∈ c) : ∀ {declared : List ElementType}
    {es : List Expr}, ReadyAll b declared es → ReadyAll c declared es
  | _, [], _ => trivial
  | _, _ :: _, ready => ⟨ready.1.mono more, ready.2.mono more⟩

theorem ready_none (b : List Tag) (e : Expr) : Ready b none e :=
  fun _ _ _ _ isDeclared => absurd rfl isDeclared

theorem readyAll_nil (b : List Tag) : ∀ es : List Expr, ReadyAll b [] es
  | [] => trivial
  | e :: rest => ⟨ready_none b e, readyAll_nil b rest⟩

theorem readyAll_arguments {c : List Tag} : ∀ (args : List Expr) (params : List ElementType),
    (∀ p ∈ params, p = .f32) → (∀ tag, .overridden tag ∈ argumentUses args params → tag ∈ c) →
    ReadyAll c params args
  | [], _, _, _ => trivial
  | e :: args, [], _, _ => ⟨ready_none c e, readyAll_nil c args⟩
  | e :: args, p :: params, single, overridden => by
    obtain rfl := single p List.mem_cons_self
    have later : (∀ tag, .overridden tag ∈ argumentUses args params → tag ∈ c) →
        ReadyAll c params args :=
      readyAll_arguments args params fun q member => single q (List.mem_cons_of_mem _ member)
    by_cases conversion : ∃ tag inner t, e = Expr.convert tag inner t
    · obtain ⟨tag, inner, t, rfl⟩ := conversion
      simp only [argumentUses] at overridden
      refine ⟨fun tag' inner' t' same _ other => ?_, later fun tag' member => overridden tag' ?_⟩
      · obtain ⟨rfl, rfl, rfl⟩ := Expr.convert.inj same
        refine overridden tag ?_
        rw [if_pos other]
        exact List.mem_cons_self
      · split
        · exact List.mem_cons_of_mem _ member
        · exact member
    · have plain : ∀ tag inner t, e ≠ Expr.convert tag inner t :=
        fun tag inner t same => conversion ⟨tag, inner, t, same⟩
      rw [argumentUses.eq_2 _ _ _ _ plain] at overridden
      exact ⟨fun tag inner t same => absurd same (plain tag inner t), later overridden⟩

theorem follows_same {m m' : Compile Term} (neutral : Neutral m m') :
    Follows Term.Alike b b' [] [] m m' := by
  intro base base'
  refine lockstep_weaken (neutral base base' b b') ?_ False.elim
  rintro x x' d d' ⟨rfl, related⟩
  exact ⟨cancels_refl x, by simp [Calm], related⟩

theorem neutral_chainType (node node' : Expr) : ∀ e e' : Expr, e'.untagged = e.untagged →
    Neutral (chainType node e) (chainType node' e')
  | .member target name t, e', copy => by
    obtain ⟨target', rfl, same⟩ := copy_member copy
    unfold chainType
    exact (neutral_chainType node node' target target' same).bind fun container =>
      (neutral_follow node node' container name).bind fun _ => neutral_pure _
  | .constant _, e', copy | .array _, e', copy | .parameter _, e', copy | .select .., e', copy
  | .zip .., e', copy | .binary .., e', copy | .negate .., e', copy | .convert .., e', copy
  | .index .., e', copy | .construct .., e', copy | .call .., e', copy => by
    have ends : ∀ target name t, e' ≠ .member target name t := by
      rintro target name t rfl
      obtain ⟨_, same, _⟩ := copy_member copy.symm
      exact Expr.noConfusion same
    rw [chainType.eq_2 node' e' ends, copy_type copy]
    exact neutral_pure _

theorem translate_index_other (scope : Scope) {a : Expr} (i : Expr) (t : ElementType)
    (other : ∀ source, a ≠ .array source) :
    translate scope (.index a i t) = refuse (.index a i t) .onlyCapturedIndexed := by
  unfold translate
  cases a with
  | array source => exact absurd rfl (other source)
  | _ => rfl

mutual
/-- The translation of a copy is that of the body, unless a use in the body is disturbed. -/
theorem translate_follows (scope : Scope) : ∀ (e e' : Expr) (declared : Option ElementType)
    {b b' : List Tag}, e'.untagged = e.untagged → (∀ p, declared = some p → p = .f32) →
    Ready b declared e → Ready b' declared e' → Calm b' (e'.uses declared) →
    Follows Term.Alike b b' (e.uses declared) (e'.uses declared) (translate scope e)
      (translate scope e')
  | .constant v, e', _, b, b', copy, _, _, _, _ => by
    obtain rfl := copy_constant copy
    unfold translate
    exact follows_same ((neutral_declare _ _ _).bind fun _ => neutral_names fun names =>
      names.literal v)
  | .parameter p, e', _, b, b', copy, _, _, _, _ => by
    obtain rfl := copy_parameter copy
    unfold translate
    cases scope.lookup p.name with
    | none => exact follows_refuse _ _ _ _
    | some o => exact follows_same (neutral_pure _)
  | .array a, e', _, b, b', copy, _, _, _, _ => by
    obtain rfl := copy_array copy
    unfold translate
    exact follows_refuse _ _ _ _
  | .select tag source params body, e', _, b, b', copy, _, _, _, _ => by
    obtain ⟨_, _, rfl, _, _⟩ := copy_select copy
    unfold translate
    exact follows_refuse _ _ _ _
  | .zip tag first second params body, e', _, b, b', copy, _, _, _, _ => by
    obtain ⟨_, _, _, rfl, _, _, _⟩ := copy_zip copy
    unfold translate
    exact follows_refuse _ _ _ _
  | .binary op l r t, e', _, b, b', copy, _, _, _, calm => by
    obtain ⟨l', r', rfl, left, right⟩ := copy_binary copy
    -- For whatever was used before: a product meets its right operand first, so that each of the two
    -- may come after the other.
    have ofLeft : ∀ {b b'}, Calm b' (l'.uses none) → Follows Term.Alike b b' (l.uses none)
        (l'.uses none) (translate scope l) (translate scope l') :=
      translate_follows scope l l' none left single_none (ready_none _ _) (ready_none _ _)
    have ofRight : ∀ {b b'}, Calm b' (r'.uses none) → Follows Term.Alike b b' (r.uses none)
        (r'.uses none) (translate scope r) (translate scope r') :=
      translate_follows scope r r' none right single_none (ready_none _ _) (ready_none _ _)
    unfold translate
    rw [copy_type left, copy_type right, uses, uses]
    rw [uses] at calm
    refine follows_guard fun _ => ?_
    by_cases product : op = .mul
    · simp only [product, if_true, Use.calm_append] at calm ⊢
      exact follows_map₂ (Term.binary .mul) (ofRight calm.1) (ofLeft calm.2)
        (fun _ _ _ _ first second => Term.alike_binary _ first second)
        (fun _ _ _ _ same => ⟨(Term.binary.inj same).2.1, (Term.binary.inj same).2.2⟩)
    · simp only [product, if_false, Use.calm_append] at calm ⊢
      exact follows_map₂ (Term.binary op) (ofLeft calm.1) (ofRight calm.2)
        (fun _ _ _ _ first second => Term.alike_binary _ first second)
        (fun _ _ _ _ same => ⟨(Term.binary.inj same).2.1, (Term.binary.inj same).2.2⟩)
  | .negate e t, e', _, b, b', copy, _, _, _, calm => by
    obtain ⟨inner, rfl, same⟩ := copy_negate copy
    have follows := translate_follows scope e inner none same single_none (ready_none b _)
      (ready_none b' _) calm
    unfold translate
    rw [copy_type same]
    dsimp only
    split
    · exact follows_map Term.negate follows (fun _ _ => Term.alike_negate)
        fun _ _ => Term.negate.inj
    · split
      · exact follows_map Term.negateMatrix follows (fun _ _ => Term.alike_negateMatrix)
          fun _ _ => Term.negateMatrix.inj
      · exact follows_refuse _ _ _ _
  | .convert tag e t, e', declared, b, b', copy, single, ready, ready', calm => by
    obtain ⟨tag', inner, rfl, same⟩ := copy_convert copy
    exact convert_follows same single ready ready' calm fun calm' =>
      translate_follows scope e inner none same single_none (ready_none _ _) (ready_none _ _) calm'
  | .member target name t, e', _, b, b', copy, _, _, _, calm => by
    obtain ⟨target', rfl, same⟩ := copy_member copy
    have follows := translate_follows scope target target' none same single_none (ready_none b _)
      (ready_none b' _) calm
    unfold translate
    rw [copy_isPlace same]
    -- Looking up the member overrides nothing.
    refine follows_neutral (neutral_chainType _ _ target target' same) fun container => ?_
    refine follows_neutral (neutral_follow _ _ container name) fun step => ?_
    cases isPlace target with
    | true =>
      exact follows_map (fun x => Term.access x step.1) follows
        (fun _ _ close => Term.alike_access close _) fun _ _ equal => (Term.access.inj equal).1
    | false =>
      exact follows_map (fun x => Term.access (.group x) step.1) follows
        (fun _ _ close => Term.alike_access (Term.alike_group close) _)
        fun _ _ equal => Term.group.inj (Term.access.inj equal).1
  | .index a i t, e', _, b, b', copy, _, _, _, calm => by
    obtain ⟨a', i', rfl, array, position⟩ := copy_index copy
    have follows := translate_follows scope i i' none position single_none (ready_none b _)
      (ready_none b' _) calm
    by_cases captured : ∃ source, a = .array source
    · obtain ⟨source, rfl⟩ := captured
      obtain rfl := copy_array array
      unfold translate
      refine follows_neutral (neutral_bindArray _ _ source) fun slot => ?_
      by_cases word : t = .bool
      · simp only [word, if_true]
        exact follows_map (fun x => Term.nonzero (.index slot x)) follows
          (fun _ _ close => Term.alike_nonzero (Term.alike_index slot close))
          fun _ _ equal => (Term.index.inj (Term.nonzero.inj equal)).2
      · simp only [word, if_false]
        exact follows_map (Term.index slot) follows
          (fun _ _ close => Term.alike_index slot close) fun _ _ equal => (Term.index.inj equal).2
    · have other : ∀ source, a ≠ .array source := fun source same => captured ⟨source, same⟩
      have other' : ∀ source, a' ≠ .array source := by
        rintro source rfl
        exact other source (copy_array array.symm)
      rw [translate_index_other scope i t other, translate_index_other scope i' t other']
      exact follows_refuse _ _ _ _
  | .construct r args, e', _, b, b', copy, _, _, _, calm => by
    obtain ⟨args', rfl, copies⟩ := copy_construct copy
    have follows := translateAll_follows scope args args' [] copies (by simp) (readyAll_nil b args)
      (readyAll_nil b' args') calm
    unfold translate
    rw [copies_length copies]
    refine follows_guard fun _ => ?_
    refine follows_neutral (neutral_valueType _ _ r.type) fun k => ?_
    exact follows_map (Term.call (.type k)) follows
      (fun _ _ close => Term.alike_call (cancels_refl _) close) fun _ _ equal =>
        (Term.call.inj equal).2
  | .call fn args t, e', _, b, b', copy, _, _, _, calm => by
    obtain ⟨args', rfl, copies⟩ := copy_call copy
    unfold translate
    rw [copies_length copies, uses, uses]
    rw [uses, Use.calm_append] at calm
    -- The arguments are overridden in both copies before any of them is translated, and are ready then.
    have overrides : ∀ u ∈ argumentUses args fn.parameters, u = .overridden u.tag :=
      fun u used => (argumentUses_tag args _ used).2
    have ready : ∀ (b : List Tag) (args : List Expr),
        ReadyAll (after b (argumentUses args fn.parameters)) fn.parameters args := fun b args =>
      readyAll_arguments args _ fn.parameters_single fun tag used => Use.mem_after.mpr (.inr used)
    refine follows_guard fun _ => ?_
    refine follows_override (fun _ _ => overrideCall_lockstep fn copies) overrides ?_
    exact follows_map (Term.call (.function fn))
      (translateAll_follows scope args args' fn.parameters copies fn.parameters_single (ready b args)
        (ready b' args') calm.2)
      (fun _ _ close => Term.alike_call (cancels_refl _) close) fun _ _ equal =>
        (Term.call.inj equal).2

theorem translateAll_follows (scope : Scope) : ∀ (es e's : List Expr) (declared : List ElementType)
    {b b' : List Tag}, untaggedAll e's = untaggedAll es → (∀ p ∈ declared, p = .f32) →
    ReadyAll b declared es → ReadyAll b' declared e's → Calm b' (usesAll declared e's) →
    Follows (List.Forall₂ Term.Alike) b b' (usesAll declared es) (usesAll declared e's)
      (translateAll scope es) (translateAll scope e's)
  | [], e's, _, b, b', copies, _, _, _, _ => by
    cases e's with
    | nil => exact follows_pure .nil
    | cons _ _ => exact nomatch copies
  | e :: rest, e's, declared, b, b', copies, single, ready, ready', calm => by
    obtain ⟨e', rest', rfl, copy, others⟩ := copies_cons copies
    rw [usesAll, Use.calm_append] at calm
    have first := translate_follows scope e e' declared.head? copy
      (fun p found => single p (List.mem_of_mem_head? found)) ready.1 ready'.1 calm.1
    have second := translateAll_follows scope rest rest' declared.tail
      (b := after b (e.uses declared.head?)) others
      (fun p found => single p (List.mem_of_mem_tail found))
      (ready.2.mono fun _ known => Use.mem_after.mpr (.inl known))
      (ready'.2.mono fun _ known => Use.mem_after.mpr (.inl known)) calm.2
    unfold translateAll
    rw [usesAll, usesAll]
    exact follows_map₂ List.cons first second (fun _ _ _ _ => .cons)
      fun _ _ _ _ same => List.cons.inj same
end

end Bodies
end Kernel
end ArrayQuery
