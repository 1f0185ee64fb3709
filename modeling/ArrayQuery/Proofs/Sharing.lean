import ArrayQuery.Proofs.Growth
import Mathlib.Data.List.Nodup

/-! Conversions that are shared between the places of a query. A primitive with a declared signature
overrides the type that the conversions among its arguments are spelled with, for as long as the query
is compiled. -/

set_option autoImplicit false
namespace ArrayQuery

/-- What a place of a conversion does: it has the type overridden, or spells the conversion with a type
that an override would change. -/
inductive Use where
  | overridden (tag : Tag)
  | plain (tag : Tag)
  deriving DecidableEq, Repr

namespace MathFn

def parameters (fn : MathFn) : List ElementType :=
  match fn.signature? with
  | some (_, params) => params
  | none => []

end MathFn

namespace Expr

mutual
def untagged : Expr → Expr
  | constant v => constant v
  | array a => array a
  | parameter p => parameter p
  | select tag source params body => select tag source.untagged params body.untagged
  | zip tag first second params body =>
    zip tag first.untagged second.untagged params body.untagged
  | binary op l r t => binary op l.untagged r.untagged t
  | negate e t => negate e.untagged t
  | convert _ e t => convert 0 e.untagged t
  | member e name t => member e.untagged name t
  | index a i t => index a.untagged i.untagged t
  | construct r args => construct r (untaggedAll args)
  | call fn args t => call fn (untaggedAll args) t

def untaggedAll : List Expr → List Expr
  | [] => []
  | e :: rest => e.untagged :: untaggedAll rest
end

def wrapped? (t : ElementType) : Expr → Option ElementType
  | call fn _ _ =>
    match fn.signature? with
    | some (returns, _) => if t = .f64 ∧ returns ≠ t then some returns else none
    | none => none
  | _ => none

def argumentUses : List Expr → List ElementType → List Use
  | convert tag _ t :: args, p :: params =>
    if t ≠ p then .overridden tag :: argumentUses args params else argumentUses args params
  | _ :: args, _ :: params => argumentUses args params
  | _, _ => []

def wrapperUses (tag : Tag) (t : ElementType) : Expr → List Use
  | e@(call fn args _) =>
    if wrapped? t e = none then argumentUses args fn.parameters
    else .overridden tag :: argumentUses args fn.parameters
  | _ => []

mutual
/-- The uses of the conversions in a body, in the order of translation. The body may be the argument
of a primitive that declares a type for it. -/
def uses (declared : Option ElementType) : Expr → List Use
  | binary op l r _ => if op = .mul then r.uses none ++ l.uses none else l.uses none ++ r.uses none
  | negate e _ | member e _ _ | index _ e _ => e.uses none
  | convert tag e t =>
    wrapperUses tag t e ++
      ((if ((wrapped? t e).or declared).getD t = .f32 then [] else [.plain tag]) ++ e.uses none)
  | construct _ args => usesAll [] args
  | call fn args _ => argumentUses args fn.parameters ++ usesAll fn.parameters args
  | _ => []

def usesAll (declared : List ElementType) : List Expr → List Use
  | [] => []
  | e :: rest => e.uses declared.head? ++ usesAll declared.tail rest
end

/-- The bodies of the steps of a query that are not done yet, in the order of compilation, each after
the tag of its step. -/
def steps (done : List Tag) : Expr → List (Tag × Expr)
  | select tag source _ body => if tag ∈ done then [] else steps done source ++ [(tag, body)]
  | zip tag first second _ body =>
    if tag ∈ done then []
    else
      let before := steps done first
      before ++ steps ((before.map Prod.fst).reverse ++ done) second ++ [(tag, body)]
  | _ => []

def bodies (root : Expr) : List Expr :=
  (steps [] root).map Prod.snd

/-- Whether one place of a conversion has its type overridden before another place spells it. -/
def IsDisturbed (root : Expr) : Prop :=
  ∃ tag, [Use.overridden tag, .plain tag].Sublist (root.bodies.flatMap (uses none))

/-- Whether no conversion has more than one place. -/
def IsSeparate (root : Expr) : Prop :=
  (root.bodies.flatMap conversions).Nodup

instance (root : Expr) : Decidable root.IsSeparate :=
  inferInstanceAs (Decidable (List.Nodup _))

end Expr

namespace Use

def tag : Use → Tag
  | overridden tag | plain tag => tag

/-- Whether no type is spelled after it is overridden, where some are from the start. -/
def Calm (before : List Tag) : List Use → Prop
  | [] => True
  | overridden tag :: rest => Calm (tag :: before) rest
  | plain tag :: rest => tag ∉ before ∧ Calm before rest

def after (before : List Tag) : List Use → List Tag
  | [] => before
  | overridden tag :: rest => after (tag :: before) rest
  | plain _ :: rest => after before rest

theorem calm_append (before : List Tag) (us vs : List Use) :
    Calm before (us ++ vs) ↔ Calm before us ∧ Calm (after before us) vs := by
  induction us generalizing before with
  | nil => simp [Calm, after]
  | cons u us ih =>
    cases u with
    | overridden tag => exact ih (tag :: before)
    | plain tag => simp only [List.cons_append, Calm, after, ih before, and_assoc]

theorem after_append (before : List Tag) (us vs : List Use) :
    after before (us ++ vs) = after (after before us) vs := by
  induction us generalizing before with
  | nil => rfl
  | cons u us ih =>
    cases u with
    | overridden tag => exact ih (tag :: before)
    | plain tag => exact ih before

theorem calm_overrides {before : List Tag} {us : List Use}
    (overrides : ∀ u ∈ us, u = overridden u.tag) : Calm before us := by
  induction us generalizing before with
  | nil => trivial
  | cons u us ih =>
    rw [overrides u List.mem_cons_self]
    exact ih fun v later => overrides v (List.mem_cons_of_mem _ later)

theorem mem_after {before : List Tag} {us : List Use} {tag : Tag} :
    tag ∈ after before us ↔ tag ∈ before ∨ .overridden tag ∈ us := by
  induction us generalizing before with
  | nil => simp [after]
  | cons u us ih =>
    cases u with
    | overridden other =>
      simp only [after, ih, List.mem_cons, overridden.injEq]
      tauto
    | plain other => simp [after, ih]

theorem calm_iff {before : List Tag} {us : List Use} :
    Calm before us ↔ (∀ tag ∈ before, .plain tag ∉ us) ∧
      ∀ tag, ¬[overridden tag, plain tag].Sublist us := by
  induction us generalizing before with
  | nil => simp [Calm]
  | cons u us ih =>
    cases u with
    | overridden other =>
      have first : ∀ tag, [overridden tag, plain tag].Sublist (overridden other :: us) ↔
          [overridden tag, plain tag].Sublist us ∨ tag = other ∧ plain tag ∈ us := by
        intro tag
        rw [List.sublist_cons_iff]
        simp
      simp only [Calm, ih, first, List.mem_cons, reduceCtorEq, false_or, forall_eq_or_imp, not_or,
        not_and]
      constructor
      · rintro ⟨⟨here, earlier⟩, later⟩
        exact ⟨earlier, fun tag => ⟨later tag, fun same => same ▸ here⟩⟩
      · rintro ⟨earlier, later⟩
        exact ⟨⟨(later other).2 rfl, earlier⟩, fun tag => (later tag).1⟩
    | plain other =>
      have first : ∀ tag, [overridden tag, plain tag].Sublist (plain other :: us) ↔
          [overridden tag, plain tag].Sublist us := by
        intro tag
        rw [List.sublist_cons_iff]
        simp
      simp only [Calm, ih, first, List.mem_cons, plain.injEq, not_or]
      constructor
      · rintro ⟨apart, earlier, later⟩
        exact ⟨fun tag member => ⟨fun same => apart (same ▸ member), earlier tag member⟩, later⟩
      · rintro ⟨earlier, later⟩
        exact ⟨fun member => (earlier other member).1 rfl, fun tag member => (earlier tag member).2,
          later⟩

/-- Whether no type is both overridden and spelled, in whichever order. -/
def Settled (us : List Use) : Prop :=
  ∀ tag, overridden tag ∈ us → plain tag ∉ us

theorem Settled.calm {us : List Use} (settled : Settled us) : Calm [] us := by
  refine calm_iff.mpr ⟨nofun, fun tag ordered => ?_⟩
  have both := ordered.subset
  simp only [List.cons_subset] at both
  exact settled tag both.1 both.2.1

theorem settled_append {us vs : List Use} (first : Settled us) (second : Settled vs)
    (apart : ∀ u ∈ us, ∀ v ∈ vs, u.tag ≠ v.tag) : Settled (us ++ vs) := by
  intro tag overridden plain
  rcases List.mem_append.mp overridden with left | right
  · rcases List.mem_append.mp plain with left' | right'
    · exact first tag left left'
    · exact apart _ left _ right' rfl
  · rcases List.mem_append.mp plain with left' | right'
    · exact apart _ left' _ right rfl
    · exact second tag right right'

end Use

open Use (Settled settled_append)

/-! ## Separate conversions -/

theorem MathFn.signature?_single {fn : MathFn} {returns : ElementType} {params : List ElementType}
    (declared : fn.signature? = some (returns, params)) :
    returns = .f32 ∧ ∀ p ∈ params, p = .f32 := by
  cases fn <;> simp_all [MathFn.signature?] <;> grind

theorem MathFn.parameters_single (fn : MathFn) : ∀ p ∈ fn.parameters, p = .f32 := by
  unfold MathFn.parameters
  cases declared : fn.signature? with
  | none => simp
  | some signature => exact (MathFn.signature?_single declared).2

namespace Expr

theorem wrapped?_single {t p : ElementType} {e : Expr} (wrapped : wrapped? t e = some p) :
    p = .f32 := by
  unfold wrapped? at wrapped
  split at wrapped
  · split at wrapped
    · next declared =>
      split at wrapped
      · obtain rfl := Option.some.inj wrapped
        exact (MathFn.signature?_single declared).1
      · exact nomatch wrapped
    · exact nomatch wrapped
  · exact nomatch wrapped

theorem argumentUses_tag {u : Use} : ∀ (args : List Expr) (params : List ElementType),
    u ∈ argumentUses args params → u.tag ∈ conversionsAll args ∧ u = .overridden u.tag
  | [], _, used => by simp [argumentUses] at used
  | e :: args, [], used => by cases e <;> simp [argumentUses] at used
  | e :: args, p :: params, used => by
    have rest : u ∈ argumentUses args params →
        u.tag ∈ conversionsAll (e :: args) ∧ u = .overridden u.tag := by
      intro later
      obtain ⟨found, same⟩ := argumentUses_tag args params later
      exact ⟨List.mem_append_right _ found, same⟩
    cases e with
    | convert tag inner t =>
      simp only [argumentUses] at used
      split at used
      · rcases List.mem_cons.mp used with rfl | later
        · exact ⟨by simp [conversionsAll, conversions, Use.tag], rfl⟩
        · exact rest later
      · exact rest used
    | _ => exact rest used

/-- The uses before a conversion of a primitive are overrides: of the conversion itself, if it is
wrapped, and of the arguments. -/
theorem wrapperUses_cases {u : Use} {tag : Tag} {t : ElementType} {e : Expr}
    (used : u ∈ wrapperUses tag t e) :
    (u = .overridden tag ∧ wrapped? t e = some .f32) ∨ (u ∈ e.uses none ∧ u = .overridden u.tag) := by
  unfold wrapperUses at used
  split at used
  · next fn args _ =>
    have argument : u ∈ argumentUses args fn.parameters →
        u ∈ uses none (call fn args ‹_›) ∧ u = .overridden u.tag := by
      intro later
      refine ⟨?_, (argumentUses_tag args _ later).2⟩
      rw [uses]
      exact List.mem_append_left _ later
    split at used
    · exact .inr (argument used)
    · next wrapped =>
      rcases List.mem_cons.mp used with rfl | later
      · obtain ⟨p, found⟩ := Option.ne_none_iff_exists'.mp wrapped
        exact .inl ⟨rfl, by rw [found, wrapped?_single found]⟩
      · exact .inr (argument later)
  · simp at used

mutual
theorem uses_tag {u : Use} : ∀ (e : Expr) (declared : Option ElementType), u ∈ e.uses declared →
    u.tag ∈ e.conversions
  | binary op l r _, _, used => by
    have either : u ∈ l.uses none ∨ u ∈ r.uses none := by
      rw [uses] at used
      split at used
      · exact (List.mem_append.mp used).symm
      · exact List.mem_append.mp used
    rcases either with left | right
    · exact List.mem_append_left _ (uses_tag l none left)
    · exact List.mem_append_right _ (uses_tag r none right)
  | negate e _, _, used | member e _ _, _, used | index _ e _, _, used => uses_tag e none used
  | convert tag e t, declared, used => by
    rw [uses, List.mem_append, List.mem_append] at used
    rcases used with before | here | inside
    · rcases wrapperUses_cases before with ⟨rfl, _⟩ | ⟨inside, _⟩
      · exact List.mem_cons_self
      · exact List.mem_cons_of_mem _ (uses_tag e none inside)
    · split at here
      · simp at here
      · obtain rfl := List.mem_singleton.mp here
        exact List.mem_cons_self
    · exact List.mem_cons_of_mem _ (uses_tag e none inside)
  | construct _ args, _, used => usesAll_tag args [] used
  | call fn args _, _, used => by
    rw [uses] at used
    rcases List.mem_append.mp used with before | inside
    · exact (argumentUses_tag args _ before).1
    · exact usesAll_tag args fn.parameters inside
  | constant _, _, used | array _, _, used | parameter _, _, used | select .., _, used
  | zip .., _, used => by simp [uses] at used

theorem usesAll_tag {u : Use} : ∀ (args : List Expr) (declared : List ElementType),
    u ∈ usesAll declared args → u.tag ∈ conversionsAll args
  | [], _, used => by simp [usesAll] at used
  | e :: rest, declared, used => by
    rw [usesAll] at used
    rcases List.mem_append.mp used with first | later
    · exact List.mem_append_left _ (uses_tag e _ first)
    · exact List.mem_append_right _ (usesAll_tag rest _ later)
end

theorem convert_overridden {tag other : Tag} {t : ElementType} {e : Expr}
    {declared : Option ElementType} (used : .overridden other ∈ (convert tag e t).uses declared) :
    (other = tag ∧ wrapped? t e = some .f32) ∨ .overridden other ∈ e.uses none := by
  rw [uses, List.mem_append, List.mem_append] at used
  rcases used with before | here | inside
  · rcases wrapperUses_cases before with ⟨same, wrapped⟩ | ⟨inside, _⟩
    · exact .inl ⟨Use.overridden.inj same, wrapped⟩
    · exact .inr inside
  · split at here <;> simp at here
  · exact .inr inside

theorem convert_plain {tag other : Tag} {t : ElementType} {e : Expr} {declared : Option ElementType}
    (used : .plain other ∈ (convert tag e t).uses declared) :
    (other = tag ∧ ((wrapped? t e).or declared).getD t ≠ .f32) ∨ .plain other ∈ e.uses none := by
  rw [uses, List.mem_append, List.mem_append] at used
  rcases used with before | here | inside
  · rcases wrapperUses_cases before with ⟨same, _⟩ | ⟨inside, _⟩
    · exact nomatch same
    · exact .inr inside
  · split at here
    · simp at here
    · next spelled => exact .inl ⟨Use.plain.inj (List.mem_singleton.mp here), spelled⟩
  · exact .inr inside

theorem plain_declared {tag : Tag} {t p : ElementType} {e : Expr} (single : p = .f32)
    (separate : (convert tag e t).conversions.Nodup) :
    .plain tag ∉ (convert tag e t).uses (some p) := by
  intro used
  rcases convert_plain used with ⟨_, spelled⟩ | later
  · cases wrapped : wrapped? t e with
    | none =>
      rw [wrapped] at spelled
      exact spelled single
    | some q =>
      rw [wrapped] at spelled
      exact spelled (wrapped?_single wrapped)
  · exact (List.nodup_cons.mp separate).1 (uses_tag e none later)

theorem argument_not_plain {tag : Tag} : ∀ (args : List Expr) (params : List ElementType),
    (∀ p ∈ params, p = .f32) → (conversionsAll args).Nodup →
    .overridden tag ∈ argumentUses args params → .plain tag ∉ usesAll params args
  | [], _, _, _, used => by simp [argumentUses] at used
  | e :: args, [], _, _, used => by cases e <;> simp [argumentUses] at used
  | e :: args, p :: params, single, separate, used => by
    obtain ⟨head, rest, apart⟩ := List.nodup_append.mp separate
    have later : .overridden tag ∈ argumentUses args params →
        .plain tag ∉ usesAll (p :: params) (e :: args) := by
      intro overridden plain
      have inRest := (argumentUses_tag args params overridden).1
      rcases List.mem_append.mp plain with first | others
      · exact apart _ (uses_tag e _ first) _ inRest rfl
      · exact argument_not_plain args params (fun q other => single q (List.mem_cons_of_mem _ other))
          rest overridden others
    cases e with
    | convert tag' inner t =>
      simp only [argumentUses] at used
      split at used
      · rcases List.mem_cons.mp used with same | used
        · -- The argument itself is overridden, because of the parameter that it is passed for.
          obtain rfl := Use.overridden.inj same
          intro plain
          rcases List.mem_append.mp plain with first | others
          · exact plain_declared (single p List.mem_cons_self) head first
          · exact apart tag List.mem_cons_self tag (usesAll_tag args _ others) rfl
        · exact later used
      · exact later used
    | _ => exact later used

theorem uses_apart {e e' : Expr} {declared declared' : Option ElementType}
    (apart : ∀ a ∈ e.conversions, ∀ b ∈ e'.conversions, a ≠ b) :
    ∀ u ∈ e.uses declared, ∀ v ∈ e'.uses declared', u.tag ≠ v.tag :=
  fun _ used _ used' => apart _ (uses_tag e _ used) _ (uses_tag e' _ used')

mutual
/-- No conversion is both overridden and spelled plainly in a body where each has one place. -/
theorem uses_settled : ∀ (e : Expr) (declared : Option ElementType),
    (∀ p, declared = some p → p = .f32) → e.conversions.Nodup → Settled (e.uses declared)
  | binary op l r _, _, _, separate => by
    obtain ⟨left, right, apart⟩ := List.nodup_append.mp separate
    have ofLeft := uses_settled l none nofun left
    have ofRight := uses_settled r none nofun right
    rw [uses]
    split
    · exact settled_append ofRight ofLeft
        (uses_apart fun a inRight b inLeft => (apart b inLeft a inRight).symm)
    · exact settled_append ofLeft ofRight (uses_apart apart)
  | negate e _, _, _, separate | member e _ _, _, _, separate | index _ e _, _, _, separate =>
    uses_settled e none nofun separate
  | convert tag e t, declared, single, separate => by
    obtain ⟨fresh, inner⟩ := List.nodup_cons.mp separate
    have inside := uses_settled e none nofun inner
    -- The conversion is not among those inside it, and itself is overridden only where its type is not
    -- spelled plainly.
    intro other overridden plain
    rcases convert_overridden overridden with ⟨rfl, wrapped⟩ | within
    · rcases convert_plain plain with ⟨_, spelled⟩ | later
      · rw [wrapped] at spelled
        exact spelled rfl
      · exact fresh (uses_tag e none later)
    · rcases convert_plain plain with ⟨rfl, _⟩ | later
      · exact fresh (uses_tag e none within)
      · exact inside other within later
  | construct _ args, _, _, separate => usesAll_settled args [] nofun separate
  | call fn args _, _, _, separate => by
    intro tag overridden plain
    have inside : .plain tag ∈ usesAll fn.parameters args := by
      rcases List.mem_append.mp plain with before | inside
      · exact nomatch (argumentUses_tag args _ before).2
      · exact inside
    rcases List.mem_append.mp overridden with before | within
    · exact argument_not_plain args _ fn.parameters_single separate before inside
    · exact usesAll_settled args _ fn.parameters_single separate tag within inside
  | constant _, _, _, _ | array _, _, _, _ | parameter _, _, _, _ | select .., _, _, _
  | zip .., _, _, _ => nofun

theorem usesAll_settled : ∀ (args : List Expr) (declared : List ElementType),
    (∀ p ∈ declared, p = .f32) → (conversionsAll args).Nodup → Settled (usesAll declared args)
  | [], _, _, _ => nofun
  | e :: rest, declared, single, separate => by
    obtain ⟨head, others, apart⟩ := List.nodup_append.mp separate
    refine settled_append
      (uses_settled e _ (fun p first => single p (List.mem_of_mem_head? first)) head)
      (usesAll_settled rest _ (fun p later => single p (List.mem_of_mem_tail later)) others) ?_
    exact fun u used v used' => apart _ (uses_tag e _ used) _ (usesAll_tag rest _ used')
end

theorem bodies_settled : ∀ bodies : List Expr, (bodies.flatMap conversions).Nodup →
    Settled (bodies.flatMap (uses none))
  | [], _ => nofun
  | e :: rest, separate => by
    obtain ⟨head, others, apart⟩ := List.nodup_append.mp separate
    refine settled_append (uses_settled e none nofun head) (bodies_settled rest others) ?_
    intro u used v used'
    obtain ⟨body, member, later⟩ := List.mem_flatMap.mp used'
    exact apart _ (uses_tag e none used) _ (List.mem_flatMap.mpr ⟨body, member, uses_tag body none later⟩)

theorem IsSeparate.calm {root : Expr} (separate : root.IsSeparate) :
    Use.Calm [] (root.bodies.flatMap (uses none)) :=
  (bodies_settled root.bodies separate).calm

theorem calm_iff_not_disturbed (root : Expr) :
    Use.Calm [] (root.bodies.flatMap (uses none)) ↔ ¬root.IsDisturbed := by
  rw [Use.calm_iff, IsDisturbed]
  simp

end Expr
end ArrayQuery
