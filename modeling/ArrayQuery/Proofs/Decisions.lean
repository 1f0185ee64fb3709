import ArrayQuery.Proofs.Supported

/-! The operations that put a kernel together. Each succeeds exactly for what is supported, whatever a
draft holds already. -/

set_option autoImplicit false
namespace ArrayQuery.Kernel

open Compile ArrayQuery.Expr
open Use (after)

namespace Compile

variable {α β : Type} {pre : Draft → Prop} {m : Compile α} {f : α → Compile β} {c c' : Prop}

/-- Whether an operation succeeds, on drafts of one kind, exactly under a condition, and then leaves a
draft of another kind. -/
def Decides (pre : Draft → Prop) (m : Compile α) (condition : Prop) (post : α → Draft → Prop) :
    Prop :=
  ∀ d, pre d → ((∃ a e, m d = .ok (a, e)) ↔ condition) ∧ ∀ a e, m d = .ok (a, e) → post a e

theorem decides_bind {mid : α → Draft → Prop} {post : β → Draft → Prop}
    (first : Decides pre m c mid) (rest : ∀ a, Decides (mid a) (f a) c' post) :
    Decides pre (m >>= f) (c ∧ c') post := by
  intro d held
  obtain ⟨accepts, keeps⟩ := first d held
  refine ⟨⟨?_, ?_⟩, ?_⟩
  · rintro ⟨b, e, run⟩
    obtain ⟨a, d', run, run'⟩ := bind_ok.mp run
    have accepts' := (rest a d' (keeps a d' run)).1
    exact ⟨accepts.mp ⟨a, d', run⟩, accepts'.mp ⟨b, e, run'⟩⟩
  · rintro ⟨holds, holds'⟩
    obtain ⟨a, d', run⟩ := accepts.mpr holds
    obtain ⟨b, e, run'⟩ := (rest a d' (keeps a d' run)).1.mpr holds'
    exact ⟨b, e, bind_ok.mpr ⟨a, d', run, run'⟩⟩
  · intro b e run
    obtain ⟨a, d', run, run'⟩ := bind_ok.mp run
    exact (rest a d' (keeps a d' run)).2 b e run'

theorem Decides.congr {post : α → Draft → Prop} (decides : Decides pre m c post) (same : c ↔ c') :
    Decides pre m c' post :=
  fun d held => ⟨(decides d held).1.trans same, (decides d held).2⟩

theorem Decides.weaken {post post' : α → Draft → Prop} (decides : Decides pre m c post)
    (weaker : ∀ a d, post a d → post' a d) : Decides pre m c post' :=
  fun d held => ⟨(decides d held).1, fun a e run => weaker a e ((decides d held).2 a e run)⟩

theorem Decides.holds {post : α → Draft → Prop} (decides : Decides pre m c post) :
    Decides pre m c fun a d => c ∧ post a d :=
  fun d held => ⟨(decides d held).1,
    fun a e run => ⟨(decides d held).1.mp ⟨a, e, run⟩, (decides d held).2 a e run⟩⟩

theorem decides_pure {post : α → Draft → Prop} {a : α} (held : ∀ d, pre d → post a d) :
    Decides pre (pure a) True post := by
  intro d start
  refine ⟨iff_true_intro ⟨a, d, rfl⟩, ?_⟩
  intro b e run
  obtain ⟨rfl, rfl⟩ := pure_ok.mp run
  exact held d start

theorem decides_refuse {post : α → Draft → Prop} (node : Expr) (cause : Unsupported) :
    Decides pre (refuse node cause) False post :=
  fun _ _ => ⟨by simp, fun _ _ run => (refuse_ok.mp run).elim⟩

theorem decides_guard {refused : Prop} [Decidable refused] {post : α → Draft → Prop} {node : Expr}
    {cause : Unsupported} {g : Unit → Compile α} (rest : ¬refused → Decides pre (g ()) c post) :
    Decides pre (if refused then refuse node cause >>= g else g ()) (¬refused ∧ c) post := by
  intro d held
  by_cases passed : refused
  · simp [passed, bind_ok]
  · simp only [passed, if_false, not_false_eq_true, true_and]
    exact rest passed d held

theorem decides_map {post : Draft → Prop} (g : α → β) (first : Decides pre m c fun _ => post) :
    Decides pre (do return g (← m)) c fun _ => post :=
  (decides_bind first fun _ => decides_pure fun _ => id).congr (and_iff_left trivial)

theorem decides_known {fact : Prop} {post : α → Draft → Prop} (held : fact → Decides pre m c post) :
    Decides (fun d => fact ∧ pre d) m c post :=
  fun d related => held related.1 d related.2

theorem decides_get {k : Draft → Compile α} {post : α → Draft → Prop}
    (rest : ∀ d, pre d → Decides (fun e => e = d) (k d) c post) :
    Decides pre (do k (← get)) c post :=
  fun d held => rest d held d rfl

theorem decides_names {g : RecordNames → Except ComputeError α}
    (accepts : ∀ d, pre d → ((∃ a, g d.records = .ok a) ↔ c)) :
    Decides pre (do g (← get).records) c fun _ => pre := by
  intro d held
  rw [get_bind]
  simp only [lift_ok, ← accepts d held]
  refine ⟨⟨?_, ?_⟩, ?_⟩
  · rintro ⟨a, _, found, _⟩
    exact ⟨a, found⟩
  · rintro ⟨a, found⟩
    exact ⟨a, d, found, rfl⟩
  · rintro a e ⟨_, rfl⟩
    exact held

end Compile

/-- What is true of a draft between the steps of a translation: structs are declared in order, bound
inputs are the arrays that they have the tags of, and the conversions that are overridden are the
listed ones. -/
structure Prepared (known : List SharedArray) (b : List Tag) (d : Draft) : Prop extends Arranged d where
  agreed : Agreed known d.inputs
  tracks : Tracks b d.overrides

section Operations

variable {known : List SharedArray} {b : List Tag}

theorem prepared_start (known : List SharedArray) : Prepared known [] {} :=
  ⟨Kernel.arranged_start, fun _ _ _ member => absurd member List.not_mem_nil, fun _ => rfl⟩

theorem declare_covers {node : Expr} {t : ElementType} {d e : Draft}
    (run : declare node t d = .ok ((), e)) : e.records.Covers t := by
  cases t with
  | leaf l => exact RecordNames.covers_leaf l
  | record name fields =>
    obtain ⟨⟨n, found⟩, rfl⟩ | ⟨_, members, c, _, added⟩ := declare_record_ok run
    · exact RecordNames.covers_record found
    · rw [addStruct_records added]
      exact RecordNames.covers_record (RecordNames.assign_get _ _)

mutual
theorem declare_accepts (node : Expr) : ∀ (t : ElementType) {d : Draft}, Arranged d →
    t.IsDeclarable → ∃ e, declare node t d = .ok ((), e)
  | .leaf _, d, _, _ => ⟨d, rfl⟩
  | .record name fields, d, arranged, declarable => by
    unfold declare
    rw [get_bind]
    cases d.records.get? ⟨name, fields⟩ with
    | some n => exact ⟨d, rfl⟩
    | none =>
      obtain ⟨members, c, declared⟩ := declareFields_accepts node name fields arranged
        ((ElementType.isSpellable_record name fields).mp declarable)
      exact ⟨_, bind_ok.mpr ⟨members, c, declared, rfl⟩⟩

theorem declareFields_accepts (node : Expr) (record : String) :
    ∀ (fields : List (String × ElementType)) {d : Draft}, Arranged d →
    (∀ field ∈ fields, field.2 ≠ .bool ∧ field.2.IsSpellable) →
    ∃ members e, declareFields node record fields d = .ok (members, e)
  | [], d, _, _ => ⟨[], d, rfl⟩
  | (field, t) :: fields, d, arranged, fit => by
    obtain ⟨⟨plain, spellable⟩, fit⟩ := List.forall_mem_cons.mp fit
    obtain ⟨c, declared⟩ := declare_accepts node t arranged spellable.declarable
    have arranged' := declare_arranged node t arranged declared
    obtain ⟨k, typed⟩ :=
      (arranged'.arranged.typeOf_accepts (declare_covers declared)).mpr spellable
    obtain ⟨others, e, rest⟩ := declareFields_accepts node record fields arranged' fit
    refine ⟨(identifier field, k) :: others, e, ?_⟩
    unfold declareFields
    refine guard_ok.mpr ⟨plain, bind_ok.mpr ⟨(), c, declared, ?_⟩⟩
    exact bind_ok.mpr ⟨k, c, typeOf_ok.mpr ⟨typed, rfl⟩, bind_ok.mpr ⟨others, e, rest, rfl⟩⟩
end

theorem decides_declare (node : Expr) (t : ElementType) :
    Decides (Prepared known b) (declare node t) t.IsDeclarable
      fun _ e => e.records.Covers t ∧ Prepared known b e := by
  intro d prepared
  refine ⟨⟨?_, fun declarable => ?_⟩, ?_⟩
  · rintro ⟨_, e, run⟩
    cases t with
    | leaf l => trivial
    | record name fields =>
      have arranged := declare_arranged node _ prepared.toArranged run
      obtain ⟨n, found⟩ := declare_covers run ⟨name, fields⟩ rfl
      exact arranged.arranged.spellable _ (RecordNames.get_assigned found)
  · obtain ⟨e, run⟩ := declare_accepts node t prepared.toArranged declarable
    exact ⟨(), e, run⟩
  · intro _ e run
    obtain ⟨inputs, overrides⟩ := declare_frame node t d () e run
    refine ⟨declare_covers run, declare_arranged node t prepared.toArranged run, ?_, ?_⟩
    · rw [inputs]
      exact prepared.agreed
    · rw [overrides]
      exact prepared.tracks

theorem decides_spelling (node : Expr) (t : ElementType)
    {g : RecordNames → Except ComputeError KernelType}
    (accepts : ∀ names : RecordNames, names.Arranged → names.Covers t →
      ((∃ k, g names = .ok k) ↔ t.IsSpellable)) :
    Decides (Prepared known b) (do declare node t; g (← get).records) t.IsSpellable
      fun _ => Prepared known b := by
  have spelled : Decides (fun d => d.records.Covers t ∧ Prepared known b d)
      (do g (← get).records) t.IsSpellable fun _ => Prepared known b :=
    (decides_names fun d held => accepts _ held.2.arranged held.1).weaken fun _ _ held => held.2
  exact (decides_bind (decides_declare node t) fun _ => spelled).congr
    ⟨And.right, fun spellable => ⟨spellable.declarable, spellable⟩⟩

theorem decides_valueType (node : Expr) (t : ElementType) :
    Decides (Prepared known b) (valueType node t) t.IsSpellable fun _ => Prepared known b :=
  decides_spelling node t fun _ arranged covered => arranged.typeOf_accepts covered

theorem decides_storageType (node : Expr) (t : ElementType) :
    Decides (Prepared known b) (storageType node t) t.IsSpellable fun _ => Prepared known b :=
  decides_spelling node t fun _ arranged covered => arranged.storageOf_accepts covered

theorem decides_typeOf (l : Leaf) :
    Decides (Prepared known b) (typeOf (.leaf l)) (l ≠ .f64) fun _ => Prepared known b :=
  decides_names (g := fun names => names.typeOf (.leaf l)) fun _ prepared =>
    prepared.arranged.typeOf_accepts (RecordNames.covers_leaf l)

theorem decides_bindArray (faithful : ∀ a ∈ known, ∀ b ∈ known, a.tag = b.tag → a = b) (node : Expr)
    {a : SharedArray} (member : a ∈ known) :
    Decides (Prepared known b) (bindArray node a) a.data.element.IsSpellable
      fun _ => Prepared known b := by
  intro d prepared
  refine ⟨⟨?_, fun spellable => ?_⟩, ?_⟩
  · rintro ⟨slot, e, run⟩
    -- Bound just now or before, the array has an input in the draft, and the storage of that shows
    -- that its elements are spellable.
    have arranged := bindArray_arranged prepared.toArranged run
    obtain ⟨found, agreed⟩ := bindArray_slot faithful member prepared.agreed run
    obtain ⟨i, place, data⟩ := Option.map_eq_some_iff.mp found
    have stored := arranged.storage i (List.mem_of_getElem? place)
    rw [data] at stored
    exact arranged.arranged.storageOf stored
  · unfold bindArray
    rw [get_bind]
    cases d.inputs.findIdx? (·.tag == a.tag) with
    | some slot => exact ⟨slot, d, rfl⟩
    | none =>
      obtain ⟨storage, c, stored⟩ :=
        (decides_storageType (b := b) node a.data.element d prepared).1.mpr spellable
      exact ⟨_, _, bind_ok.mpr ⟨storage, c, stored, rfl⟩⟩
  · intro slot e run
    refine ⟨bindArray_arranged prepared.toArranged run, ?_, ?_⟩
    · exact (bindArray_slot faithful member prepared.agreed run).2
    · rw [bindArray_overrides run]
      exact prepared.tracks

theorem accessOf_isSome (container : ElementType) (member : String) :
    (accessOf container member).isSome = (container.member? member).isSome := by
  unfold accessOf
  cases cell : container.cell? member with
  | none => simp
  | some place =>
    cases container with
    | record => exact nomatch cell
    | leaf l =>
      by_cases matrix : l.isMatrix = true
      · simp only [ElementType.cell?, matrix, if_true] at cell
        simp [ElementType.member?, matrix, cell]
      · simp [ElementType.cell?, matrix] at cell

theorem decides_follow (node : Expr) (container : ElementType) (member : String) :
    Decides (Prepared known b) (follow node container member)
      ((container.next? member).isSome = true)
      fun p d => container.next? member = some p.2 ∧ Prepared known b d := by
  have both := accessOf_isSome container member
  unfold follow ElementType.next?
  cases typed : container.member? member with
  | none =>
    cases accessOf container member with
    | none => exact (decides_refuse _ _).congr (by simp)
    | some a => exact (decides_refuse _ _).congr (by simp)
  | some t =>
    rw [typed] at both
    obtain ⟨a, found⟩ := Option.isSome_iff_exists.mp both
    rw [found]
    have declares : Decides (Prepared known b) (declare node t) _ _ := decides_declare node t
    refine (decides_bind declares.holds fun _ => decides_pure fun d held => ?_).congr ?_
    · obtain ⟨declarable, _, prepared⟩ := held
      exact ⟨by simp [declarable], prepared⟩
    · simp

theorem decides_override (tag : Tag) :
    Decides (Prepared known b) (override tag .f32) True fun _ => Prepared known (tag :: b) := by
  intro d prepared
  refine ⟨iff_true_intro ⟨(), _, rfl⟩, ?_⟩
  intro _ e run
  obtain rfl := modify_ok.mp run
  have sound : Sound { d with overrides := (tag, .f32) :: d.overrides } :=
    ⟨prepared.distinct, prepared.structs, prepared.storage, prepared.steps⟩
  exact ⟨⟨sound, prepared.arranged⟩, prepared.agreed, prepared.tracks.cons tag⟩

theorem decides_overrideArguments : ∀ (args : List Expr) (params : List ElementType) {b : List Tag},
    (∀ p ∈ params, p = .f32) →
    Decides (Prepared known b) (overrideArguments args params) True
      fun _ => Prepared known (after b (argumentUses args params))
  | [], _, _, _ => decides_pure fun _ => id
  | e :: _, [], _, _ => by cases e <;> exact decides_pure fun _ => id
  | e :: args, p :: params, b, single => by
    obtain ⟨rfl, single'⟩ := List.forall_mem_cons.mp single
    have rest : ∀ {b : List Tag}, Decides (Prepared known b) (overrideArguments args params) True
        fun _ => Prepared known (after b (argumentUses args params)) :=
      decides_overrideArguments args params single'
    cases e with
    | convert tag inner t =>
      simp only [overrideArguments, argumentUses]
      by_cases other : t = .f32
      · simp only [other, ne_eq, not_true_eq_false, if_false]
        exact rest
      · simp only [other, ne_eq, not_false_eq_true, if_true]
        exact (decides_bind (decides_override tag) fun _ => rest).congr (and_self_iff)
    | _ => exact rest

theorem decides_overrideCall (fn : MathFn) (args : List Expr) :
    Decides (Prepared known b) (overrideCall fn args) True
      fun _ => Prepared known (after b (argumentUses args fn.parameters)) := by
  have same : overrideCall fn args = overrideArguments args fn.parameters := by
    unfold overrideCall MathFn.parameters
    cases fn.signature? with
    | some signature => rfl
    | none =>
      cases args with
      | nil => rfl
      | cons e rest => cases e <;> rfl
  rw [same]
  exact decides_overrideArguments args fn.parameters fn.parameters_single

theorem decides_overrideWrapper (tag : Tag) (t : ElementType) (e : Expr) :
    Decides (Prepared known b) (overrideWrapper tag t e) True
      fun _ => Prepared known (after b (wrapperUses tag t e)) := by
  cases e with
  | call fn args u =>
    rw [overrideWrapper_call, wrapperUses]
    split
    · exact decides_overrideCall fn args
    · exact (decides_bind (decides_override tag) fun _ => decides_overrideCall fn args).congr
        and_self_iff
  | _ => exact decides_pure fun _ => id

end Operations
end ArrayQuery.Kernel
