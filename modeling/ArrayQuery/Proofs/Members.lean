import ArrayQuery.Proofs.Captures
import ArrayQuery.Proofs.Spellable
import ArrayQuery.Proofs.Runs

/-! The members of structs. Each is the identifier of a field name, so that different names can come to
one member. -/

set_option autoImplicit false
namespace ArrayQuery.Kernel

open Compile

theorem not_digit_of_fixed {c : Char} {cs : List Char} (fixed : fixStart (c :: cs) = c :: cs) :
    c.isDigit = false := by
  by_contra digit
  have longer := congrArg List.length ((fixStart_digit (by simpa using digit) cs).symm.trans fixed)
  simp at longer

theorem Spelt.free {cs ds : List Char} (spelt : Spelt cs ds) : isTaken ds = false := by
  cases spelt with
  | same _ free => exact free
  | empty => exact underscore_not_taken List.mem_cons_self
  | digit => exact underscore_not_taken List.mem_cons_self
  | scores => exact underscore_not_taken (by simp)
  | taken _ _ scored => exact underscore_not_taken (by simp [scored])

theorem Spelt.fixed {cs ds : List Char} (spelt : Spelt cs ds) : fixStart ds = ds := by
  cases spelt with
  | same fixed => exact fixed
  | empty => rfl
  | @digit c cs digit =>
    have other : c ≠ '_' := by
      rintro rfl
      exact absurd digit (by decide)
    exact fixStart_same rfl fun rest same => other (List.cons.inj (List.cons.inj same).2).1
  | scores => rfl
  | taken fixed taken scored =>
    have clear : '_' ∉ cs := fun member =>
      Bool.false_ne_true ((underscore_not_taken member).symm.trans taken)
    cases cs with
    | nil => exact absurd taken (by decide)
    | cons c rest =>
      have first : c ≠ '_' := fun same => clear (same ▸ List.mem_cons_self)
      rw [scored]
      exact fixStart_same (not_digit_of_fixed fixed) fun _ same => first (List.cons.inj same).1

theorem spelt_spelt (cs : List Char) : spelt (spelt cs) = spelt cs := by
  have cases := spelt_cases cs
  generalize spelt cs = ds at cases
  rw [spelt, cases.fixed, cases.free]
  rfl

theorem taken_dropLast {cs ds : List Char} (taken : isTaken cs = true) (scored : ds = cs ++ ['_']) :
    '_' ∉ ds.dropLast ∧ ds ≠ ['_'] := by
  subst scored
  rw [List.dropLast_concat]
  constructor
  · exact fun member => Bool.false_ne_true ((underscore_not_taken member).symm.trans taken)
  · intro same
    obtain rfl : cs = [] := List.append_left_eq_self.mp same
    exact absurd taken (by decide)

/-- Two spellings are one only where the characters are the same, or are those of the other spelling. -/
theorem spelt_eq_spelt_iff {cs ds : List Char} :
    spelt cs = spelt ds ↔ cs = ds ∨ cs = spelt ds ∨ spelt cs = ds := by
  constructor
  · intro same
    have first := spelt_cases cs
    have second := spelt_cases ds
    rw [same] at first
    rw [same]
    -- What the one spelling shares with the other tells how both have come about.
    generalize spelt ds = w at first second
    cases first with
    | same => exact .inr (.inl rfl)
    | empty =>
      cases second with
      | same => exact .inr (.inr rfl)
      | empty => exact .inl rfl
      | taken _ taken scored => exact absurd rfl (taken_dropLast taken scored).2
    | digit =>
      cases second with
      | same => exact .inr (.inr rfl)
      | digit => exact .inl rfl
      | taken _ taken scored => exact absurd (by simp) (taken_dropLast taken scored).1
    | scores =>
      cases second with
      | same => exact .inr (.inr rfl)
      | scores => exact .inl rfl
      | taken _ taken scored => exact absurd (by simp) (taken_dropLast taken scored).1
    | taken _ taken scored =>
      cases second with
      | same => exact .inr (.inr rfl)
      | empty => exact absurd rfl (taken_dropLast taken scored).2
      | digit => exact absurd (by simp) (taken_dropLast taken scored).1
      | scores => exact absurd (by simp) (taken_dropLast taken scored).1
      | taken _ _ scored' => exact .inl (List.append_cancel_right (scored.symm.trans scored'))
  · rintro (rfl | same | same)
    · rfl
    · rw [same, spelt_spelt]
    · rw [← same, spelt_spelt]

/-- Whether two names come to one identifier: in small letters, and with underscores for all other
characters, they are the same, or one of them is the identifier of the other. -/
def Coincide (a b : String) : Prop :=
  plain a = plain b ∨ plain a = (identifier b).toList ∨ (identifier a).toList = plain b

instance (a b : String) : Decidable (Coincide a b) :=
  inferInstanceAs (Decidable (_ ∨ _))

theorem identifier_eq_identifier_iff (a b : String) : identifier a = identifier b ↔ Coincide a b := by
  rw [← String.toList_inj, Coincide, toList_identifier, toList_identifier, spelt_eq_spelt_iff]

/-- Whether the members of a struct are those of a record: each is the identifier of a field, they are
distinct exactly if no two fields coincide, and the step to a field leads to the members of all the
fields that coincide with it. -/
structure HasMembers (r : RecordType) (s : Struct) : Prop where
  members : s.fields.map Prod.fst = r.fields.map fun field => identifier field.1
  distinct : (s.fields.map Prod.fst).Nodup ↔ r.fields.Pairwise fun a b => ¬Coincide a.1 b.1
  selects : ∀ field ∈ r.fields, accessOf r.type field.1 = some (.field (identifier field.1)) ∧
    ∀ k : Nat, s.fields[k]?.map Prod.fst = some (identifier field.1) ↔
      ∃ other, r.fields[k]? = some other ∧ Coincide other.1 field.1

theorem Declares.hasMembers {names : RecordNames} {named : RecordType × String} {s : Struct}
    (declares : Declares names named s) : HasMembers named.1 s := by
  have members : s.fields.map Prod.fst = named.1.fields.map fun field => identifier field.1 := by
    rw [← List.forall₂_eq_eq_eq, List.forall₂_map_left_iff, List.forall₂_map_right_iff]
    exact declares.members.flip.imp fun _ _ member => member.1
  refine ⟨members, ?_, fun field member => ⟨?_, fun k => ?_⟩⟩
  · rw [members, List.Nodup, List.pairwise_map]
    simp only [ne_eq, identifier_eq_identifier_iff]
  · -- The first field with the name is there; which type it has does not matter.
    have held : (named.1.fields.lookup field.1).isSome = true :=
      List.lookup_isSome_iff.mpr ⟨field, member, beq_self_eq_true _⟩
    obtain ⟨t, found⟩ := Option.isSome_iff_exists.mp held
    exact congrArg (Option.map fun _ => Access.field (identifier field.1)) found
  · rw [← List.getElem?_map, members, List.getElem?_map, Option.map_eq_some_iff]
    simp only [identifier_eq_identifier_iff]

/-- The structs of a kernel are those of the records that have names in the end, and have the members
of these records. -/
theorem compile_members {root : Expr} {workgroupSize : Nat} {p : Program}
    (compiled : compile workgroupSize root = .ok p) :
    ∃ result d, Compile.root root {} = .ok (result, d) ∧ p.structs = d.structs ∧
      List.Forall₂ (fun named s => s.name = named.2 ∧ HasMembers named.1 s) d.records.assigned
        p.structs := by
  obtain ⟨result, storage, d, rooted, rfl⟩ := compile_ok compiled
  refine ⟨_, d, rooted, rfl, (root_arranged rooted).structs.imp ?_⟩
  exact fun _ _ declares => ⟨declares.name, declares.hasMembers⟩

def lettersRecord : RecordType := ⟨"Letters", [("A", .f32), ("a", .f32)]⟩

def lettersQuery : Expr :=
  let x : Parameter := ⟨"x", .f32⟩
  .select 2 (.array ⟨1, .ofList [Single.mk 0]⟩) [x]
    (.construct lettersRecord [.parameter x, .parameter x])

theorem lettersQuery_members : ∃ p result d, compile 64 lettersQuery = .ok p ∧
    Compile.root lettersQuery {} = .ok (result, d) ∧ p.structs = d.structs ∧
    List.Forall₂ (fun named s => s.name = named.2 ∧ HasMembers named.1 s) d.records.assigned
      p.structs ∧
    p.structs.map (·.fields.map Prod.fst) = [["a", "a"]] := by
  have compiled : compile 64 lettersQuery = .ok _ := rfl
  obtain ⟨result, d, run, structs, members⟩ := compile_members compiled
  exact ⟨_, result, d, compiled, run, structs, members, rfl⟩

end ArrayQuery.Kernel
