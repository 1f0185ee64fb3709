import ArrayQuery.Proofs.Captures

/-! Record names over the calls that ask for them. The search for a free name ends, equal records have
one name and different ones have different names, and once a record has a name it keeps it. -/

set_option autoImplicit false
namespace ArrayQuery.Kernel.RecordNames

/-- Whether the candidates for a name are taken up to the `n`-th one, and that one is not: a search that
tries one after the other ends there. -/
structure EndsAt (names : RecordNames) (base : String) (n : Nat) : Prop where
  free : candidate base n ∉ names.taken
  before : ∀ m < n, candidate base m ∈ names.taken

theorem freeName_ends (names : RecordNames) (base : String) :
    ∃ n ≤ names.taken.length, names.EndsAt base n ∧ names.freeName base = candidate base n := by
  have fresh := names.freeName_not_taken base
  unfold freeName at fresh ⊢
  dsimp only at fresh ⊢
  cases found : (List.range (names.taken.length + 1)).find? fun n =>
      !(Std.HashSet.ofList names.taken).contains (candidate base n) with
  | none =>
    -- The name would be the first candidate, which is not free then.
    rw [found] at fresh
    have first := List.find?_eq_none.mp found 0 (List.mem_range.mpr (Nat.succ_pos _))
    exact absurd (by simpa [Std.HashSet.contains_ofList] using first) fresh
  | some n =>
    rw [found] at fresh
    obtain ⟨_, within, before⟩ := List.find?_range_eq_some.mp found
    refine ⟨n, Nat.lt_succ_iff.mp (List.mem_range.mp within), ⟨fresh, fun m below => ?_⟩, rfl⟩
    simpa [Std.HashSet.contains_ofList] using before m below

def calls (names : RecordNames) : List RecordType → List (RecordType × String)
  | [] => []
  | r :: rest => (r, (names.assign r).1) :: calls (names.assign r).2 rest

theorem calls_take (names : RecordNames) (rs : List RecordType) (k : Nat) :
    calls names (rs.take k) = (calls names rs).take k := by
  induction rs generalizing names k with
  | nil => simp [calls]
  | cons r rest ih =>
    cases k with
    | zero => rfl
    | succ k => simp only [List.take_succ_cons, calls, ih]

theorem calls_concat (rs : List RecordType) (r : RecordType) :
    calls {} (rs ++ [r]) = calls {} rs ++ [(r, ((reached rs).assign r).1)] := by
  unfold reached
  generalize ({} : RecordNames) = names
  induction rs generalizing names with
  | nil => rfl
  | cons s rest ih => simp only [List.cons_append, calls, ih, List.foldl_cons]

theorem calls_records (names : RecordNames) (rs : List RecordType) :
    (calls names rs).map Prod.fst = rs := by
  induction rs generalizing names with
  | nil => rfl
  | cons r rest ih => rw [calls, List.map_cons, ih]

theorem get_assign (names : RecordNames) (r s : RecordType) (name : String) :
    (names.assign s).2.get? r = some name ↔
      names.get? r = some name ∨ (r, name) = (s, (names.assign s).1) := by
  rw [Prod.mk.injEq]
  by_cases same : r = s
  · subst same
    rw [assign_get, Option.some.injEq]
    refine ⟨fun given => .inr ⟨rfl, given.symm⟩, fun either => ?_⟩
    rcases either with known | ⟨-, given⟩
    · rw [assign_known known]
    · exact given.symm
  · rw [assign_get_other same]
    exact ⟨.inl, fun either => either.resolve_right fun both => same both.1⟩

/-- All calls: the records that have names are those that were asked for, and they have the names that
were given. -/
theorem get_reached (rs : List RecordType) (r : RecordType) (name : String) :
    (reached rs).get? r = some name ↔ (r, name) ∈ calls {} rs := by
  induction rs using List.reverseRecOn with
  | nil => simp [reached, get?, calls]
  | append_singleton rs s ih =>
    rw [reached_append, get_assign, ih, calls_concat, List.mem_append, List.mem_singleton]

theorem get_injective {names : RecordNames} (distinct : names.Distinct) {r s : RecordType}
    {name : String} (first : names.get? r = some name) (second : names.get? s = some name) : r = s := by
  have same : (r, name) = (s, name) :=
    List.inj_on_of_nodup_map distinct.nodup (mem_of_lookup first) (mem_of_lookup second) rfl
  exact (Prod.mk.inj same).1

/-- Names are a stable injection of records. After any number of calls, a record has a name exactly if
it has been asked for, and it is the name that each call for it gives; two calls give one name exactly
if they are for records with the same name and fields; and a call for a record that has no name tries
only finitely many candidates. -/
theorem names_stable (rs : List RecordType) :
    (∀ k r name, (reached (rs.take k)).get? r = some name ↔ (r, name) ∈ (calls {} rs).take k) ∧
      (∀ c ∈ calls {} rs, ∀ d ∈ calls {} rs, c.2 = d.2 ↔ c.1 = d.1) ∧
      ∀ r, r ∈ rs ∨ ∃ n ≤ (reached rs).taken.length,
        (reached rs).EndsAt (identifier r.name) n ∧
          ((reached rs).assign r).1 = candidate (identifier r.name) n := by
  refine ⟨fun k r name => ?_, fun c first d second => ?_, fun r => ?_⟩
  · rw [get_reached, calls_take]
  · have named := (get_reached rs c.1 c.2).mpr first
    have named' := (get_reached rs d.1 d.2).mpr second
    refine ⟨fun same => get_injective (reached_distinct rs) named (same ▸ named'), fun same => ?_⟩
    rw [same] at named
    exact Option.some.inj (named.symm.trans named')
  · cases found : (reached rs).get? r with
    | some name =>
      have asked := List.mem_map_of_mem (f := Prod.fst) ((get_reached rs r name).mp found)
      rw [calls_records] at asked
      exact .inl asked
    | none =>
      obtain ⟨n, within, ends, named⟩ := (reached rs).freeName_ends (identifier r.name)
      rw [assign_new found]
      exact .inr ⟨n, within, ends, named⟩

def lookalikes : List RecordType :=
  [⟨"Pair", [("a", .i32)]⟩, ⟨"pair_1", [("b", .i32)]⟩, ⟨"PAIR", [("c", .i32)]⟩, ⟨"Pair", [("a", .i32)]⟩]

theorem names_stable_lookalikes :
    calls {} lookalikes = lookalikes.zip ["pair", "pair_1", "pair_2", "pair"] ∧
      (reached lookalikes).get? ⟨"PAIR", [("c", .i32)]⟩ = some "pair_2" := by
  have given : calls {} lookalikes = lookalikes.zip ["pair", "pair_1", "pair_2", "pair"] := by
    simp only [calls, lookalikes, assign, get?, freeName, Std.HashSet.contains_ofList]
    decide +kernel
  refine ⟨given, ((names_stable lookalikes).1 4 _ _).mpr ?_⟩
  rw [given]
  exact List.mem_of_getElem? (i := 2) rfl

end ArrayQuery.Kernel.RecordNames
