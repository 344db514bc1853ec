import FormulaInspection.Proofs.NameMap
import FormulaInspection.Ty.Elimination

/-!
Choosing several fields at once. A choice fails only where a field is certain to be missing; a field
of what it gives is the field of the value from which it was chosen.
-/

namespace FormulaInspection.Ty

open NameMap (get? names)

section

variable {fields chosen before : List (String × Ty)} {isOpen isOptional : Bool} {name : String}
  {choice : List String}

theorem fieldOr?_eq_none_iff : fieldOr? fields isOpen isOptional name = none ↔
    isOpen = false ∧ isOptional = false ∧ name ∉ names fields := by
  rw [NameMap.mem_names_iff, fieldOr?]
  cases get? fields name <;> cases isOpen <;> cases isOptional <;> simp

theorem chosenFields?_eq_none_iff : chosenFields? fields isOpen isOptional choice before = none ↔
    ∃ name ∈ choice, fieldOr? fields isOpen isOptional name = none := by
  induction choice generalizing before with
  | nil => simp [chosenFields?]
  | cons first rest ih =>
      rw [chosenFields?]
      cases atFirst : fieldOr? fields isOpen isOptional first with
      | none => simp [atFirst]
      | some ty => simp [atFirst, ih]

theorem chosenFields?_eq_some
    (found : chosenFields? fields isOpen isOptional choice before = some chosen) :
    chosen = NameMap.setAll before
      (choice.map fun name => (name, (fieldOr? fields isOpen isOptional name).getD .none)) := by
  induction choice generalizing before with
  | nil => exact (Option.some.inj found).symm
  | cons first rest ih =>
      rw [chosenFields?] at found
      cases atFirst : fieldOr? fields isOpen isOptional first with
      | none => simp [atFirst] at found
      | some ty =>
          rw [atFirst] at found
          rw [List.map_cons, NameMap.setAll_cons, atFirst]
          exact ih found

theorem names_chosenFields
    (found : chosenFields? fields isOpen isOptional choice [] = some chosen) :
    names chosen = choice.eraseDups := by
  have written : names chosen = _ :=
    (congrArg names (chosenFields?_eq_some found)).trans (NameMap.names_ofPairs _)
  simpa [names, Function.comp_def] using written

theorem get?_chosenFields
    (found : chosenFields? fields isOpen isOptional choice [] = some chosen) (member : name ∈ choice) :
    get? chosen name = some ((fieldOr? fields isOpen isOptional name).getD .none) := by
  rw [chosenFields?_eq_some found]
  exact NameMap.get?_setAll_map [] _ member

end

section

variable {make : List (String × Ty) → Bool → Bool → Ty}

theorem selectField_eq (fielded : make = .record ∨ make = .table) (fields : List (String × Ty))
    (isOpen isNullable : Bool) (name : String) (isOptional : Bool) :
    (make fields isOpen isNullable).selectField name isOptional =
      (fieldOr? fields isOpen isOptional name).getD .none := by
  rcases fielded with rfl | rfl <;> rfl

theorem projectFields_eq (fielded : make = .record ∨ make = .table) (fields : List (String × Ty))
    (isOpen isNullable : Bool) (choice : List String) (isOptional : Bool) :
    (make fields isOpen isNullable).projectFields choice isOptional =
      (chosenFields? fields isOpen isOptional choice []).elim .none (make · false false) := by
  rcases fielded with rfl | rfl
  all_goals
    simp only [projectFields]
    cases chosenFields? fields isOpen isOptional choice [] <;> rfl

theorem projectFields_eq_none_iff (fielded : make = .record ∨ make = .table)
    {fields : List (String × Ty)} {isOpen isNullable isOptional : Bool} {choice : List String} :
    (make fields isOpen isNullable).projectFields choice isOptional = .none ↔
      isOpen = false ∧ isOptional = false ∧ ∃ name ∈ choice, name ∉ names fields := by
  have missing : chosenFields? fields isOpen isOptional choice [] = none ↔
      isOpen = false ∧ isOptional = false ∧ ∃ name ∈ choice, name ∉ names fields := by
    simp only [chosenFields?_eq_none_iff, fieldOr?_eq_none_iff]
    tauto
  rw [projectFields_eq fielded, ← missing]
  cases chosenFields? fields isOpen isOptional choice [] with
  | none => simp
  | some chosen => rcases fielded with rfl | rfl <;> simp [of]

theorem selectField_of_projectFields (fielded : make = .record ∨ make = .table)
    {fields : List (String × Ty)} {isOpen isNullable isOptional : Bool} {choice : List String}
    (possible : (make fields isOpen isNullable).projectFields choice isOptional ≠ .none)
    {name : String} (member : name ∈ choice) :
    ((make fields isOpen isNullable).projectFields choice isOptional).selectField name isOptional =
      (make fields isOpen isNullable).selectField name isOptional := by
  rw [projectFields_eq fielded] at possible ⊢
  cases found : chosenFields? fields isOpen isOptional choice [] with
  | none => exact absurd (by rw [found]; rfl) possible
  | some chosen =>
      rw [Option.elim_some, selectField_eq fielded, selectField_eq fielded, fieldOr?,
        get?_chosenFields found member]
      rfl

end

/-- Choosing fields and then selecting one of them is selecting it at once. On a value with known
fields the choice fails exactly where one of them is certain to be missing; otherwise it gives a
closed value that has each of the chosen fields once, in the order in which they are first named. -/
theorem selectField_projectFields (base : Ty) (choice : List String) (isOptional : Bool) :
    (base.projectFields choice isOptional = .none ∨
      ∀ name ∈ choice, (base.projectFields choice isOptional).selectField name isOptional =
        base.selectField name isOptional) ∧
    ∀ make fields isOpen isNullable, make = Ty.record ∨ make = Ty.table →
      base = make fields isOpen isNullable →
        (base.projectFields choice isOptional = .none ↔
          isOpen = false ∧ isOptional = false ∧ ∃ name ∈ choice, name ∉ names fields) ∧
        (base.projectFields choice isOptional ≠ .none →
          ∃ chosen, base.projectFields choice isOptional = make chosen false false ∧
            names chosen = choice.eraseDups) := by
  constructor
  · rw [or_iff_not_imp_left]
    intro possible name member
    cases base with
    | record _ _ _ => exact selectField_of_projectFields (Or.inl rfl) possible member
    | table _ _ _ => exact selectField_of_projectFields (Or.inr rfl) possible member
    | primitive kind _ =>
        cases kind <;> rfl
    | _ => rfl
  · rintro make fields isOpen isNullable fielded rfl
    refine ⟨projectFields_eq_none_iff fielded, ?_⟩
    rw [projectFields_eq fielded]
    intro possible
    cases found : chosenFields? fields isOpen isOptional choice [] with
    | none => exact absurd (by rw [found]; rfl) possible
    | some chosen => exact ⟨chosen, rfl, names_chosenFields found⟩

/-- A closed table without a column `c`. -/
def tableSample : Ty :=
  .table [("a", .of .number), ("b", .of .text)] false true

theorem tableSample_projects :
    tableSample.projectFields ["c", "a", "c"] false = .none ∧
      (tableSample.projectFields ["c", "a", "c"] true).selectField "c" true =
        tableSample.selectField "c" true ∧
      ∃ chosen, tableSample.projectFields ["c", "a", "c"] true = .table chosen false false ∧
        names chosen = ["c", "a"] := by
  obtain ⟨_, strict⟩ := selectField_projectFields tableSample ["c", "a", "c"] false
  obtain ⟨selects, optional⟩ := selectField_projectFields tableSample ["c", "a", "c"] true
  obtain ⟨fails, gives⟩ := optional .table _ _ _ (Or.inr rfl) rfl
  have possible : tableSample.projectFields ["c", "a", "c"] true ≠ .none := by
    simp [fails]
  refine ⟨(strict .table _ _ _ (Or.inr rfl) rfl).1.mpr ⟨rfl, rfl, "c", by decide, by decide⟩, ?_⟩
  exact ⟨selects.resolve_left possible "c" (by decide), gives possible⟩

end FormulaInspection.Ty
