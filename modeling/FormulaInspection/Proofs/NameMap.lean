import FormulaInspection.NameMap
import Mathlib.Data.List.Induction

/-!
Laws of writing into lists of named values. Writing the same updates a second time changes nothing,
even where they give one name several values.
-/

namespace FormulaInspection.NameMap

variable {α : Type}

theorem set_set (entries : List (String × α)) (name : String) (first second : α) :
    set (set entries name first) name second = set entries name second := by
  induction entries with
  | nil => simp [set]
  | cons entry rest ih =>
      by_cases same : entry.1 = name
      · simp [set, same]
      · simp [set, same, ih]

theorem mem_names_set {entries : List (String × α)} {name key : String} {value : α} :
    key ∈ names (set entries name value) ↔ key ∈ names entries ∨ key = name := by
  induction entries with
  | nil => simp [set, names]
  | cons entry rest ih =>
      by_cases same : entry.1 = name
      · simp only [set, same, if_true, names, List.map_cons, List.mem_cons]
        tauto
      · simp only [names] at ih
        simp only [set, same, if_false, names, List.map_cons, List.mem_cons, ih]
        tauto

theorem set_comm {entries : List (String × α)} {name other : String} (different : name ≠ other)
    (present : other ∈ names entries) (value otherValue : α) :
    set (set entries name value) other otherValue =
      set (set entries other otherValue) name value := by
  induction entries with
  | nil => simp [names] at present
  | cons entry rest ih =>
      by_cases isName : entry.1 = name
      · simp [set, isName, different]
      · by_cases isOther : entry.1 = other
        · simp [set, isOther, Ne.symm different]
        · have later : other ∈ names rest := by
            simp only [names, List.map_cons, List.mem_cons] at present
            exact present.resolve_left (Ne.symm isOther)
          simp [set, isName, isOther, ih later]

theorem setAll_cons (entries updates : List (String × α)) (update : String × α) :
    setAll entries (update :: updates) = setAll (set entries update.1 update.2) updates := rfl

theorem setAll_concat (entries updates : List (String × α)) (update : String × α) :
    setAll entries (updates ++ [update]) = set (setAll entries updates) update.1 update.2 := by
  simp [setAll]

theorem mem_names_setAll {entries updates : List (String × α)} {key : String} :
    key ∈ names (setAll entries updates) ↔ key ∈ names entries ∨ key ∈ names updates := by
  induction updates generalizing entries with
  | nil => simp [setAll, names]
  | cons update rest ih =>
      rw [setAll_cons, ih, mem_names_set]
      simp only [names, List.map_cons, List.mem_cons]
      tauto

theorem set_setAll_set {entries updates : List (String × α)} (name : String) (early late : α)
    (present : ∀ key ∈ names updates, key ∈ names entries) :
    set (setAll (set entries name early) updates) name late =
      set (setAll entries updates) name late := by
  induction updates generalizing entries early with
  | nil => exact set_set entries name early late
  | cons update rest ih =>
      have restPresent : ∀ key ∈ names rest, key ∈ names (set entries update.1 update.2) :=
        fun key member => mem_names_set.mpr (Or.inl (present key (by simp [names] at member ⊢; tauto)))
      simp only [setAll_cons]
      by_cases same : update.1 = name
      · rw [same, set_set]
      · rw [set_comm (Ne.symm same) (present update.1 (by simp [names]))]
        exact ih early restPresent

theorem setAll_setAll (entries updates : List (String × α)) :
    setAll (setAll entries updates) updates = setAll entries updates := by
  induction updates using List.reverseRecOn with
  | nil => rfl
  | append_singleton updates update ih =>
      rw [setAll_concat, setAll_concat, set_setAll_set, ih]
      intro key member
      exact mem_names_setAll.mpr (Or.inr member)

theorem mem_set {entries : List (String × α)} {name : String} {value : α} {entry : String × α}
    (member : entry ∈ set entries name value) : entry ∈ entries ∨ entry = (name, value) := by
  induction entries with
  | nil => simpa [set] using member
  | cons first rest ih =>
      by_cases same : first.1 = name
      · simp only [set, same, if_true, List.mem_cons] at member
        simp only [List.mem_cons]
        tauto
      · simp only [set, same, if_false, List.mem_cons] at member
        simp only [List.mem_cons]
        tauto

theorem mem_setAll {entries updates : List (String × α)} {entry : String × α}
    (member : entry ∈ setAll entries updates) : entry ∈ entries ∨ entry ∈ updates := by
  induction updates generalizing entries with
  | nil => exact Or.inl member
  | cons update rest ih =>
      rw [setAll_cons] at member
      rcases ih member with old | new
      · rcases mem_set old with older | written
        · exact Or.inl older
        · exact Or.inr (by simp [written])
      · exact Or.inr (List.mem_cons_of_mem _ new)

theorem mem_of_get? {entries : List (String × α)} {name : String} {value : α}
    (found : get? entries name = some value) : (name, value) ∈ entries := by
  induction entries with
  | nil => simp [get?] at found
  | cons entry rest ih =>
      by_cases same : entry.1 = name
      · simp only [get?, same, if_true, Option.some.injEq] at found
        simp [← same, ← found]
      · simp only [get?, same, if_false] at found
        exact List.mem_cons_of_mem _ (ih found)

theorem get?_eq_lookup (entries : List (String × α)) (name : String) :
    get? entries name = entries.lookup name := by
  induction entries with
  | nil => rfl
  | cons entry rest ih =>
      obtain ⟨key, value⟩ := entry
      rw [get?, ih]
      by_cases same : key = name
      · rw [if_pos same, same, List.lookup_cons_self]
      · have different : (name == key) = false := by simpa using Ne.symm same
        rw [if_neg same, List.lookup_cons, different]

theorem mem_names_iff {entries : List (String × α)} {name : String} :
    name ∈ names entries ↔ ∃ value, get? entries name = some value := by
  induction entries with
  | nil => simp [names, get?]
  | cons entry rest ih =>
      simp only [names, List.map_cons, List.mem_cons, get?] at ih ⊢
      by_cases same : entry.1 = name
      · simp [same]
      · simp [same, Ne.symm same, ih]

theorem get?_of_mem {entries : List (String × α)} (unique : (names entries).Nodup)
    {entry : String × α} (member : entry ∈ entries) : get? entries entry.1 = some entry.2 := by
  induction entries with
  | nil => cases member
  | cons first rest ih =>
      obtain ⟨absent, uniqueLater⟩ := List.nodup_cons.mp unique
      rcases List.mem_cons.mp member with rfl | later
      · simp [get?]
      · have different : first.1 ≠ entry.1 := fun same =>
          absent (List.mem_map.mpr ⟨entry, later, same.symm⟩)
        simp [get?, different, ih uniqueLater later]

theorem get?_set (entries : List (String × α)) (name other : String) (value : α) :
    get? (set entries name value) other = if name = other then some value else get? entries other := by
  induction entries with
  | nil => simp [set, get?]
  | cons entry rest ih =>
      by_cases isName : entry.1 = name
      · by_cases same : name = other
        · simp [set, get?, isName, same]
        · simp [set, get?, isName, same]
      · by_cases isOther : entry.1 = other
        · have different : name ≠ other := fun same => isName (isOther.trans same.symm)
          simp [set, get?, isOther, different, Ne.symm different]
        · simp [set, get?, isName, isOther, ih]

theorem get?_setAll_of_notMem {entries updates : List (String × α)} {name : String}
    (absent : name ∉ names updates) : get? (setAll entries updates) name = get? entries name := by
  induction updates generalizing entries with
  | nil => rfl
  | cons update rest ih =>
      have different : update.1 ≠ name := fun same => absent (by simp [names, same])
      have absentLater : name ∉ names rest := fun later => absent (List.mem_cons_of_mem _ later)
      rw [setAll_cons, ih absentLater, get?_set, if_neg different]

theorem get?_setAll_map {choice : List String} {name : String} (entries : List (String × α))
    (value : String → α) (member : name ∈ choice) :
    get? (setAll entries (choice.map fun name => (name, value name))) name = some (value name) := by
  induction choice using List.reverseRecOn with
  | nil => cases member
  | append_singleton choice last ih =>
      rw [List.map_append, List.map_singleton, setAll_concat, get?_set]
      split
      · rename_i same
        exact same ▸ rfl
      · rename_i different
        exact ih ((List.mem_append.mp member).resolve_right (by simpa using Ne.symm different))

theorem get?_setAll_last {entries before after : List (String × α)} {name : String} {value : α}
    (last : name ∉ names after) :
    get? (setAll entries (before ++ (name, value) :: after)) name = some value := by
  have split : setAll entries (before ++ (name, value) :: after) =
      setAll (set (setAll entries before) name value) after := by
    simp [setAll]
  rw [split, get?_setAll_of_notMem last, get?_set, if_pos rfl]

theorem names_set (entries : List (String × α)) (name : String) (value : α) :
    names (set entries name value) =
      if name ∈ names entries then names entries else names entries ++ [name] := by
  induction entries with
  | nil => simp [set, names]
  | cons entry rest ih =>
      by_cases same : entry.1 = name
      · simp [set, names, same]
      · have different : name ≠ entry.1 := fun equal => same equal.symm
        simp only [names] at ih
        by_cases later : name ∈ rest.map (·.1)
        · simp [set, names, same, ih, later]
        · simp [set, names, same, ih, later, different]

theorem names_ofPairs (pairs : List (String × α)) :
    names (ofPairs pairs) = (names pairs).eraseDups := by
  induction pairs using List.reverseRecOn with
  | nil => rfl
  | append_singleton pairs pair ih =>
      have split : names (pairs ++ [pair]) = names pairs ++ [pair.1] := by simp [names]
      have written : pair.1 ∈ names (setAll [] pairs) ↔ pair.1 ∈ names pairs := by
        rw [mem_names_setAll]
        simp [names]
      rw [ofPairs, setAll_concat, names_set, split, List.eraseDups_append, ← ih, ofPairs]
      by_cases earlier : pair.1 ∈ names pairs
      · simp [written, earlier, List.removeAll]
      · simp [written, earlier, List.removeAll, List.eraseDups_cons]

theorem set_setAll {entries updates : List (String × α)} {name : String}
    (present : name ∈ names entries) (untouched : name ∉ names updates) (value : α) :
    set (setAll entries updates) name value = setAll (set entries name value) updates := by
  induction updates generalizing entries with
  | nil => rfl
  | cons update rest ih =>
      have different : update.1 ≠ name := fun same => untouched (by simp [names, same])
      have untouchedLater : name ∉ names rest := fun later => untouched (List.mem_cons_of_mem _ later)
      rw [setAll_cons, setAll_cons, ih (mem_names_set.mpr (Or.inl present)) untouchedLater,
        set_comm different present]

theorem nodup_names_set {entries : List (String × α)} (unique : (names entries).Nodup)
    (name : String) (value : α) : (names (set entries name value)).Nodup := by
  rw [names_set]
  split
  · exact unique
  · rename_i absent
    exact List.nodup_append.mpr ⟨unique, List.pairwise_singleton _ name, by grind⟩

theorem nodup_names_setAll {entries : List (String × α)} (unique : (names entries).Nodup)
    (updates : List (String × α)) : (names (setAll entries updates)).Nodup := by
  induction updates generalizing entries with
  | nil => exact unique
  | cons update rest ih =>
      rw [setAll_cons]
      exact ih (nodup_names_set unique _ _)

theorem get?_setAll {updates : List (String × α)} (unique : (names updates).Nodup)
    (entries : List (String × α)) (name : String) :
    get? (setAll entries updates) name = (get? updates name).or (get? entries name) := by
  induction updates generalizing entries with
  | nil => rfl
  | cons update rest ih =>
      obtain ⟨absent, uniqueLater⟩ := List.nodup_cons.mp unique
      by_cases same : update.1 = name
      · subst same
        rw [setAll_cons, get?_setAll_of_notMem absent, get?_set, if_pos rfl]
        simp [get?]
      · rw [setAll_cons, ih uniqueLater, get?_set, if_neg same]
        simp [get?, same]

theorem setAll_set {updates : List (String × α)} (unique : (names updates).Nodup)
    (entries : List (String × α)) (name : String) (value : α) :
    setAll entries (set updates name value) = set (setAll entries updates) name value := by
  induction updates generalizing entries with
  | nil => rfl
  | cons update rest ih =>
      obtain ⟨absent, uniqueLater⟩ := List.nodup_cons.mp unique
      by_cases same : update.1 = name
      · subst same
        have written : update.1 ∈ names (set entries update.1 update.2) :=
          mem_names_set.mpr (Or.inr rfl)
        rw [setAll_cons, set_setAll written absent, set_set]
        simp [set, setAll_cons]
      · rw [setAll_cons, ← ih uniqueLater]
        simp [set, same, setAll_cons]

theorem setAll_assoc {second : List (String × α)} (unique : (names second).Nodup)
    (first third : List (String × α)) :
    setAll (setAll first second) third = setAll first (setAll second third) := by
  induction third generalizing second with
  | nil => rfl
  | cons update rest ih =>
      rw [setAll_cons, setAll_cons, ← setAll_set unique, ih (nodup_names_set unique _ _)]

end FormulaInspection.NameMap
