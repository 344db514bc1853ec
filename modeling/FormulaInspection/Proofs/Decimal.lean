import FormulaInspection.Decimal

/-!
Numbers in decimal digits. What a number is spelled as reads as that number, with zeros in front of
it if the reader allows them.
-/

namespace FormulaInspection

namespace Decimal

theorem head_toDigits {value : Nat} (positive : 0 < value) :
    (Nat.toDigits 10 value).head? ≠ some '0' := by
  induction value using Nat.strongRecOn with
  | ind value ih =>
      by_cases small : value < 10
      · have oneDigit : ∀ digit < 10, 0 < digit → [digit.digitChar].head? ≠ some '0' := by decide
        rw [Nat.toDigits_of_lt_base small]
        exact oneDigit value small positive
      · have shorter := ih (value / 10) (by omega) (by omega)
        rw [Nat.toDigits_of_base_le (by decide) (Nat.le_of_not_lt small), List.head?_append]
        cases first : (Nat.toDigits 10 (value / 10)).head? with
        | none => exact absurd (List.head?_eq_none_iff.mp first) Nat.toDigits_ne_nil
        | some digit =>
            rw [first] at shorter
            exact shorter

theorem digit_ne {c d : Char} (digit : c.isDigit) (other : ¬d.isDigit) : c ≠ d :=
  fun same => other (same ▸ digit)

theorem all_isDigit_toDigits (value : Nat) : (Nat.toDigits 10 value).all Char.isDigit := by
  rw [List.all_eq_true]
  exact fun digit member => Nat.isDigit_of_mem_toDigits (by decide) (by decide) member

theorem value?_toDigits (value : Nat) : value? (Nat.toDigits 10 value) = some value := by
  simp [value?, Nat.toDigits_ne_nil, all_isDigit_toDigits, Nat.ofDigitChars_ten_toDigits]

theorem ofPlain?_repr {bound value : Nat} (below : value < bound) :
    ofPlain? bound (Nat.repr value) = some value := by
  unfold ofPlain?
  rw [Nat.toList_repr]
  by_cases zero : value = 0
  · subst zero
    rfl
  · have head := head_toDigits (Nat.pos_of_ne_zero zero)
    split
    · rename_i isZero
      simp [isZero] at head
    · rename_i leading
      simp [leading] at head
    · simp [value?_toDigits, below]

theorem ofDigitChars_padded (zeros : Nat) (digits : List Char) :
    Nat.ofDigitChars 10 (List.replicate zeros '0' ++ digits) 0 = Nat.ofDigitChars 10 digits 0 := by
  simp [Nat.ofDigitChars_append, Nat.ofDigitChars_replicate_zero]

theorem digitChar_toNat {digit : Char} (isDigit : digit.isDigit) :
    digit.toNat - 48 < 10 ∧ Nat.digitChar (digit.toNat - 48) = digit := by
  obtain ⟨atLeast, atMost⟩ := Char.isDigit_iff_toNat.mp isDigit
  change 48 ≤ digit.toNat at atLeast
  change digit.toNat ≤ 57 at atMost
  refine ⟨by omega, Char.toNat_inj.mp ?_⟩
  rw [Nat.toNat_digitChar_of_lt_ten (by omega)]
  omega

theorem toDigits_ofDigitChars {start : Nat} (positive : 0 < start) {digits : List Char}
    (allDigits : digits.all Char.isDigit) :
    Nat.toDigits 10 (Nat.ofDigitChars 10 digits start) = Nat.toDigits 10 start ++ digits := by
  induction digits generalizing start with
  | nil => simp
  | cons digit rest ih =>
      obtain ⟨isDigit, restDigits⟩ := Bool.and_eq_true_iff.mp allDigits
      obtain ⟨small, same⟩ := digitChar_toNat isDigit
      have step : Nat.toDigits 10 start ++ [digit] =
          Nat.toDigits 10 (10 * start + (digit.toNat - 48)) := by
        rw [← Nat.toDigits_append_toDigits (by decide) positive small,
          Nat.toDigits_of_lt_base small, same]
      rw [Nat.ofDigitChars_cons]
      change Nat.toDigits 10 (Nat.ofDigitChars 10 rest (10 * start + (digit.toNat - 48))) = _
      rw [ih (by omega) restDigits, ← step, List.append_assoc]
      rfl

theorem exists_padded {digits : List Char} (written : digits ≠ [])
    (allDigits : digits.all Char.isDigit) :
    ∃ zeros, digits =
      List.replicate zeros '0' ++ Nat.toDigits 10 (Nat.ofDigitChars 10 digits 0) := by
  induction digits with
  | nil => contradiction
  | cons digit rest ih =>
      obtain ⟨isDigit, restDigits⟩ := Bool.and_eq_true_iff.mp allDigits
      rw [Nat.ofDigitChars_cons]
      by_cases isZero : digit = '0'
      · subst isZero
        by_cases last : rest = []
        · subst last
          exact ⟨0, rfl⟩
        · obtain ⟨zeros, same⟩ := ih last restDigits
          refine ⟨zeros + 1, ?_⟩
          rw [List.replicate_succ, List.cons_append]
          exact congrArg _ same
      · obtain ⟨small, same⟩ := digitChar_toNat isDigit
        have positive : 0 < digit.toNat - 48 := by
          refine Nat.pos_of_ne_zero fun zero => isZero ?_
          rw [← same, zero]
          rfl
        refine ⟨0, ?_⟩
        change digit :: rest = Nat.toDigits 10 (Nat.ofDigitChars 10 rest (0 + (digit.toNat - 48)))
        rw [Nat.zero_add, toDigits_ofDigitChars positive restDigits,
          Nat.toDigits_of_lt_base small, same]
        rfl

theorem value?_eq_some {digits : List Char} {value : Nat} :
    value? digits = some value ↔
      ∃ zeros, digits = List.replicate zeros '0' ++ Nat.toDigits 10 value := by
  constructor
  · intro read
    unfold value? at read
    split at read
    · cases read
    · rename_i legible
      simp only [Bool.or_eq_true, List.isEmpty_iff, Bool.not_eq_true', not_or,
        Bool.not_eq_false] at legible
      obtain rfl := Option.some.inj read
      exact exists_padded legible.1 legible.2
  · rintro ⟨zeros, rfl⟩
    have digits : (List.replicate zeros '0' ++ Nat.toDigits 10 value).all Char.isDigit := by
      rw [List.all_append, all_isDigit_toDigits, List.all_replicate]
      simp
    simp [value?, digits, Nat.toDigits_ne_nil, ofDigitChars_padded, Nat.ofDigitChars_ten_toDigits]

/-- The text is the number in decimal digits, with zeros or a plus sign and zeros in front or
without. -/
def Spells (text : String) (value : Nat) : Prop :=
  ∃ zeros, text.toList = List.replicate zeros '0' ++ Nat.toDigits 10 value ∨
    text.toList = '+' :: (List.replicate zeros '0' ++ Nat.toDigits 10 value)

theorem ofText?_eq_some {bound value : Nat} {text : String} :
    ofText? bound text = some value ↔ value < bound ∧ Spells text value := by
  have unsigned : ∀ {rest : List Char} {zeros : Nat},
      '+' :: rest ≠ List.replicate zeros '0' ++ Nat.toDigits 10 value := by
    intro rest zeros same
    have digits := value?_eq_some.mpr ⟨zeros, same⟩
    simp [value?] at digits
  unfold ofText? Spells
  simp only [Option.filter_eq_some_iff, decide_eq_true_eq, value?_eq_some]
  rw [and_comm]
  refine and_congr_right fun _ => exists_congr fun zeros => ?_
  split
  · rename_i rest signed
    simp [signed, unsigned]
  · rename_i noSign
    exact (or_iff_left (noSign _)).symm

theorem ofText?_padded {bound value zeros : Nat} {text : String}
    (spelled : text.toList = List.replicate zeros '0' ++ Nat.toDigits 10 value) :
    ofText? bound text = if value < bound then some value else none := by
  have read : value? text.toList = some value := value?_eq_some.mpr ⟨zeros, spelled⟩
  unfold ofText?
  split
  · rename_i rest signed
    rw [signed] at read
    simp [value?] at read
  · simp only [read, Option.filter_some, decide_eq_true_eq]

end Decimal

end FormulaInspection
