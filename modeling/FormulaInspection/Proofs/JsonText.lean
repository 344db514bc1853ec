import FormulaInspection.Json.Decode
import FormulaInspection.Json.Printer
import FormulaInspection.Json.Reader
import FormulaInspection.Proofs.Decimal
import Mathlib.Data.List.TakeWhile
import Mathlib.Tactic.SplitIfs

/-!
Reading JSON text undoes writing it. A character is spelled in one of three ways, and the lexer
takes each of them whole; the lexemes of a value are then assembled to that value, whatever is open
around it.
-/

namespace FormulaInspection

namespace Json

inductive Spells (c : Char) : List Char → Prop
  | mark {mark} : mark ≠ 'u' → escapedChar? mark = some c → Spells c ['\\', mark]
  | code : c.toNat < 0x20 →
      Spells c ['\\', 'u', '0', '0', hexDigit (c.toNat / 16), hexDigit (c.toNat % 16)]
  | plain : c ≠ '"' → c ≠ '\\' → ¬c.toNat < 0x20 → Spells c [c]

theorem spells_escapeChar (c : Char) : Spells c (escapeChar c) := by
  unfold escapeChar
  split_ifs with quote backslash lineFeed carriage tab backspace formFeed control
  · exact .mark (by decide) (by rw [quote]; rfl)
  · exact .mark (by decide) (by rw [backslash]; rfl)
  · exact .mark (by decide) (by rw [lineFeed]; rfl)
  · exact .mark (by decide) (by rw [carriage]; rfl)
  · exact .mark (by decide) (by rw [tab]; rfl)
  · exact .mark (by decide) (by rw [backspace]; rfl)
  · exact .mark (by decide) (by rw [formFeed]; rfl)
  · exact .code control
  · exact .plain quote backslash control

theorem escapeChar_digit {c : Char} (digit : c.isDigit) : escapeChar c = [c] := by
  have notControl : ¬c.toNat < 0x20 := by
    have inRange : 48 ≤ c.toNat ∧ c.toNat ≤ 57 := by
      simpa [Char.isDigit, UInt32.le_iff_toNat_le] using digit
    omega
  simp (disch := decide) [escapeChar, Decimal.digit_ne digit, notControl]

theorem flatMap_escapeChar_digits {digits : List Char} (all : digits.all Char.isDigit) :
    digits.flatMap escapeChar = digits := by
  induction digits with
  | nil => rfl
  | cons digit digits ih =>
      rw [List.all_cons, Bool.and_eq_true] at all
      rw [List.flatMap_cons, escapeChar_digit all.1, ih all.2, List.singleton_append]

theorem escape_repr (value : Nat) : escape (Nat.repr value) = Nat.repr value := by
  rw [escape, Nat.toList_repr, flatMap_escapeChar_digits (Decimal.all_isDigit_toDigits value),
    ← Nat.toList_repr, String.ofList_toList]

theorem hexUnit?_control : ∀ value < 0x20,
    hexUnit? '0' '0' (hexDigit (value / 16)) (hexDigit (value % 16)) = some value := by
  decide

theorem Spells.resolveEscapes {c : Char} {spelling : List Char} (spells : Spells c spelling)
    (done rest : List Char) :
    resolveEscapes none done (spelling ++ rest) = resolveEscapes none (c :: done) rest := by
  cases spells with
  | @mark mark notCode named =>
      rw [List.cons_append, List.cons_append, List.nil_append, Json.resolveEscapes]
      · simp [named]
      · simp [notCode]
  | code control =>
      have notHigh : ¬(0xd800 ≤ c.toNat ∧ c.toNat < 0xdc00) := by omega
      have notLow : ¬(0xdc00 ≤ c.toNat ∧ c.toNat < 0xe000) := by omega
      simp only [List.cons_append, List.nil_append]
      conv => lhs; unfold Json.resolveEscapes
      simp only [hexUnit?_control c.toNat control, notHigh, notLow, if_false, Char.ofNat_toNat]
  | plain _ notBackslash _ =>
      rw [List.singleton_append, Json.resolveEscapes]
      · simp [notBackslash]
      · simp [notBackslash]
      · simp [notBackslash]

theorem resolveEscapes_escape (chars done : List Char) :
    resolveEscapes none done (chars.flatMap escapeChar) = some (done.reverse ++ chars) := by
  induction chars generalizing done with
  | nil => simp [resolveEscapes]
  | cons c rest ih =>
      rw [List.flatMap_cons, (spells_escapeChar c).resolveEscapes, ih]
      simp

theorem unescape?_escape (text : String) : unescape? (escape text) = some text := by
  simp [unescape?, escape, resolveEscapes_escape]

namespace Lexer

/-- The characters are read as these lexemes wherever they stand before a character that ends a
word. -/
def Reads (chars : List Char) (lexemes : List Lexeme) : Prop :=
  ∀ found next rest, endsWord next →
    (chars ++ next :: rest).foldlM step ⟨.between, found⟩ =
      (next :: rest).foldlM step ⟨.between, lexemes.reverse ++ found⟩

theorem reads_nil : Reads [] [] :=
  fun _ _ _ _ => rfl

structure Marks (c : Char) (lexeme : Lexeme) : Prop where
  ends : endsWord c
  found : ∀ found, between found c = ⟨.between, lexeme :: found⟩

theorem marks_openArray : Marks '[' .openArray := ⟨by decide, fun _ => rfl⟩

theorem marks_closeArray : Marks ']' .closeArray := ⟨by decide, fun _ => rfl⟩

theorem marks_openObject : Marks '\x7b' .openObject := ⟨by decide, fun _ => rfl⟩

theorem marks_closeObject : Marks '\x7d' .closeObject := ⟨by decide, fun _ => rfl⟩

theorem marks_colon : Marks ':' .colon := ⟨by decide, fun _ => rfl⟩

theorem marks_comma : Marks ',' .comma := ⟨by decide, fun _ => rfl⟩

theorem Reads.append {before after : List Char} {c : Char} {first second : List Lexeme}
    {lexeme : Lexeme} (reads : Reads before first) (marks : Marks c lexeme)
    (reads' : Reads after second) :
    Reads (before ++ c :: after) (first ++ lexeme :: second) := by
  intro found next rest ends
  have middle : step ⟨.between, first.reverse ++ found⟩ c =
      some ⟨.between, lexeme :: (first.reverse ++ found)⟩ := by
    simp [step, marks.found]
  rw [List.append_assoc, List.cons_append, reads _ _ _ marks.ends, List.foldlM_cons, middle]
  simp only [Option.bind_eq_bind, Option.bind_some]
  rw [reads' _ _ _ ends]
  simp

theorem Reads.brackets {c d : Char} {opening closing : Lexeme} {chars : List Char}
    {lexemes : List Lexeme} (opens : Marks c opening) (reads : Reads chars lexemes)
    (closes : Marks d closing) :
    Reads (c :: (chars ++ [d])) (opening :: (lexemes ++ [closing])) :=
  reads_nil.append opens (reads.append closes reads_nil)

theorem between_letter {c : Char} (letter : endsWord c = false) (found : List Lexeme) :
    between found c = ⟨.word [c], found⟩ := by
  simp only [endsWord, Bool.or_eq_false_iff, List.contains_cons, List.contains_nil,
    beq_eq_false_iff_ne] at letter
  simp [between, letter]

theorem foldlM_letters {letters : List Char} (inside : ∀ c ∈ letters, endsWord c = false)
    (spelling : List Char) (found : List Lexeme) (rest : List Char) :
    (letters ++ rest).foldlM step ⟨.word spelling, found⟩ =
      rest.foldlM step ⟨.word (letters.reverse ++ spelling), found⟩ := by
  induction letters generalizing spelling with
  | nil => rfl
  | cons c letters ih =>
      have letter := inside c List.mem_cons_self
      have later := ih (fun c member => inside c (List.mem_cons_of_mem _ member)) (c :: spelling)
      simpa [step, letter] using later

theorem reads_word {word : List Char} {value : Json} (means : valueOfWord? word = some value)
    (nonempty : word ≠ []) (inside : ∀ c ∈ word, endsWord c = false) :
    Reads word [.scalar value] := by
  obtain ⟨first, letters, rfl⟩ := List.exists_cons_of_ne_nil nonempty
  intro found next rest ends
  have begun : step ⟨.between, found⟩ first = some ⟨.word [first], found⟩ := by
    simp [step, between_letter (inside first List.mem_cons_self)]
  have ended : step ⟨.word (letters.reverse ++ [first]), found⟩ next =
      step ⟨.between, .scalar value :: found⟩ next := by
    simp [step, ends, means]
  rw [List.cons_append, List.foldlM_cons, begun]
  simp only [Option.bind_eq_bind, Option.bind_some]
  rw [foldlM_letters fun c member => inside c (List.mem_cons_of_mem _ member)]
  rw [List.foldlM_cons, ended, List.foldlM_cons]
  rfl

theorem endsWord_digit {c : Char} (digit : c.isDigit) : endsWord c = false := by
  simp (disch := decide) [endsWord, isBlank, Decimal.digit_ne digit]

end Lexer

theorem wholePart?_toDigits (value : Nat) : wholePart? (Nat.toDigits 10 value) = some value := by
  by_cases zero : value = 0
  · subst zero
    rfl
  · have head := Decimal.head_toDigits (Nat.pos_of_ne_zero zero)
    unfold wholePart?
    split
    · rename_i empty
      exact absurd empty Nat.toDigits_ne_nil
    · rename_i isZero
      simp [isZero] at head
    · rename_i leading
      simp [leading] at head
    · rw [Nat.ofDigitChars_ten_toDigits]

theorem takeWhile_toDigits (value : Nat) :
    (Nat.toDigits 10 value).takeWhile Char.isDigit = Nat.toDigits 10 value :=
  List.takeWhile_eq_self_iff.mpr (List.all_eq_true.mp (Decimal.all_isDigit_toDigits value))

theorem dropWhile_toDigits (value : Nat) :
    (Nat.toDigits 10 value).dropWhile Char.isDigit = [] :=
  List.dropWhile_eq_nil_iff.mpr (List.all_eq_true.mp (Decimal.all_isDigit_toDigits value))

theorem valueOfWord?_toDigits (value : Nat) :
    valueOfWord? (Nat.toDigits 10 value) = some (.int value) := by
  have notLetter : ∀ c rest, Nat.toDigits 10 value = c :: rest → c.isDigit := by
    intro c rest shape
    exact Nat.isDigit_of_mem_toDigits (by decide) (by decide) (shape ▸ List.mem_cons_self)
  unfold valueOfWord?
  rw [if_neg, if_neg, if_neg]
  · unfold numberOfWord?
    split
    · rename_i minus
      split at minus
      · rename_i shape
        simpa using notLetter _ _ shape
      · simp only [Prod.mk.injEq] at minus
        obtain ⟨rfl, rfl⟩ := minus
        simp [takeWhile_toDigits, dropWhile_toDigits, wholePart?_toDigits]
  all_goals
    intro shape
    simpa using notLetter _ _ shape

theorem valueOfWord?_negative {value : Nat} (positive : 0 < value) :
    valueOfWord? ('-' :: Nat.toDigits 10 value) = some (.int (-value)) := by
  simp [valueOfWord?, numberOfWord?, takeWhile_toDigits, dropWhile_toDigits, wholePart?_toDigits,
    Nat.ne_of_gt positive]

namespace Lexer

theorem hexValue?_hexDigit : ∀ value < 16, hexValue? (hexDigit value) = some value := by
  decide

theorem foldlM_spelling {c : Char} {letters : List Char} (spells : Spells c letters)
    (spelling : List Char) (found : List Lexeme) (rest : List Char) :
    (letters ++ rest).foldlM step ⟨.string spelling, found⟩ =
      rest.foldlM step ⟨.string (letters.reverse ++ spelling), found⟩ := by
  cases spells with
  | mark notCode named => simp [step, notCode, named]
  | code control =>
      have zero : hexValue? '0' = some 0 := by decide
      have high := hexValue?_hexDigit (c.toNat / 16) (by omega)
      have low := hexValue?_hexDigit (c.toNat % 16) (by omega)
      simp [step, zero, high, low]
  | plain notQuote notBackslash notControl => simp [step, notQuote, notBackslash, notControl]

theorem foldlM_escape (chars spelling : List Char) (found : List Lexeme) (rest : List Char) :
    (chars.flatMap escapeChar ++ rest).foldlM step ⟨.string spelling, found⟩ =
      rest.foldlM step ⟨.string ((chars.flatMap escapeChar).reverse ++ spelling), found⟩ := by
  induction chars generalizing spelling with
  | nil => rfl
  | cons c chars ih =>
      rw [List.flatMap_cons, List.append_assoc, foldlM_spelling (spells_escapeChar c), ih]
      simp

theorem reads_quoted (text : String) :
    Reads (quoted (escape text)).toList [.scalar (ofText text)] := by
  intro found next rest _
  have opened : step ⟨.between, found⟩ '"' = some ⟨.string [], found⟩ := rfl
  have closed : ∀ spelling, step ⟨.string spelling, found⟩ '"' =
      some ⟨.between, .scalar (.string (String.ofList spelling.reverse)) :: found⟩ :=
    fun _ => rfl
  have spelled : (quoted (escape text)).toList ++ next :: rest =
      '"' :: (text.toList.flatMap escapeChar ++ '"' :: next :: rest) := by
    simp [quoted, escape]
  rw [spelled, List.foldlM_cons, opened]
  simp only [Option.bind_eq_bind, Option.bind_some]
  rw [foldlM_escape, List.foldlM_cons, closed]
  simp [ofText, escape]

end Lexer

def Assembles (lexemes : List Lexeme) (value : Json) : Prop :=
  ∀ stack, lexemes.foldlM Assembly.step (.expectValue stack) = some (.ended value stack)

theorem assembles_scalar (value : Json) : Assembles [.scalar value] value :=
  fun _ => rfl

/-- The first item of an array is assembled as every other item is: no value begins with the
bracket that would close the array. -/
theorem foldlM_expectItem {lexemes : List Lexeme} {value : Json} {stack outer : List Frame}
    (ends : lexemes.foldlM Assembly.step (.expectValue (.items [] :: stack)) =
      some (.ended value outer)) :
    lexemes.foldlM Assembly.step (.expectItem stack) = some (.ended value outer) := by
  cases lexemes with
  | nil => simp at ends
  | cons lexeme lexemes =>
      cases lexeme with
      | closeArray => simp [Assembly.step, Assembly.start] at ends
      | _ => exact ends

theorem foldlM_expectFirstKey {lexemes : List Lexeme} {value : Json} {stack outer : List Frame}
    (ends : lexemes.foldlM Assembly.step (.expectKey [] stack) = some (.ended value outer)) :
    lexemes.foldlM Assembly.step (.expectFirstKey stack) = some (.ended value outer) := by
  cases lexemes with
  | nil => simp at ends
  | cons lexeme lexemes =>
      cases lexeme with
      | scalar key =>
          cases key with
          | string spelling => exact ends
          | _ => simp [Assembly.step] at ends
      | _ => simp [Assembly.step] at ends

def Writes (chars : List Char) (value : Json) : Prop :=
  ∃ lexemes, Lexer.Reads chars lexemes ∧ Assembles lexemes value

theorem toList_intercalate_comma (first second : String) (rest : List String) :
    (",".intercalate (first :: second :: rest)).toList =
      first.toList ++ ',' :: (",".intercalate (second :: rest)).toList := by
  simp [String.toList_intercalate]

theorem writes_items {item : Json} {items : List Json}
    (written : ∀ each ∈ item :: items, Writes each.compact.toList each) :
    ∃ lexemes,
      Lexer.Reads (",".intercalate (compactItems (item :: items))).toList lexemes ∧
      ∀ done stack,
        (lexemes ++ [Lexeme.closeArray]).foldlM Assembly.step
            (.expectValue (.items done :: stack)) =
          some (.ended (.array (done.reverse ++ item :: items)) stack) := by
  induction items generalizing item with
  | nil =>
      obtain ⟨first, reads, assembles⟩ := written item List.mem_cons_self
      refine ⟨first, ?_, ?_⟩
      · simpa only [compactItems, String.intercalate_singleton] using reads
      · intro done stack
        rw [List.foldlM_append, assembles]
        simp [Assembly.step]
  | cons next items ih =>
      obtain ⟨first, reads, assembles⟩ := written item List.mem_cons_self
      obtain ⟨more, readsMore, assemblesMore⟩ :=
        ih fun each later => written each (List.mem_cons_of_mem _ later)
      refine ⟨first ++ .comma :: more, ?_, ?_⟩
      · simp only [compactItems, toList_intercalate_comma] at readsMore ⊢
        exact reads.append Lexer.marks_comma readsMore
      · intro done stack
        have rest := assemblesMore (item :: done) stack
        rw [List.append_assoc, List.foldlM_append, assembles]
        simpa [Assembly.step] using rest

theorem writes_array {items : List Json}
    (written : ∀ item ∈ items, Writes item.compact.toList item) :
    Writes (compact (.array items)).toList (.array items) := by
  cases items with
  | nil => exact ⟨_, Lexer.reads_nil.brackets Lexer.marks_openArray Lexer.marks_closeArray,
      fun _ => rfl⟩
  | cons item items =>
      obtain ⟨lexemes, reads, assembles⟩ := writes_items written
      refine ⟨.openArray :: (lexemes ++ [.closeArray]), ?_, ?_⟩
      · simpa [compact] using reads.brackets Lexer.marks_openArray Lexer.marks_closeArray
      · exact fun stack => foldlM_expectItem (assembles [] stack)

theorem writes_member {key : String} {value : Json} (named : ∃ name, key = escape name)
    (written : Writes value.compact.toList value) :
    ∃ lexemes,
      Lexer.Reads (quoted key ++ ":" ++ value.compact).toList lexemes ∧
      ∀ done stack, lexemes.foldlM Assembly.step (.expectKey done stack) =
        some (.ended value (.members done key :: stack)) := by
  obtain ⟨name, rfl⟩ := named
  obtain ⟨lexemes, reads, assembles⟩ := written
  refine ⟨.scalar (ofText name) :: .colon :: lexemes, ?_, fun done stack => assembles _⟩
  simpa using (Lexer.reads_quoted name).append Lexer.marks_colon reads

theorem writes_members {member : String × Json} {members : List (String × Json)}
    (named : ∀ each ∈ member :: members, ∃ name, each.1 = escape name)
    (written : ∀ each ∈ member :: members, Writes each.2.compact.toList each.2) :
    ∃ lexemes,
      Lexer.Reads (",".intercalate (compactMembers (member :: members))).toList lexemes ∧
      ∀ done stack,
        (lexemes ++ [Lexeme.closeObject]).foldlM Assembly.step (.expectKey done stack) =
          some (.ended (.object (done.reverse ++ member :: members)) stack) := by
  induction members generalizing member with
  | nil =>
      obtain ⟨first, reads, assembles⟩ :=
        writes_member (named member List.mem_cons_self) (written member List.mem_cons_self)
      refine ⟨first, ?_, ?_⟩
      · simpa only [compactMembers, String.intercalate_singleton] using reads
      · intro done stack
        rw [List.foldlM_append, assembles]
        simp [Assembly.step]
  | cons next members ih =>
      obtain ⟨first, reads, assembles⟩ :=
        writes_member (named member List.mem_cons_self) (written member List.mem_cons_self)
      obtain ⟨more, readsMore, assemblesMore⟩ :=
        ih (fun each later => named each (List.mem_cons_of_mem _ later))
          (fun each later => written each (List.mem_cons_of_mem _ later))
      refine ⟨first ++ .comma :: more, ?_, ?_⟩
      · simp only [compactMembers, toList_intercalate_comma] at readsMore ⊢
        exact reads.append Lexer.marks_comma readsMore
      · intro done stack
        have rest := assemblesMore (member :: done) stack
        rw [List.append_assoc, List.foldlM_append, assembles]
        simpa [Assembly.step] using rest

theorem writes_object {members : List (String × Json)}
    (named : ∀ member ∈ members, ∃ name, member.1 = escape name)
    (written : ∀ member ∈ members, Writes member.2.compact.toList member.2) :
    Writes (compact (.object members)).toList (.object members) := by
  cases members with
  | nil => exact ⟨_, Lexer.reads_nil.brackets Lexer.marks_openObject Lexer.marks_closeObject,
      fun _ => rfl⟩
  | cons member members =>
      obtain ⟨lexemes, reads, assembles⟩ := writes_members named written
      refine ⟨.openObject :: (lexemes ++ [.closeObject]), ?_, ?_⟩
      · simpa [compact] using reads.brackets Lexer.marks_openObject Lexer.marks_closeObject
      · exact fun stack => foldlM_expectFirstKey (assembles [] stack)

theorem writes_word {word : List Char} {value : Json} (means : valueOfWord? word = some value)
    (nonempty : word ≠ []) (inside : ∀ c ∈ word, Lexer.endsWord c = false) : Writes word value :=
  ⟨_, Lexer.reads_word means nonempty inside, assembles_scalar value⟩

theorem writes_int (value : Int) : Writes (compact (.int value)).toList (.int value) := by
  have digits : ∀ number, ∀ c ∈ Nat.toDigits 10 number, Lexer.endsWord c = false :=
    fun _ _ member =>
      Lexer.endsWord_digit (Nat.isDigit_of_mem_toDigits (by decide) (by decide) member)
  cases value with
  | ofNat number =>
      have spelled : (compact (.int (.ofNat number))).toList = Nat.toDigits 10 number :=
        Nat.toList_repr
      rw [spelled]
      exact writes_word (valueOfWord?_toDigits number) Nat.toDigits_ne_nil (digits number)
  | negSucc number =>
      have spelled : (compact (.int (.negSucc number))).toList =
          '-' :: Nat.toDigits 10 (number + 1) := by
        simp [compact, Int.toString_eq_repr, Int.repr]
      rw [spelled]
      refine writes_word (valueOfWord?_negative (Nat.succ_pos number)) (by simp) ?_
      intro c member
      obtain rfl | digit := List.mem_cons.mp member
      · decide
      · exact digits _ c digit

/-- A value whose numbers are whole and whose strings and keys are spelled as a writer spells
them. -/
inductive Plain : Json → Prop
  | null : Plain .null
  | bool (value : Bool) : Plain (.bool value)
  | int (value : Int) : Plain (.int value)
  | text (text : String) : Plain (ofText text)
  | array {items : List Json} : (∀ item ∈ items, Plain item) → Plain (.array items)
  | object {members : List (String × Json)} :
      (∀ member ∈ members, ∃ name, member.1 = escape name) →
      (∀ member ∈ members, Plain member.2) → Plain (.object members)

theorem Plain.writes {value : Json} (plain : Plain value) : Writes value.compact.toList value := by
  have letters : ∀ word : List Char, word.all (fun c => !Lexer.endsWord c) →
      ∀ c ∈ word, Lexer.endsWord c = false := by
    simp
  induction plain with
  | null => exact writes_word rfl (by decide) (letters _ rfl)
  | bool value => cases value <;> exact writes_word rfl (by decide) (letters _ rfl)
  | int value => exact writes_int value
  | text text => exact ⟨_, Lexer.reads_quoted text, assembles_scalar _⟩
  | array _ written => exact writes_array written
  | object named _ written => exact writes_object named written

theorem Lexer.run?_of_blank {text : String} {found : List Lexeme}
    (ends : (text.toList ++ [' ']).foldlM step ⟨.between, []⟩ = some ⟨.between, found⟩) :
    run? text = some found.reverse := by
  obtain ⟨⟨mode, before⟩, run, last⟩ :
      ∃ lexer, text.toList.foldlM step ⟨.between, []⟩ = some lexer ∧
        step lexer ' ' = some ⟨.between, found⟩ := by
    simpa [List.foldlM_append, Option.bind_eq_some_iff] using ends
  cases mode with
  | between =>
      have same : before = found := by simpa [step, Lexer.between, isBlank] using last
      simp [run?, run, same]
  | word spelling =>
      have isEnd : endsWord ' ' := by decide
      obtain ⟨value, means, same⟩ : ∃ value, valueOfWord? spelling.reverse = some value ∧
          .scalar value :: before = found := by
        simpa [step, Lexer.between, isBlank, isEnd] using last
      simp [run?, run, means, ← same]
  | string spelling => simp [step] at last
  | escape spelling => simp [step, escapedChar?] at last
  | hex missing spelling =>
      have notHex : hexValue? ' ' = none := by decide
      simp [step, notHex] at last

theorem parse?_compact {value : Json} (plain : Plain value) :
    parse? value.compact = some value := by
  obtain ⟨lexemes, reads, assembles⟩ := plain.writes
  have run := Lexer.run?_of_blank (reads [] ' ' [] (by decide))
  simp only [List.append_nil, List.reverse_reverse] at run
  simp [parse?, run, assembles []]

end Json

end FormulaInspection
