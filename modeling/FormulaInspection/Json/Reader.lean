import FormulaInspection.Json.Basic

/-!
Reading JSON text. The characters are first grouped into lexemes, one character at a time, and the
lexemes are then assembled on a stack of the arrays and objects that are still open.
-/

namespace FormulaInspection.Json

inductive Lexeme where
  | openObject
  | closeObject
  | openArray
  | closeArray
  | colon
  | comma
  | scalar (value : Json)

def wholePart? (digits : List Char) : Option Nat :=
  match digits with
  | [] => none
  | ['0'] => some 0
  | '0' :: _ => none
  | _ => some (Nat.ofDigitChars 10 digits 0)

def isExponent (chars : List Char) : Bool :=
  let digits := match chars with
    | '+' :: rest => rest
    | '-' :: rest => rest
    | rest => rest
  !digits.isEmpty && digits.all Char.isDigit

def isDecimalTail (chars : List Char) : Bool :=
  match chars with
  | '.' :: rest =>
    let fraction := rest.takeWhile Char.isDigit
    !fraction.isEmpty &&
      match rest.dropWhile Char.isDigit with
      | [] => true
      | mark :: exponent => (mark == 'e' || mark == 'E') && isExponent exponent
  | mark :: exponent => (mark == 'e' || mark == 'E') && isExponent exponent
  | [] => false

def numberOfWord? (word : List Char) : Option Json :=
  let (isNegative, body) := match word with
    | '-' :: rest => (true, rest)
    | chars => (false, chars)
  match wholePart? (body.takeWhile Char.isDigit), body.dropWhile Char.isDigit with
  | none, _ => none
  | some whole, [] =>
    if !isNegative then some (.int whole)
    else if whole = 0 then some (.decimal (String.ofList word))
    else some (.int (-whole))
  | some _, tail => if isDecimalTail tail then some (.decimal (String.ofList word)) else none

def valueOfWord? (word : List Char) : Option Json :=
  if word = ['n', 'u', 'l', 'l'] then some .null
  else if word = ['t', 'r', 'u', 'e'] then some (.bool true)
  else if word = ['f', 'a', 'l', 's', 'e'] then some (.bool false)
  else numberOfWord? word

inductive LexerMode where
  | between
  | word (spelling : List Char)
  | string (spelling : List Char)
  | escape (spelling : List Char)
  | hex (missing : Nat) (spelling : List Char)

/-- The state of the lexer, with the lexemes found so far in reverse. -/
structure Lexer where
  mode : LexerMode
  found : List Lexeme

namespace Lexer

def isBlank (c : Char) : Bool :=
  c == ' ' || c == '\n' || c == '\r' || c == '\t'

def between (found : List Lexeme) (c : Char) : Lexer :=
  if isBlank c then ⟨.between, found⟩
  else if c = '\x7b' then ⟨.between, .openObject :: found⟩
  else if c = '\x7d' then ⟨.between, .closeObject :: found⟩
  else if c = '[' then ⟨.between, .openArray :: found⟩
  else if c = ']' then ⟨.between, .closeArray :: found⟩
  else if c = ':' then ⟨.between, .colon :: found⟩
  else if c = ',' then ⟨.between, .comma :: found⟩
  else if c = '"' then ⟨.string [], found⟩
  else ⟨.word [c], found⟩

def endsWord (c : Char) : Bool :=
  isBlank c || ['\x7b', '\x7d', '[', ']', ':', ',', '"'].contains c

def step (lexer : Lexer) (c : Char) : Option Lexer :=
  match lexer.mode with
  | .between => some (between lexer.found c)
  | .word spelling =>
    if endsWord c then
      (valueOfWord? spelling.reverse).map fun value => between (.scalar value :: lexer.found) c
    else some ⟨.word (c :: spelling), lexer.found⟩
  | .string spelling =>
    if c = '"' then
      some ⟨.between, .scalar (.string (String.ofList spelling.reverse)) :: lexer.found⟩
    else if c = '\\' then some ⟨.escape (c :: spelling), lexer.found⟩
    else if c.toNat < 0x20 then none
    else some ⟨.string (c :: spelling), lexer.found⟩
  | .escape spelling =>
    if c = 'u' then some ⟨.hex 4 (c :: spelling), lexer.found⟩
    else if (escapedChar? c).isSome then some ⟨.string (c :: spelling), lexer.found⟩
    else none
  | .hex missing spelling =>
    if (hexValue? c).isNone then none
    else if missing ≤ 1 then some ⟨.string (c :: spelling), lexer.found⟩
    else some ⟨.hex (missing - 1) (c :: spelling), lexer.found⟩

def run? (text : String) : Option (List Lexeme) :=
  match text.toList.foldlM step ⟨.between, []⟩ with
  | some ⟨.between, found⟩ => some found.reverse
  | some ⟨.word spelling, found⟩ =>
    (valueOfWord? spelling.reverse).map fun value => (Lexeme.scalar value :: found).reverse
  | _ => none

end Lexer

inductive Frame where
  | items (done : List Json)
  | members (done : List (String × Json)) (key : String)

inductive Assembly where
  | expectValue (stack : List Frame)
  | expectItem (stack : List Frame)
  | expectFirstKey (stack : List Frame)
  | expectKey (done : List (String × Json)) (stack : List Frame)
  | expectColon (done : List (String × Json)) (key : String) (stack : List Frame)
  | ended (value : Json) (stack : List Frame)

namespace Assembly

def start (stack : List Frame) : Lexeme → Option Assembly
  | .scalar value => some (.ended value stack)
  | .openArray => some (.expectItem stack)
  | .openObject => some (.expectFirstKey stack)
  | _ => none

def step : Assembly → Lexeme → Option Assembly
  | .expectValue stack, lexeme => start stack lexeme
  | .expectItem stack, .closeArray => some (.ended (.array []) stack)
  | .expectItem stack, lexeme => start (.items [] :: stack) lexeme
  | .expectFirstKey stack, .closeObject => some (.ended (.object []) stack)
  | .expectFirstKey stack, .scalar (.string key) => some (.expectColon [] key stack)
  | .expectKey done stack, .scalar (.string key) => some (.expectColon done key stack)
  | .expectColon done key stack, .colon => some (.expectValue (.members done key :: stack))
  | .ended value (.items done :: stack), .comma =>
    some (.expectValue (.items (value :: done) :: stack))
  | .ended value (.items done :: stack), .closeArray =>
    some (.ended (.array (value :: done).reverse) stack)
  | .ended value (.members done key :: stack), .comma =>
    some (.expectKey ((key, value) :: done) stack)
  | .ended value (.members done key :: stack), .closeObject =>
    some (.ended (.object ((key, value) :: done).reverse) stack)
  | _, _ => none

end Assembly

def parse? (text : String) : Option Json := do
  match (← Lexer.run? text).foldlM Assembly.step (.expectValue []) with
  | some (.ended value []) => some value
  | _ => none

end FormulaInspection.Json
