/-!
JSON values and the spelling of their strings.
-/

namespace FormulaInspection

/-- A JSON value. A string and a key are kept as they are spelled between their quotes, since a
value may be passed over without being read. Members keep their order and their repetitions. -/
inductive Json where
  | null
  | bool (value : Bool)
  | int (value : Int)
  | decimal (spelling : String)
  | string (spelling : String)
  | array (items : List Json)
  | object (members : List (String × Json))

namespace Json

instance : Inhabited Json := ⟨.null⟩

def hexDigit (value : Nat) : Char :=
  if value < 10 then Char.ofNat ('0'.toNat + value) else Char.ofNat ('a'.toNat + (value - 10))

def escapeChar (c : Char) : List Char :=
  if c = '"' then ['\\', '"']
  else if c = '\\' then ['\\', '\\']
  else if c = '\n' then ['\\', 'n']
  else if c = '\r' then ['\\', 'r']
  else if c = '\t' then ['\\', 't']
  else if c = '\x08' then ['\\', 'b']
  else if c = '\x0c' then ['\\', 'f']
  else if c.toNat < 0x20 then
    ['\\', 'u', '0', '0', hexDigit (c.toNat / 16), hexDigit (c.toNat % 16)]
  else [c]

def escape (text : String) : String :=
  String.ofList (text.toList.flatMap escapeChar)

def ofText (text : String) : Json :=
  .string (escape text)

def hexValue? (c : Char) : Option Nat :=
  if c.isDigit then some (c.toNat - '0'.toNat)
  else if 'a'.toNat ≤ c.toNat ∧ c.toNat ≤ 'f'.toNat then some (c.toNat - 'a'.toNat + 10)
  else if 'A'.toNat ≤ c.toNat ∧ c.toNat ≤ 'F'.toNat then some (c.toNat - 'A'.toNat + 10)
  else none

def hexUnit? (a b c d : Char) : Option Nat := do
  let a ← hexValue? a
  let b ← hexValue? b
  let c ← hexValue? c
  let d ← hexValue? d
  return ((a * 16 + b) * 16 + c) * 16 + d

def escapedChar? (mark : Char) : Option Char :=
  match mark with
  | '"' => some '"'
  | '\\' => some '\\'
  | '/' => some '/'
  | 'b' => some '\x08'
  | 'f' => some '\x0c'
  | 'n' => some '\n'
  | 'r' => some '\r'
  | 't' => some '\t'
  | _ => none

/-- Resolves the escapes of a spelling. `high?` is the first half of a surrogate pair whose second
half must follow; a half that stands alone names no character. -/
def resolveEscapes (high? : Option Nat) (done : List Char) : List Char → Option (List Char)
  | [] => if high?.isSome then none else some done.reverse
  | '\\' :: 'u' :: a :: b :: c :: d :: rest =>
    match hexUnit? a b c d, high? with
    | none, _ => none
    | some unit, some high =>
      if 0xdc00 ≤ unit ∧ unit < 0xe000 then
        resolveEscapes none
          (Char.ofNat (0x10000 + (high - 0xd800) * 0x400 + (unit - 0xdc00)) :: done) rest
      else none
    | some unit, none =>
      if 0xd800 ≤ unit ∧ unit < 0xdc00 then resolveEscapes (some unit) done rest
      else if 0xdc00 ≤ unit ∧ unit < 0xe000 then none
      else resolveEscapes none (Char.ofNat unit :: done) rest
  | '\\' :: mark :: rest =>
    if high?.isSome then none
    else
      match escapedChar? mark with
      | some c => resolveEscapes none (c :: done) rest
      | none => none
  | c :: rest => if high?.isSome || c == '\\' then none else resolveEscapes none (c :: done) rest

def unescape? (spelling : String) : Option String :=
  (resolveEscapes none [] spelling.toList).map String.ofList

end Json

end FormulaInspection
