import Parley.Json

/-!
# JSON text

A value is written in one of two layouts: compact, without any blank, or indented, one member a
line with two blanks per level. Strings are written as they are, except for the quote, the
backslash and the control characters below the blank. Objects are written in the order of their
members.
-/

namespace Parley.Json

/-- A hexadecimal digit, in lower case. -/
def hexDigit (n : Nat) : Char := if n < 10 then Char.ofNat (48 + n) else Char.ofNat (87 + n)

/-- A character as it stands inside a JSON string. -/
def escape (c : Char) : List Char :=
  if c = '"' then ['\\', '"']
  else if c = '\\' then ['\\', '\\']
  else if c = '\x08' then ['\\', 'b']
  else if c = '\x0c' then ['\\', 'f']
  else if c = '\n' then ['\\', 'n']
  else if c = '\r' then ['\\', 'r']
  else if c = '\t' then ['\\', 't']
  else if c.toNat < 32 then
    ['\\', 'u', '0', '0', hexDigit (c.toNat / 16), hexDigit (c.toNat % 16)]
  else [c]

/-- A JSON string. -/
def quote (s : String) : List Char := '"' :: (s.toList.flatMap escape ++ ['"'])

/-- Where blanks go between the parts of an array or object. -/
structure Layout where
  /-- What comes before each item and before the closing bracket, at a nesting level. -/
  gap : Nat → List Char
  /-- What comes between a name and its value. -/
  colon : List Char

/-- No blank at all. -/
def Layout.compact : Layout := ⟨fun _ ↦ [], [':']⟩

/-- One item a line, two blanks per level. -/
def Layout.indented : Layout := ⟨fun level ↦ '\n' :: List.replicate (2 * level) ' ', [':', ' ']⟩

mutual

/-- Writes a value that stands at nesting level `level`. -/
def write (style : Layout) (level : Nat) : Json → List Char
  | .null => ['n', 'u', 'l', 'l']
  | .bool true => ['t', 'r', 'u', 'e']
  | .bool false => ['f', 'a', 'l', 's', 'e']
  | .number n => n.text
  | .string s => quote s
  | .array [] => ['[', ']']
  | .array (item :: items) =>
    '[' :: (style.gap (level + 1) ++ (write style (level + 1) item ++
      (writeItems style (level + 1) items ++ (style.gap level ++ [']']))))
  | .object [] => ['{', '}']
  | .object ((name, value) :: members) =>
    '{' :: (style.gap (level + 1) ++ (quote name ++ (style.colon ++
      (write style (level + 1) value ++
        (writeMembers style (level + 1) members ++ (style.gap level ++ ['}']))))))

/-- Writes the items after the first, each behind a comma. -/
def writeItems (style : Layout) (level : Nat) : List Json → List Char
  | [] => []
  | item :: items =>
    ',' :: (style.gap level ++ (write style level item ++ writeItems style level items))

/-- Writes the members after the first, each behind a comma. -/
def writeMembers (style : Layout) (level : Nat) : List (String × Json) → List Char
  | [] => []
  | (name, value) :: members =>
    ',' :: (style.gap level ++ (quote name ++ (style.colon ++
      (write style level value ++ writeMembers style level members))))

end

/-- The text of a value without blanks. -/
def compact (j : Json) : String := String.ofList (write .compact 0 j)

/-- The text of a value with one item a line. -/
def indented (j : Json) : String := String.ofList (write .indented 0 j)

end Parley.Json
