import Uplink.Json.Value
import Uplink.Number.Layout

/-!
# Writing JSON

Values without any blanks. In texts only the quote, the backslash and the control characters below
the blank are escaped.
-/

namespace Uplink.Json

open Number

def hexDigit (n : Nat) : Char := Nat.digitChar n

def escape (c : Char) : List Char :=
  if c = '"' then ['\\', '"']
  else if c = '\\' then ['\\', '\\']
  else if c = '\x08' then ['\\', 'b']
  else if c = '\t' then ['\\', 't']
  else if c = '\n' then ['\\', 'n']
  else if c = '\x0c' then ['\\', 'f']
  else if c = '\r' then ['\\', 'r']
  else if c.toNat < 32 then ['\\', 'u', '0', '0', hexDigit (c.toNat / 16), hexDigit (c.toNat % 16)]
  else [c]

def quoted (s : String) : List Char := '"' :: s.toList.flatMap escape ++ ['"']

def commaSeparated : List (List Char) → List Char
  | [] => []
  | [part] => part
  | part :: parts => part ++ ',' :: commaSeparated parts

def writeChars : Json → List Char
  | null => "null".toList
  | bool b => (if b then "true" else "false").toList
  | int i => (toString i).toList
  | double x => (x.json?.getD "null").toList
  | string s => quoted s
  | array items => '[' :: commaSeparated (items.attach.map fun ⟨v, _⟩ => v.writeChars) ++ [']']
  | object members =>
    '\x7b' :: commaSeparated (members.attach.map fun ⟨(name, v), _⟩ =>
      quoted name ++ ':' :: v.writeChars) ++ ['\x7d']
termination_by v => sizeOf v
decreasing_by
  · have := List.sizeOf_lt_of_mem ‹v ∈ items›
    simp; omega
  · have := List.sizeOf_lt_of_mem ‹(name, v) ∈ members›
    simp at this ⊢; omega

def write (v : Json) : String := String.ofList v.writeChars

end Uplink.Json
