import Uplink.Toml.Value

/-!
# Writing TOML

A document of tables that hold single values. Texts are written in the plainest quotes that need no
escapes, in double quotes with escapes if there are none.
-/

namespace Uplink.Toml

def longestRun (c : Char) : Nat → List Char → Nat
  | count, [] => count
  | count, d :: cs => if d = c then longestRun c (count + 1) cs else max count (longestRun c 0 cs)

/-- A control character that no quotes can hold as it is. -/
def needsCode (c : Char) : Bool := (c.toNat < 0x20 && c != '\t' && c != '\n') || c.toNat == 0x7F

/-- A character of a text in double quotes. -/
def escape (isLong : Bool) (c : Char) : List Char :=
  if c = '\x08' then ['\\', 'b']
  else if c = '\t' then ['\\', 't']
  else if c = '\n' then if isLong then ['\n'] else ['\\', 'n']
  else if c = '\x0c' then ['\\', 'f']
  else if c = '\r' then ['\\', 'r']
  else if c = '\\' then ['\\', '\\']
  else if needsCode c then
    let digit (n : Nat) := (Nat.digitChar n).toUpper
    ['\\', 'u', '0', '0', digit (c.toNat / 16), digit (c.toNat % 16)]
  else [c]

/-- Characters in double quotes. Of a run of quotes in a text over several lines each third one is
escaped, and every quote in a text on one line. The number counts the quotes just before. -/
def escapeAll (isLong : Bool) : Nat → List Char → List Char
  | _, [] => []
  | quotes, c :: cs =>
    if c = '"' then
      if isLong ∧ quotes < 2 then c :: escapeAll isLong (quotes + 1) cs
      else '\\' :: c :: escapeAll isLong 0 cs
    else escape isLong c ++ escapeAll isLong 0 cs

/-- Quotes around characters. A text with line breaks starts on a line of its own. -/
def enclose (quote : Char) (isLong hasBreak : Bool) (cs : List Char) : List Char :=
  let mark := List.replicate (if isLong then 3 else 1) quote
  mark ++ (if isLong ∧ hasBreak then ['\n'] else []) ++ cs ++ mark

def quoted (text : String) : List Char :=
  let cs := text.toList
  let codes := cs.any needsCode
  let backslash := cs.contains '\\'
  let hasBreak := cs.contains '\n'
  let doubles := longestRun '"' 0 cs
  let singles := longestRun '\'' 0 cs
  let basic (isLong : Bool) := enclose '"' isLong hasBreak (escapeAll isLong 0 cs)
  if !codes ∧ !backslash ∧ doubles = 0 ∧ !hasBreak then basic false
  else if !codes ∧ singles = 0 ∧ !hasBreak then enclose '\'' false hasBreak cs
  else if !codes ∧ !backslash ∧ doubles ≤ 2 then basic true
  else if !codes ∧ singles ≤ 2 then enclose '\'' true hasBreak cs
  else basic hasBreak

def scalarChars : Toml → List Char
  | string s => quoted s
  | integer i => (toString i.toInt).toList
  | boolean b => (if b then "true" else "false").toList
  | date text => text.toList
  | _ => []

def assignmentLine (key : String) (value : Toml) : List Char :=
  key.toList ++ " = ".toList ++ scalarChars value ++ ['\n']

def tableLines (name : String) (entries : Entries) : List Char :=
  '[' :: name.toList ++ "]\n".toList ++
    entries.flatMap fun (key, value) => assignmentLine key value

/-- A document of tables with a blank line between each two. -/
def write (doc : List (String × Entries)) : String :=
  String.ofList (['\n'].intercalate (doc.map fun (name, entries) => tableLines name entries))

end Uplink.Toml
