import Uplink.Toml.Scalar

/-!
# Reading TOML documents

A document is a sequence of lines: blank ones, headers, and keys with values. Arrays may extend
over several lines, tables in braces may not.
-/

namespace Uplink.Toml

/-- How deep arrays and tables in braces may be nested, and how many keys a path may have. -/
def maxDepth : Nat := 79

def skipBlanks (cs : List Char) : List Char := cs.dropWhile isBlank

/-! ## Keys -/

def isBareKey (c : Char) : Bool := c.isAlphanum || c == '_' || c == '-'

/-- A key without dots, bare or quoted. -/
def simpleKey (cs : List Char) : Option (String × List Char) :=
  match cs with
  | '"' :: rest => lineString '"' rest
  | '\'' :: rest => lineString '\'' rest
  | cs =>
    let key := cs.takeWhile isBareKey
    if key.isEmpty then none else some (String.ofList key, cs.drop key.length)

/-- Keys with dots between them, and blanks around each. The number is fuel. -/
def keyPath : Nat → Reader (List String)
  | 0, _ => none
  | fuel + 1, cs => do
    let (key, rest) ← simpleKey (skipBlanks cs)
    match skipBlanks rest with
    | '.' :: rest =>
      let (path, rest) ← keyPath fuel rest
      some (key :: path, rest)
    | rest => some ([key], rest)

def dottedKey (cs : List Char) : Option (List String × List Char) := do
  let (path, rest) ← keyPath (cs.length + 1) cs
  if path.length ≤ maxDepth then some (path, rest) else none

/-! ## Values -/

def skipComment : List Char → List Char
  | '#' :: cs => cs.dropWhile isPlain
  | cs => cs

/-- Pass over blanks, line breaks and comments, as they may stand within arrays. -/
def skipFiller : Nat → List Char → List Char
  | 0, cs => cs
  | fuel + 1, cs =>
    match skipLines cs with
    | '#' :: rest =>
      match lineBreak (rest.dropWhile isPlain) with
      | some rest => skipFiller fuel rest
      | none => rest.dropWhile isPlain
    | cs => cs

def filler (cs : List Char) : List Char := skipFiller cs.length cs

mutual

/-- A value. The first number is fuel, the second is how many levels may still be opened. -/
def value : Nat → Nat → Reader Toml
  | 0, _, _ => none
  | fuel + 1, depth, cs =>
    match cs with
    | [] => none
    | '"' :: _ | '\'' :: _ => (text cs).map fun (s, rest) => (.string s, rest)
    | '[' :: cs =>
      if depth = 0 then none
      else (items fuel (depth - 1) (filler cs)).map fun (vs, rest) => (.array vs, rest)
    | '\x7b' :: cs =>
      if depth = 0 then none
      else match skipBlanks cs with
        | '\x7d' :: rest => some (.table .inlined [], rest)
        | cs => (pairs fuel (depth - 1) [] cs).map fun (es, rest) => (.table .inlined es, rest)
    | cs =>
      match word "true" cs, word "false" cs with
      | some rest, _ => some (.boolean true, rest)
      | none, some rest => some (.boolean false, rest)
      | none, none =>
        -- A date starts with digits too, so it is looked for before a number is.
        match moment cs with
        | some answer => some answer
        | none => number cs

def items : Nat → Nat → Reader (List Toml)
  | 0, _, _ => none
  | fuel + 1, depth, cs =>
    match cs with
    -- The array is empty, or a comma stands after its last item.
    | ']' :: rest => some ([], rest)
    | cs => do
      let (v, rest) ← value fuel depth cs
      match filler rest with
      | ',' :: rest =>
        let (vs, rest) ← items fuel depth (filler rest)
        some (v :: vs, rest)
      | ']' :: rest => some ([v], rest)
      | _ => none

/-- The entries of a table in braces up to its end; there is at least one. -/
def pairs : Nat → Nat → Entries → Reader Entries
  | 0, _, _, _ => none
  | fuel + 1, depth, entries, cs => do
    let (path, rest) ← dottedKey cs
    let rest ← mark '=' rest
    let (v, rest) ← value fuel depth (skipBlanks rest)
    let entries ← assign path v entries
    match skipBlanks rest with
    | ',' :: rest => pairs fuel depth entries rest
    | '\x7d' :: rest => some (entries, rest)
    | _ => none

end

/-! ## Documents -/

def lineEnd (cs : List Char) : Option (List Char) :=
  match skipComment (skipBlanks cs) with
  | [] => some []
  | cs => lineBreak cs

/-- What has been read of a document: all its entries, and the header whose table the next keys
belong to. -/
structure Draft where
  header : List String := []
  root : Entries := []

def appendingHeader (d : Draft) (cs : List Char) : Option (Draft × List Char) := do
  let (path, rest) ← dottedKey cs
  let rest ← word "]]" rest
  some (⟨path, ← append path d.root⟩, ← lineEnd rest)

def definingHeader (d : Draft) (cs : List Char) : Option (Draft × List Char) := do
  let (path, rest) ← dottedKey cs
  let rest ← mark ']' rest
  some (⟨path, ← define path d.root⟩, ← lineEnd rest)

def assignment (d : Draft) (cs : List Char) : Option (Draft × List Char) := do
  let (path, rest) ← dottedKey cs
  let rest ← mark '=' rest
  let (v, rest) ← value (2 * cs.length + 2) maxDepth (skipBlanks rest)
  some (⟨d.header, ← assignUnder d.header path v d.root⟩, ← lineEnd rest)

def line (d : Draft) (cs : List Char) : Option (Draft × List Char) :=
  match cs with
  | '[' :: '[' :: rest => appendingHeader d rest
  | '[' :: rest => definingHeader d rest
  | cs => assignment d cs

/-- All lines of a document. The number is fuel; each line takes at least one character. -/
def lines : Nat → Draft → List Char → Option Entries
  | 0, d, cs => if cs.isEmpty then some d.root else none
  | fuel + 1, d, cs =>
    match skipComment (skipBlanks cs) with
    | [] => some d.root
    | cs =>
      match lineBreak cs with
      | some rest => lines fuel d rest
      | none => do
        let (d, rest) ← line d cs
        lines fuel d rest

def read (text : String) : Option Entries :=
  let cs := text.toList
  -- A mark of the byte order may stand in front of a document.
  let cs := match cs with
    | '\uFEFF' :: rest => rest
    | cs => cs
  lines (cs.length + 1) {} cs

end Uplink.Toml
