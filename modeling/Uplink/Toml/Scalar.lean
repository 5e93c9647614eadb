import Uplink.Text.Utf8
import Uplink.Time.Calendar
import Uplink.Toml.Value

/-!
# Single TOML values

Numbers, truth values, dates, times and the four kinds of text. A reader takes a value off the
front of a list of characters; whether what follows may follow is for the caller to say.
-/

namespace Uplink.Toml

open Number

/-- Text still to be read, after a value. -/
abbrev Reader (α : Type) := List Char → Option (α × List Char)

/-! ## Numbers -/

def isBinary (c : Char) : Bool := c == '0' || c == '1'

def isOctal (c : Char) : Bool := '0' ≤ c && c ≤ '7'

def isHex (c : Char) : Bool := c.isDigit || ('a' ≤ c && c ≤ 'f') || ('A' ≤ c && c ≤ 'F')

def digitOf (c : Char) : Nat :=
  if c.isDigit then c.toNat - '0'.toNat else c.toLower.toNat - 'a'.toNat + 10

def valueIn (base : Nat) (ds : List Char) : Nat := ds.foldl (fun n c => n * base + digitOf c) 0

/-- Digits of a kind, with single underscores between them. The flag says that an underscore has
just been read. -/
def digitsFrom (isDigit : Char → Bool) : Bool → Reader (List Char)
  | after, [] => if after then none else some ([], [])
  | after, c :: cs =>
    if isDigit c then (digitsFrom isDigit false cs).map fun (ds, rest) => (c :: ds, rest)
    else if after then none
    else if c = '_' then digitsFrom isDigit true cs
    else some ([], c :: cs)

def digits (isDigit : Char → Bool) (cs : List Char) : Option (List Char × List Char) :=
  match cs with
  | [] => none
  | c :: _ => if isDigit c then digitsFrom isDigit false cs else none

def sign : List Char → Bool × List Char
  | '-' :: cs => (true, cs)
  | '+' :: cs => (false, cs)
  | cs => (false, cs)

/-- The digits of a decimal number, which has no zero in front of others. -/
def decimalDigits (cs : List Char) : Option (List Char × List Char) :=
  match cs with
  | '0' :: rest => some (['0'], rest)
  | cs => digits Char.isDigit cs

def signedInteger (negative : Bool) (n : Nat) : Option Toml :=
  let i : Int := if negative then -n else n
  if Int64.minValue.toInt ≤ i ∧ i ≤ Int64.maxValue.toInt then some (.integer (Int64.ofInt i))
  else none

def basedInteger (base : Nat) (isDigit : Char → Bool) (cs : List Char) :
    Option (Toml × List Char) := do
  let (ds, rest) ← digits isDigit cs
  some (← signedInteger false (valueIn base ds), rest)

/-- The double nearest to `digits * 10 ^ exponent`. -/
def decimalDouble (negative : Bool) (ds : List Char) (exponent : Int) : Double :=
  let n := valueIn 10 ds
  let top := exponent + ds.length
  -- Powers of ten far out of the range of doubles are not computed.
  if n = 0 ∨ top < -400 then .ofRatio negative 0 1
  else
    let exponent := if 400 < top then 400 else exponent
    .ofRatio negative (n * Nat.pow 10 exponent.toNat) (Nat.pow 10 (-exponent).toNat)

def exponentPart : Reader (Option Int)
  | c :: cs =>
    if c = 'e' ∨ c = 'E' then do
      let (negative, cs) := sign cs
      let (ds, rest) ← digits Char.isDigit cs
      let n : Int := valueIn 10 ds
      some (some (if negative then -n else n), rest)
    else some (none, c :: cs)
  | [] => some (none, [])

def fractionPart : Reader (Option (List Char))
  | '.' :: cs => do
    let (ds, rest) ← digits Char.isDigit cs
    some (some ds, rest)
  | cs => some (none, cs)

/-- A decimal number: an integer, or a float if it has a fraction or an exponent. -/
def decimalNumber (negative : Bool) (cs : List Char) : Option (Toml × List Char) := do
  let (whole, cs) ← decimalDigits cs
  let (fraction, cs) ← fractionPart cs
  let (exponent, cs) ← exponentPart cs
  if fraction.isNone ∧ exponent.isNone then some (← signedInteger negative (valueIn 10 whole), cs)
  else
    let places := fraction.getD []
    let x := decimalDouble negative (whole ++ places) (exponent.getD 0 - places.length)
    -- A number that is too large is no infinity, which has a word of its own.
    if x = decimalDouble false ['1'] 400 then none else some (.float x, cs)

def word (text : String) (cs : List Char) : Option (List Char) :=
  if text.toList.isPrefixOf cs then some (cs.drop text.length) else none

def infinity (negative : Bool) : Double := decimalDouble negative ['1'] 400

def number (cs : List Char) : Option (Toml × List Char) :=
  match cs with
  | '0' :: 'x' :: rest => basedInteger 16 isHex rest
  | '0' :: 'o' :: rest => basedInteger 8 isOctal rest
  | '0' :: 'b' :: rest => basedInteger 2 isBinary rest
  | cs =>
    let (negative, rest) := sign cs
    match word "inf" rest with
    | some rest => some (.float (infinity negative), rest)
    | none =>
      match word "nan" rest with
      | some rest => some (.float .nan, rest)
      | none => decimalNumber negative rest

/-! ## Dates and times -/

/-- A number of exactly so many digits. -/
def fixedDigits (count : Nat) (cs : List Char) : Option (Nat × List Char) :=
  let ds := cs.take count
  if ds.length = count ∧ ds.all Char.isDigit then some (valueIn 10 ds, cs.drop count) else none

/-- A number of exactly two digits, up to a bound. -/
def twoDigits (low high : Nat) (cs : List Char) : Option (Nat × List Char) := do
  let (n, rest) ← fixedDigits 2 cs
  if low ≤ n ∧ n ≤ high then some (n, rest) else none

def mark (c : Char) : List Char → Option (List Char)
  | d :: cs => if d = c then some cs else none
  | [] => none

def datePart (cs : List Char) : Option (List Char) := do
  let (year, cs) ← fixedDigits 4 cs
  let (month, cs) ← twoDigits 1 12 (← mark '-' cs)
  let (day, cs) ← twoDigits 1 31 (← mark '-' cs)
  if day ≤ Time.monthLength year month then some cs else none

def timePart (cs : List Char) : Option (List Char) := do
  let (_, cs) ← twoDigits 0 23 cs
  let (_, cs) ← twoDigits 0 59 (← mark ':' cs)
  let (_, cs) ← twoDigits 0 60 (← mark ':' cs)
  match cs with
  | '.' :: rest =>
    let fraction := rest.takeWhile Char.isDigit
    if fraction.isEmpty then none else some (rest.drop fraction.length)
  | cs => some cs

/-- Pass over an offset, if there is one. -/
def offsetPart (cs : List Char) : Option (List Char) :=
  match cs with
  | [] => some []
  | c :: rest =>
    if c = 'Z' ∨ c = 'z' then some rest
    else if c = '+' ∨ c = '-' then do
      let (_, cs) ← twoDigits 0 23 rest
      let (_, cs) ← twoDigits 0 59 (← mark ':' cs)
      some cs
    else some cs

def dateEnd (cs : List Char) : Option (List Char) :=
  match datePart cs with
  | none => timePart cs
  | some rest =>
    match rest with
    | [] => some []
    | c :: cs =>
      if c = 'T' ∨ c = 't' ∨ c = ' ' then
        -- What follows a date and a blank need not be a time.
        match timePart cs with
        | some cs => offsetPart cs
        | none => some rest
      else some rest

def moment (cs : List Char) : Option (Toml × List Char) :=
  (dateEnd cs).map fun rest =>
    (.date (String.ofList (cs.take (cs.length - rest.length))), rest)

/-! ## Texts -/

/-- The character may stand in a text or a comment. -/
def isPlain (c : Char) : Bool := c == '\t' || (0x20 ≤ c.toNat && c.toNat ≠ 0x7F)

/-- A line break, which is read as a single character. -/
def lineBreak : List Char → Option (List Char)
  | '\n' :: cs => some cs
  | '\r' :: '\n' :: cs => some cs
  | _ => none

/-- A character given by so many hexadecimal digits. -/
def codePoint (count : Nat) (cs : List Char) : Option (Char × List Char) :=
  let ds := cs.take count
  let n := valueIn 16 ds
  if ds.length = count ∧ ds.all isHex ∧ n.isValidChar then some (Char.ofNat n, cs.drop count)
  else none

/-- The character of an escape, after the backslash. -/
def escaped : Reader Char
  | 'b' :: cs => some ('\x08', cs)
  | 't' :: cs => some ('\t', cs)
  | 'n' :: cs => some ('\n', cs)
  | 'f' :: cs => some ('\x0c', cs)
  | 'r' :: cs => some ('\r', cs)
  | '"' :: cs => some ('"', cs)
  | '\\' :: cs => some ('\\', cs)
  | 'u' :: cs => codePoint 4 cs
  | 'U' :: cs => codePoint 8 cs
  | _ => none

/-- The rest of a text on one line, up to its closing quote. The number is fuel. -/
def lineText (quote : Char) : Nat → Reader (List Char)
  | 0, _ => none
  | _, [] => none
  | fuel + 1, c :: cs =>
    if c = quote then some ([], cs)
    -- In single quotes there are no escapes.
    else if c = '\\' ∧ quote = '"' then do
      let (c, cs) ← escaped cs
      let (text, rest) ← lineText quote fuel cs
      some (c :: text, rest)
    else if isPlain c then do
      let (text, rest) ← lineText quote fuel cs
      some (c :: text, rest)
    else none

def isBlank (c : Char) : Bool := c == ' ' || c == '\t'

/-- Pass over blanks and line breaks. -/
def skipLines : List Char → List Char
  | '\r' :: '\n' :: cs => skipLines cs
  | c :: cs => if isBlank c ∨ c = '\n' then skipLines cs else c :: cs
  | [] => []

/-- The end of a text over several lines. -/
def closing (quote : Char) (cs : List Char) : Option (List Char × List Char) :=
  let count := (cs.takeWhile (· == quote)).length
  if count < 3 then none
  else
    -- Up to two quotes in front of the three that close the text belong to it.
    let extra := min (count - 3) 2
    some (List.replicate extra quote, cs.drop (extra + 3))

/-- The rest of a text over several lines. -/
def linesText (quote : Char) : Nat → Reader (List Char)
  | 0, _ => none
  | _, [] => none
  | fuel + 1, c :: cs =>
    match closing quote (c :: cs) with
    | some (text, rest) => some (text, rest)
    | none =>
      if c = '\\' ∧ quote = '"' then
        -- A backslash at the end of a line takes all blank lines after it away.
        match lineBreak (cs.dropWhile isBlank) with
        | some rest => linesText quote fuel (skipLines rest)
        | none => do
          let (c, cs) ← escaped cs
          let (text, rest) ← linesText quote fuel cs
          some (c :: text, rest)
      else
        match lineBreak (c :: cs) with
        | some rest => do
          let (text, rest) ← linesText quote fuel rest
          some ('\n' :: text, rest)
        | none =>
          if isPlain c then do
            let (text, rest) ← linesText quote fuel cs
            some (c :: text, rest)
          else none

def lineString (quote : Char) (cs : List Char) : Option (String × List Char) :=
  (lineText quote (cs.length + 1) cs).map fun (text, rest) => (String.ofList text, rest)

def linesString (quote : Char) (cs : List Char) : Option (String × List Char) :=
  -- A line break right after the opening quotes does not belong to the text.
  let cs := (lineBreak cs).getD cs
  (linesText quote (cs.length + 1) cs).map fun (text, rest) => (String.ofList text, rest)

def text (cs : List Char) : Option (String × List Char) :=
  match cs with
  | '"' :: '"' :: '"' :: rest => linesString '"' rest
  | '\'' :: '\'' :: '\'' :: rest => linesString '\'' rest
  | '"' :: rest => lineString '"' rest
  | '\'' :: rest => lineString '\'' rest
  | _ => none

end Uplink.Toml
