import Uplink.Text.Blank
import Uplink.Text.Utf8

/-!
# Texts that may leave the gateway

Before an error text is sent to somebody, what looks like a secret is struck out of it: the value
after a word such as `password`, and paths through directories that hold secrets. What remains is
cut to a length that fits a report.
-/

namespace Uplink.Redaction

/-! ## Secrets -/

/-- The words after which a secret stands. -/
def keywords : List (List Char) :=
  ["password".toList, "token".toList, "key".toList, "secret".toList]

/-- A letter without its case. -/
def fold (c : Char) : Char :=
  -- Two letters outside ASCII have a lower case within it.
  if c = '\u017f' then 's'
  else if c = '\u212a' then 'k'
  else c.toLower

/-- The keyword with which a text starts, in whatever case. -/
def keywordAt (cs : List Char) : Option (List Char) :=
  keywords.find? fun word => (cs.take word.length).map fold == word

def isDelimiter (c : Char) : Bool := c == '=' || c == ':'

def isSolid (c : Char) : Bool := !Blank.isBlank c

/-- If a text starts with a keyword, a delimiter and a value: the lengths of the keyword and of
all three. -/
def secretAt (cs : List Char) : Option (Nat × Nat) := do
  let word ← keywordAt cs
  match cs.drop word.length with
  | [] => none
  | c :: rest =>
    -- Blanks may stand in front of the value, but not in front of the delimiter.
    let value := (rest.dropWhile Blank.isBlank).takeWhile isSolid
    if isDelimiter c && !value.isEmpty then
      let blanks := (rest.takeWhile Blank.isBlank).length
      some (word.length, word.length + 1 + blanks + value.length)
    else none

def struckSecret : List Char := "=***".toList

/-- Strike out all secrets. The number counts the characters of a secret already found that are
still to be passed over. -/
def strikeSecrets : Nat → List Char → List Char
  | _, [] => []
  | pending + 1, _ :: cs => strikeSecrets pending cs
  | 0, c :: cs =>
    match secretAt (c :: cs) with
    | some (word, total) =>
      (c :: cs).take word ++ struckSecret ++ strikeSecrets (total - 1) cs
    | none => c :: strikeSecrets 0 cs

/-! ## Paths -/

def isPathChar (c : Char) : Bool := c.isAlphanum || c == '.' || c == '_' || c == '/' || c == '-'

/-- The directories that hold secrets. -/
def directories : List (List Char) :=
  ["/secret/".toList, "/secrets/".toList, "/.ssh/".toList, "/.aws/".toList, "/.config/".toList]

/-- One of the directories stands in a path, with something after it. -/
def hasDirectory : List Char → Bool
  | [] => false
  | c :: cs =>
    directories.any (fun d => d.isPrefixOf (c :: cs) && d.length < (c :: cs).length) ||
      hasDirectory cs

def struckPath : List Char := "/***REDACTED***/".toList

/-- A run of path characters, struck out from its first slash on if one of the directories stands
after that slash and at least one further character. -/
def strikePath (run : List Char) : List Char :=
  let isSlash (c : Char) := c == '/'
  let path := run.dropWhile fun c => !isSlash c
  if hasDirectory (path.drop 2) then (run.takeWhile fun c => !isSlash c) ++ struckPath else run

/-- Strike out all paths. The run of path characters read so far is kept in front. -/
def strikePathsFrom (run : List Char) : List Char → List Char
  | [] => strikePath run
  | c :: cs =>
    if isPathChar c then strikePathsFrom (run ++ [c]) cs
    else strikePath run ++ c :: strikePathsFrom [] cs

def strikePaths (cs : List Char) : List Char := strikePathsFrom [] cs

/-! ## Length -/

/-- The most bytes that a report may have. -/
def maxBytes : Nat := 500

def cutMark : List Char := "...[truncated]".toList

/-- A text that is not too long, or the front of it that leaves room for the mark. -/
def truncate (cs : List Char) : List Char :=
  if Utf8.widthSum cs ≤ maxBytes then cs
  else
    (Utf8.front (String.ofList cs) (maxBytes - Utf8.widthSum cutMark)).toList ++ cutMark

def redact (text : String) : String :=
  -- Secrets come first: what stands in their place is no part of a path.
  String.ofList (truncate (strikePaths (strikeSecrets 0 text.toList)))

end Uplink.Redaction
