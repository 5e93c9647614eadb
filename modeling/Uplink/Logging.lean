import Uplink.SortedMap
import Uplink.Text.Blank

/-!
# Logging settings

What is logged and in which form, as a few variables say. A variable that cannot be understood
leaves its setting at the default.
-/

namespace Uplink.Logging

inductive Level where
  | error
  | warn
  | info
  | debug
  | trace
deriving DecidableEq, Repr

inductive Layout where
  | json
  | pretty
  | compact
deriving DecidableEq, Repr

def Level.name : Level → String
  | .error => "error"
  | .warn => "warn"
  | .info => "info"
  | .debug => "debug"
  | .trace => "trace"

def Layout.name : Layout → String
  | .json => "json"
  | .pretty => "pretty"
  | .compact => "compact"

def levels : List Level := [.error, .warn, .info, .debug, .trace]

def layouts : List Layout := [.json, .pretty, .compact]

def lowerAscii (text : String) : String := String.ofList (text.toList.map Char.toLower)

/-- The value of decimal digits after an optional plus sign. -/
def digitsValue? (text : String) : Option Nat :=
  let cs := match text.toList with
    | '+' :: cs => cs
    | cs => cs
  if cs.isEmpty ∨ !cs.all Char.isDigit then none
  else some (cs.foldl (fun n c => n * 10 + (c.toNat - '0'.toNat)) 0)

/-- The level with a name in any case, or with a number from 1 on. -/
def Level.read (text : String) : Option Level :=
  match digitsValue? text with
  | some 0 => none
  | some (n + 1) => levels[n]?
  | none => levels.find? fun level => level.name == lowerAscii text

structure UnknownLayout where
  name : String
deriving DecidableEq, Repr

def UnknownLayout.message (e : UnknownLayout) : String := s!"unknown log format '{e.name}'"

/-- The layout with a name in any case, blanks around it apart. -/
def Layout.read (text : String) : Except UnknownLayout Layout :=
  let name := lowerAscii (Blank.trim text)
  match layouts.find? fun layout => layout.name == name with
  | some layout => .ok layout
  | none => .error ⟨name⟩

structure Settings where
  level : Level := .info
  layout : Layout := .json
  spans : Bool := false
  /-- What to log in all detail; goes before the level. -/
  directives : Option String := none
deriving DecidableEq, Repr

/-- The settings that variables say. -/
def Settings.ofVariables (lookUp : String → Option String) : Settings where
  level := ((lookUp "LOG_LEVEL").bind fun v => Level.read (Blank.trim v)).getD .info
  layout := ((lookUp "LOG_FORMAT").bind fun v => (Layout.read v).toOption).getD .json
  spans := ((lookUp "LOG_SPANS").map fun v => lowerAscii (Blank.trim v) == "true").getD false
  directives := (lookUp "RUST_LOG").filter fun v => !Blank.isBlankText v

/-- The parts of the software that only log warnings. -/
def quiet : List String := ["mio", "rumqttc", "tokio"]

/-- What is logged when no directives are given. -/
def Settings.filter (s : Settings) : List String :=
  (s.level.name :: quiet.map fun part => part ++ "=" ++ Level.warn.name).mergeSort
    fun a b => decide (a < b)

end Uplink.Logging
