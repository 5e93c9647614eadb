import Uplink.Number.Binary

/-!
# TOML values and how tables come about

A document defines its tables piece by piece, in headers and in dotted keys, and may define each
of them only once. A table therefore remembers how it came about, and `define` and `assign` refuse
what would define a table or a key again.
-/

namespace Uplink

open Number

namespace Toml

/-- How a table came about. -/
inductive Origin where
  /-- Written with its entries in braces. -/
  | inlined
  /-- By a header of its own. -/
  | header
  /-- As a part of the path of a header. -/
  | path
  /-- As a part of a dotted key. -/
  | dotted
deriving DecidableEq, Repr

end Toml

inductive Toml where
  | string (value : String)
  | integer (value : Int64)
  | float (value : Double)
  | boolean (value : Bool)
  /-- A date, a time, or both, of which only the text is kept. -/
  | date (text : String)
  | array (items : List Toml)
  | table (origin : Toml.Origin) (entries : List (String × Toml))
  /-- Tables that were appended one by one under the same header. -/
  | tables (list : List (List (String × Toml)))
deriving Repr, Inhabited

namespace Toml

abbrev Entries := List (String × Toml)

def get? (entries : Entries) (key : String) : Option Toml :=
  (entries.find? fun e => e.1 == key).map (·.2)

/-- Set the value of a key, at its place or else at the end. -/
def put (key : String) (value : Toml) : Entries → Entries
  | [] => [(key, value)]
  | (k, v) :: rest => if k = key then (k, value) :: rest else (k, v) :: put key value rest

/-- Change the entries of the table that a path of keys leads to, given how that table came about.
Tables on the way that are not there yet are made with the origin `made`, and those of which
`passes` does not hold are in the way. Of tables under the same header the last is meant. -/
def alter (made : Origin) (passes : Origin → Bool)
    (change : Origin → Entries → Option Entries) :
    List String → Origin → Entries → Option Entries
  | [], origin, entries => change origin entries
  | key :: path, _, entries => do
    match get? entries key with
    | none =>
      let inner ← alter made passes change path made []
      some (put key (.table made inner) entries)
    | some (.table origin inner) =>
      if passes origin then
        let inner ← alter made passes change path origin inner
        some (put key (.table origin inner) entries)
      else none
    -- A path leads into the last table of a list.
    | some (.tables list) =>
      let inner ← alter made passes change path .header (list.getLast?.getD [])
      some (put key (.tables (list.dropLast ++ [inner])) entries)
    | some _ => none

/-- Headers pass through all tables but those in braces. -/
def passesHeader (origin : Origin) : Bool := origin != .inlined

/-- Dotted keys pass through tables that are not defined by themselves. -/
def passesDotted (origin : Origin) : Bool := origin == .dotted || origin == .path

/-- Split a path into the keys on the way and the last one. -/
def splitLast : List String → Option (List String × String)
  | [] => none
  | [key] => some ([], key)
  | key :: path => (splitLast path).map fun (front, last) => (key :: front, last)

/-- Define the table of a header. -/
def define (path : List String) (root : Entries) : Option Entries := do
  let (front, key) ← splitLast path
  alter .path passesHeader (fun _ entries =>
    match get? entries key with
    | none => some (put key (.table .header []) entries)
    -- The table was only on the way of another header until now.
    | some (.table .path inner) => some (put key (.table .header inner) entries)
    | some _ => none) front .header root

/-- Append an empty table to those of a header. -/
def append (path : List String) (root : Entries) : Option Entries := do
  let (front, key) ← splitLast path
  alter .path passesHeader (fun _ entries =>
    match get? entries key with
    | none => some (put key (.tables [[]]) entries)
    | some (.tables list) => some (put key (.tables (list ++ [[]])) entries)
    | some _ => none) front .header root

/-- Give a value to a dotted key of a table. -/
def assign (path : List String) (value : Toml) (entries : Entries) : Option Entries := do
  let (front, key) ← splitLast path
  alter .dotted passesDotted (fun origin entries =>
    -- A table that has a header of its own gets no keys in another way.
    if front.isEmpty ∨ origin = .dotted then
      match get? entries key with
      | none => some (put key value entries)
      | some _ => none
    else none) front .header entries

def assignUnder (header path : List String) (value : Toml) (root : Entries) : Option Entries :=
  alter .path passesHeader (fun _ entries => assign path value entries) header .header root

end Toml

end Uplink
