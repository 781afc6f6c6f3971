import LiveQuery.Keyed

/-!
# TOML values and tables

A TOML document is a tree of tables that its headers and dotted keys build up piece by piece. How a
table came into being decides who may still add to it: one that has had its own header takes entries
only below that header, one that was written in braces takes none at all, and one that only stands
on the way to another may get its header later.
-/

namespace LiveQuery

namespace Toml

/-- How a table came into being. -/
inductive Origin where
  /-- By a header of its own. -/
  | header
  /-- On the way to the header of a table below it. -/
  | passage
  /-- On the way to an entry with a dotted key. -/
  | dotted
deriving DecidableEq, Repr

end Toml

open Toml in
inductive Toml where
  | string (s : String)
  | integer (n : Int)
  | float (x : Float)
  | boolean (b : Bool)
  /-- A date, a time or both, as it is written. -/
  | dateTime (text : String)
  | array (items : List Toml)
  /-- A table in braces. -/
  | inlined (entries : List (String × Toml))
  | table (origin : Origin) (entries : List (String × Toml))
  /-- The tables of a header in double brackets, the first one first. -/
  | tables (items : List (List (String × Toml)))
deriving Inhabited

namespace Toml

abbrev Entries := List (String × Toml)

/-- Goes down a path of keys, makes the tables that are missing, and changes the entries at its end.
Of tables in double brackets the last one is meant. A dotted key does not enter a table that has had
its header, and nothing enters a value. -/
def changeAt (dotted : Bool) (change : Origin → Entries → Option Entries) :
    List String → Origin → Entries → Option Entries
  | [], origin, entries => change origin entries
  | key :: path, _, entries =>
    match Keyed.find? key entries with
    | none =>
      let origin := if dotted then .dotted else .passage
      (changeAt dotted change path origin []).map fun inner =>
        Keyed.insert key (.table origin inner) entries
    | some (.table origin inner) =>
      if dotted ∧ origin = .header then none
      else (changeAt dotted change path origin inner).map fun inner =>
        Keyed.insert key (.table origin inner) entries
    | some (.tables items) =>
      (changeAt dotted change path .header (items.getLast?.getD [])).map fun inner =>
        Keyed.insert key (.tables (items.dropLast ++ [inner])) entries
    | some _ => none

/-- Adds an entry that is not there yet. -/
def addNew (key : String) (value : Toml) (entries : Entries) : Option Entries :=
  if (Keyed.find? key entries).isSome then none else some (Keyed.insert key value entries)

/-- Adds an entry under a dotted key, given as the keys on the way and the last one. What lies on
the way has to be made of dotted keys too. -/
def addEntry (path : List String) (key : String) (value : Toml) (entries : Entries) :
    Option Entries :=
  changeAt true
    (fun origin inner => if path ≠ [] ∧ origin ≠ .dotted then none else addNew key value inner)
    path .header entries

/-- Opens the table of a header. It may have stood on the way to another one, but it has no header
yet. -/
def openTable (path : List String) (key : String) (document : Entries) : Option Entries :=
  changeAt false
    (fun _ inner =>
      match Keyed.find? key inner with
      | none => some (Keyed.insert key (.table .header []) inner)
      | some (.table .passage below) => some (Keyed.insert key (.table .header below) inner)
      | some _ => none)
    path .header document

/-- Opens one more table of a header in double brackets. -/
def openTables (path : List String) (key : String) (document : Entries) : Option Entries :=
  changeAt false
    (fun _ inner =>
      match Keyed.find? key inner with
      | none => some (Keyed.insert key (.tables [[]]) inner)
      | some (.tables items) => some (Keyed.insert key (.tables (items ++ [[]])) inner)
      | some _ => none)
    path .header document

/-- Adds an entry to the table of the header at `header`. -/
def addBelow (header path : List String) (key : String) (value : Toml) (document : Entries) :
    Option Entries :=
  changeAt false (fun _ inner => addEntry path key value inner) header .header document

end Toml

end LiveQuery
