set_option autoImplicit false

/-! # TOML tables

A TOML document is a table of values. What may be added to a table depends on how the table came
into being, so every table remembers its `Origin`: each key is given once, a table is opened by one
header only, dotted keys extend only tables made by dotted keys, and an inline table is closed.

`Table.insert` adds a value under a dotted key and `Table.openHeader` and `Table.openElement` open
tables; all of them fail rather than redefine anything. Numbers and dates are not kept, only that
there was one. -/

namespace Versioning.Toml

/-! ## Values -/

/-- How a table came into being. -/
inductive Origin
  /-- A header names it, or it is the document. -/
  | header
  /-- It lies on the way to a table that a header names. -/
  | implied
  /-- It lies on the way of a dotted key. -/
  | dotted
  /-- It is written as a value. -/
  | inline
deriving DecidableEq

/-- A TOML value. -/
inductive Value
  | text (s : String)
  | boolean (b : Bool)
  | number
  | date
  | array (items : List Value)
  | table (origin : Origin) (entries : List (String × Value))
  /-- The tables of an array that headers in double brackets make up. -/
  | tables (items : List (List (String × Value)))

/-- The keys of a table with their values, in the order they were given. -/
abbrev Table := List (String × Value)

namespace Table

/-! ## Entries -/

/-- The value of a key. -/
def get? (t : Table) (key : String) : Option Value :=
  (t.find? fun e => e.1 == key).map Prod.snd

/-- Give a key that is there a new value. -/
def set (t : Table) (key : String) (v : Value) : Table :=
  t.map fun e => if e.1 == key then (key, v) else e

/-- Add a key that is not there. -/
def add (t : Table) (key : String) (v : Value) : Table := t ++ [(key, v)]

/-! ## Dotted keys -/

/-- Add a value under a dotted key. The tables on the way are made where they are missing, and the
    last of them has to be one that dotted keys made. -/
def insert : List String → Value → Table → Option Table
  | [], _, _ => none
  | [key], v, t => if (t.get? key).isSome then none else some (t.add key v)
  | key :: next :: rest, v, t =>
      match t.get? key with
      | none => (insert (next :: rest) v []).map fun sub => t.add key (.table .dotted sub)
      | some (.table .dotted sub) =>
          (insert (next :: rest) v sub).map fun sub => t.set key (.table .dotted sub)
      | some (.table .implied sub) =>
          if rest.isEmpty then none
          else (insert (next :: rest) v sub).map fun sub => t.set key (.table .implied sub)
      | some (.tables items) =>
          if rest.isEmpty then none
          else
            match items.getLast? with
            | none => none
            | some last => (insert (next :: rest) v last).map fun last =>
                t.set key (.tables (items.dropLast ++ [last]))
      | some _ => none

/-! ## Headers -/

/-- Change the table that the keys of a header lead to. Tables on the way are made where they are
    missing; an array of tables leads on to its last table. -/
def within (change : Table → Option Table) : List String → Table → Option Table
  | [], t => change t
  | key :: rest, t =>
      match t.get? key with
      | none => (within change rest []).map fun sub => t.add key (.table .implied sub)
      | some (.table .inline _) => none
      | some (.table origin sub) =>
          (within change rest sub).map fun sub => t.set key (.table origin sub)
      | some (.tables items) =>
          match items.getLast? with
          | none => none
          | some last => (within change rest last).map fun last =>
              t.set key (.tables (items.dropLast ++ [last]))
      | some _ => none

/-- Open the table of a header, which no header has opened before. -/
def openHeader (path : List String) (t : Table) : Option Table :=
  match path.getLast? with
  | none => none
  | some key => within (fun parent =>
      match parent.get? key with
      | none => some (parent.add key (.table .header []))
      | some (.table .implied sub) => some (parent.set key (.table .header sub))
      | some _ => none) path.dropLast t

/-- Open a further table of an array of tables. -/
def openElement (path : List String) (t : Table) : Option Table :=
  match path.getLast? with
  | none => none
  | some key => within (fun parent =>
      match parent.get? key with
      | none => some (parent.add key (.tables [[]]))
      | some (.tables items) => some (parent.set key (.tables (items ++ [[]])))
      | some _ => none) path.dropLast t

end Table

end Versioning.Toml
