import ContractHost.Toml.Basic

/-!
# Building tables

While a document is read, a table remembers where it comes from, because that decides what may still
be added to it:

- a table that a header **declares** is declared once, and dotted keys do not reach into it,
- a table that is **implied** by a longer header may be declared later,
- a table made by a **dotted** key grows by dotted keys of the same form alone.

A list of tables grows by its own headers, and everything else that names it means its last element.
A value is final.
-/

namespace ContractHost

namespace Toml

/-- Where a table comes from. -/
inductive Origin
  | implied
  | declared
  | dotted
  deriving DecidableEq, Repr

/-- What a name holds while a document is read. -/
inductive Node
  | value (v : Toml)
  | table (origin : Origin) (entries : List (String × Node))
  | tables (items : List (List (String × Node)))

/-- A table that is being built. -/
abbrev Draft := List (String × Node)

/-- A key with dots: the tables it goes through, and a name in the last of them. -/
structure KeyPath where
  tables : List String
  name : String
  deriving DecidableEq, Repr

namespace Draft

/-- Change what a name holds, where there may be nothing before. -/
def edit (name : String) (change : Option Node → Option Node) : Draft → Option Draft
  | [] => (change none).map fun n ↦ [(name, n)]
  | (k, n) :: rest =>
    if k = name then (change (some n)).map fun n ↦ (k, n) :: rest
    else (edit name change rest).map ((k, n) :: ·)

/-- Change the last table of a list. -/
def editLast (change : Draft → Option Draft) : List Draft → Option (List Draft)
  | [] => none
  | [d] => (change d).map ([·])
  | d :: rest => (editLast change rest).map (d :: ·)

/-- Change the table that headers reach by a path. Tables that are missing are implied. -/
def within (change : Draft → Option Draft) : List String → Draft → Option Draft
  | [], d => change d
  | name :: path, d =>
    d.edit name fun
      | none => (within change path []).map (.table .implied)
      | some (.table origin inner) => (within change path inner).map (.table origin)
      | some (.tables items) => (editLast (within change path) items).map .tables
      | some (.value _) => none

/-- Declare a table. -/
def declare (name : String) (d : Draft) : Option Draft :=
  d.edit name fun
    | none => some (.table .declared [])
    | some (.table .implied inner) => some (.table .declared inner)
    | some _ => none

/-- Add an empty table to a list of tables. -/
def extend (name : String) (d : Draft) : Option Draft :=
  d.edit name fun
    | none => some (.tables [[]])
    | some (.tables items) => some (.tables (items ++ [[]]))
    | some _ => none

/-- Give a new name a value. -/
def put (name : String) (v : Toml) (d : Draft) : Option Draft :=
  d.edit name fun
    | none => some (.value v)
    | some _ => none

/-- Give a dotted key a value. The key goes through tables that no header declares, and ends in one
that dotted keys made. -/
def assign (name : String) (v : Toml) : List String → Draft → Option Draft
  | [], d => d.put name v
  | key :: path, d =>
    d.edit key fun
      | none => (assign name v path []).map (.table .dotted)
      | some (.table .dotted inner) => (assign name v path inner).map (.table .dotted)
      | some (.table .implied inner) =>
        if path = [] then none else (assign name v path inner).map (.table .implied)
      | some (.tables items) =>
        if path = [] then none else (editLast (assign name v path) items).map .tables
      | some (.table .declared _) => none
      | some (.value _) => none

end Draft

mutual

/-- The value that a node has become. -/
def Node.finish : Node → Toml
  | .value v => v
  | .table _ entries => .table (finishEntries entries)
  | .tables items => .list (finishTables items)

/-- The entries of a table that has been built. -/
def finishEntries : List (String × Node) → List (String × Toml)
  | [] => []
  | (k, n) :: rest => (k, n.finish) :: finishEntries rest

/-- The tables of a list that has been built. -/
def finishTables : List (List (String × Node)) → List Toml
  | [] => []
  | d :: rest => .table (finishEntries d) :: finishTables rest

end

/-- The table that a draft has become. -/
def Draft.finish (d : Draft) : Toml :=
  .table (finishEntries d)

end Toml

end ContractHost
