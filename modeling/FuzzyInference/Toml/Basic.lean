import FuzzyInference.OrderedMap

/-!
# TOML tables

The values of TOML text over a scalar type, and the rules by which statements
build its tables. A table is opened by its header, implied by the header of a
table inside of it, made by a dotted key, or written as a value. Each way says
which statements may still add to it:

* A written table is finished.
* A header opens a table once, and only if the table was implied before.
* A dotted key leads through tables, but not through one with a header of its
  own, and it adds only to a table that dotted keys made.
-/

namespace FuzzyInference

/-- How a table came to be. -/
inductive TableOrigin where
  /-- The header of a table inside of it. -/
  | implied
  /-- A dotted key. -/
  | dotted
  /-- Its own header. -/
  | header
  /-- It is written as a value. -/
  | inline
  deriving Repr, DecidableEq

/-- A TOML value. -/
inductive Toml (α : Type) where
  | string (s : String)
  | int (n : Int)
  | float (x : α)
  | bool (b : Bool)
  /-- A date, a time or both. -/
  | date
  | array (items : List (Toml α))
  | table (origin : TableOrigin) (entries : List (String × Toml α))
  /-- An array of tables with headers, of which there is at least one. -/
  | tables (latest : List (String × Toml α)) (earlier : List (List (String × Toml α)))

namespace Toml

variable {α : Type}

/-- The entries of a table, in order. -/
abbrev Entries (α : Type) : Type := List (String × Toml α)

/-- The name of an entry behind the names of the tables it is in. -/
structure Key where
  path : List String
  last : String
  deriving Repr, DecidableEq

/-- Changes the table at the end of a path. Missing tables on the way are made. -/
def change (via : TableOrigin) (f : TableOrigin → Entries α → Option (Entries α)) :
    List String → TableOrigin → Entries α → Option (Entries α)
  | [], origin, entries => f origin entries
  | name :: path, _, entries =>
    match lookup? name entries with
    | none => (change via f path via []).map fun sub => upsert name (.table via sub) entries
    | some (.table origin sub) =>
      if origin = .inline ∨ (via = .dotted ∧ origin = .header) then none
      else (change via f path origin sub).map fun sub => upsert name (.table origin sub) entries
    | some (.tables latest earlier) =>
      (change via f path .header latest).map fun sub => upsert name (.tables sub earlier) entries
    | some _ => none

/-- Stores a value under a new name. -/
def put (name : String) (v : Toml α) (entries : Entries α) : Option (Entries α) :=
  if (lookup? name entries).isSome then none else some (upsert name v entries)

/-- Stores a value under a key. -/
def putKey (key : Key) (v : Toml α) (entries : Entries α) : Option (Entries α) :=
  change .dotted
    (fun origin sub => if key.path ≠ [] ∧ origin ≠ .dotted then none else put key.last v sub)
    key.path .header entries

/-- Opens the table of a header. -/
def openTable (key : Key) (entries : Entries α) : Option (Entries α) :=
  change .implied
    (fun _ sub =>
      match lookup? key.last sub with
      | none => some (upsert key.last (.table .header []) sub)
      | some (.table .implied inner) => some (upsert key.last (.table .header inner) sub)
      | some _ => none)
    key.path .header entries

/-- Opens the next table of an array of tables. -/
def openNext (key : Key) (entries : Entries α) : Option (Entries α) :=
  change .implied
    (fun _ sub =>
      match lookup? key.last sub with
      | none => some (upsert key.last (.tables [] []) sub)
      | some (.tables latest earlier) => some (upsert key.last (.tables [] (latest :: earlier)) sub)
      | some _ => none)
    key.path .header entries

/-! ## Statements -/

/-- A statement of a TOML text. -/
inductive Statement (α : Type) where
  | header (key : Key)
  | nextHeader (key : Key)
  | entry (key : Key) (v : Toml α)

/-- The tables that statements have built, and the path of the open one. -/
structure Builder (α : Type) where
  root : Entries α
  current : List String

/-- Nothing built yet, at the top. -/
def Builder.empty : Builder α := ⟨[], []⟩

/-- Obeys a statement. -/
def Builder.step (b : Builder α) : Statement α → Option (Builder α)
  | .header key => do return ⟨← openTable key b.root, key.path ++ [key.last]⟩
  | .nextHeader key => do return ⟨← openNext key b.root, key.path ++ [key.last]⟩
  | .entry key v => do
    return ⟨← change .implied (fun _ sub => putKey key v sub) b.current .header b.root, b.current⟩

/-- The tables that statements build. -/
def ofStatements? (statements : List (Statement α)) : Option (Entries α) := do
  return (← statements.foldlM Builder.step .empty).root

end Toml

end FuzzyInference
