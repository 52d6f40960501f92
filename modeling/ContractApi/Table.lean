/-!
# Tables

A table is a list of entries in the order in which their keys first arrived. Writing to a key that is present changes its
value and moves nothing; a new key goes to the end.
-/

namespace ContractApi

/-- Entries in order of first arrival. -/
abbrev Table (κ α : Type) := List (κ × α)

namespace Table

variable {κ α : Type} [DecidableEq κ]

/-- Writes a value to a key. -/
def insert (key : κ) (value : α) : Table κ α → Table κ α
  | [] => [(key, value)]
  | (k, v) :: rest => if k = key then (k, value) :: rest else (k, v) :: insert key value rest

/-- The value at a key. -/
def get? (key : κ) : Table κ α → Option α
  | [] => none
  | (k, v) :: rest => if k = key then some v else get? key rest

/-- Whether the table has an entry for the key. -/
def contains (key : κ) (table : Table κ α) : Bool := (get? key table).isSome

/-- The table that a sequence of entries leaves when each is written in turn. -/
def ofList (entries : List (κ × α)) : Table κ α := entries.foldl (fun table (k, v) => insert k v table) []

/-- The keys in order. -/
def keys (table : Table κ α) : List κ := table.map (·.1)

end Table

end ContractApi
