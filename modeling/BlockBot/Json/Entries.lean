/-!
# Entries in key order

A table from texts to values, kept as a list of pairs. `insert` keeps the keys in ascending order,
by code point, and each key once; a table that is built by insertion alone lists its entries in
exactly one way.
-/

namespace BlockBot

/-- A table with texts as keys. -/
abbrev Entries (α : Type) := List (String × α)

namespace Entries

variable {α : Type}

/-- The value of a key. -/
def get? (key : String) : Entries α → Option α
  | [] => none
  | (k, v) :: es => if k = key then some v else get? key es

/-- Puts a value under a key, in place of an earlier one. -/
def insert (key : String) (value : α) : Entries α → Entries α
  | [] => [(key, value)]
  | (k, v) :: es =>
    if key = k then (key, value) :: es
    else if key < k then (key, value) :: (k, v) :: es
    else (k, v) :: insert key value es

/-- Puts a value under a key that has none yet. -/
def insertNew (key : String) (value : α) : Entries α → Entries α
  | [] => [(key, value)]
  | (k, v) :: es =>
    if key = k then (k, v) :: es
    else if key < k then (key, value) :: (k, v) :: es
    else (k, v) :: insertNew key value es

/-- The entries of a list of pairs, where the last pair of a key counts. -/
def ofPairs (pairs : List (String × α)) : Entries α :=
  pairs.foldr (fun p es => insertNew p.1 p.2 es) []

/-- The keys are in strictly ascending order. -/
def Sorted (es : Entries α) : Prop :=
  es.Pairwise fun a b => a.1 < b.1

end Entries

end BlockBot
