/-!
Tables: finite maps from strings, written as lists of pairs. `insert` puts a key in its place in
ascending order, so the order of the entries says nothing about the order of the insertions.
-/

namespace LanguageServer

/-- A finite map from strings to values of type `α`. -/
abbrev Table (α : Type) := List (String × α)

namespace Table

variable {α : Type}

def keys (table : Table α) : List String := table.map Prod.fst

def lookup (key : String) : Table α → Option α
  | [] => none
  | (k, v) :: rest => if key = k then some v else lookup key rest

/-- Sets the value of a key, at the key's place in ascending order. -/
def insert (key : String) (value : α) : Table α → Table α
  | [] => [(key, value)]
  | (k, v) :: rest =>
    if key = k then (key, value) :: rest
    else if key < k then (key, value) :: (k, v) :: rest
    else (k, v) :: insert key value rest

def erase (key : String) (table : Table α) : Table α := table.filter fun entry => entry.1 ≠ key

/-- The table that holds each pair of a list, the later pair where two have one key. -/
def ofList (entries : List (String × α)) : Table α :=
  entries.foldl (fun table entry => insert entry.1 entry.2 table) []

@[simp] theorem lookup_nil (key : String) : lookup key ([] : Table α) = none := rfl

@[simp] theorem lookup_cons (key k : String) (v : α) (rest : Table α) :
    lookup key ((k, v) :: rest) = if key = k then some v else lookup key rest := rfl

/-- After setting a key, that key has the new value and every other key what it had. -/
theorem lookup_insert (key k : String) (v : α) (table : Table α) :
    lookup key (insert k v table) = if key = k then some v else lookup key table := by
  induction table with
  | nil => rfl
  | cons entry rest ih => grind [insert, lookup]

/-- After erasing a key, that key has no value and every other key what it had. -/
theorem lookup_erase (key k : String) (table : Table α) :
    lookup key (erase k table) = if key = k then none else lookup key table := by
  induction table with
  | nil => simp [erase]
  | cons entry rest ih => grind [erase, lookup]

/-- Only the last value set for a key counts. -/
theorem insert_insert (key : String) (v w : α) (table : Table α) :
    insert key w (insert key v table) = insert key w table := by
  induction table with
  | nil => simp [insert]
  | cons entry rest ih => grind [insert]

end Table

end LanguageServer
