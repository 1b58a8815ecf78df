/-!
# Tables

A table holds values under keys, each key once, in increasing order of the keys.
-/

namespace TradeIn

/-- The rows of a table: keys and their values. -/
abbrev Table (κ ν : Type) := List (κ × ν)

namespace Table

variable {κ ν : Type}

/-- The value under a key. -/
def get? [BEq κ] (table : Table κ ν) (key : κ) : Option ν := table.lookup key

/-- Put a value under a key, in place of the one that is there. -/
def put [LT κ] [DecidableLT κ] [DecidableEq κ] (key : κ) (value : ν) : Table κ ν → Table κ ν
  | [] => [(key, value)]
  | (k, v) :: rest =>
    if key < k then (key, value) :: (k, v) :: rest
    else if key = k then (key, value) :: rest
    else (k, v) :: put key value rest

/-- The value under a key is that of the first row with the key. -/
theorem get?_cons [DecidableEq κ] (l : κ) (v : ν) (rest : Table κ ν) (k : κ) :
    get? ((l, v) :: rest) k = if k = l then some v else get? rest k := by
  by_cases h : k = l
  · simp [get?, h]
  · simp [get?, List.lookup_cons, h, beq_eq_false_iff_ne.2 h]

/-- Putting a value under a key leaves the other keys alone. -/
theorem get?_put [LT κ] [DecidableLT κ] [DecidableEq κ] (key : κ) (value : ν) (table : Table κ ν) (k : κ) :
    get? (put key value table) k = if k = key then some value else get? table k := by
  induction table with
  | nil => exact get?_cons key value [] k
  | cons row rest ih =>
    obtain ⟨l, v⟩ := row
    simp only [put]
    split
    · exact get?_cons key value _ k
    · split
      · next heq =>
        simp only [get?_cons, heq]
        split <;> simp_all
      · simp only [get?_cons, ih]
        grind

end Table

end TradeIn
