/-!
# Generated ids

An id has 53 bits: 41 bits of milliseconds since the start of 2024 and 12 bits for ids of one millisecond. Ids grow
strictly whatever the clock says: a clock that stands still or goes back continues from the last id.
-/

namespace TradeIn

/-- The first millisecond of 2024, counted from 1970. -/
def idEpoch : Int64 := 1704067200000

/-- The first id of the millisecond that the clock shows, of which 41 bits count. -/
def idOfClock (now : Int64) : Int64 := ((now - idEpoch) &&& 0x1FFFFFFFFFF) <<< 12

/-- The id after the last one when the first id of the present millisecond is given. -/
def idAfter (last first : Int64) : Int64 := if last < first then first else last + 1

/-- The source of ids. -/
structure IdSource where
  /-- The last id that was given out; zero at first. -/
  last : Int64
  deriving DecidableEq, Repr

namespace IdSource

/-- A source that has given out no id. -/
def fresh : IdSource := ⟨0⟩

/-- Give out an id at the time that the clock shows. -/
def next (source : IdSource) (now : Int64) : Int64 × IdSource :=
  let id := idAfter source.last (idOfClock now)
  (id, ⟨id⟩)

/-- The ids that are given out at the times that a clock shows. -/
def take (source : IdSource) : List Int64 → List Int64
  | [] => []
  | now :: rest =>
    let given := source.next now
    given.1 :: take given.2 rest

end IdSource

end TradeIn
