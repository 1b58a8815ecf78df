/-!
# The data directory

The file of tables needs a directory, which is made together with the directories above it, one name of its path after
the other. `Directory.Walk` is the way that a path takes from the directory it starts in. A dot stands for the
directory it is in, but a path that ends in a dot makes no directory for it, so there the directory must have been made
on the way.
-/

namespace TradeIn

namespace Directory

/-- A directory: the names that lead to it, the last one first. Names that lead above the start are two dots. -/
abbrev Position := List String

/-- The directory under a name. -/
def enter (position : Position) (name : String) : Position :=
  match position with
  | top :: rest => if name = ".." ∧ top ≠ ".." then rest else name :: position
  | [] => [name]

/-- The parts of a path between its slashes. -/
def parts (path : String) : List String := (path.splitOn "/").filter fun part => !part.isEmpty

/-- The directories on the way of a path. -/
structure Walk where
  /-- Where the path ends. -/
  here : Position
  /-- The directories before that. -/
  before : List Position

namespace Walk

/-- Go on to the directory under a name. -/
def step (walk : Walk) (name : String) : Walk := ⟨enter walk.here name, walk.here :: walk.before⟩

/-- The way that a path takes. -/
def ofPath (path : String) : Walk := ((parts path).filter (· ≠ ".")).foldl step ⟨[], []⟩

/-- Whether the end of the path was there before the last step: it is above the start, or it was made on the way. -/
def endsInside (walk : Walk) : Bool := walk.here.all (· == "..") || walk.before.contains walk.here

/-- Whether something with this name was made in the directory where the path ends. -/
def made (walk : Walk) (name : String) : Bool := (walk.here :: walk.before).contains (enter walk.here name)

end Walk

/-- Why a directory cannot be made. -/
inductive Fault where
  /-- The path holds a NUL character. -/
  | nulCharacter
  /-- The path or a name in it has too many bytes. -/
  | tooLong
  /-- The path ends in a dot that stands for no directory. -/
  | missing
  deriving DecidableEq, Repr

/-- The fault in words. -/
def Fault.message : Fault → String
  | nulCharacter => "file name contained an unexpected NUL byte"
  | tooLong => "File name too long (os error 36)"
  | missing => "No such file or directory (os error 2)"

/-- How many bytes a name in a path may have. -/
def maxNameBytes : Nat := 255

/-- How many bytes a path may have. -/
def maxPathBytes : Nat := 4095

/-- Whether a path, or a name in it, has too many bytes. -/
def isTooLong (path : String) : Bool :=
  maxPathBytes < path.utf8ByteSize || (parts path).any fun name => maxNameBytes < name.utf8ByteSize

/-- Why the directory at a path cannot be made, if it cannot. -/
def fault? (path : String) : Option Fault :=
  if path.toList.contains '\x00' then some .nulCharacter
  else if isTooLong path then some .tooLong
  else if (parts path).getLast? = some "." ∧ !(Walk.ofPath path).endsInside then some .missing
  else none

end Directory

end TradeIn
