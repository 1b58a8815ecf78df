import TradeIn.Json.Token

/-!
# What a JSON text holds before it breaks off

`Parsed` is the tree of a text that may break off. Objects keep repeated keys and the order of the text, so a
reader can walk the tree from left to right and meet the first problem first: a place where the text breaks off,
or a value that does not have the expected type. `Parsed.ofText` builds the tree from the tokens with a stack of
the arrays and objects that are open. `Json.parsed` is the tree of a value.
-/

namespace TradeIn

/-- The tree of a JSON text, up to the place where the text breaks off. -/
inductive Parsed where
  | null
  | bool (value : Bool)
  | number (value : Number)
  | string (value : String)
  /-- The items that were found, and whether the closing bracket was. -/
  | array (items : List Parsed) (closed : Bool)
  /-- The members that were found, and whether the closing bracket was. A key that cannot be read is `none`. -/
  | object (members : List (Option String × Parsed)) (closed : Bool)
  /-- A well formed value that may be skipped but not read. -/
  | unreadable
  /-- The text breaks off here. -/
  | broken
  deriving Repr

namespace Parsed

/-- How deep arrays and objects may be nested in a text. -/
def maxDepth : Nat := 127

/-- An array or object that is open, with what it holds so far in reverse order. -/
inductive Frame where
  | array (items : List Parsed)
  /-- The key is that of the member whose value comes next. -/
  | object (members : List (Option String × Parsed)) (key : Option String)

namespace Frame

/-- Put the next value into the array or object. -/
def add (value : Parsed) : Frame → Frame
  | array items => array (value :: items)
  | object members key => object ((key, value) :: members) none

/-- The tree of the array or object. -/
def toParsed (closed : Bool) : Frame → Parsed
  | array items => .array items.reverse closed
  | object members _ => .object members.reverse closed

end Frame

/-- What may come next in a text. -/
inductive Expected where
  | value
  /-- The first item of an array, or its closing bracket. -/
  | firstItem
  /-- The first key of an object, or its closing bracket. -/
  | firstKey
  | key
  | colon
  /-- A comma or the closing bracket. -/
  | separator

/-- The tree of a text that breaks off inside the open arrays and objects, the innermost first. -/
def unwind (inner : Parsed) : List Frame → Parsed
  | [] => inner
  | frame :: frames => unwind ((frame.add inner).toParsed false) frames

/-- The tree of a text that breaks off where something else was expected. -/
def breakOff (expected : Expected) (frames : List Frame) : Parsed :=
  if maxDepth < frames.length then unwind .broken (frames.drop (frames.length - maxDepth))
  else match expected, frames with
    | .firstKey, frame :: frames => unwind (frame.toParsed false) frames
    | .key, frame :: frames => unwind (frame.toParsed false) frames
    | .separator, frame :: frames => unwind (frame.toParsed false) frames
    | _, frames => unwind .broken frames

/-- The tree of an array or object that is closed. One that is nested too deep cannot be read. -/
def closing (frame : Frame) (outer : List Frame) : Parsed :=
  if (outer.drop (maxDepth - 1)).isEmpty then frame.toParsed true else .unreadable

/-- The tree of a token that is a value of its own. -/
def ofToken? : Token → Option Parsed
  | .null => some .null
  | .bool value => some (.bool value)
  | .number value => some (.number value)
  | .string value => some (.string value)
  | .hugeNumber => some .unreadable
  | .loneSurrogate => some .unreadable
  | _ => none

/-- The key that a string token is; inside, a string that cannot be read is `none`. -/
def keyOfToken? : Token → Option (Option String)
  | .string value => some (some value)
  | .loneSurrogate => some none
  | _ => none

/-- What the parser does with one token. -/
inductive Step where
  /-- Go on with other open arrays and objects. -/
  | proceed (expected : Expected) (frames : List Frame)
  /-- A value is complete. -/
  | complete (value : Parsed) (frames : List Frame)
  /-- The token does not belong here. -/
  | unexpected

/-- What a token does to the open arrays and objects. -/
def step (expected : Expected) (frames : List Frame) (token : Token) : Step :=
  match expected, token, frames with
  | .firstItem, .closeArray, frame :: outer => .complete (closing frame outer) outer
  | .firstKey, .closeObject, frame :: outer => .complete (closing frame outer) outer
  | .separator, .closeArray, .array items :: outer => .complete (closing (.array items) outer) outer
  | .separator, .closeObject, .object members key :: outer =>
    .complete (closing (.object members key) outer) outer
  | .separator, .comma, .array items :: outer => .proceed .value (.array items :: outer)
  | .separator, .comma, .object members key :: outer => .proceed .key (.object members key :: outer)
  | .separator, _, _ => .unexpected
  | .colon, .colon, _ => .proceed .value frames
  | .colon, _, _ => .unexpected
  | .firstKey, token, .object members _ :: outer | .key, token, .object members _ :: outer =>
    match keyOfToken? token with
    | some key => .proceed .colon (.object members key :: outer)
    | none => .unexpected
  | .firstKey, _, _ | .key, _, _ => .unexpected
  | .value, .openArray, _ | .firstItem, .openArray, _ => .proceed .firstItem (.array [] :: frames)
  | .value, .openObject, _ | .firstItem, .openObject, _ => .proceed .firstKey (.object [] none :: frames)
  | .value, token, _ | .firstItem, token, _ =>
    match ofToken? token with
    | some value => .complete value frames
    | none => .unexpected

/-- The tree of the tokens, and whether the value ends where the tokens end. -/
def ofTokens (expected : Expected) (frames : List Frame) : List Token → Parsed × Bool
  | [] => (breakOff expected frames, true)
  | token :: tokens =>
    match step expected frames token with
    | .proceed expected frames => ofTokens expected frames tokens
    | .complete value [] => (value, tokens.isEmpty)
    | .complete value (frame :: outer) => ofTokens .separator (frame.add value :: outer) tokens
    | .unexpected => (breakOff expected frames, false)

/-- The tree of a text, and whether nothing but white space follows its value. -/
def ofText (text : String) : Parsed × Bool := ofTokens .value [] (Token.ofText text)

end Parsed

namespace Json

mutual

/-- The tree of a value, which is complete. -/
def parsed : Json → Parsed
  | null => .null
  | bool value => .bool value
  | number value => .number value
  | string value => .string value
  | array items => .array (parsedItems items) true
  | object members => .object (parsedMembers members) true

/-- The trees of the items of an array. -/
def parsedItems : List Json → List Parsed
  | [] => []
  | item :: items => item.parsed :: parsedItems items

/-- The trees of the members of an object. -/
def parsedMembers : List (String × Json) → List (Option String × Parsed)
  | [] => []
  | (key, value) :: members => (some key, value.parsed) :: parsedMembers members

end

end Json

end TradeIn
