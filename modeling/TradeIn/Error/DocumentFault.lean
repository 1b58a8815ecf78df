import TradeIn.Text.Digits

/-!
# Faults in documents

A fault in the text of a document has a description and perhaps a place, written after it: `key must be a string at
line 1 column 2`. Lines are counted from one, so line zero stands for a fault without a place. `DocumentFault.ofText`
reads a fault back from its text: a place at the end of the text is taken for the place of the fault.
-/

namespace TradeIn

/-- A place in the text of a document. -/
structure DocumentPlace where
  line : UInt64
  column : UInt64
  deriving DecidableEq, Repr

/-- A fault in the text of a document. -/
structure DocumentFault where
  description : String
  /-- Where the fault is, if that is known. -/
  place : Option DocumentPlace
  deriving DecidableEq, Repr

namespace DocumentFault

/-- A fault without a place. -/
def ofDescription (description : String) : DocumentFault := ⟨description, none⟩

/-- The fault of a document in one line, in a place where arrays and objects are nested too deep. -/
def tooDeep (column : Nat) : DocumentFault := ⟨"recursion limit exceeded", some ⟨1, .ofNat column⟩⟩

/-- The fault in words. -/
def text (fault : DocumentFault) : String :=
  match fault.place with
  | none => fault.description
  | some place => s!"{fault.description} at line {place.line} column {place.column}"

/-- The number of at most 64 bits that ends a text, and what stands before it. Both texts are reversed. -/
def numberAtEnd? (reversed : List Char) : Option (UInt64 × List Char) := do
  let n ← Text.natOfDigits? (reversed.takeWhile Char.isDigit).reverse
  if n < 2 ^ 64 then some (UInt64.ofNat n, reversed.dropWhile Char.isDigit) else none

/-- What stands before a word that ends a text. Both texts are reversed. -/
def beforeWord? (word : String) (reversed : List Char) : Option (List Char) :=
  let letters := word.toList.reverse
  if reversed.take letters.length = letters then some (reversed.drop letters.length) else none

/-- The description and the place that a text holds, if it ends with a place. -/
def split? (text : String) : Option (String × DocumentPlace) := do
  let (column, rest) ← numberAtEnd? text.toList.reverse
  let rest ← beforeWord? " column " rest
  let (line, rest) ← numberAtEnd? rest
  let rest ← beforeWord? " at line " rest
  return (String.ofList rest.reverse, ⟨line, column⟩)

/-- The fault that a text describes. -/
def ofText (text : String) : DocumentFault :=
  match split? text with
  | some (description, place) => ⟨description, if place.line = 0 then none else some place⟩
  | none => ofDescription text

/-- A text that does not end with a digit names no place. -/
theorem ofText_eq_ofDescription {text : String} (h : text.toList.getLast?.any Char.isDigit = false) :
    ofText text = ofDescription text := by
  have hdigits : text.toList.reverse.takeWhile Char.isDigit = [] := by
    rw [← List.head?_reverse] at h
    cases hrev : text.toList.reverse with
    | nil => rfl
    | cons c cs =>
      rw [hrev] at h
      simp_all
  simp [ofText, split?, numberAtEnd?, hdigits, Text.natOfDigits?]

end DocumentFault

end TradeIn
