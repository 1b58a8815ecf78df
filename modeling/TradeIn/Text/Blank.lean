/-!
# White space

A character is blank when it has the Unicode property `White_Space`. Names and numbers are read without the
blanks around them, and a text of blanks alone counts as missing.
-/

namespace TradeIn.Text

/-- The ranges of code points that are white space. -/
def blankRanges : List (UInt32 × UInt32) :=
  [(0x09, 0x0D), (0x20, 0x20), (0x85, 0x85), (0xA0, 0xA0), (0x1680, 0x1680), (0x2000, 0x200A),
    (0x2028, 0x2029), (0x202F, 0x202F), (0x205F, 0x205F), (0x3000, 0x3000)]

/-- Whether a character is white space. -/
def isBlank (c : Char) : Bool := blankRanges.any fun range => range.1 ≤ c.val && c.val ≤ range.2

/-- The characters without the blanks at both ends. -/
def trimChars (cs : List Char) : List Char := ((cs.dropWhile isBlank).reverse.dropWhile isBlank).reverse

/-- The text without the blanks at both ends. -/
def trim (s : String) : String := String.ofList (trimChars s.toList)

/-- Whether a text is empty or holds blanks alone. -/
def isAllBlank (s : String) : Bool := s.toList.all isBlank

/-- Of the characters in front, only those of the kind that is dropped are lost. -/
theorem eq_true_or_mem_dropWhile {p : Char → Bool} {c : Char} {cs : List Char} (h : c ∈ cs) :
    p c = true ∨ c ∈ cs.dropWhile p := by
  have hsplit : cs.takeWhile p ++ cs.dropWhile p = cs := List.takeWhile_append_dropWhile
  rw [← hsplit] at h
  rcases List.mem_append.1 h with htaken | hdropped
  · exact .inl (List.all_eq_true.1 List.all_takeWhile c htaken)
  · exact .inr hdropped

/-- Trimming leaves no blank text of one that is not blank. -/
theorem isAllBlank_trim {s : String} (h : isAllBlank s = false) : isAllBlank (trim s) = false := by
  have hkept : ∀ {c : Char} {cs : List Char}, isBlank c = false → c ∈ cs → c ∈ cs.dropWhile isBlank := by
    intro c cs hc hmem
    exact (eq_true_or_mem_dropWhile hmem).resolve_left (by simp [hc])
  obtain ⟨c, hmem, hc⟩ : ∃ c ∈ s.toList, isBlank c = false := by simpa [isAllBlank] using h
  have hmem : c ∈ trimChars s.toList :=
    List.mem_reverse.2 (hkept hc (List.mem_reverse.2 (hkept hc hmem)))
  simpa [isAllBlank, trim] using ⟨c, hmem, hc⟩

end TradeIn.Text
