namespace GridLookup

/-!
# Blanks

* `isBlank` — the characters with the White_Space property.
* `trim` — a text without the blanks around it.
* `fields` — the runs of a text between separators.
-/

/-- The ranges of characters with the White_Space property. -/
def blankRanges : List (Nat × Nat) :=
  [(0x09, 0x0d), (0x20, 0x20), (0x85, 0x85), (0xa0, 0xa0), (0x1680, 0x1680), (0x2000, 0x200a),
   (0x2028, 0x2029), (0x202f, 0x202f), (0x205f, 0x205f), (0x3000, 0x3000)]

/-- A character with the White_Space property. -/
def isBlank (c : Char) : Bool :=
  blankRanges.any fun (first, last) => first ≤ c.toNat && c.toNat ≤ last

/-- A text without the blanks at its ends. -/
def trim (text : List Char) : List Char :=
  ((text.dropWhile isBlank).reverse.dropWhile isBlank).reverse

/-- The non-empty runs of characters between those that separate. -/
def fields (separates : Char → Bool) (text : List Char) : List (List Char) :=
  (text.splitOnP separates).filter fun field => !field.isEmpty

end GridLookup
