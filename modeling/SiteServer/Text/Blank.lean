/-! # White space: the Unicode property, and cutting it off the ends of a text. -/

namespace SiteServer.Text

/-- The code points with the property White_Space, as inclusive ranges in increasing order. -/
def blankRanges : List (Nat × Nat) :=
  [(0x09, 0x0D), (0x20, 0x20), (0x85, 0x85), (0xA0, 0xA0), (0x1680, 0x1680), (0x2000, 0x200A),
   (0x2028, 0x2029), (0x202F, 0x202F), (0x205F, 0x205F), (0x3000, 0x3000)]

/-- A character is blank when it has the property White_Space. -/
def isBlank (c : Char) : Bool :=
  blankRanges.any fun (low, high) => low ≤ c.toNat && c.toNat ≤ high

def trimLeft (text : List Char) : List Char :=
  text.dropWhile isBlank

def blanksLeft (text : List Char) : List Char :=
  text.takeWhile isBlank

theorem blanksLeft_append_trimLeft (text : List Char) : blanksLeft text ++ trimLeft text = text :=
  List.takeWhile_append_dropWhile

def trim (text : List Char) : List Char :=
  (trimLeft (trimLeft text).reverse).reverse

/-- Nothing blank is left at the start. -/
theorem head?_trimLeft_not_blank {text : List Char} {c : Char}
    (h : (trimLeft text).head? = some c) : isBlank c = false := by
  induction text with
  | nil => simp [trimLeft] at h
  | cons d rest ih =>
    by_cases hd : isBlank d
    · exact ih (by simpa [trimLeft, hd] using h)
    · simp [trimLeft, hd] at h
      simpa [← h] using hd

theorem trimLeft_length_le (text : List Char) : (trimLeft text).length ≤ text.length :=
  (List.dropWhile_sublist isBlank).length_le

end SiteServer.Text
