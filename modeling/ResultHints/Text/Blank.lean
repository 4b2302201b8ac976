import ResultHints.Text.CharSet

/-!
# Blanks

The characters with the Unicode property `White_Space`: the ASCII blanks from
the tabulator to the carriage return, the space, and the line, paragraph and
space separators beyond ASCII.
-/

namespace ResultHints

/-- The blanks beyond ASCII. -/
def wideBlanks : CharSet := ⟨
  [0x85, 0x86, 0xA0, 0xA1, 0x1680, 0x1681, 0x2000, 0x200B, 0x2028, 0x202A, 0x202F, 0x2030,
   0x205F, 0x2060, 0x3000, 0x3001]⟩

/-- Whether a character is white space. -/
def isBlank (c : Char) : Bool :=
  if c.toNat < 0x80 then c == ' ' || (9 ≤ c.toNat && c.toNat ≤ 13) else wideBlanks.mem c

end ResultHints
