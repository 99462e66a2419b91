/-!
# Quoted text

A string literal is written between double quotes. A quote and a backslash are
escaped, the usual control characters have short names, and a character that
shows nothing of its own, or that would join the character before it, is
written by its code point.

The tables of such characters are not complete. Two kinds are left out: the
combining marks of single scripts, as U+0483, and the code points that stand for
no character, as U+0378. They are written as they are, so for a text that has one
of them the form given here is not the one that a complete table would give.
-/

namespace ClassTrim.Text.Quoted

/-- A range of code points, both ends included. -/
abbrev Range := Nat × Nat

/-- The control characters. -/
def controls : List Range := [(0x0000, 0x001F), (0x007F, 0x009F)]

/-- The separators of words, lines and paragraphs, other than the space. -/
def separators : List Range :=
  [(0x00A0, 0x00A0), (0x1680, 0x1680), (0x2000, 0x200A), (0x2028, 0x2029), (0x202F, 0x202F),
   (0x205F, 0x205F), (0x3000, 0x3000)]

/-- The format characters: they steer the text around them and show nothing. -/
def formats : List Range :=
  [(0x00AD, 0x00AD), (0x0600, 0x0605), (0x061C, 0x061C), (0x06DD, 0x06DD), (0x070F, 0x070F),
   (0x0890, 0x0891), (0x08E2, 0x08E2), (0x180E, 0x180E), (0x200B, 0x200F), (0x202A, 0x202E),
   (0x2060, 0x2064), (0x2066, 0x206F), (0xFEFF, 0xFEFF), (0xFFF9, 0xFFFB), (0x110BD, 0x110BD),
   (0x110CD, 0x110CD), (0x13430, 0x1343F), (0x1BCA0, 0x1BCA3), (0x1D173, 0x1D17A),
   (0xE0001, 0xE0001), (0xE0020, 0xE007F)]

/-- The code points left to private use. -/
def privateUse : List Range := [(0xE000, 0xF8FF), (0xF0000, 0xFFFFD), (0x100000, 0x10FFFD)]

/-- The combining marks and variation selectors that belong to no one script:
they join the character before them. -/
def combining : List Range :=
  [(0x0300, 0x036F), (0x1AB0, 0x1ACE), (0x1DC0, 0x1DFF), (0x20D0, 0x20F0), (0xFE00, 0xFE0F),
   (0xFE20, 0xFE2F), (0xE0100, 0xE01EF)]

/-- Whether a character is written by its code point. Marks of single scripts and
unassigned code points are not in the tables. -/
def isHidden (c : Char) : Bool :=
  (controls ++ separators ++ formats ++ privateUse ++ combining).any fun (first, last) =>
    first ≤ c.toNat && c.toNat ≤ last

/-- The written form of one character. -/
def escape (c : Char) : String :=
  if c = '"' then "\\\""
  else if c = '\\' then "\\\\"
  else if c = '\t' then "\\t"
  else if c = '\n' then "\\n"
  else if c = '\r' then "\\r"
  else if c.toNat = 0 then "\\0"
  else if isHidden c then
    "\\u\x7b" ++ String.ofList (Nat.toDigits 16 c.toNat) ++ "\x7d"
  else c.toString

/-- The literal of a text. -/
def render (text : String) : String :=
  "\"" ++ String.join (text.toList.map escape) ++ "\""

end ClassTrim.Text.Quoted
