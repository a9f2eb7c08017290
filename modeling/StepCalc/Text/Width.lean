import StepCalc.Text.Joining

/-!
# Display width

How many columns of a terminal a text takes: two for the wide characters of East
Asian scripts and for pictures, none for marks, jamo that complete a syllable and
invisible characters, one for all others, control characters included.

Some characters count differently before certain others: a selector changes the
width of a picture, and a skin tone, a joiner or a tag makes one picture of several.
So a text is measured from its end, and with the width goes what the next character
to the left has at its right.
-/

namespace StepCalc.Text

/-- Characters two columns wide. -/
def wide : CharSet :=
  ⟨#[(0x1100, 0x115F), (0x231A, 0x231B), (0x2329, 0x232A), (0x23E9, 0x23EC), (0x23F0, 0x23F0),
    (0x23F3, 0x23F3), (0x25FD, 0x25FE), (0x2614, 0x2615), (0x2630, 0x2637), (0x2648, 0x2653),
    (0x267F, 0x267F), (0x268A, 0x268F), (0x2693, 0x2693), (0x26A1, 0x26A1), (0x26AA, 0x26AB),
    (0x26BD, 0x26BE), (0x26C4, 0x26C5), (0x26CE, 0x26CE), (0x26D4, 0x26D4), (0x26EA, 0x26EA),
    (0x26F2, 0x26F3), (0x26F5, 0x26F5), (0x26FA, 0x26FA), (0x26FD, 0x26FD), (0x2705, 0x2705),
    (0x270A, 0x270B), (0x2728, 0x2728), (0x274C, 0x274C), (0x274E, 0x274E), (0x2753, 0x2755),
    (0x2757, 0x2757), (0x2795, 0x2797), (0x27B0, 0x27B0), (0x27BF, 0x27BF), (0x2B1B, 0x2B1C),
    (0x2B50, 0x2B50), (0x2B55, 0x2B55), (0x2E80, 0x2E99), (0x2E9B, 0x2EF3), (0x2F00, 0x2FD5),
    (0x2FF0, 0x303E), (0x3041, 0x3096), (0x3099, 0x30FF), (0x3105, 0x312F), (0x3131, 0x318E),
    (0x3190, 0x31E5), (0x31EF, 0x321E), (0x3220, 0x3247), (0x3250, 0xA48C), (0xA490, 0xA4C6),
    (0xA960, 0xA97C), (0xAC00, 0xD7A3), (0xF900, 0xFAFF), (0xFE10, 0xFE19), (0xFE30, 0xFE52),
    (0xFE54, 0xFE66), (0xFE68, 0xFE6B), (0xFF01, 0xFF60), (0xFFE0, 0xFFE6), (0x16FE0, 0x16FE4),
    (0x16FF0, 0x16FF1), (0x17000, 0x187F7), (0x18800, 0x18CD5), (0x18CFF, 0x18D08),
    (0x1AFF0, 0x1AFF3), (0x1AFF5, 0x1AFFB), (0x1AFFD, 0x1AFFE), (0x1B000, 0x1B122),
    (0x1B132, 0x1B132), (0x1B150, 0x1B152), (0x1B155, 0x1B155), (0x1B164, 0x1B167),
    (0x1B170, 0x1B2FB), (0x1D300, 0x1D356), (0x1D360, 0x1D376), (0x1F004, 0x1F004),
    (0x1F0CF, 0x1F0CF), (0x1F18E, 0x1F18E), (0x1F191, 0x1F19A), (0x1F200, 0x1F202),
    (0x1F210, 0x1F23B), (0x1F240, 0x1F248), (0x1F250, 0x1F251), (0x1F260, 0x1F265),
    (0x1F300, 0x1F320), (0x1F32D, 0x1F335), (0x1F337, 0x1F37C), (0x1F37E, 0x1F393),
    (0x1F3A0, 0x1F3CA), (0x1F3CF, 0x1F3D3), (0x1F3E0, 0x1F3F0), (0x1F3F4, 0x1F3F4),
    (0x1F3F8, 0x1F43E), (0x1F440, 0x1F440), (0x1F442, 0x1F4FC), (0x1F4FF, 0x1F53D),
    (0x1F54B, 0x1F54E), (0x1F550, 0x1F567), (0x1F57A, 0x1F57A), (0x1F595, 0x1F596),
    (0x1F5A4, 0x1F5A4), (0x1F5FB, 0x1F64F), (0x1F680, 0x1F6C5), (0x1F6CC, 0x1F6CC),
    (0x1F6D0, 0x1F6D2), (0x1F6D5, 0x1F6D7), (0x1F6DC, 0x1F6DF), (0x1F6EB, 0x1F6EC),
    (0x1F6F4, 0x1F6FC), (0x1F7E0, 0x1F7EB), (0x1F7F0, 0x1F7F0), (0x1F90C, 0x1F93A),
    (0x1F93C, 0x1F945), (0x1F947, 0x1F9FF), (0x1FA70, 0x1FA7C), (0x1FA80, 0x1FA89),
    (0x1FA8F, 0x1FAC6), (0x1FACE, 0x1FADC), (0x1FADF, 0x1FAE9), (0x1FAF0, 0x1FAF8),
    (0x20000, 0x2FFFD), (0x30000, 0x3FFFD)]⟩

/-- Extending marks that take columns all the same. -/
def wideMarks : CharSet :=
  ⟨#[(0x1ACF, 0x1ADD), (0x1AE0, 0x1AEB), (0x2D7F, 0x2D7F), (0x10EFA, 0x10EFB), (0x11B60, 0x11B60),
    (0x11B62, 0x11B64), (0x11B66, 0x11B66), (0x1E6E3, 0x1E6E3), (0x1E6E6, 0x1E6E6),
    (0x1E6EE, 0x1E6EF), (0x1E6F5, 0x1E6F5), (0x1F3FB, 0x1F3FF)]⟩

/-- Characters without width that are no extending marks. -/
def invisible : CharSet :=
  ⟨#[(0x00AD, 0x00AD), (0x0605, 0x0605), (0x061C, 0x061C), (0x070F, 0x070F), (0x0890, 0x0891),
    (0x08E2, 0x08E2), (0x0D4E, 0x0D4E), (0x1160, 0x11FF), (0x180E, 0x180E), (0x200B, 0x200B),
    (0x200D, 0x200F), (0x202A, 0x202E), (0x2060, 0x206F), (0x3164, 0x3164), (0xA8FA, 0xA8FA),
    (0xD7B0, 0xD7C6), (0xD7CB, 0xD7FB), (0xFEFF, 0xFEFF), (0xFFA0, 0xFFA0), (0xFFF0, 0xFFF8),
    (0x111C2, 0x111C3), (0x113D1, 0x113D1), (0x1193F, 0x1193F), (0x11941, 0x11941),
    (0x11A84, 0x11A89), (0x11D46, 0x11D46), (0x11F02, 0x11F02), (0x1BCA0, 0x1BCA3),
    (0x1D173, 0x1D17A), (0xE0000, 0xE001F), (0xE0080, 0xE00FF), (0xE01F0, 0xE0FFF)]⟩

/-- Letters that a sign before them puts below the letter before. -/
def subscripts : CharSet :=
  ⟨#[(0x1780, 0x1782), (0x1784, 0x1787), (0x1789, 0x178C), (0x178E, 0x1793), (0x1795, 0x1798),
    (0x179B, 0x179D), (0x17A0, 0x17A0), (0x17A2, 0x17A2), (0x17A7, 0x17A7), (0x17AB, 0x17AC),
    (0x17AF, 0x17AF)]⟩

/-- The code point of the sign that puts a letter below the one before. -/
def subscriptSign : Nat := 0x17D2

/-- Characters that may stand between the sign and the letter that it puts below. -/
def isTransparent (c : Char) : Bool :=
  let n := c.toNat
  n == 0x34F || n == 0x17B4 || n == 0x17B5 || (decide (0x180B ≤ n) && decide (n ≤ 0x180D)) ||
    n == 0x180F || n == 0x200D || (decide (0xFE00 ≤ n) && decide (n ≤ 0xFE0F)) ||
    (decide (0xE0100 ≤ n) && decide (n ≤ 0xE01EF))

/-- The width of a character by itself. -/
def charWidth (c : Char) : Nat :=
  let n := c.toNat
  if n < 0x300 then if n == 0xAD then 0 else 1
  else if n == 0x17D8 then 3
  else if n == 0x17A4 || n == 0x115F then 2
  else if invisible.contains c then 0
  else if Joining.extenders.contains c && !wideMarks.contains c then 0
  else if wide.contains c then 2
  else 1

/-- What stands at the right of a character, as far as it bears on widths. -/
inductive Following where
  | plain
  | lineFeed
  | textSelector
  | pictureSelector
  | picture
  | skinTone
  /-- A letter of a flag, the first from the right. -/
  | regional
  | regionals
  /-- A joiner and a picture. -/
  | joined
  /-- A selector, a joiner and a picture. -/
  | joinedSelector
  /-- The frame of a key, a joiner and a picture. -/
  | joinedKey
  | joinedKeySelector
  /-- Tags up to the last one, a joiner and a picture: digits, and letters after them. -/
  | joinedTags (digits letters : Nat)
  | subscript
  /-- Vowel signs that are written as one with others before them. -/
  | vowelE
  | vowelAI
  deriving DecidableEq, Repr

/-- The width of a character that nothing at its right changes, and what it is to the
character before it. -/
def alone (c : Char) : Nat × Following :=
  if c = Emoji.textSelector then (0, .textSelector)
  else if c = Emoji.pictureSelector then (0, .pictureSelector)
  else if Emoji.isRegional c then (1, .regional)
  else if Emoji.isSkinTone c then (2, .skinTone)
  else if Emoji.presentation.contains c then (2, .picture)
  else if subscripts.contains c then (1, .subscript)
  else if c.toNat = 0x16D67 then (1, .vowelE)
  else if c.toNat = 0x16D68 then (1, .vowelAI)
  else (charWidth c, .plain)

/-- What a tag or a flag makes of the tags at its right: a flag takes three to six
letters, or at most four of them after three digits. None if there is no such flag. -/
def joinTag (c : Char) (digits letters : Nat) : Option Following :=
  if Emoji.isTagLetter c then
    if digits = 0 ∧ letters < 6 then some (.joinedTags 0 (letters + 1)) else none
  else if Emoji.isTagDigit c then
    if letters ≤ 4 ∧ digits < 3 then some (.joinedTags (digits + 1) letters) else none
  else if c = Emoji.taggedFlag then
    if digits = 3 ∨ digits = 0 ∧ 3 ≤ letters then some .picture else none
  else none

/-- What a character becomes together with what is at its right: the columns that it
adds, less those that it saves, and what both are to the character before. None if
it does not combine. -/
def combine (c : Char) : Following → Option (Nat × Nat × Following)
  | .pictureSelector => if Emoji.selectable.contains c then some (2, 0, .picture) else none
  | .joinedSelector | .joinedKeySelector =>
    if Emoji.selectable.contains c then some (0, 0, .picture) else none
  | .lineFeed => if c = '\r' then some (0, 0, .plain) else none
  | .textSelector => if Emoji.isNarrowAsText c then some (1, 0, .plain) else none
  | .skinTone =>
    if c = Emoji.joiner then some (0, 0, .joined)
    else if Emoji.toned.contains c then some (0, 0, .picture)
    else none
  | .picture => if c = Emoji.joiner then some (0, 0, .joined) else none
  | .regional => if Emoji.isRegional c then some (1, 0, .regionals) else none
  | .regionals =>
    if Emoji.isRegional c then some (1, 0, .regionals)
    else if c = Emoji.joiner then some (0, 0, .joined)
    else none
  | .joined =>
    if c = Emoji.pictureSelector then some (0, 0, .joinedSelector)
    else if c.toNat = 0x20E3 then some (0, 0, .joinedKey)
    else if Emoji.isSkinTone c then some (0, 0, .skinTone)
    else if c = Emoji.cancelTag then some (0, 0, .joinedTags 0 0)
    else if Emoji.presentation.contains c then some (0, 0, .picture)
    else none
  | .joinedKey => if c = Emoji.pictureSelector then some (0, 0, .joinedKeySelector) else none
  | .joinedTags digits letters => (joinTag c digits letters).map (0, 0, ·)
  | .subscript =>
    if c.toNat = subscriptSign then some (0, 1, .plain)
    else if isTransparent c then some (0, 0, .subscript)
    else none
  | .vowelE =>
    if c.toNat = 0x16D63 || c.toNat = 0x16D69 then some (0, 0, .plain)
    else if c.toNat = 0x16D67 then some (0, 0, .vowelAI)
    else if c.toNat = 0x16D68 then some (1, 0, .vowelE)
    else none
  | .vowelAI => if c.toNat = 0x16D63 then some (0, 0, .plain) else none
  | .plain => none

/-- Measures a character in front of a text that is measured already. -/
def measure (c : Char) (text : Nat × Following) : Nat × Following :=
  match combine c text.2 with
  | some (more, less, next) => (text.1 + more - less, next)
  | none =>
    if c = '\n' then (text.1, .lineFeed)
    else
      let (w, next) := alone c
      (text.1 + w, next)

/-- The number of columns that a text takes. -/
def width (s : String) : Nat :=
  (s.toList.foldr measure (0, .plain)).1

/-- Fills up with blanks at the right to at least `n` characters. -/
def padRight (n : Nat) (s : String) : String :=
  s ++ String.ofList (List.replicate (n - s.length) ' ')

end StepCalc.Text
