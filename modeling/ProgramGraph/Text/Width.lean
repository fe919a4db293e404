import ProgramGraph.Text.Combining
import ProgramGraph.Text.Emoji

set_option autoImplicit false

/-!
# Columns

How many columns of a terminal a line takes. East Asian wide characters take two, characters that
join others or do not show take none, and all others take one. A picture takes two, however many
characters it is put together from.

## Main definitions

* `ProgramGraph.Text.columnsOf` — the columns of a character by itself.
* `ProgramGraph.Text.columns` — the columns of a line.
-/

namespace ProgramGraph.Text

/-! ## Characters -/

/-- The code points whose `East_Asian_Width` is wide or full. -/
def wide : List (Nat × Nat) :=
  [(0x1100, 0x115F), (0x231A, 0x231B), (0x2329, 0x232A), (0x23E9, 0x23EC), (0x23F0, 0x23F0),
   (0x23F3, 0x23F3), (0x25FD, 0x25FE), (0x2614, 0x2615), (0x2630, 0x2637), (0x2648, 0x2653),
   (0x267F, 0x267F), (0x268A, 0x268F), (0x2693, 0x2693), (0x26A1, 0x26A1), (0x26AA, 0x26AB),
   (0x26BD, 0x26BE), (0x26C4, 0x26C5), (0x26CE, 0x26CE), (0x26D4, 0x26D4), (0x26EA, 0x26EA),
   (0x26F2, 0x26F3), (0x26F5, 0x26F5), (0x26FA, 0x26FA), (0x26FD, 0x26FD), (0x2705, 0x2705),
   (0x270A, 0x270B), (0x2728, 0x2728), (0x274C, 0x274C), (0x274E, 0x274E), (0x2753, 0x2755),
   (0x2757, 0x2757), (0x2795, 0x2797), (0x27B0, 0x27B0), (0x27BF, 0x27BF), (0x2B1B, 0x2B1C),
   (0x2B50, 0x2B50), (0x2B55, 0x2B55), (0x2E80, 0x2E99), (0x2E9B, 0x2EF3), (0x2F00, 0x2FD5),
   (0x2FF0, 0x303E), (0x3041, 0x3096), (0x3099, 0x30FF), (0x3105, 0x312F), (0x3131, 0x318E),
   (0x3190, 0x31E5), (0x31EF, 0x321E), (0x3220, 0x3247), (0x3250, 0xA48C), (0xA490, 0xA4C6),
   (0xA960, 0xA97C), (0xAC00, 0xD7A3), (0xF900, 0xFAFF), (0xFE10, 0xFE19), (0xFE30, 0xFE52),
   (0xFE54, 0xFE66), (0xFE68, 0xFE6B), (0xFF01, 0xFF60), (0xFFE0, 0xFFE6), (0x16FE0, 0x16FE4),
   (0x16FF0, 0x16FF1), (0x17000, 0x187F7), (0x18800, 0x18CD5), (0x18CFF, 0x18D08),
   (0x1AFF0, 0x1AFF3), (0x1AFF5, 0x1AFFB), (0x1AFFD, 0x1AFFE), (0x1B000, 0x1B122),
   (0x1B132, 0x1B132), (0x1B150, 0x1B152), (0x1B155, 0x1B155), (0x1B164, 0x1B167),
   (0x1B170, 0x1B2FB), (0x1D300, 0x1D356), (0x1D360, 0x1D376), (0x1F004, 0x1F004),
   (0x1F0CF, 0x1F0CF), (0x1F18E, 0x1F18E), (0x1F191, 0x1F19A), (0x1F200, 0x1F202),
   (0x1F210, 0x1F23B), (0x1F240, 0x1F248), (0x1F250, 0x1F251), (0x1F260, 0x1F265),
   (0x1F300, 0x1F320), (0x1F32D, 0x1F335), (0x1F337, 0x1F37C), (0x1F37E, 0x1F393),
   (0x1F3A0, 0x1F3CA), (0x1F3CF, 0x1F3D3), (0x1F3E0, 0x1F3F0), (0x1F3F4, 0x1F3F4),
   (0x1F3F8, 0x1F43E), (0x1F440, 0x1F440), (0x1F442, 0x1F4FC), (0x1F4FF, 0x1F53D),
   (0x1F54B, 0x1F54E), (0x1F550, 0x1F567), (0x1F57A, 0x1F57A), (0x1F595, 0x1F596),
   (0x1F5A4, 0x1F5A4), (0x1F5FB, 0x1F64F), (0x1F680, 0x1F6C5), (0x1F6CC, 0x1F6CC),
   (0x1F6D0, 0x1F6D2), (0x1F6D5, 0x1F6D7), (0x1F6DC, 0x1F6DF), (0x1F6EB, 0x1F6EC),
   (0x1F6F4, 0x1F6FC), (0x1F7E0, 0x1F7EB), (0x1F7F0, 0x1F7F0), (0x1F90C, 0x1F93A),
   (0x1F93C, 0x1F945), (0x1F947, 0x1F9FF), (0x1FA70, 0x1FA7C), (0x1FA80, 0x1FA89),
   (0x1FA8F, 0x1FAC6), (0x1FACE, 0x1FADC), (0x1FADF, 0x1FAE9), (0x1FAF0, 0x1FAF8),
   (0x20000, 0x2FFFD), (0x30000, 0x3FFFD)]

/-- The code points of the property `Default_Ignorable_Code_Point`. -/
def ignorable : List (Nat × Nat) :=
  [(0xAD, 0xAD), (0x34F, 0x34F), (0x61C, 0x61C), (0x115F, 0x1160), (0x17B4, 0x17B5),
   (0x180B, 0x180F), (0x200B, 0x200F), (0x202A, 0x202E), (0x2060, 0x206F), (0x3164, 0x3164),
   (0xFE00, 0xFE0F), (0xFEFF, 0xFEFF), (0xFFA0, 0xFFA0), (0xFFF0, 0xFFF8), (0x1BCA0, 0x1BCA3),
   (0x1D173, 0x1D17A), (0xE0000, 0xE0FFF)]

/-- Vowels and final consonants of Hangul syllables, and signs that number what follows. -/
def attached : List (Nat × Nat) :=
  [(0x605, 0x605), (0x70F, 0x70F), (0x890, 0x891), (0x8E2, 0x8E2), (0x1160, 0x11FF),
   (0xA8FA, 0xA8FA), (0xD7B0, 0xD7C6), (0xD7CB, 0xD7FB)]

/-- Whether a character is a control character. -/
def isControl (c : Char) : Bool := c.toNat < 0x20 || (0x7F ≤ c.toNat && c.toNat < 0xA0)

/-- Whether a character takes no column of its own. The filler for a missing initial consonant is
ignorable and takes its place nevertheless. -/
def isZeroWidth (c : Char) : Bool :=
  c.toNat ≠ 0x115F &&
    (isControl c || isCombining c || inRanges ignorable c || inRanges attached c)

/-- The columns of a character by itself. -/
def columnsOf (c : Char) : Nat :=
  if ' ' ≤ c && c ≤ '~' then 1
  else if isZeroWidth c then 0
  else if inRanges wide c then 2
  else 1

/-! ## Lines -/

/-- Asks for the picture that the character before it stands for. -/
def pictureSelector : Char := '\uFE0F'

/-- Joins two pictures into one. -/
def joiner : Char := '\u200D'

/-- Whether a character stands for a picture even if nothing asks for it. -/
def isPicture (c : Char) : Bool := isEmoji c && columnsOf c = 2

/-- Whether a character becomes a picture through the one behind it. -/
def makesPicture (c behind : Char) : Bool :=
  (behind = pictureSelector && isEmoji c) || (isTone behind && isToneable c)

mutual

/-- The columns of characters. If they are joined to a picture, a picture at their start takes no
columns. -/
def columnsFrom (joined : Bool) : List Char → Nat
  | [] => 0
  | [c] => if joined && isPicture c then 0 else columnsOf c
  | c :: behind :: rest =>
    if makesPicture c behind then (if joined then 0 else 2) + columnsBehindPicture rest
    else if isPicture c then (if joined then 0 else 2) + columnsBehindPicture (behind :: rest)
    else columnsOf c + columnsFrom false (behind :: rest)

/-- The columns of the characters behind a picture. -/
def columnsBehindPicture : List Char → Nat
  | [] => 0
  | c :: rest => if c = joiner then columnsFrom true rest else columnsFrom false (c :: rest)

end

/-- The columns of a line. -/
def columns (line : String) : Nat := columnsFrom false line.toList

end ProgramGraph.Text
