import MemoryTrial.Text.Combining
import MemoryTrial.Text.Unassigned

/-! Characters that a reader would not see for themselves: those without a shape of their own, and
those that are drawn as part of the character before.  The tables are those of Unicode 17.0. -/

namespace MemoryTrial.Text

/-- Control characters: the category `Cc`. -/
def controlRanges : CodeRanges := [(0x0, 0x1f), (0x7f, 0x9f)]

/-- Format characters: the category `Cf`. -/
def formatRanges : CodeRanges :=
  [(0xad, 0xad), (0x600, 0x605), (0x61c, 0x61c), (0x6dd, 0x6dd), (0x70f, 0x70f), (0x890, 0x891),
   (0x8e2, 0x8e2), (0x180e, 0x180e), (0x200b, 0x200f), (0x202a, 0x202e), (0x2060, 0x2064),
   (0x2066, 0x206f), (0xfeff, 0xfeff), (0xfff9, 0xfffb), (0x110bd, 0x110bd), (0x110cd, 0x110cd),
   (0x13430, 0x1343f), (0x1bca0, 0x1bca3), (0x1d173, 0x1d17a), (0xe0001, 0xe0001),
   (0xe0020, 0xe007f)]

/-- Characters for private use: the category `Co`. -/
def privateUseRanges : CodeRanges := [(0xe000, 0xf8ff), (0xf0000, 0xffffd), (0x100000, 0x10fffd)]

/-- Spaces and separators other than the plain space: the categories `Zs`, `Zl` and `Zp`. -/
def separatorRanges : CodeRanges :=
  [(0xa0, 0xa0), (0x1680, 0x1680), (0x2000, 0x200a), (0x2028, 0x2029), (0x202f, 0x202f),
   (0x205f, 0x205f), (0x3000, 0x3000)]

/-- Code points that are not drawn where they are not supported: the property
`Default_Ignorable_Code_Point`. -/
def ignorableRanges : CodeRanges :=
  [(0xad, 0xad), (0x34f, 0x34f), (0x61c, 0x61c), (0x115f, 0x1160), (0x17b4, 0x17b5),
   (0x180b, 0x180f), (0x200b, 0x200f), (0x202a, 0x202e), (0x2060, 0x206f), (0x3164, 0x3164),
   (0xfe00, 0xfe0f), (0xfeff, 0xfeff), (0xffa0, 0xffa0), (0xfff0, 0xfff8), (0x1bca0, 0x1bca3),
   (0x1d173, 0x1d17a), (0xe0000, 0xe0fff)]

/-- Whether a character would not be seen for itself. -/
def isHidden (c : Char) : Bool :=
  [controlRanges, formatRanges, privateUseRanges, separatorRanges, ignorableRanges,
    combiningRanges, unassignedRanges].any fun rs => rs.covers c.toNat

end MemoryTrial.Text
