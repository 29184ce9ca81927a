import GoMend.Text.CodeSet
import GoMend.Unicode.Letter

/-!
# Digits and other numerals

Three nested classes.  A *decimal* has a place value from zero to nine, a *digit* is a decimal or
one of the superscript, circled and similar forms of a digit, and a *numeral* is a digit or any
other character that stands for a number, such as a fraction or a Roman numeral.
-/

namespace GoMend

namespace Text

/-- The decimals.  Every run holds whole sets of ten characters in the order of their values. -/
def decimalSet : CodeSet :=
  ⟨[
    48, 58, 1632, 1642, 1776, 1786, 1984, 1994, 2406, 2416, 2534, 2544, 2662, 2672, 2790, 2800,
    2918, 2928, 3046, 3056, 3174, 3184, 3302, 3312, 3430, 3440, 3558, 3568, 3664, 3674, 3792,
    3802, 3872, 3882, 4160, 4170, 4240, 4250, 6112, 6122, 6160, 6170, 6470, 6480, 6608, 6618,
    6784, 6794, 6800, 6810, 6992, 7002, 7088, 7098, 7232, 7242, 7248, 7258, 42528, 42538, 43216,
    43226, 43264, 43274, 43472, 43482, 43504, 43514, 43600, 43610, 44016, 44026, 65296, 65306,
    66720, 66730, 68912, 68922, 69734, 69744, 69872, 69882, 69942, 69952, 70096, 70106, 70384,
    70394, 70736, 70746, 70864, 70874, 71248, 71258, 71360, 71370, 71472, 71482, 71904, 71914,
    72016, 72026, 72784, 72794, 73040, 73050, 73120, 73130, 92768, 92778, 92864, 92874, 93008,
    93018, 120782, 120832, 123200, 123210, 123632, 123642, 125264, 125274, 130032, 130042]⟩

/-- The digits that are not decimals. -/
def digitFormSet : CodeSet :=
  ⟨[
    178, 180, 185, 186, 4969, 4978, 6618, 6619, 8304, 8305, 8308, 8314, 8320, 8330, 9312, 9321,
    9332, 9341, 9352, 9361, 9450, 9451, 9461, 9470, 9471, 9472, 10102, 10111, 10112, 10121,
    10122, 10131, 68160, 68164, 69216, 69225, 69714, 69723, 127232, 127243]⟩

/-- The numerals that are neither digits nor letters. -/
def otherNumeralSet : CodeSet :=
  ⟨[
    188, 191, 2548, 2554, 2930, 2936, 3056, 3059, 3192, 3199, 3416, 3423, 3440, 3449, 3882,
    3892, 4978, 4989, 5870, 5873, 6128, 6138, 8528, 8579, 8581, 8586, 9321, 9332, 9341, 9352,
    9361, 9372, 9451, 9461, 9470, 9471, 10111, 10112, 10121, 10122, 10131, 10132, 11517, 11518,
    12295, 12296, 12321, 12330, 12344, 12347, 12690, 12694, 12832, 12842, 12872, 12880, 12881,
    12896, 12928, 12938, 12977, 12992, 42726, 42736, 43056, 43062, 65799, 65844, 65856, 65913,
    65930, 65932, 66273, 66300, 66336, 66340, 66369, 66370, 66378, 66379, 66513, 66518, 67672,
    67680, 67705, 67712, 67751, 67760, 67835, 67840, 67862, 67868, 68028, 68030, 68032, 68048,
    68050, 68096, 68164, 68169, 68221, 68223, 68253, 68256, 68331, 68336, 68440, 68448, 68472,
    68480, 68521, 68528, 68858, 68864, 69225, 69247, 69405, 69415, 69457, 69461, 69573, 69580,
    69723, 69734, 70113, 70133, 71482, 71484, 71914, 71923, 72794, 72813, 73664, 73685, 74752,
    74863, 93019, 93026, 93824, 93847, 119520, 119540, 119648, 119673, 125127, 125136, 126065,
    126124, 126125, 126128, 126129, 126133, 126209, 126254, 126255, 126270, 127243, 127245]⟩

/-- Whether a character is a decimal or another form of a digit. -/
def isDigit (char : Char) : Bool :=
  if char.toNat < 128 then
    char.isDigit
  else
    decimalSet.contains char.toNat || digitFormSet.contains char.toNat

/-- The place value of a decimal. -/
def decimalValue? (char : Char) : Option Nat :=
  (decimalSet.runStart? char.toNat).map fun start => (char.toNat - start) % 10

/-- Whether a character is a letter or a numeral, so that it may go on a name. -/
def isLetterOrNumeral (char : Char) : Bool :=
  if char.toNat < 128 then
    char.isAlphanum
  else
    isLetter char || isDigit char || otherNumeralSet.contains char.toNat

end Text

end GoMend
