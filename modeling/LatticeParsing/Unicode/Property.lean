/-
Properties that Unicode defines by rules.

Each is made of general categories and of listed properties. The functions
on characters are those that readers of text ask for.
-/
import LatticeParsing.Text.Blank
import LatticeParsing.Unicode.Category
import LatticeParsing.Unicode.Listed

namespace LatticeParsing.Unicode

open Ranges Category

-- ================================================== letters and digits

/-- The property Lowercase. -/
def lowercase : Ranges :=
  union (ranges [.lowercaseLetter]) Listed.otherLowercase

/-- The property Uppercase. -/
def uppercase : Ranges :=
  union (ranges [.uppercaseLetter]) Listed.otherUppercase

/-- The property Cased. -/
def cased : Ranges :=
  unionAll [lowercase, uppercase, ranges [.titlecaseLetter]]

/-- The property Alphabetic. -/
def alphabetic : Ranges :=
  unionAll [lowercase, uppercase, ranges (.letterNumber :: letters),
    Listed.otherAlphabetic]

/-- Characters that can stand in a word: alphabetic, marks, decimal digits,
connector punctuation and the two joiners. -/
def word : Ranges :=
  unionAll [alphabetic, ranges marks, ranges [.decimalNumber],
    ranges [.connectorPunctuation], Listed.joinControl]

/-- The property Math. -/
def math : Ranges := union (ranges [.mathSymbol]) Listed.otherMath

-- =========================================================== graphemes

/-- The property Grapheme_Extend. -/
def graphemeExtend : Ranges :=
  union (ranges [.enclosingMark, .nonspacingMark]) Listed.otherGraphemeExtend

/-- The property Grapheme_Base. -/
def graphemeBase : Ranges :=
  compl (union graphemeExtend
    (ranges (.lineSeparator :: .paragraphSeparator :: others)))

/-- The property Default_Ignorable_Code_Point: format characters that show
nothing at all. Annotation marks, the joiners of hieroglyphs and marks that
enclose what follows do show. -/
def defaultIgnorable : Ranges :=
  diff
    (unionAll [Listed.otherDefaultIgnorableCodePoint, ranges [.format],
      Listed.variationSelector])
    (unionAll [Listed.whiteSpace, Listed.prependedConcatenationMark,
      [(0xFFF9, 0xFFFB), (0x13430, 0x13440)]])

-- ========================================================= identifiers

/-- Characters that patterns are made of and no identifier has. -/
def patternCharacters : Ranges :=
  union Listed.patternSyntax Listed.patternWhiteSpace

/-- The property ID_Start. -/
def idStart : Ranges :=
  diff (union (ranges (.letterNumber :: letters)) Listed.otherIdStart)
    patternCharacters

/-- The property ID_Continue. -/
def idContinue : Ranges :=
  diff
    (unionAll [idStart,
      ranges [.nonspacingMark, .spacingMark, .decimalNumber,
        .connectorPunctuation],
      Listed.otherIdContinue])
    patternCharacters

/-- Characters of identifiers whose compatibility form begins with a
character that no identifier begins or goes on with. -/
def brokenByCompatibility : Ranges :=
  [(0x37A, 0x37A), (0x309B, 0x309C), (0xFC5E, 0xFC63), (0xFDFA, 0xFDFB),
    (0xFE70, 0xFE70), (0xFE72, 0xFE72), (0xFE74, 0xFE74), (0xFE76, 0xFE76),
    (0xFE78, 0xFE78), (0xFE7A, 0xFE7A), (0xFE7C, 0xFE7C), (0xFE7E, 0xFE7E)]

/-- The property XID_Continue: ID_Continue, kept by compatibility forms. -/
def xidContinue : Ranges := diff idContinue brokenByCompatibility

/-- The property XID_Start: ID_Start, kept by compatibility forms. -/
def xidStart : Ranges :=
  diff idStart (union brokenByCompatibility
    [(0xE33, 0xE33), (0xEB3, 0xEB3), (0xFF9E, 0xFF9F)])

-- ========================================================== characters

/-- The property Alphabetic of a character. -/
def isAlphabetic (c : Char) : Bool := alphabetic.contains c.toNat

/-- A decimal digit of any script. -/
def isDecimalDigit (c : Char) : Bool := category c == .decimalNumber

/-- A character with a numeric value. -/
def isNumeric (c : Char) : Bool := numbers.contains (category c)

/-- A character that can stand in a word. -/
def isWord (c : Char) : Bool := word.contains c.toNat

end LatticeParsing.Unicode
