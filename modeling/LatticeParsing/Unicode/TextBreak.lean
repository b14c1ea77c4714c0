/-
The Unicode properties Grapheme_Cluster_Break, Word_Break and
Sentence_Break.

Each sorts characters by the part they play where a text is divided. The
values are listed with their names, in lower case and without separators;
a character that has no value of a property plays no part.
-/
import LatticeParsing.Unicode.Property
import LatticeParsing.Unicode.Script

namespace LatticeParsing.Unicode

open Ranges Category

-- ============================================================== common

/-- A carriage return. -/
def carriageReturn : Ranges := [(0xD, 0xD)]

/-- A line feed. -/
def lineFeed : Ranges := [(0xA, 0xA)]

/-- The joiner that makes one sign of two. -/
def zeroWidthJoiner : Ranges := [(0x200D, 0x200D)]

/-- The characters of tags, which are format characters but join what stands
before them. -/
def tagCharacters : Ranges := [(0xE0020, 0xE007F)]

/-- The characters of a script, none for a name that no script has. -/
def charactersOf (script : String) : Ranges :=
  ((script? script).map Script.ranges).getD []

-- =========================================================== graphemes

namespace GraphemeBreak

/-- Controls of every kind. -/
def control : Ranges :=
  diff
    (unionAll [
      ranges [.control, .format, .lineSeparator, .paragraphSeparator],
      inter (ranges [.unassigned]) defaultIgnorable])
    (unionAll [[(0xA, 0xA), (0xD, 0xD), (0x200C, 0x200D)], tagCharacters,
      Listed.prependedConcatenationMark])

/-- Characters that join what stands before them. -/
def extend : Ranges := union graphemeExtend Listed.emojiModifier

/-- Characters that join what stands behind them. -/
def prepend : Ranges :=
  union Listed.prependedConcatenationMark
    [(0xD4E, 0xD4E), (0x111C2, 0x111C3), (0x113D1, 0x113D1),
      (0x1193F, 0x1193F), (0x11941, 0x11941), (0x11A3A, 0x11A3A),
      (0x11A84, 0x11A89), (0x11D46, 0x11D46), (0x11F02, 0x11F02)]

/-- Spacing marks that join what stands before them. -/
def spacingMark : Ranges :=
  union [(0xE33, 0xE33), (0xEB3, 0xEB3)]
    (diff (ranges [.spacingMark])
      (union graphemeExtend
        [(0x102B, 0x102C), (0x1038, 0x1038), (0x1062, 0x1064),
          (0x1067, 0x106D), (0x1083, 0x1083), (0x1087, 0x108C),
          (0x108F, 0x108F), (0x109A, 0x109C), (0x1A61, 0x1A61),
          (0x1A63, 0x1A64), (0xAA7B, 0xAA7B), (0xAA7D, 0xAA7D),
          (0x11720, 0x11721)]))

/-- Korean syllables without a final consonant: the first of each row of
twenty-eight. -/
def openSyllable : Ranges :=
  (List.range 399).map fun row => (0xAC00 + 28 * row, 0xAC00 + 28 * row)

/-- Korean syllables with a final consonant. -/
def closedSyllable : Ranges := diff [(0xAC00, 0xD7A3)] openSyllable

/-- The characters with a value, by one of its names. -/
def ofName? : String → Option Ranges
  | "cn" | "control" => some control
  | "cr" => some carriageReturn
  | "ex" | "extend" => some extend
  | "l" => some [(0x1100, 0x115F), (0xA960, 0xA97C)]
  | "lf" => some lineFeed
  | "lv" => some openSyllable
  | "lvt" => some closedSyllable
  | "pp" | "prepend" => some prepend
  | "ri" | "regionalindicator" => some Listed.regionalIndicator
  | "sm" | "spacingmark" => some spacingMark
  | "t" => some [(0x11A8, 0x11FF), (0xD7CB, 0xD7FB)]
  | "v" =>
    some [(0x1160, 0x11A7), (0xD7B0, 0xD7C6), (0x16D63, 0x16D63),
      (0x16D67, 0x16D6A)]
  | "zwj" => some zeroWidthJoiner
  | _ => none

end GraphemeBreak

-- =============================================================== words

namespace WordBreak

/-- Characters that join what stands before them. -/
def extend : Ranges :=
  unionAll [graphemeExtend, ranges [.spacingMark], Listed.emojiModifier]

/-- Format characters inside words. -/
def format : Ranges :=
  diff (ranges [.format])
    (unionAll [[(0x200B, 0x200D)], tagCharacters,
      Listed.prependedConcatenationMark])

/-- Characters of Katakana words. -/
def katakana : Ranges :=
  union (charactersOf "katakana")
    [(0x3031, 0x3035), (0x309B, 0x309C), (0x30A0, 0x30A0), (0x30FC, 0x30FC),
      (0xFF70, 0xFF70)]

/-- Hebrew letters. -/
def hebrewLetter : Ranges :=
  inter (charactersOf "hebrew") (ranges [.otherLetter])

/-- Letters of scripts that are written without blanks between words. -/
def letterWithoutBlanks : Ranges :=
  .decode
    ("3585 48 1 2 12 7 58 2 1 1 1 5 1 24 1 1 1 10 1 2 9 1 2 5 1 1 21 4"
      ++ " 288 43 20 1 16 6 4 4 3 1 3 2 7 3 4 13 12 1 1777 52 35 1 4 1 371"
      ++ " 30 2 5 11 44 4 26 86 53 82 1 36664 5 1 10 10 5 97 23 3 1 3 50 1 1"
      ++ " 3 2 2 5 2 1 1 1 24 3 27682 27 37 7")

/-- Letters of words. -/
def letter : Ranges :=
  union
    (diff alphabetic
      (unionAll [Listed.ideographic, katakana, charactersOf "hiragana", extend,
        hebrewLetter, letterWithoutBlanks]))
    [(0x2C2, 0x2C5), (0x2D2, 0x2D7), (0x2DE, 0x2DF), (0x2E5, 0x2EB),
      (0x2ED, 0x2ED), (0x2EF, 0x2FF), (0x55A, 0x55C), (0x55E, 0x55E),
      (0x58A, 0x58A), (0x5F3, 0x5F3), (0x70F, 0x70F), (0xA708, 0xA716),
      (0xA720, 0xA721), (0xA789, 0xA78A), (0xAB5B, 0xAB5B)]

/-- Punctuation inside words. -/
def midLetter : Ranges :=
  [(0x3A, 0x3A), (0xB7, 0xB7), (0x387, 0x387), (0x55F, 0x55F), (0x5F4, 0x5F4),
    (0x2027, 0x2027), (0xFE13, 0xFE13), (0xFE55, 0xFE55), (0xFF1A, 0xFF1A)]

/-- Punctuation inside numbers. -/
def midNumber : Ranges :=
  [(0x2C, 0x2C), (0x3B, 0x3B), (0x37E, 0x37E), (0x589, 0x589), (0x60C, 0x60D),
    (0x66C, 0x66C), (0x7F8, 0x7F8), (0x2044, 0x2044), (0xFE50, 0xFE50),
    (0xFE54, 0xFE54), (0xFF0C, 0xFF0C), (0xFF1B, 0xFF1B)]

/-- Punctuation inside words and numbers. -/
def midNumberLetter : Ranges :=
  [(0x2E, 0x2E), (0x2018, 0x2019), (0x2024, 0x2024), (0xFE52, 0xFE52),
    (0xFF07, 0xFF07), (0xFF0E, 0xFF0E)]

/-- Digits and the signs of numbers. -/
def numeric : Ranges :=
  union (ranges [.decimalNumber])
    [(0x600, 0x605), (0x66B, 0x66B), (0x6DD, 0x6DD), (0x890, 0x891),
      (0x8E2, 0x8E2), (0x19DA, 0x19DA), (0x110BD, 0x110BD),
      (0x110CD, 0x110CD)]

/-- The apostrophe. -/
def singleQuote : Ranges := [(0x27, 0x27)]

/-- The characters with a value, by one of its names. -/
def ofName? : String → Option Ranges
  | "le" | "aletter" => some letter
  | "cr" => some carriageReturn
  | "dq" | "doublequote" => some [(0x22, 0x22)]
  | "extend" => some extend
  | "ex" | "extendnumlet" =>
    some (union (ranges [.connectorPunctuation]) [(0x202F, 0x202F)])
  | "fo" | "format" => some format
  | "hl" | "hebrewletter" => some hebrewLetter
  | "ka" | "katakana" => some katakana
  | "lf" => some lineFeed
  | "ml" | "midletter" => some midLetter
  | "mn" | "midnum" => some midNumber
  | "mb" | "midnumlet" => some midNumberLetter
  | "nl" | "newline" =>
    some [(0xB, 0xC), (0x85, 0x85), (0x2028, 0x2029)]
  | "nu" | "numeric" => some numeric
  | "ri" | "regionalindicator" => some Listed.regionalIndicator
  | "sq" | "singlequote" => some singleQuote
  | "wsegspace" =>
    some [(0x20, 0x20), (0x1680, 0x1680), (0x2000, 0x2006),
      (0x2008, 0x200A), (0x205F, 0x205F), (0x3000, 0x3000)]
  | "zwj" => some zeroWidthJoiner
  | _ => none

end WordBreak

/-- The property Case_Ignorable: characters that are passed over where case
depends on the letters around. -/
def caseIgnorable : Ranges :=
  unionAll [
    ranges [.nonspacingMark, .enclosingMark, .format, .modifierLetter,
      .modifierSymbol],
    WordBreak.midLetter, WordBreak.midNumberLetter, WordBreak.singleQuote]

-- =========================================================== sentences

namespace SentenceBreak

/-- Characters that join what stands before them. -/
def extend : Ranges :=
  unionAll [graphemeExtend, ranges [.spacingMark], zeroWidthJoiner]

/-- The ends of paragraphs. -/
def separator : Ranges := [(0x85, 0x85), (0x2028, 0x2029)]

/-- Signs in front of Arabic numbers. -/
def numberSign : Ranges :=
  diff Listed.prependedConcatenationMark [(0x70F, 0x70F)]

/-- Format characters inside sentences. -/
def format : Ranges :=
  diff (ranges [.format])
    (unionAll [[(0x200C, 0x200D)], tagCharacters, numberSign])

/-- Blanks that end no paragraph. -/
def blank : Ranges :=
  diff Listed.whiteSpace (unionAll [carriageReturn, lineFeed, separator])

/-- Lowercase letters. Those of Georgian do not tell where sentences
begin. -/
def lower : Ranges :=
  diff lowercase (union graphemeExtend [(0x10D0, 0x10FA), (0x10FD, 0x10FF)])

/-- Uppercase and titlecase letters, except those of Georgian. -/
def upper : Ranges :=
  diff (union uppercase (ranges [.titlecaseLetter]))
    [(0x1C90, 0x1CBA), (0x1CBD, 0x1CBF)]

/-- Letters of neither case. -/
def otherLetter : Ranges :=
  union [(0x5F3, 0x5F3)] (diff alphabetic (unionAll [lower, upper, extend]))

/-- Digits and the signs of numbers. -/
def numeric : Ranges :=
  unionAll [ranges [.decimalNumber], numberSign,
    [(0x66B, 0x66C), (0x19DA, 0x19DA)]]

/-- Full stops, which may end a sentence. -/
def fullStop : Ranges :=
  [(0x2E, 0x2E), (0x2024, 0x2024), (0xFE52, 0xFE52), (0xFF0E, 0xFF0E)]

/-- Punctuation that ends a sentence. -/
def terminal : Ranges := diff Listed.sentenceTerminal fullStop

/-- Punctuation inside sentences. -/
def continuation : Ranges :=
  [(0x2C, 0x2D), (0x3A, 0x3B), (0x37E, 0x37E), (0x55D, 0x55D), (0x60C, 0x60D),
    (0x7F8, 0x7F8), (0x1802, 0x1802), (0x1808, 0x1808), (0x2013, 0x2014),
    (0x3001, 0x3001), (0xFE10, 0xFE11), (0xFE13, 0xFE14), (0xFE31, 0xFE32),
    (0xFE50, 0xFE51), (0xFE54, 0xFE55), (0xFE58, 0xFE58), (0xFE63, 0xFE63),
    (0xFF0C, 0xFF0D), (0xFF1A, 0xFF1B), (0xFF64, 0xFF64)]

/-- Brackets and quotation marks. -/
def closing : Ranges :=
  union
    (ranges [.openPunctuation, .closePunctuation, .initialPunctuation,
      .finalPunctuation])
    [(0x22, 0x22), (0x27, 0x27), (0x275B, 0x2760), (0x2E00, 0x2E01),
      (0x2E06, 0x2E08), (0x2E0B, 0x2E0B), (0x1F676, 0x1F678)]

/-- The characters with a value, by one of its names. -/
def ofName? : String → Option Ranges
  | "at" | "aterm" => some fullStop
  | "cl" | "close" => some closing
  | "cr" => some carriageReturn
  | "ex" | "extend" => some extend
  | "fo" | "format" => some format
  | "le" | "oletter" => some otherLetter
  | "lf" => some lineFeed
  | "lo" | "lower" => some lower
  | "nu" | "numeric" => some numeric
  | "sc" | "scontinue" => some continuation
  | "se" | "sep" => some separator
  | "sp" => some blank
  | "st" | "sterm" => some terminal
  | "up" | "upper" => some upper
  | _ => none

end SentenceBreak

end LatticeParsing.Unicode
