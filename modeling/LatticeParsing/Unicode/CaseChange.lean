/-
The Unicode properties Changes_When_Lowercased and the like.

A character changes under a case mapping if it has a variant in the other
case, with few exceptions. Ligatures and some letters with marks have no
variant that is one character, but change to several.
-/
import LatticeParsing.Unicode.Fold
import LatticeParsing.Unicode.Property

namespace LatticeParsing.Unicode.CaseChange

open Ranges

/-- Characters with a case mapping to several characters only. -/
def expanding : Ranges :=
  [(0x131, 0x131), (0x149, 0x149), (0x1F0, 0x1F0), (0x587, 0x587),
    (0x1E96, 0x1E9A), (0x1F50, 0x1F50), (0x1F52, 0x1F52), (0x1F54, 0x1F54),
    (0x1F56, 0x1F56), (0x1FB2, 0x1FB2), (0x1FB4, 0x1FB4), (0x1FB6, 0x1FB7),
    (0x1FC2, 0x1FC2), (0x1FC4, 0x1FC4), (0x1FC6, 0x1FC7), (0x1FD2, 0x1FD2),
    (0x1FD6, 0x1FD7), (0x1FE2, 0x1FE2), (0x1FE4, 0x1FE4), (0x1FE6, 0x1FE7),
    (0x1FF2, 0x1FF2), (0x1FF4, 0x1FF4), (0x1FF6, 0x1FF7), (0xFB00, 0xFB04),
    (0xFB13, 0xFB17)]

/-- The capital letter I with a dot, whose lowercase form keeps the dot as a
mark. -/
def dottedI : Ranges := [(0x130, 0x130)]

/-- The Georgian letters of running text, which keep their form in titles. -/
def georgianText : Ranges := [(0x10D0, 0x10FA), (0x10FD, 0x10FF)]

/-- The property Changes_When_Lowercased. -/
def lowercased : Ranges :=
  union dottedI
    (inter caseVariants
      (union uppercase (Category.ranges [.titlecaseLetter])))

/-- The property Changes_When_Uppercased. The mark U+0345 becomes a
letter. -/
def uppercased : Ranges :=
  union expanding
    (inter caseVariants
      (unionAll [lowercase, Category.ranges [.titlecaseLetter],
        [(0x345, 0x345)]]))

/-- The property Changes_When_Titlecased. Of the letter pairs in capitals
the second letter changes. -/
def titlecased : Ranges :=
  unionAll [expanding,
    [(0x1C4, 0x1C4), (0x1C7, 0x1C7), (0x1CA, 0x1CA), (0x1F1, 0x1F1)],
    diff (inter caseVariants lowercase) georgianText]

/-- The property Changes_When_Casemapped. -/
def casemapped : Ranges := unionAll [lowercased, uppercased, titlecased]

/-- The property Changes_When_Casefolded: folding goes to the lowercase form,
to the uppercase form in Cherokee, and merges variants of one letter. -/
def casefolded : Ranges :=
  union (diff lowercased [(0x13A0, 0x13F5)])
    [(0xB5, 0xB5), (0xDF, 0xDF), (0x149, 0x149), (0x17F, 0x17F), (0x345, 0x345),
      (0x3C2, 0x3C2), (0x3D0, 0x3D1), (0x3D5, 0x3D6), (0x3F0, 0x3F1),
      (0x3F5, 0x3F5), (0x587, 0x587), (0x13F8, 0x13FD), (0x1C80, 0x1C88),
      (0x1E9A, 0x1E9B), (0x1F80, 0x1F87), (0x1F90, 0x1F97), (0x1FA0, 0x1FA7),
      (0x1FB2, 0x1FB4), (0x1FB7, 0x1FB7), (0x1FC2, 0x1FC4), (0x1FC7, 0x1FC7),
      (0x1FF2, 0x1FF4), (0x1FF7, 0x1FF7), (0xAB70, 0xABBF), (0xFB00, 0xFB06),
      (0xFB13, 0xFB17)]

end LatticeParsing.Unicode.CaseChange
