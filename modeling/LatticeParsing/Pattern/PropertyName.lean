/-
The names by which patterns call character properties.

A name is compared without case, blanks, hyphens and underscores, and
without a leading `is`. A name that stands alone is a property of its own, a
general category or a script. A name with a value names a property with
several values first; surrogates are no characters and have no name.
-/
import LatticeParsing.Pattern.CharSet
import LatticeParsing.Unicode.Age
import LatticeParsing.Unicode.CaseChange
import LatticeParsing.Unicode.TextBreak

namespace LatticeParsing

open Unicode

namespace PropertyName

/-- The form of a name in which names are compared. -/
def normalName (name : List Char) : String :=
  let ascii := name.filter fun c =>
    c != ' ' && c != '_' && c != '-' && c.toNat < 128
  let strip := match name with
    | i :: s :: _ => i.toLower == 'i' && s.toLower == 's'
    | _ => false
  let kept := (if strip then ascii.drop 2 else ascii).map Char.toLower
  -- One short name begins with `is` itself.
  String.ofList (if strip && kept == ['c'] then "isc".toList else kept)

/-- The general categories, and the groups of them, by name. -/
def categoryNames : List (List String × List Category) :=
  [(["c", "other"], Category.others),
    (["cc", "control", "cntrl"], [.control]),
    (["cf", "format"], [.format]),
    (["cn", "unassigned"], [.unassigned]),
    (["co", "privateuse"], [.privateUse]),
    (["l", "letter"], Category.letters),
    (["lc", "casedletter"],
      [.uppercaseLetter, .lowercaseLetter, .titlecaseLetter]),
    (["ll", "lowercaseletter"], [.lowercaseLetter]),
    (["lm", "modifierletter"], [.modifierLetter]),
    (["lo", "otherletter"], [.otherLetter]),
    (["lt", "titlecaseletter"], [.titlecaseLetter]),
    (["lu", "uppercaseletter"], [.uppercaseLetter]),
    (["m", "mark", "combiningmark"], Category.marks),
    (["mc", "spacingmark"], [.spacingMark]),
    (["me", "enclosingmark"], [.enclosingMark]),
    (["mn", "nonspacingmark"], [.nonspacingMark]),
    (["n", "number"], Category.numbers),
    (["nd", "decimalnumber", "digit"], [.decimalNumber]),
    (["nl", "letternumber"], [.letterNumber]),
    (["no", "othernumber"], [.otherNumber]),
    (["p", "punctuation", "punct"], Category.punctuation),
    (["pc", "connectorpunctuation"], [.connectorPunctuation]),
    (["pd", "dashpunctuation"], [.dashPunctuation]),
    (["pe", "closepunctuation"], [.closePunctuation]),
    (["pf", "finalpunctuation"], [.finalPunctuation]),
    (["pi", "initialpunctuation"], [.initialPunctuation]),
    (["po", "otherpunctuation"], [.otherPunctuation]),
    (["ps", "openpunctuation"], [.openPunctuation]),
    (["s", "symbol"], Category.symbols),
    (["sc", "currencysymbol"], [.currencySymbol]),
    (["sk", "modifiersymbol"], [.modifierSymbol]),
    (["sm", "mathsymbol"], [.mathSymbol]),
    (["so", "othersymbol"], [.otherSymbol]),
    (["z", "separator"], Category.separators),
    (["zl", "lineseparator"], [.lineSeparator]),
    (["zp", "paragraphseparator"], [.paragraphSeparator]),
    (["zs", "spaceseparator"], [.spaceSeparator])]

/-- The properties that a character has or has not, by name. -/
def propertyNames : List (List String × CharSet) :=
  [(["ahex", "asciihexdigit"], Listed.asciiHexDigit),
    (["alpha", "alphabetic"], alphabetic),
    (["bidic", "bidicontrol"], Listed.bidiControl),
    (["bidim", "bidimirrored"], Listed.bidiMirrored),
    (["cased"], cased),
    (["caseignorable", "ci"], caseIgnorable),
    (["changeswhencasefolded", "cwcf"], CaseChange.casefolded),
    (["changeswhencasemapped", "cwcm"], CaseChange.casemapped),
    (["changeswhenlowercased", "cwl"], CaseChange.lowercased),
    (["changeswhentitlecased", "cwt"], CaseChange.titlecased),
    (["changeswhenuppercased", "cwu"], CaseChange.uppercased),
    (["dash"], Listed.dash),
    (["defaultignorablecodepoint", "di"], defaultIgnorable),
    (["dep", "deprecated"], Listed.deprecated),
    (["dia", "diacritic"], Listed.diacritic),
    (["ebase", "emojimodifierbase"], Listed.emojiModifierBase),
    (["ecomp", "emojicomponent"], Listed.emojiComponent),
    (["emod", "emojimodifier"], Listed.emojiModifier),
    (["emoji"], Listed.emoji),
    (["emojipresentation", "epres"], Listed.emojiPresentation),
    (["ext", "extender"], Listed.extender),
    (["extendedpictographic", "extpict"], Listed.extendedPictographic),
    (["graphemebase", "grbase"], graphemeBase),
    (["graphemeextend", "grext"], graphemeExtend),
    (["graphemelink", "grlink"], Listed.graphemeLink),
    (["hex", "hexdigit"], Listed.hexDigit),
    (["hyphen"], Listed.hyphen),
    (["idc", "idcontinue"], idContinue),
    (["idcompatmathcontinue"], Listed.idCompatMathContinue),
    (["idcompatmathstart"], Listed.idCompatMathStart),
    (["ideo", "ideographic"], Listed.ideographic),
    (["ids", "idstart"], idStart),
    (["idsb", "idsbinaryoperator"], Listed.idsBinaryOperator),
    (["idst", "idstrinaryoperator"], Listed.idsTrinaryOperator),
    (["idsu", "idsunaryoperator"], Listed.idsUnaryOperator),
    (["joinc", "joincontrol"], Listed.joinControl),
    (["loe", "logicalorderexception"], Listed.logicalOrderException),
    (["lower", "lowercase"], lowercase),
    (["math"], math),
    (["mcm", "modifiercombiningmark"], Listed.modifierCombiningMark),
    (["nchar", "noncharactercodepoint"], Listed.noncharacterCodePoint),
    (["oalpha", "otheralphabetic"], Listed.otherAlphabetic),
    (["odi", "otherdefaultignorablecodepoint"],
      Listed.otherDefaultIgnorableCodePoint),
    (["ogrext", "othergraphemeextend"], Listed.otherGraphemeExtend),
    (["oidc", "otheridcontinue"], Listed.otherIdContinue),
    (["oids", "otheridstart"], Listed.otherIdStart),
    (["olower", "otherlowercase"], Listed.otherLowercase),
    (["omath", "othermath"], Listed.otherMath),
    (["oupper", "otheruppercase"], Listed.otherUppercase),
    (["patsyn", "patternsyntax"], Listed.patternSyntax),
    (["patternwhitespace", "patws"], Listed.patternWhiteSpace),
    (["pcm", "prependedconcatenationmark"], Listed.prependedConcatenationMark),
    (["qmark", "quotationmark"], Listed.quotationMark),
    (["radical"], Listed.radical),
    (["regionalindicator", "ri"], Listed.regionalIndicator),
    (["sd", "softdotted"], Listed.softDotted),
    (["sentenceterminal", "sterm"], Listed.sentenceTerminal),
    (["space", "whitespace", "wspace"], Listed.whiteSpace),
    (["term", "terminalpunctuation"], Listed.terminalPunctuation),
    (["uideo", "unifiedideograph"], Listed.unifiedIdeograph),
    (["upper", "uppercase"], uppercase),
    (["variationselector", "vs"], Listed.variationSelector),
    (["xidc", "xidcontinue"], xidContinue),
    (["xids", "xidstart"], xidStart)]

/-- The value of the first entry with a name. -/
def find? {α : Type} (entries : List (List String × α)) (name : String) :
    Option α :=
  (entries.find? fun (names, _) => names.contains name).map (·.2)

/-- A general category by its compared name. -/
def category? (name : String) : Option CharSet :=
  match name with
  | "any" => some (.compl [])
  | "assigned" => some (.compl (Category.ranges [.unassigned]))
  | "ascii" => CharSet.asciiClass? "ascii"
  | _ => (find? categoryNames name).map Category.ranges

/-- A property by the name that stands alone. -/
def alone? (name : List Char) : Option CharSet :=
  let n := normalName name
  (find? propertyNames n).or
    ((category? n).or ((script? n).map Script.ranges))

/-- The version that a value of the property Age names. In its long form it
has an underscore instead of the point, which does not count in names. -/
def version (value : String) : String :=
  match versions.find? fun v => "v" ++ v.replace "." "" == value with
  | some v => v
  | none => value

/-- A property by the name of its kind and its value. -/
def valued? (kind value : List Char) : Option CharSet :=
  let v := normalName value
  match normalName kind with
  | "generalcategory" | "gc" => category? v
  | "script" | "sc" => (script? v).map Script.ranges
  | "scriptextensions" | "scx" => (script? v).map Script.extensionRanges
  | "age" => assignedIn? (version v)
  | "graphemeclusterbreak" | "gcb" => GraphemeBreak.ofName? v
  | "wordbreak" | "wb" => WordBreak.ofName? v
  | "sentencebreak" | "sb" => SentenceBreak.ofName? v
  | _ => none

/-- Cuts a text at the first place where `mark` stands. -/
def cutAt? (mark : List Char) : List Char → Option (List Char × List Char)
  | [] => none
  | c :: cs =>
    if mark.isPrefixOf (c :: cs) then some ([], (c :: cs).drop mark.length)
    else (cutAt? mark cs).map fun (l, r) => (c :: l, r)

/-- The property that a text between braces names, and whether its
complement is meant. A value is set off by `!=`, which asks for the
complement, or by `:` or `=`, whichever of these in turn occurs at all. -/
def ofText? (text : List Char) : Option (Bool × CharSet) :=
  match cutAt? ['!', '='] text, cutAt? [':'] text, cutAt? ['='] text with
  | some (kind, value), _, _ => (valued? kind value).map fun s => (true, s)
  | none, some (kind, value), _ => (valued? kind value).map fun s => (false, s)
  | none, none, some (kind, value) =>
    (valued? kind value).map fun s => (false, s)
  | none, none, none => (alone? text).map fun s => (false, s)

end PropertyName

end LatticeParsing
