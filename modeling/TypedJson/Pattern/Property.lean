/-!
# Names of character properties

The names under which a pattern can ask for a class of characters: general
categories, scripts, yes-or-no properties, and a few properties with values.  Names
are compared loosely: case, blanks, hyphens, underscores and a leading `is` do not
count.
-/
namespace TypedJson
namespace Pattern

/-- General categories, long and short. -/
def generalCategories : List String :=
  ["any", "assigned", "ascii", "casedletter", "lc", "closepunctuation", "pe",
    "connectorpunctuation", "pc", "control", "cc", "cntrl", "currencysymbol", "sc",
    "dashpunctuation", "pd", "decimalnumber", "nd", "digit", "enclosingmark", "me",
    "finalpunctuation", "pf", "format", "cf", "initialpunctuation", "pi", "letter", "l",
    "letternumber", "nl", "lineseparator", "zl", "lowercaseletter", "ll", "mark", "m",
    "combiningmark", "mathsymbol", "sm", "modifierletter", "lm", "modifiersymbol", "sk",
    "nonspacingmark", "mn", "number", "n", "openpunctuation", "ps", "other", "c", "otherletter",
    "lo", "othernumber", "no", "otherpunctuation", "po", "othersymbol", "so",
    "paragraphseparator", "zp", "privateuse", "co", "punctuation", "p", "punct", "separator", "z",
    "spaceseparator", "zs", "spacingmark", "mc", "symbol", "s", "titlecaseletter", "lt",
    "unassigned", "cn", "uppercaseletter", "lu"]

/-- Properties that a character has or has not. -/
def booleanProperties : List String :=
  ["asciihexdigit", "ahex", "alphabetic", "alpha", "bidicontrol", "bidic", "caseignorable", "ci",
    "cased", "changeswhencasefolded", "cwcf", "changeswhencasemapped", "cwcm",
    "changeswhenlowercased", "cwl", "changeswhentitlecased", "cwt", "changeswhenuppercased",
    "cwu", "dash", "defaultignorablecodepoint", "di", "deprecated", "dep", "diacritic", "dia",
    "emoji", "emojicomponent", "ecomp", "emojimodifier", "emod", "emojimodifierbase", "ebase",
    "emojipresentation", "epres", "extendedpictographic", "extpict", "extender", "ext",
    "graphemebase", "grbase", "graphemeextend", "grext", "graphemelink", "grlink", "hexdigit",
    "hex", "hyphen", "idsbinaryoperator", "idsb", "idstrinaryoperator", "idst",
    "idsunaryoperator", "idsu", "idcompatmathcontinue", "idcompatmathstart", "idcontinue", "idc",
    "idstart", "ids", "ideographic", "ideo", "joincontrol", "joinc", "logicalorderexception",
    "loe", "lowercase", "lower", "math", "modifiercombiningmark", "mcm", "noncharactercodepoint",
    "nchar", "otheralphabetic", "oalpha", "otherdefaultignorablecodepoint", "odi",
    "othergraphemeextend", "ogrext", "otheridcontinue", "oidc", "otheridstart", "oids",
    "otherlowercase", "olower", "othermath", "omath", "otheruppercase", "oupper", "patternsyntax",
    "patsyn", "patternwhitespace", "patws", "prependedconcatenationmark", "pcm", "quotationmark",
    "qmark", "radical", "regionalindicator", "ri", "sentenceterminal", "sterm", "softdotted",
    "sd", "terminalpunctuation", "term", "unifiedideograph", "uideo", "uppercase", "upper",
    "variationselector", "vs", "whitespace", "wspace", "space", "xidcontinue", "xidc", "xidstart",
    "xids"]

/-- Scripts, by name and by four-letter code. -/
def scripts : List String :=
  ["adlm", "adlam", "aghb", "caucasianalbanian", "ahom", "arab", "arabic", "armi",
    "imperialaramaic", "armn", "armenian", "avst", "avestan", "bali", "balinese", "bamu", "bamum",
    "bass", "bassavah", "batk", "batak", "beng", "bengali", "bhks", "bhaiksuki", "bopo",
    "bopomofo", "brah", "brahmi", "brai", "braille", "bugi", "buginese", "buhd", "buhid", "cakm",
    "chakma", "cans", "canadianaboriginal", "cari", "carian", "cham", "cher", "cherokee", "chrs",
    "chorasmian", "copt", "coptic", "qaac", "cpmn", "cyprominoan", "cprt", "cypriot", "cyrl",
    "cyrillic", "deva", "devanagari", "diak", "divesakuru", "dogr", "dogra", "dsrt", "deseret",
    "dupl", "duployan", "egyp", "egyptianhieroglyphs", "elba", "elbasan", "elym", "elymaic",
    "ethi", "ethiopic", "geor", "georgian", "glag", "glagolitic", "gong", "gunjalagondi", "gonm",
    "masaramgondi", "goth", "gothic", "gran", "grantha", "grek", "greek", "gujr", "gujarati",
    "guru", "gurmukhi", "hang", "hangul", "hani", "han", "hano", "hanunoo", "hatr", "hatran",
    "hebr", "hebrew", "hira", "hiragana", "hluw", "anatolianhieroglyphs", "hmng", "pahawhhmong",
    "hmnp", "nyiakengpuachuehmong", "hung", "oldhungarian", "ital", "olditalic", "java",
    "javanese", "kali", "kayahli", "kana", "katakana", "kawi", "khar", "kharoshthi", "khmr",
    "khmer", "khoj", "khojki", "kits", "khitansmallscript", "knda", "kannada", "kthi", "kaithi",
    "lana", "taitham", "laoo", "lao", "latn", "latin", "lepc", "lepcha", "limb", "limbu", "lina",
    "lineara", "linb", "linearb", "lisu", "lyci", "lycian", "lydi", "lydian", "mahj", "mahajani",
    "maka", "makasar", "mand", "mandaic", "mani", "manichaean", "marc", "marchen", "medf",
    "medefaidrin", "mend", "mendekikakui", "merc", "meroiticcursive", "mero",
    "meroitichieroglyphs", "mlym", "malayalam", "modi", "mong", "mongolian", "mroo", "mro",
    "mtei", "meeteimayek", "mult", "multani", "mymr", "myanmar", "nagm", "nagmundari", "nand",
    "nandinagari", "narb", "oldnortharabian", "nbat", "nabataean", "newa", "nkoo", "nko", "nshu",
    "nushu", "ogam", "ogham", "olck", "olchiki", "orkh", "oldturkic", "orya", "oriya", "osge",
    "osage", "osma", "osmanya", "ougr", "olduyghur", "palm", "palmyrene", "pauc", "paucinhau",
    "perm", "oldpermic", "phag", "phagspa", "phli", "inscriptionalpahlavi", "phlp",
    "psalterpahlavi", "phnx", "phoenician", "plrd", "miao", "prti", "inscriptionalparthian",
    "rjng", "rejang", "rohg", "hanifirohingya", "runr", "runic", "samr", "samaritan", "sarb",
    "oldsoutharabian", "saur", "saurashtra", "sgnw", "signwriting", "shaw", "shavian", "shrd",
    "sharada", "sidd", "siddham", "sind", "khudawadi", "sinh", "sinhala", "sogd", "sogdian",
    "sogo", "oldsogdian", "sora", "sorasompeng", "soyo", "soyombo", "sund", "sundanese", "sylo",
    "sylotinagri", "syrc", "syriac", "tagb", "tagbanwa", "takr", "takri", "tale", "taile", "talu",
    "newtailue", "taml", "tamil", "tang", "tangut", "tavt", "taiviet", "telu", "telugu", "tfng",
    "tifinagh", "tglg", "tagalog", "thaa", "thaana", "thai", "tibt", "tibetan", "tirh", "tirhuta",
    "tnsa", "tangsa", "toto", "ugar", "ugaritic", "vaii", "vai", "vith", "vithkuqi", "wara",
    "warangciti", "wcho", "wancho", "xpeo", "oldpersian", "xsux", "cuneiform", "yezi", "yezidi",
    "yiii", "yi", "zanb", "zanabazarsquare", "zinh", "inherited", "qaai", "zyyy", "common",
    "garay", "gara", "gurungkhema", "gukh", "kiratrai", "krai", "olonal", "onao", "sunuwar",
    "sunu", "todhri", "todr", "tulutigalari", "tutg"]

/-- The versions of the standard in which characters came in. -/
def ages : List String :=
  ["1.1", "v11", "2.0", "v20", "2.1", "v21", "3.0", "v30", "3.1", "v31", "3.2", "v32", "4.0",
    "v40", "4.1", "v41", "5.0", "v50", "5.1", "v51", "5.2", "v52", "6.0", "v60", "6.1", "v61",
    "6.2", "v62", "6.3", "v63", "7.0", "v70", "8.0", "v80", "9.0", "v90", "10.0", "v100", "11.0",
    "v110", "12.0", "v120", "12.1", "v121", "13.0", "v130", "14.0", "v140", "15.0", "v150",
    "15.1", "v151", "16.0", "v160"]

/-- The classes of the grapheme cluster rules. -/
def graphemeBreaks : List String :=
  ["cr", "cn", "control", "ex", "extend", "l", "lf", "lv", "lvt", "pp", "prepend", "ri",
    "regionalindicator", "sm", "spacingmark", "t", "v", "zwj"]

/-- The classes of the word boundary rules. -/
def wordBreaks : List String :=
  ["le", "aletter", "cr", "dq", "doublequote", "extend", "ex", "extendnumlet", "fo", "format",
    "hl", "hebrewletter", "ka", "katakana", "lf", "ml", "midletter", "mn", "midnum", "mb",
    "midnumlet", "nl", "newline", "nu", "numeric", "ri", "regionalindicator", "sq", "singlequote",
    "wsegspace", "zwj"]

/-- The classes of the sentence boundary rules. -/
def sentenceBreaks : List String :=
  ["at", "aterm", "cr", "cl", "close", "ex", "extend", "fo", "format", "lf", "lo", "lower", "nu",
    "numeric", "le", "oletter", "sc", "scontinue", "st", "sterm", "se", "sep", "sp", "up",
    "upper"]

/-- A name without what does not count in it. -/
def looseName (name : List Char) : String :=
  let lower := name.map Char.toLower
  let marked := ['i', 's'].isPrefixOf lower
  let kept := (if marked then lower.drop 2 else lower).filter fun c =>
    c != ' ' && c != '_' && c != '-' && c.toNat < 0x80
  if marked && kept == ['c'] then "isc" else String.ofList kept

/-- The class that a bare name stands for exists. -/
def isClassName (name : List Char) : Bool :=
  let n := looseName name
  booleanProperties.contains n || generalCategories.contains n || scripts.contains n

/-- The class of the characters that have this value of the property exists. -/
def isClassValue (property value : List Char) : Bool :=
  let v := looseName value
  match looseName property with
  | "gc" | "generalcategory" => generalCategories.contains v
  | "sc" | "script" | "scx" | "scriptextensions" => scripts.contains v
  | "age" => ages.contains v
  | "gcb" | "graphemeclusterbreak" => graphemeBreaks.contains v
  | "wb" | "wordbreak" => wordBreaks.contains v
  | "sb" | "sentencebreak" => sentenceBreaks.contains v
  | _ => false

end Pattern
end TypedJson
