/-
**Names of character properties.**

A regular expression names a set of characters as `\p{...}`, by a property that characters have or
have not, by a general category or by a script; or as `\p{property=value}`, by the value of a
property.  In names, case, blanks, `-`, `_` and a leading `is` do not count.

Main definitions:

* `Stencil.Pattern.Property.normalize` — a name as the tables list it;
* `Stencil.Pattern.Property.isName`, `Stencil.Pattern.Property.isValue` — whether there is such a
  property, or such a value of a property.
-/

set_option autoImplicit false

namespace Stencil.Pattern.Property

/-! ### Tables -/

/-- The properties that characters have or have not. -/
def binaryNames : List String :=
  ["asciihexdigit", "ahex", "alphabetic", "alpha", "bidicontrol", "bidic", "bidimirrored",
    "bidim", "caseignorable", "ci", "cased", "changeswhencasefolded", "cwcf",
    "changeswhencasemapped", "cwcm", "changeswhenlowercased", "cwl", "changeswhentitlecased",
    "cwt", "changeswhenuppercased", "cwu", "dash", "defaultignorablecodepoint", "di",
    "deprecated", "dep", "diacritic", "dia", "emoji", "emojicomponent", "ecomp", "emojimodifier",
    "emod", "emojimodifierbase", "ebase", "emojipresentation", "epres", "extendedpictographic",
    "extpict", "extender", "ext", "graphemebase", "grbase", "graphemeextend", "grext",
    "graphemelink", "grlink", "hexdigit", "hex", "hyphen", "idsbinaryoperator", "idsb",
    "idstrinaryoperator", "idst", "idcontinue", "idc", "idstart", "ids", "ideographic", "ideo",
    "joincontrol", "joinc", "logicalorderexception", "loe", "lowercase", "lower", "math",
    "noncharactercodepoint", "nchar", "otheralphabetic", "oalpha",
    "otherdefaultignorablecodepoint", "odi", "othergraphemeextend", "ogrext", "otheridcontinue",
    "oidc", "otheridstart", "oids", "otherlowercase", "olower", "othermath", "omath",
    "otheruppercase", "oupper", "patternsyntax", "patsyn", "patternwhitespace", "patws",
    "prependedconcatenationmark", "pcm", "quotationmark", "qmark", "radical", "regionalindicator",
    "ri", "sentenceterminal", "sterm", "softdotted", "sd", "terminalpunctuation", "term",
    "unifiedideograph", "uideo", "uppercase", "upper", "variationselector", "vs", "whitespace",
    "wspace", "space", "xidcontinue", "xidc", "xidstart", "xids"]

/-- The general categories. -/
def categoryNames : List String :=
  ["any", "assigned", "ascii", "casedletter", "lc", "closepunctuation", "pe",
    "connectorpunctuation", "pc", "control", "cc", "cntrl", "currencysymbol", "sc",
    "dashpunctuation", "pd", "decimalnumber", "nd", "digit", "enclosingmark", "me",
    "finalpunctuation", "pf", "format", "cf", "initialpunctuation", "pi", "letter", "l",
    "letternumber", "nl", "lineseparator", "zl", "lowercaseletter", "ll", "mark", "m",
    "combiningmark", "mathsymbol", "sm", "modifierletter", "lm", "modifiersymbol", "sk",
    "nonspacingmark", "mn", "number", "n", "openpunctuation", "ps", "other", "c", "otherletter",
    "lo", "othernumber", "no", "otherpunctuation", "po", "othersymbol", "so",
    "paragraphseparator", "zp", "privateuse", "co", "punctuation", "p", "punct", "separator", "z",
    "spaceseparator", "zs", "spacingmark", "mc", "symbol", "s", "titlecaseletter", "lt",
    "unassigned", "cn", "uppercaseletter", "lu"]

/-- The scripts. -/
def scriptNames : List String :=
  ["adlam", "adlm", "aghb", "ahom", "anatolianhieroglyphs", "arab", "arabic", "armenian", "armi",
    "armn", "avestan", "avst", "bali", "balinese", "bamu", "bamum", "bass", "bassavah", "batak",
    "batk", "beng", "bengali", "bhaiksuki", "bhks", "bopo", "bopomofo", "brah", "brahmi", "brai",
    "braille", "bugi", "buginese", "buhd", "buhid", "cakm", "canadianaboriginal", "cans", "cari",
    "carian", "caucasianalbanian", "chakma", "cham", "cher", "cherokee", "chorasmian", "chrs",
    "common", "copt", "coptic", "cpmn", "cprt", "cuneiform", "cypriot", "cyprominoan", "cyrillic",
    "cyrl", "deseret", "deva", "devanagari", "diak", "divesakuru", "dogr", "dogra", "dsrt",
    "dupl", "duployan", "egyp", "egyptianhieroglyphs", "elba", "elbasan", "elym", "elymaic",
    "ethi", "ethiopic", "gara", "garay", "geor", "georgian", "glag", "glagolitic", "gong", "gonm",
    "goth", "gothic", "gran", "grantha", "greek", "grek", "gujarati", "gujr", "gukh",
    "gunjalagondi", "gurmukhi", "guru", "gurungkhema", "han", "hang", "hangul", "hani",
    "hanifirohingya", "hano", "hanunoo", "hatr", "hatran", "hebr", "hebrew", "hira", "hiragana",
    "hluw", "hmng", "hmnp", "hung", "imperialaramaic", "inherited", "inscriptionalpahlavi",
    "inscriptionalparthian", "ital", "java", "javanese", "kaithi", "kali", "kana", "kannada",
    "katakana", "kawi", "kayahli", "khar", "kharoshthi", "khitansmallscript", "khmer", "khmr",
    "khoj", "khojki", "khudawadi", "kiratrai", "kits", "knda", "krai", "kthi", "lana", "lao",
    "laoo", "latin", "latn", "lepc", "lepcha", "limb", "limbu", "lina", "linb", "lineara",
    "linearb", "lisu", "lyci", "lycian", "lydi", "lydian", "mahajani", "mahj", "maka", "makasar",
    "malayalam", "mand", "mandaic", "mani", "manichaean", "marc", "marchen", "masaramgondi",
    "medefaidrin", "medf", "meeteimayek", "mend", "mendekikakui", "merc", "mero",
    "meroiticcursive", "meroitichieroglyphs", "miao", "mlym", "modi", "mong", "mongolian", "mro",
    "mroo", "mtei", "mult", "multani", "myanmar", "mymr", "nabataean", "nagm", "nagmundari",
    "nand", "nandinagari", "narb", "nbat", "newa", "newtailue", "nko", "nkoo", "nshu", "nushu",
    "nyiakengpuachuehmong", "ogam", "ogham", "olchiki", "olck", "oldhungarian", "olditalic",
    "oldnortharabian", "oldpermic", "oldpersian", "oldsogdian", "oldsoutharabian", "oldturkic",
    "olduyghur", "olonal", "onao", "oriya", "orkh", "orya", "osage", "osge", "osma", "osmanya",
    "ougr", "pahawhhmong", "palm", "palmyrene", "pauc", "paucinhau", "perm", "phag", "phagspa",
    "phli", "phlp", "phnx", "phoenician", "plrd", "prti", "psalterpahlavi", "qaac", "qaai",
    "rejang", "rjng", "rohg", "runic", "runr", "samaritan", "samr", "sarb", "saur", "saurashtra",
    "sgnw", "sharada", "shavian", "shaw", "shrd", "sidd", "siddham", "signwriting", "sind",
    "sinh", "sinhala", "sogd", "sogdian", "sogo", "sora", "sorasompeng", "soyo", "soyombo",
    "sund", "sundanese", "sunu", "sunuwar", "sylo", "sylotinagri", "syrc", "syriac", "tagalog",
    "tagb", "tagbanwa", "taile", "taitham", "taiviet", "takr", "takri", "tale", "talu", "tamil",
    "taml", "tang", "tangsa", "tangut", "tavt", "telu", "telugu", "tfng", "tglg", "thaa",
    "thaana", "thai", "tibetan", "tibt", "tifinagh", "tirh", "tirhuta", "tnsa", "todhri", "todr",
    "toto", "tulutigalari", "tutg", "ugar", "ugaritic", "vai", "vaii", "vith", "vithkuqi",
    "wancho", "wara", "warangciti", "wcho", "xpeo", "xsux", "yezi", "yezidi", "yi", "yiii",
    "zanabazarsquare", "zanb", "zinh", "zyyy"]

/-- The versions of the standard that characters came with. -/
def ageNames : List String :=
  ["1.1", "2.0", "2.1", "3.0", "3.1", "3.2", "4.0", "4.1", "5.0", "5.1", "5.2", "6.0", "6.1",
    "6.2", "6.3", "7.0", "8.0", "9.0", "10.0", "11.0", "12.0", "12.1", "13.0", "14.0", "15.0",
    "15.1", "16.0", "v11", "v20", "v21", "v30", "v31", "v32", "v40", "v41", "v50", "v51", "v52",
    "v60", "v61", "v62", "v63", "v70", "v80", "v90", "v100", "v110", "v120", "v121", "v130",
    "v140", "v150", "v151", "v160"]

/-- How characters join to graphemes. -/
def graphemeBreakNames : List String :=
  ["cr", "control", "cn", "extend", "ex", "l", "lf", "lv", "lvt", "prepend", "pp",
    "regionalindicator", "ri", "spacingmark", "sm", "t", "v", "zwj"]

/-- How characters join to sentences. -/
def sentenceBreakNames : List String :=
  ["aterm", "at", "cr", "close", "cl", "extend", "ex", "format", "fo", "lf", "lower", "lo",
    "numeric", "nu", "oletter", "le", "scontinue", "sc", "sep", "se", "sp", "sterm", "st",
    "upper", "up"]

/-- How characters join to words. -/
def wordBreakNames : List String :=
  ["aletter", "le", "cr", "doublequote", "dq", "extend", "extendnumlet", "ex", "format", "fo",
    "hebrewletter", "hl", "katakana", "ka", "lf", "midletter", "ml", "midnum", "mn", "midnumlet",
    "mb", "newline", "nl", "numeric", "nu", "regionalindicator", "ri", "singlequote", "sq",
    "wsegspace", "zwj"]

/-! ### Names -/

/-- A name as the tables list it. -/
def normalize (name : String) : String :=
  let (isPrefixed, rest) :=
    match name.toList with
    | i :: s :: rest =>
      if i.toLower = 'i' ∧ s.toLower = 's' then (true, rest) else (false, i :: s :: rest)
    | rest => (false, rest)
  let kept := rest.filter fun c => c.toNat < 128 && c != ' ' && c != '_' && c != '-'
  let kept := kept.map Char.toLower
  -- `isc` names a comment on a character and not the category `c`
  if isPrefixed && kept == ['c'] then "isc" else String.ofList kept

/-- The values of a property that has several. -/
def values? (property : String) : Option (List String) :=
  match property with
  | "gc" | "generalcategory" => some categoryNames
  | "sc" | "script" | "scx" | "scriptextensions" => some scriptNames
  | "age" => some ageNames
  | "gcb" | "graphemeclusterbreak" => some graphemeBreakNames
  | "sb" | "sentencebreak" => some sentenceBreakNames
  | "wb" | "wordbreak" => some wordBreakNames
  | _ => none

/-- Whether a name stands for a set of characters. -/
def isName (name : String) : Bool :=
  let name := normalize name
  binaryNames.contains name || categoryNames.contains name || scriptNames.contains name

/-- Whether a property has a value. -/
def isValue (property value : String) : Bool :=
  ((values? (normalize property)).getD []).contains (normalize value)

end Stencil.Pattern.Property
