import Conduit.Text.Property
import Conduit.Text.Script

/-!
# Segments of text

Where text may be broken into characters as readers see them, words and sentences depends on
classes of characters.  Each class is given with its names.
-/

namespace Conduit.Text

namespace Segment

open Property

def carriageReturn : CharSet := .read ["D"]

def lineFeed : CharSet := .read ["A"]

def joiner : CharSet := .read ["200D"]

/-! ## Characters -/

/-- What continues a character. -/
def extend : CharSet := .diff (.union graphemeExtend emojiModifier) joiner

/-- What belongs to the character after it. -/
def prepend : CharSet := .readGaps
  ["chCFiHAbXAoUBdCAbrNAdugKAPAjKBuFAcbLABAjOAcVFbaYArBA"]

/-- What separates and is not shown. -/
def control : CharSet :=
  .diff
    (.union (inCategories ["Zl", "Zp", "Cc", "Cf"])
      (.inter (inCategories ["Cn"]) defaultIgnorable))
    (.unions [carriageReturn, lineFeed, joinControl, prependedMark, extend])

/-- Spacing marks that stay with the character before them. -/
def spacing : CharSet :=
  .diff (.union (inCategories ["Mc"]) (.read ["E33 B3"]))
    (.unions [extend, prepend, .read
      ["102B-C 38 62-4 7-D 83 7-C F 9A-C A61 3-4 AA7B D 11720-1"]])

/-- The parts of syllables, in the order they are written. -/
def leading : CharSet := .read ["1100-5F A960-7C"]

def vowel : CharSet := .read ["1160-A7 D7B0-C6 16D63 7-A"]

def trailing : CharSet := .read ["11A8-FF D7CB-FB"]

def syllable : CharSet := .read ["AC00-D7A3"]

/-- Syllables that end in a vowel: every twenty-eighth one. -/
def openSyllable : CharSet := .ofCodes ((List.range 399).map fun i => 0xAC00 + 28 * i)

/-! ## Words -/

def wordExtend : CharSet :=
  .diff (.unions [graphemeExtend, inCategories ["Mc"], emojiModifier]) joiner

/-- Marks around digits that count with them, and the one that counts with letters. -/
def numberMark : CharSet := .read ["600-5 DD 890-1 E2 110BD CD"]

def letterMark : CharSet := .read ["70F"]

def format : CharSet :=
  .diff (inCategories ["Cf"]) (.unions [numberMark, letterMark, wordExtend, .read ["200B-D"]])

def scriptSet (code : String) : CharSet :=
  .unions ((scripts.filter fun s => s.code == code).map Script.set)

def katakana : CharSet :=
  .union (scriptSet "Kana") (.read ["3031-5 9B-C A0 FC FF70"])

def hebrewLetter : CharSet := .inter (scriptSet "Hebr") (inCategories ["Lo"])

/-- Letters of scripts that write words without space between them. -/
def unspaced : CharSet := .readGaps
  ["fhXbVBBMGcGBBABEBXBABJBBJACEBAVDlCbQUAQFEDDADBHCEMMAcqJbZbJAEAoHbDCELbREZdIcAdEAccgEEBJK",
   "EdTWDADbXBADBCECABAYCboySbAbLG"]

/-- Signs inside words that are no letters. -/
def letterSign : CharSet := .readGaps ["bbEDMFGBFGBABQxECBAbRAeAAcjaAOJBdZBblOA"]

def letter : CharSet :=
  .union (.union letterSign letterMark) (.diff alphabetic
    (.unions [ideographic, katakana, unspaced, scriptSet "Hira", wordExtend, hebrewLetter]))

def wordNumeric : CharSet := .unions [inCategories ["Nd"], numberMark, .read ["66B"]]

/-! ## Sentences -/

def sentenceExtend : CharSet := .unions [graphemeExtend, inCategories ["Mc"], joiner]

def sentenceFormat : CharSet :=
  .diff (inCategories ["Cf"]) (.unions [numberMark, letterMark, sentenceExtend])

def separator : CharSet := .read ["85 2028-9"]

def space : CharSet := .diff whiteSpace (.unions [separator, carriageReturn, lineFeed])

/-- Small letters of a script with two cases that are used apart. -/
def lower : CharSet := .diff lowercase (.union sentenceExtend (.read ["10D0-FA D-F"]))

def upper : CharSet :=
  .diff (.union (inCategories ["Lt"]) uppercase) (.read ["1C90-BA D-F"])

def sentenceLetter : CharSet :=
  .union (.read ["5F3 70F"]) (.diff alphabetic (.unions [lower, upper, sentenceExtend]))

def sentenceNumeric : CharSet := .unions [inCategories ["Nd"], numberMark, .read ["66B-C"]]

def fullStop : CharSet := .read ["2E 2024 FE52 F0E"]

def close : CharSet :=
  .union (.read ["275B-60 E00-1 6-8 B 1F676-8"])
    (.diff (.union (inCategories ["Ps", "Pe", "Pi", "Pf"]) quotationMark) (.read ["FF02 7"]))

def sentenceContinue : CharSet := .readGaps
  ["bSBMBbgCAsKAgSBsWAgbXAFAdbEBgaUAdaaWBBBbCBbDBCBCAKAgMBMBcUA"]

end Segment

open Segment Property

def graphemeBreaks : List (List String × CharSet) :=
  [(["cr"], carriageReturn),
   (["cn", "control"], control),
   (["ex", "extend"], extend),
   (["l"], leading),
   (["lf"], lineFeed),
   (["lv"], openSyllable),
   (["lvt"], .diff syllable openSyllable),
   (["pp", "prepend"], prepend),
   (["ri", "regionalindicator"], regionalIndicator),
   (["sm", "spacingmark"], spacing),
   (["t"], trailing),
   (["v"], vowel),
   (["zwj"], joiner)]

def wordBreaks : List (List String × CharSet) :=
  [(["le", "aletter"], letter),
   (["cr"], carriageReturn),
   (["dq", "doublequote"], .read ["22"]),
   (["extend"], wordExtend),
   (["ex", "extendnumlet"], .union (inCategories ["Pc"]) (.read ["202F"])),
   (["fo", "format"], format),
   (["hl", "hebrewletter"], hebrewLetter),
   (["ka", "katakana"], katakana),
   (["lf"], lineFeed),
   (["ml", "midletter"], .read ["3A B7 387 55F F4 2027 FE13 55 F1A"]),
   (["mn", "midnum"],
    .read ["2C 3B 37E 589 60C-D 6C 7F8 2044 FE10 4 50 4 F0C 1B"]),
   (["mb", "midnumlet"], .read ["2E 2018-9 24 FE52 F07 E"]),
   (["nl", "newline"], .read ["B-C 85 2028-9"]),
   (["nu", "numeric"], wordNumeric),
   (["ri", "regionalindicator"], regionalIndicator),
   (["sq", "singlequote"], .read ["27"]),
   (["wsegspace"], .read ["20 1680 2000-6 8-A 5F 3000"]),
   (["zwj"], joiner)]

def sentenceBreaks : List (List String × CharSet) :=
  [(["at", "aterm"], fullStop),
   (["cr"], carriageReturn),
   (["cl", "close"], close),
   (["ex", "extend"], sentenceExtend),
   (["fo", "format"], sentenceFormat),
   (["lf"], lineFeed),
   (["lo", "lower"], lower),
   (["nu", "numeric"], sentenceNumeric),
   (["le", "oletter"], sentenceLetter),
   (["sc", "scontinue"], sentenceContinue),
   (["st", "sterm"], .diff sentenceTerminal fullStop),
   (["se", "sep"], separator),
   (["sp"], space),
   (["up", "upper"], upper)]

end Conduit.Text
