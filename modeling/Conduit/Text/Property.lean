import Conduit.Text.Category
import Conduit.Text.Fold

/-!
# Properties of characters

The properties of the standard that a character has or has not.  Some are tables; the others are
derived from them, from the general categories and from the case of letters, by the rules of the
standard.
-/

namespace Conduit.Text

namespace Property

/-! ## Tables -/

def asciiHexDigit : CharSet := .read ["30-9 41-6 61-6"]

def hexDigit : CharSet := .read ["30-9 41-6 61-6 FF10-9 21-6 41-6"]

def bidiControl : CharSet := .read ["61C 200E-F 2A-E 66-9"]

def joinControl : CharSet := .read ["200C-D"]

def dash : CharSet := .readGaps
  ["bTAcaUAbZAfkJAbnPAdbDFcJAbNAPApAAeoIACAbFBEAbCArEATAeHAczwABbLAKAgNAflOAmGA"]

def hyphen : CharSet := .read ["2D AD 58A 1806 2010-1 E17 30FB FE63 F0D 65"]

def quotationMark : CharSet := .read ["22 7 AB BB 2018-F 39-A E42 300C-F 1D-F FE41-4 F02 7 62-3"]

def terminalPunctuation : CharSet := .readGaps
  ["bHAKABALBDAbfYAIAtTAcFAcUAOABCgYAbRKBAjBBcCFBHbFAkBBbwUBgQAEFlZBbeJHbdTAeUCcTBgBCDAbNDCBmCBn",
   "QDgGBKBBCbDChFEcKBbjWAXBJCeuXClUANAEAKABBDBqMBbshVBkJCiTEoSBdIBdRAfVCfRCeXAQBjPAbfcWACBcFCBD",
   "gNAKABALBDAcNACAbpQAbWAbsOAhRAlYBfWFcQFdLDbkQEbSDhHGeIDeXCeZBGAQBdKEeEAlMBeNCMBnUDDOeBBjPCtX",
   "ABAjRBdJBEBpYCbTAyVBcWBbyXEbamZBfDAcNCKAvHBlJBbdoGAliLD"]

def sentenceTerminal : CharSet := .inter terminalPunctuation (.readGaps
  ["ZILMCZbzFAfQiWjMAcIBBADZZjLcpWBbeKAEbiPZiBbTAFbgSCiODgvGPZpSAbshWZjLiVDvWfWkSRbfoXCADgPLMCcR",
   "edWBbxDjJZsDBuJoJBFbvRqABbVdaRZbatZBvTlKbowSBA"])

def diacritic : CharSet := .union (.readGaps ["hBAjwGAuMAcbdYApLABAblgPBcnVA"])
  (.inter (inCategories ["Mn", "Lm", "Sk", "Mc"]) (.readGaps
    ["AbgOBHFFNzVbXREBfCDEBCDcPhTbEBeWcGPbCcJAQACEZScHAQAeGAQDeDAQUbBDZbIQIePAeGAQHdZAQHdYBQAeUA",
     "eHAMFBAeDANEZfIRKbWZdSABBbOBEHWUdTchWCZGAfSKEZmPZkJAUZZVDKeAAPbVcCBZbHLZbQlWOcRFLbLyLetACm",
     "FAtMGeADdRAbsmKEIbHChZYCeFBJHbDZfAAZTcFZOAdRAMAPVfJZcAZbDjCIbefMxYrJuSoLFcmFPbhDpJfGhKbQcU",
     "IeJRZVcYAJCeABgWBdCBQAWQdLUdRADXdWBjRBeWAeOZdNAkJBjYBEAgAAdFASJcUAqFZiZABBdDZpKZhxUUqzPduT",
     "vSZtVZdAygSltHxOCiKfhEcJhMGZpZtSbqSBC"]))

def extender : CharSet := .readGaps
  ["hBAuQBbhUAqZAyGAfHAdLAbcYAeXAdnFAcEAxNApIAcQAhkJAbREdZBdPCbqbUAcgSAblAAWAfHAeEAVBbfzVAdbKBcf",
   "BAbBAEAbvBAlHAeMBtECbvJAbeoFBbtKBBAbqyABbuFAbgUC"]

def graphemeLink : CharSet := .readGaps
  ["dnPAeXAeXAeXAeXAeXAeXAeXAeFBQAeUAeHAeXAhTAgYBcpLBbEAgBAzDAiTAdXBcSBgqTAbukKAbLAfVAfMAeEAlXAj",
   "MAbjsRAchIAbPAOAcFAeRBfJAeMAgYAdUAeYCeJAeXAjSAeXAeOAeMAkJAjZBgFAdFASAdDAqFAkABdDAqJByzCA"]

def ideographic : CharSet := .readGaps
  ["seWBZIOCblDjtNcMbfbJbhsIoBCeBbsiKAbBjbZIbvPbPJnuLpFbdeIclfBbGgdTGiNCinPOlbKPxXdqWuVcfYhhYFgf",
   "F"]

def unifiedIdeograph : CharSet := .readGaps
  ["tsAjtNcMbfbJbicSBBABBKABABBCCdveCclfBbGgdTGiNCinPOlbKPxXgrQhhYFgfF"]

def radical : CharSet := .read ["2E80-99 B-F3 F00-D5"]

def idsUnaryOperator : CharSet := .read ["2FFE-F"]

def idsBinaryOperator : CharSet := .read ["2FF0-1 4-D 31EF"]

def idsTrinaryOperator : CharSet := .read ["2FF2-3"]

def logicalOrderException : CharSet := .read ["E40-4 C0-4 19B5-7 A AAB5-6 9 B-C"]

def noncharacter : CharSet := .readGaps
  ["dsdCbFuGBdsyOBdsyOBdsyOBdsyOBdsyOBdsyOBdsyOBdsyOBdsyOBdsyOBdsyOBdsyOBdsyOBdsyOBdsyOBdsyOB"]

def deprecated : CharSet := .read ["149 673 F77 9 17A3-4 206A-F 329-A E0001"]

def softDotted : CharSet := .readGaps
  ["eBBhOAkVAbEAcAAUAmIAdUABAjmNAbZANADAfCAgBAqFAiGBegGAgelHBbYBbYBbYBbYBbYBbYBbYBbYBbYBbYBbYBbY",
   "BdfYAlTBbAA"]

def variationSelector : CharSet := .read ["180B-D F FE00-F E0100-EF"]

def whiteSpace : CharSet := .read ["9-D 20 85 A0 1680 2000-A 28-9 F 5F 3000"]

def regionalIndicator : CharSet := .read ["1F1E6-FF"]

def prependedMark : CharSet := .read ["600-5 DD 70F 890-1 E2 110BD CD"]

def modifierMark : CharSet := .read ["654-5 8 DC E3 7-8 8CA-B D-F D3 F3"]

def patternSyntax : CharSet := .readGaps
  ["bHOKGbADBAbADbIGBABBBABBEAEADAXAbFAluEXIOCSBJlTbbRgEyFbEbrNtSeXoVCEYPAczqZBkBB"]

def patternWhiteSpace : CharSet := .read ["9-D 20 85 200E-F 28-9"]

def compatMathStart : CharSet := .read ["2202 7 1E 1D6C1 DB FB 715 35 4F 6F 89 A9 C3"]

def compatMathContinue : CharSet := .readGaps
  ["gWBFAmaGADKBOoHAEAWAgjjEAZAbFAZAbFAZAbFAZAbFAZA"]

def emoji : CharSet := .readGaps
  ["bJAGAFJeHAEAlyRAMAiIAWAdMFPBoDBMAgKAZKEChRAiXBKAJAcGDBEJACACBCAEACABBCADADBICFABAFLLBCABBBAS",
   "ACBSFBABBDBFACBEBLBFBCAFBBABBUBFFBDCAEACACFBACABABAGADAGAKBPACAEABAECBALBbWCJAOAOAoIBrVCTBbZ",
   "AEAbvUAMAxDABAgmrQAhUAgEBMBOACJcXZBBXAUACIVBgSbHCeHCBBCCdECCBkCBcKLFBXHBCHMACDCAEBNBCAIBJAFC",
   "MCICCABAEAGADAGdHbWcRFHCCEJDABBDACJiTLEAkXbUBJBhCeIMDJFcDHOCKGI"]

/-- Emoji that are shown in colour unless asked otherwise. -/
def emojiPresentation : CharSet := .inter emoji (.readGaps
  ["nhQBhXDDACAuBBTDbYLbRSBANAGDGTDFFUBAHBBAEHBCEBWQVZZbLPZbfYcZgplEnZQeZYbCBiYMIBcRBVMbQEEMQDAD",
   "cSBABhEBcWCbJLAWTdIhZBADPKCHbnO"])

def emojiModifier : CharSet := .read ["1F3FB-F"]

def emojiModifierBase : CharSet := .readGaps
  ["olHAiLAQDgsjVAcICCACCeNBCKVSDAECBCHABAYAhTBEAVAEBgSCDEdFAQCJALAwDACAIHGAJJCCcEAcJBBBBARCBMiV",
   "CbQI"]

def emojiComponent : CharSet := .read ["23 A 30-9 200D E3 FE0F 1F1E6-FF 3FB-F 9B0-3 E0020-7F"]

/-- Pictures, also those of the future. -/
def extendedPictographic : CharSet := .readGaps
  ["gNAEAlyRAMAiIAWAdMFPBoDBMAdRAcSAZKEChRAiXBKAJAcGDBFBLBeJKeNCKBABAGADAGAKBPACAEABAECBALEbTCJA",
   "OAOAoIBrVCTBbZAEAbvUAMAxDABAgmrMjVNCbFAcIFMBOACJScEbBOKAUACIBDJqRFmFIkFbWeXeMLdHbQMDcEHKFbOH",
   "bEdDMbUBJBqYjWbnH"]

def otherAlphabetic : CharSet := .union (.readGaps ["nxMbZgshYZGZGZ"])
  (.inter (inCategories ["Mn", "Mc"]) (.readGaps
    ["bgFAbDZvRgLBfBEHEdEZfPZTCSeCAcILCHGcXBPBCEdYBPBZZZbIPEeCBPVbADDcFPJeOBeFBPIdYBPIdXCPBeTBeH",
     "SAdVIBBQAgHSEcAeGLBACdUclOBZGZdYCScTlKZkICTcVCLdZBOcIbPCZbHKZbRpWbHgaTwNbsuOLZKnQAIbGZeWBZ",
     "ZbYZOZXbWLBjTZbDjDHZbdyWcyKcuGgTySZoNjZcRbRDLcEJeISZZcTNdZCgVXZbJPBVdGVVdQBCeCRZiTZdYBeNCe",
     "KjXMjNMDCfMOBdDCRBdBZpHBjXBACdCBqIyyNQfjCfSMBbdaYZnjKlRdbRA"]))

def otherLowercase : CharSet := .readGaps
  ["gOAPAtHIHBbEEdSAcAAfcZAepZcKNAbIbKbaNANAQMiDPbgQZcwOBbugKBiCAeZCDBbhIDJAbiwSACCBbPBIddzHcJ"]

def otherUppercase : CharSet := .read ["2160-F 4B6-CF 1F130-49 50-69 70-89"]

def otherMath : CharSet := .union (.readGaps
    ["dQAmaHAbBCLAbGDYBOBcNMEADBEEcFAeDECDBBBBBABECBEBERCBBABGBAGBlEDgMBBAYARArDBMIFEFBCBDEOABAC",
     "FYBcFABAbDDJBnEBbFJpNVcLDbGBdclFABAEAiDABAdeaHbX"])
  (.inter (inCategories ["Ll", "Lu", "Lo"]) (.readGaps
    ["blOCCAbABCBlaAbIDADFBFBPgiqGblJikQhF"]))

def otherGraphemeExtend : CharSet := .readGaps
  ["drYAYAnUAYAdYAYAiYABAEBBBJBdZAYAePAPAdmRAbEAbnKAFABAFBdXAcTBboIAgcVBbtwTAeEAbgnLBgwMAeMAkEAO",
   "AJAdSAJACABCFAiQAMAjHAkCAyJAMAchFAbeoKBbkxNBGFbtlaZdR"]

def otherIdStart : CharSet := .read ["1885-6 2118 2E 309B-C"]

def otherIdContinue : CharSet := .read ["B7 387 1369-71 9DA 200C-D 30FB FF65"]

def otherDefaultIgnorable : CharSet := .readGaps
  ["bgPAfiLBckHBdhNAglIAdacPAdBIbwmiHABbDdSeXjGfiL"]

/-! ## Derived properties -/

def alphabetic : CharSet := .union (inCategories ["L", "Nl"]) otherAlphabetic

def lowercase : CharSet := .union (inCategories ["Ll"]) otherLowercase

def uppercase : CharSet := .union (inCategories ["Lu"]) otherUppercase

def cased : CharSet := .unions [lowercase, uppercase, inCategories ["Lt"]]

def math : CharSet := .union (inCategories ["Sm"]) otherMath

def graphemeExtend : CharSet := .union (inCategories ["Me", "Mn"]) otherGraphemeExtend

def graphemeBase : CharSet :=
  .complement (.union (inCategories ["C", "Zl", "Zp"]) graphemeExtend)

/-- What is left out of sight when case is looked at. -/
def caseIgnorable : CharSet :=
  .union (inCategories ["Mn", "Me", "Cf", "Lm", "Sk"])
    (.read ["27 E 3A B7 387 55F F4 2018-9 24 7 FE13 52 5 F07 E 1A"])

/-- What is not shown where it is not known. -/
def defaultIgnorable : CharSet :=
  .diff (.unions [otherDefaultIgnorable, inCategories ["Cf"], variationSelector])
    (.unions [whiteSpace, .read ["FFF9-B 13430-40"], prependedMark])

def syntactic : CharSet := .union patternSyntax patternWhiteSpace

def idStart : CharSet := .diff (.union (inCategories ["L", "Nl"]) otherIdStart) syntactic

def idContinue : CharSet :=
  .diff (.unions [idStart, inCategories ["Mn", "Mc", "Nd", "Pc"], otherIdContinue]) syntactic

/-- Parts of identifiers that are none after normalisation. -/
def unstable : CharSet :=
  .read ["37A 309B-C FC5E-63 DFA-B E70 2 4 6 8 A C E"]

def xidStart : CharSet := .diff idStart (.union unstable (.read ["E33 B3 FF9E-F"]))

def xidContinue : CharSet := .diff idContinue unstable

/-! ### Changes of case -/

def folding : CharSet := .ofCodes (foldPairs.map Prod.fst)

/-- Letters that share their folded form with another one. -/
def paired : CharSet := .union folding (.ofCodes (foldPairs.map Prod.snd))

/-- The capitals of a script whose letters fold to their capitals, and the capital with a dot
whose small form is written with a mark. -/
def changesWhenLowercased : CharSet := .union (.diff folding lowercase) (.read ["130 13A0-F5"])

/-- Letters with a capital.  The capitals of some are written with several letters. -/
def changesWhenUppercased : CharSet :=
  .union (.diff paired uppercase) (.readGaps
    ["lTAXAgKAbjIAjmSEgZABABABAdNABABBKABABBKADBKABABBKABABBdeyQEOE"])

/-- Letters with a title form.  It is the letter itself in some scripts. -/
def changesWhenTitlecased : CharSet :=
  .union (.read ["1C4 7 A F1"]) (.diff changesWhenUppercased (.read
    ["1C5 8 B F2 10D0-FA D-F F88-F 98-F A8-F BC CC FC"]))

/-- Letters with a folded form.  The folded forms of some are written with several letters. -/
def changesWhenCasefolded : CharSet :=
  .diff (.union folding (.readGaps
    ["iPAdCAYAbpTAjmWAiVHIHIHKCCAKCCAbQCCAdeyQEBAME"]))
    (.read ["1FBE D3 E3"])

def changesWhenCasemapped : CharSet :=
  .unions [changesWhenLowercased, changesWhenUppercased, changesWhenTitlecased]

end Property

open Property in
/-- Every property by its names, in small letters and without dividers. -/
def properties : List (List String × CharSet) :=
  [(["ahex", "asciihexdigit"], asciiHexDigit),
   (["alpha", "alphabetic"], alphabetic),
   (["bidic", "bidicontrol"], bidiControl),
   (["ci", "caseignorable"], caseIgnorable),
   (["cased"], cased),
   (["cwcf", "changeswhencasefolded"], changesWhenCasefolded),
   (["cwcm", "changeswhencasemapped"], changesWhenCasemapped),
   (["cwl", "changeswhenlowercased"], changesWhenLowercased),
   (["cwt", "changeswhentitlecased"], changesWhenTitlecased),
   (["cwu", "changeswhenuppercased"], changesWhenUppercased),
   (["dash"], dash),
   (["di", "defaultignorablecodepoint"], defaultIgnorable),
   (["dep", "deprecated"], deprecated),
   (["dia", "diacritic"], diacritic),
   (["emoji"], emoji),
   (["ecomp", "emojicomponent"], emojiComponent),
   (["emod", "emojimodifier"], emojiModifier),
   (["ebase", "emojimodifierbase"], emojiModifierBase),
   (["epres", "emojipresentation"], emojiPresentation),
   (["extpict", "extendedpictographic"], extendedPictographic),
   (["ext", "extender"], extender),
   (["grbase", "graphemebase"], graphemeBase),
   (["grext", "graphemeextend"], graphemeExtend),
   (["grlink", "graphemelink"], graphemeLink),
   (["hex", "hexdigit"], hexDigit),
   (["hyphen"], hyphen),
   (["idsb", "idsbinaryoperator"], idsBinaryOperator),
   (["idst", "idstrinaryoperator"], idsTrinaryOperator),
   (["idsu", "idsunaryoperator"], idsUnaryOperator),
   (["idcompatmathcontinue"], compatMathContinue),
   (["idcompatmathstart"], compatMathStart),
   (["idc", "idcontinue"], idContinue),
   (["ids", "idstart"], idStart),
   (["ideo", "ideographic"], ideographic),
   (["joinc", "joincontrol"], joinControl),
   (["loe", "logicalorderexception"], logicalOrderException),
   (["lower", "lowercase"], lowercase),
   (["math"], math),
   (["mcm", "modifiercombiningmark"], modifierMark),
   (["nchar", "noncharactercodepoint"], noncharacter),
   (["oalpha", "otheralphabetic"], otherAlphabetic),
   (["odi", "otherdefaultignorablecodepoint"], otherDefaultIgnorable),
   (["ogrext", "othergraphemeextend"], otherGraphemeExtend),
   (["oidc", "otheridcontinue"], otherIdContinue),
   (["oids", "otheridstart"], otherIdStart),
   (["olower", "otherlowercase"], otherLowercase),
   (["omath", "othermath"], otherMath),
   (["oupper", "otheruppercase"], otherUppercase),
   (["patsyn", "patternsyntax"], patternSyntax),
   (["patws", "patternwhitespace"], patternWhiteSpace),
   (["pcm", "prependedconcatenationmark"], prependedMark),
   (["qmark", "quotationmark"], quotationMark),
   (["radical"], radical),
   (["ri", "regionalindicator"], regionalIndicator),
   (["sterm", "sentenceterminal"], sentenceTerminal),
   (["sd", "softdotted"], softDotted),
   (["term", "terminalpunctuation"], terminalPunctuation),
   (["uideo", "unifiedideograph"], unifiedIdeograph),
   (["upper", "uppercase"], uppercase),
   (["vs", "variationselector"], variationSelector),
   (["wspace", "whitespace", "space"], whiteSpace),
   (["xidc", "xidcontinue"], xidContinue),
   (["xids", "xidstart"], xidStart)]

open Property in
/-- Letters, marks, digits, connectors and joiners. -/
def wordSet : CharSet :=
  .unions [alphabetic, inCategories ["M", "Nd", "Pc"], joinControl]

def isWord (c : Char) : Bool := wordSet.has c

end Conduit.Text
