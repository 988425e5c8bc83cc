import Conduit.Text.Category

/-!
# Scripts of characters

Every character belongs to one script.  Some are used in several: the script extensions of a
character are the scripts that use it, by default its own.
-/

namespace Conduit.Text

/-- A script: its code, its names in small letters, and its characters.  The ranges also run over
code points that are not assigned.  The common script has all that is left by the others. -/
structure Script where
  code : String
  names : List String
  table : List String
  /-- What it uses of the characters that several scripts use. -/
  shared : List String

def tableWords (lines : List String) : List String := lines.flatMap fun line => line.splitOn " "

/-- Codes begin with a capital letter and go on in small ones. -/
def isCode (word : String) : Bool :=
  match word.toList with
  | first :: second :: _ => first.isUpper && second.isLower
  | _ => false

/-- The scripts one after another: the code, other names, the gaps and sizes of the ranges, and
after a plus sign those of what it shares. -/
def scriptLines : List String :=
  ["Adlm adlam hdeUdR +ciHAbGAjwOAfhHA Aghb caucasianalbanian duxScL +bdSAbSAbSA Ahom ebrCcS Arab",
   "arabic chCEBFBNBCBbFBJLZBeDBbHdCbVjGeJBbCdntWsZChJeIfKfvNbEcPcJdglSjH",
   "+chOAOBCAbGAKKKJGAdVAjqWAfhHAdakABgWAKAbwCbB Armi imperialaramaic dwbWbF Armn armenian",
   "bzDdQdozJE +bdWAyQA Avst avestan dxcYcL +hBArfSB Bali balinese kfWeX Bamu bamum clcQdJcvcQvW",
   "Bass bassavah fhkIbL Batk batak knGcL Beng bengali dpOeW",
   "+baYAcmUBRBeYJhdWABACBBAIAIACAEACCcbaFA Bhks bhaiksuki edoIeE Bopo bopomofo bcSBrlXbQeIbF",
   "+bbJABCNArcPCEJBMKDCAGAhNAcztHBkWE Brah brahmi dzaEeX Brai braille pdWjV Bugi buginese jwAbF",
   "+cmhZA Buhd buhid iuYT +iuNB Cakm chakma dzkAcT +dtMJckEJ Cans canadianaboriginal",
   "hoYyPvOcRdtpQP Cari carian dtyMbW +hBAlzMACAfgDA Cham cmjWdR Cher cherokee hlGdPcfjEdB",
   "+bdOCBAGBWBLB Chrs chorasmian dyxCbB Copt coptic qaac bmGNpjKeX +hBAwMADBBAeEBqdTAdcpCbB Cpmn",
   "cyprominoan ekyYdU +dtiMB Cprt cypriot dvzKcL +dtiMCEbSDI Cyrl cyrillic",
   "bnKfCCgMivOKgEAcYAgfNbFbtoAdRbheCBdhpGdR +baYAcPCBABABACAFAoFEjqMAgeKAbtnFA Deva devanagari",
   "dkQdCEOCZcijGbFbreMJ +baYAcmUBRLhiUbMBBbnAAbzfRJhBABA Diak divesakuru eckUdL Dogr dogra ecaYcH",
   "+doMLcidCJ Dsrt deseret dumAdB Dupl duployan gmdSgD +hBAwTBBAYBqiHAfuwPD Egyp",
   "egyptianhieroglyphs eldGhoS Elba elbasan duvWbN +hBAwRA Elym elymaic dyyYW Ethi ethiopic",
   "gvGpTjvAdQbvkCbTepyFbE +beCA Gara garay dxzCdB +chOAOADA Geor georgian ghSdMBDejWbVgeAbT",
   "+hBAbvLAeiRAfvIAfgGA Glag glagolitic qrGdRgizGbQ +hBAwPABAoSACAjXAeiRAfvIAfgYAbtnFA Gong",
   "gunjalagondi eebWcV +hBAdhKB Gonm masaramgondi edyEdL +doMB Goth gothic dueAbA +hBAwQBCAbOA",
   "Gran grantha eadScFCcE +dnTBRByQNgkAABBbECDBbnAAdnrKABAcDBetVBBA Grek greek",
   "bhWDBIBFBABdLOPjnQEbYEEEdGAmIjUlJAcajEAbgnIdARAdaxRcR +hBAwMBCABABAKAbUACAbUBjyWBzRA Gujr",
   "gujarati dzLeW +dnTBRBoUJchoIJ Gukh gurungkhema fdrScF +doNA Guru gurmukhi duNeN",
   "+dnTBRBjWJchtGJ Hang hangul glKjVllEBjXdPeJbEcNbEbtaNbCyTqrBpaIcI +seRCEJBMQAGAhNAcztHBkWE",
   "Hani han rpWnDbVABAZIODblCjtNcMbfbJbhsIsFbsiIBMBccoKeglZ",
   "+hBArwYPBCCABJBMKDCAGAEDhFAfSPbGbLJAbWbNcEbWPLbZAdKYKEdSbEbroJHbhaZBkWEdchERlrYB Hano hanunoo",
   "itSU +iuNB Hatr hatran dwiAbF Hebr hebrew ccVdVdovWbY +bdVB Hira hiragana shDdHGCfpeVlASbGymVA",
   "+seRCEJBMQFBAEBdNDDAdMBcztGBkWEKAbTB Hluw anatolianhieroglyphs essEwK Hmng pahawhhmong fhmEfN",
   "Hmnp nyiakengpuachuehmong haeAdB Hung oldhungarian dxrSeX +mgOACAfgDAPA Ital olditalic ducEbV",
   "Java javanese cmeYcZCP +cmhZA Kali kayahli cmaAbTBA +cmbUA Kana katakana",
   "skVdLCCjGPiAbUBdJczhEJBbScouCQlBCbYS +bdTAbDAqzTCEJBMQFBAEBdNDDAdMBcztGBkWEKAbTB Kawi eerWdM",
   "Khar kharoshthi dwtCdK Khmr khmer ixKeRsSbF Khoj khojki dztWcN +edIJchoIJ Kits",
   "khitansmallscript fjiIAkgXtR Knda kannada etCeL +dnTBRBbiMJgaIABBGAXABAcasXF Krai kiratrai",
   "fiiIcF Kthi kaithi dzfCcZ +doOJnxXAbufEJ Lana taitham jxGfL Laoo lao fmVdQ Latn latin",
   "cNZGZbVAPAFWBbEBrGbNEjxBbLGbWFDFMBcRcNjVoFANAQMfLBGAbBARbOecTbFbulMdXDeMbfKbQBIBDbedQGboKZGZdcFcGddnPbQ",
   "+hBAtWAKABCBAJABAbMOBBBAPCHBBBbMAFAEMkRBbvEBcxKAexWAvUAhKAezMAbtuMHvEA Lepc lepcha kpSdB Limb",
   "limbu jmEdB +doNA Lina lineara dvfSnV +dtiTbS Linb linearb dsyQjQ +dtiMCEbSDI Lisu ckkUbVbumAA",
   "+baYAQArdKB Lyci lycian dtxGbC +mgOA Lydi lydian dwkMbF +hBArfTA Mahj mahajani dznCbM",
   "+hBAdhKLcidCJ Maka makasar eeqQY Mand mandaic ddGbE +cjOA Mani manichaean dxaMcC +cjOAdusVA",
   "Marc marchen edsQcS Medf medefaidrin fisEdM Mend mendekikakui hcuYiG Merc meroiticcursive",
   "dwpKdR Mero meroitichieroglyphs dwoEbF +mgRA Mlym malayalam eyAeX +dnTBRBhjOAXAcasZC Modi",
   "ebhGdL +clsAJ Mong mongolian jcIBCABgIdscBM +jcKBBAdcJAfzTBFD Mroo mro fheUbV Mtei meeteimayek",
   "cmsMWhTcF Mult multani dzyUbP +dyKJ Mymr myanmar gbOgDcgaYbEdTbFbpaMT +geAJcfxKA Nagm",
   "nagmundari hbpObP Nand nandinagari ecqYcQ +dnTASBbiMJgbHAIAHAcasRF Narb oldnortharabian dwyAbF",
   "Nbat nabataean dweIbV Newa eanOdT +dnTBhkCABBJAGABABA Nkoo nko cyIcL +chOAOADAdppEB Nshu nushu",
   "fjiFAyvMpF Ogam ogham inObC Olck olchiki ksUbV Onao olonal hbzKbV +doMB Orkh oldturkic dxmUcU",
   "+mgOAfgFA Orya oriya eeJeO +dnTBRBhjOAXA Osge osage dusUcX +bdPACAGAcYA Osma osmanya duqYbP",
   "Ougr olduyghur dyuQZ +cjOAdusVA Palm palmyrene dwdCbF Pauc paucinhau edcAcE Perm oldpermic",
   "dufGbQ +hBAwMAFCKAoDA Phag phagspa clsQcD +jcKBBAdcJAfzUA Phli inscriptionalpahlavi dxgQbF",
   "Phlp psalterpahlavi dxhWbV +cjOA Phnx phoenician dwjGbF Plrd miao fizOgD Prti",
   "inscriptionalparthian dxfKbF Rjng rejang cmbWbV Rohg hanifirohingya dxwQcF +chOAOADAbGAfRA",
   "Runr runic ioUcWDK +irRC Samr samaritan daUcK +rmVA Sarb oldsoutharabian dwwUbF Saur",
   "saurashtra clvCdL Sgnw signwriting gwtKbaL Shaw shavian dupCbV +hBA Shrd sharada dzoYdR",
   "+dnTAhkFABACBCAJACAcatEFCA Sidd siddham ebcIdP Sind khudawadi eaaQcV +doMBcidMJ Sinh sinhala",
   "fcZeLdulGT +doMBhkMA Sogd sogdian dysEbP +cjOA Sogo oldsogdian dyqIbN Sora sorasompeng dziEbP",
   "Soyo soyombo ecxSdE Sund sundanese kkUcLjWH Sunu sunuwar edlWcF +bdOBBAJACAbCADA Sylo",
   "sylotinagri clqEbS +doMBeYJ Syrc syriac cqYdBkMK +bdRBCBBAYCHBBBbcCAOBCAbGAKKbAAixRABA Tagb",
   "tagbanwa iwET +iuNB Takr takri ebmEcV +doMBcidMJ Tale taile jpGbK +bdOBFBDAezZJ Talu newtailue",
   "jrCdR Taml tamil ejIeQealHcL +dnTBRByQNgkKAcbbKAboeFABAcDBetVBBA Tang tangut fjiEAbFkfVtSI",
   "+seAPtBA Tavt taiviet cmoUdR Telu telugu eoEeX +dnTBRBhjJBBABAXA Tfng tifinagh rcYdB",
   "+bdQABABDZA Tglg tagalog isMbF +iuNB Thaa thaana cvWbX +chOAOBCAcMJdptGAKA Thai fhXcFFbB",
   "+baYAbAAbRAbTA Tibt tibetan frSiEEB +seYD Tirh tirhuta easMdL +dnTBRBhjJAMAPAcasZJ Tnsa tangsa",
   "fhgQdL Todr todhri dvdGbZ +bdPACACAJABAcWA Toto hatKbE +baYA Tutg tulutigalari eaiQdU",
   "+exAJgbQABAcasXFhFA Ugar ugaritic duhCbF Vaii vai ckmQlN Vith vithkuqi dvaEcY Wara warangciti",
   "echCdR Wcho wancho havGcL Xpeo oldpersian duiIcB Xsux cuneiform efbSbzV Yezi yezidi dylKbX",
   "+chOAOADAcMJ Yiii yi cipKbvA +seRBFJCHiPAdaeFE Zanb zanabazarsquare ecuQcT Zinh inherited qaai",
   "bdOeHkRBrKKbAAbcIDgoXbEtTCBMBGEAGADBhQcLuEBhMbGftXDeDBczuJPQNblNAiSAgfAActcUcSuYCRHCGbEDbtlhIjF",
   "Zyyy common"]

/-- Adds a word of the table to the scripts that were read, the last one first. -/
def addScriptWord (read : List Script) (word : String) : List Script :=
  if isCode word then ⟨word, [word.toLower], [], []⟩ :: read
  else match read, word.toList with
    | s :: rest, '+' :: gaps => { s with shared := [String.ofList gaps] } :: rest
    | s :: rest, cs =>
      if cs.all Char.isLower then { s with names := s.names ++ [word] } :: rest
      else { s with table := [word] } :: rest
    | read, _ => read

def scripts : List Script := ((tableWords scriptLines).foldl addScriptWord []).reverse

def Script.set (s : Script) : CharSet :=
  if s.table.isEmpty then
    let others := scripts.filter fun other => !other.table.isEmpty
    let given := CharSet.unions (others.map fun other => .readGaps other.table)
    .diff (.diff assigned (inCategories ["Co"])) given
  else .inter (.readGaps s.table) assigned

/-- The characters that scripts share. -/
def extended : CharSet := .unions (scripts.map fun s => .readGaps s.shared)

def scriptExtension (s : Script) : CharSet := .union (.diff s.set extended) (.readGaps s.shared)

end Conduit.Text
