import Conduit.Text.Property

/-!
# Ages of characters

The version of the standard that brought each character.
-/

namespace Conduit.Text

/-- The characters that each version brought, the oldest version first.  The ranges also run over
older characters and over code points that are not assigned. -/
def ages : List (String × List String) :=
  [("1.1",
    ["AtHEbDcEdKHbUBJWcRbABSBCCDABdABGDABABABABRNLBcNBLBbOJcACBCBDbBCHCBcCbVBbMBAbMJBIMbAFEXAOAD",
     "ABZFSNNCcTCEBOBbDCJtZCBcACRCEDYQcHBPJbJHABcYIbBMKBdFDLQbZCNBPBLCMHcJBWDUBLOCBbUBEEYJBCSLBB",
     "cAEYHDCMRBBbJBPEFBIJAIBCLfPfBCBBACAGDBGBGCBBMBSCNrIbLKbMEAEdLFcPFdDeoKfYFdLGlQBWbJGBbCRKbL",
     "RPcTbAbVNdMVjHOABeQfDbKFhKVfTKdBQTGdHfPDBDCbBBbIBABDDABGCGObEDXBNddHcDHdHEFCdPBbSDeHdSbCDb",
     "JbCbBDbXPLEbUBeOEdUCbEjwBbexXyjQjxTiCZEfRZoIQeWbHLbKDMUEbPBjACfVEC"]),
   ("2.0", ["ccURBWBJdmXeBHbAEFBWDGBAfqNAuHAcatWqnReifYBdsyOBnnKbomxKtBlecT"]),
   ("2.1", ["mjSAdgoTA"]),
   ("3.0",
    ["AuXCReNECcKRdARCeFHCZMfEBBCZcSJfRBgZVdUZbEOBbSDbAcBbWcfHdVKZnOAbLcICAZcEBEBBBGDDGZqGGBcKBc",
     "KBbMBbEBbEBbEBOBbMBSGbBbJdGMyFJeIfNdODJWOBdZIbPcwBXBFdRCRbIdHBYbWdZIkIeTBbDfIBrPHbHdKpIjVc",
     "cEoPcICDAnPXwMjtDbfeGbtPCPBLBCBAbgsCAbvVC"]),
   ("3.1", ["bmYBdqqCbRbxKbEBDMbAgZbLCbLczdQlKBgXvAhKBsNElDCbZpdWcleSbetDuVbpcqTeW"]),
   ("3.2",
    ["uYAlQAQPeAbEfPcSbXPmYZlZAdnHBchJMBGLdFdiXLEAHENZZNPbPdEOcMwGkYTBkPCBBdWCJiOZdAbBEbeDbxGlOh",
     "NZcTZcSZbrcXbJbgjAcGbjDADPbGWZjW"]),
   ("4.0",
    ["AvUZkDFSfFEtWDIJbQYHjFqRZgGQbZZeJdJNHHcPbTAeZHhLZdxIiJkCbCDdGeDbFbdOeDpOnCiWAzJBdLsXeCROBb",
     "rANcrNZZbTZdZBkcZKcLcoqVAbYbeDwEbFfEfBbgWcLcyuIdInYAbtkdAjF"]),
   ("4.1",
    ["AwFkSEgDDjMDgMXBZcCASAcGFBkJuHADeRrBZBZbmJBlJDjZnKCcGcgCbPGbPBcQbcDhSzHOZXIYLbQFdNyUKwAfCD",
     "RkKGbgHFjCbUBbUbHeCObSKcBCHQdQbHXEBbjUPgSAbpiTVctOWiZbRbfeAmJxIJWbhAuNcBciSbZEPIIcxpVcRbrA",
     "B"]),
   ("5.0",
    ["AwTlKFkGfJgKAtXcGoUEbhIQfiJcXEbSwLGbZZbbWDBdPZbCxBLbaUSkJKbgJGFDmEMHDbulJDFBlAcLbkoEZCDirG",
     "bhUfPdUNDcogIRHbqO"]),
   ("5.1",
    ["bhWOBqDiSUZZSpWoIBiObKhYAZTdQAeEbCIBUHhHQSVDHsWBdTGGhIEZdaGAbbXbQDLcSeXmTbBZxOfJdRZbFzXyDV",
     "JDDkEADbiIDEkHPBMnQdCrVlPgGTbppOHbzOnNCRIbBdSfSeGZeDcQJLbMdRgEdRbfsUCbhPLFlRckDdRcxpXAlrQf",
     "R"]),
   ("5.2",
    ["byQBbcCcKhLAcHSBFbJBGeScfPDhLZcYxGgHyPvOeEZoLvAbIkGZzVCIhSxIAcNzZBSBAEXdIIbmVJkSeZmHAboCLb",
     "plSHbxKpJcMjCgHZfUbBEiPeYbBEdRiQbdsFCoVetQbFhEBmMbFeYeXeYcUuPbEtTcNlvQbpEctnDKFbECALABACAD",
     "ADEIAHAZABBCAKDCAeHAPbHOIcqlJgdO"]),
   ("6.0",
    ["bySBjOsIDdQgFePtMZpXRCRpLsSzMBdeNhJoQZwYdBbfJKbcCZZhTDZccMZbpECbseNBlNBBBOJdCZbcVbTbemTPhr",
     "IeHbheEvWbalBBymGbEBbFdCcFGbQZfEVBZgZPFBcRDTMbKBEVQPcKBABgZBDDcJSXfREBPBCBABABABCBFCDBACDB",
     "LEKbWcRcGeLcuqMiN"]),
   ("6.1",
    ["ccTZcTUzRABKcDbAtDAbmRuZebBUjWcCecQCbtAsHbraEAcnNZRZiHDMKcZBbcOZbdzWBfuUcHCBcrOeLcIcUHJbtU",
     "cDIJbhkOcQLbUJZbvwGjHyIBblSDhGcA"]),
   ("6.2", ["mkGA"]), ("6.3", ["ciEAjyVD"]),
   ("7.0",
    ["AcaXbPZcZZzMSbXgAyPDZXcYAeXAiUJdkRHoUwJvXBZiSbbHChYxYbVcvBCbHDLBHxUGbtoVFjMZCBcRZrVoTEBbfi",
     "VGCbhCTpGDcWoZeHfOoTiQeXqAtRbnAZhKeQEACKFdPeKcVHcECRDbJkHmRZeOwKdRrGcEdfIbPZhMbalFbVdSxZbd",
     "vKgHqkYiGczWcZuMLDcZCdAFbJIjUBcWZVBbOBgBNeXQTfKdGbRgR"]),
   ("8.0",
    ["dgYUbUAuNAnOAkAWclZIevOAZgXdyEDbrwVIbQcxPCHmMBxMDMdBbffQBebGnBwQeXbvDDDZfUhEVAyJZkYZBbKerP",
     "qKlqQwKcawLKpKejMhqRwQhTfLwDIdZEcHAcucLinP"]),
   ("9.0",
    ["dhUHWObjPAhGcHfrZIoGAchBDdxCBbtzLAkSAbhqDOpOrRfaOArHdLBCtUZccKhAbfmVARjcCTbdAbgfLbQdiZcWFZ",
     "dcRRfMZRbrONWuROBHIACLBLEObHR"]),
   ("10.0",
    ["deMKpLBjSZsYAZdYfwGCZiWZbaIBbhLcxNAyCEqWlQbpxNUblpIZipTfBCWBExHdLbfgPAyhKkYdDpFyaEbrWLYtZL",
     "TTNMSMUXcEWdcpDlbK"]),
   ("11.0",
    ["AciEZvXdVyRZhXcIZenEAboHeBfpGOBcAwPEqRrAbpsYEQcyBmMBbjwTccCrMdLnXfBtGAlBDbaXZZjExLAbbEpSbe",
     "aPdMjpIEbcjUfWjlWfNbpEAceAZiLDnVbWCDDABbMNJGCNbVdSN"]),
   ("12.0",
    ["erUZkGmAfkHAfnXfUuYAbtzMFCEbjRBbmbGZbrDExCAzXlNbzMcLhqUIvrTxTZkfLonTCRZrzUpJbWuHbsDcyJDdOc",
     "bGAZLiVLlDdWIZRFDbCCgKECFCNF"]),
   ("12.1", ["tiDA"]),
   ("13.0",
    ["diCJZyEpYfLfaJBgjUZzVCqNsPMbprOcyNIbQbiCbgqQAewXbXjUbBjNoPuTHbtMdLckKAbdlXlyIBIblwUcfEZHqT",
     "BQhABdDZfNODJYHGJCNGbPhUbLcmsZbhtQhhY"]),
   ("14.0",
    ["AdgJGbqWsIesZZYyLciUZelNtGbsqBOJYbjnMrJcGcxXnAcgSWZboGhuMdUwdXdLbaeWmJlhMbkXZerBnZuWbzDfrN",
     "BZjPApCjRDEZWDKFFKJGHIGjPcsyA"]),
   ("15.0", ["exNsHdtaKbgEdiCJbnAdLBhyObvhKbJmrAgxLkCgtTzRTHbTBGINMABOcthOAuwYueZ"]),
   ("15.1", ["seMDsSZkeiAxX"]), ("16.0", ["AhkjF"])]

/-- The characters that were there in a version, by its number. -/
def presentIn? (version : String) : Option CharSet :=
  let older := ages.takeWhile fun a => a.1 != version
  match ages.drop older.length with
  | [] => none
  | a :: _ =>
    let ranges := CharSet.unions ((older ++ [a]).map fun a => .readGaps a.2)
    some (.inter ranges (.union assigned Property.noncharacter))

end Conduit.Text
