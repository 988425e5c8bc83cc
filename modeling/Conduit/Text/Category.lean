import Conduit.Text.CharSet

/-!
# General categories of characters

The general category of every code point, kept as the run lengths of the standard's table: one or
more categories, by letters, and how many times in a row they occur.
-/

namespace Conduit.Text

/-- The categories, each for a letter of the table: the first ones for `A` to `Z`. -/
def categories : List String :=
  ["Lu", "Ll", "Lt", "Lm", "Lo", "Mn", "Mc", "Me", "Nd", "Nl", "No", "Pc", "Pd", "Ps", "Pe", "Pi",
   "Pf", "Po", "Sm", "Sc", "Sk", "So", "Zs", "Zl", "Zp", "Cc", "Cf", "Cs", "Co", "Cn"]

/-- The categories in code point order: one, or several in turn with plus signs between them, then
how often where it is more than once. -/
def categoryRuns : List String :=
  ["Z32WR3TR3NORSRMR2I10R2S3R2A26NROULUB26NSOSZ33WRT4VRUVEPSaVUVSK2UBR2UKEQK3RA23SA7B24SB8A+B27A",
   "B2A+B7AB2A+B23A2B+A2B3A2BABA2BA3B2A4BA2BA3B3A2BA2B+A2BA2BAB2ABA2BA3BABA2B2EAB3E4A+C+B3A+B7AB2",
   "A+B8AB2ACBABA3B+A29B7A2BA2B2ABA4B+A4B69EB27D18U4D12U14D5U7DUDU17F112A+B2DUABd2DB3RAd4U2ARA3dA",
   "dA2BA17dA9B35AB2A3B3A+B11AB5ABSABA2B2A51B48A+B17VF5H2A+B27A2B+A6B2A+B48dA38d2DR6B41RMd2V2Td",
   "F45MFRF2RF2RFd8E27d4E4R2d11a6S3R2TR2V2F11RaR3E32DE10F21I10R4E2FE99REF7aVF6D2F2VF4E2I10E3V2E",
   "R14daEFE30F27d2E89F11Ed14I10E33F9D2VR3Dd2FT2E22F4DF9DF3DF5d2R15dE25F3d2RdE11d5E24UE6da2d5F9",
   "E41DF24aF32GE54FGFEG3F8G4FG2EF7E10F2R2I10RDE15FG2dE8d2E2d2E22dE7dEd3E4d2FEG3F4d2G2d2G2FEd8Gd4",
   "E2dE3F2d2I10E2T2K6VTERFd2F2GdE6d4E2d2E22dE7dE2dE2dE2d2FdG3F2d4F2d2F3d3Fd7E4dEd7I10F2E3FRd10F2",
   "GdE9dE3dE22dE7dE2dE5d2FEG3F5dF2GdG2Fd2Ed15E2F2d2I10RTd7EF6dFG2dE8d2E2d2E22dE7dE2dE5d2FEGFGF4",
   "d2G2d2G2Fd7F2Gd4E2dE3F2d2I10VEK6d10FEdE6d3E3dE4d3E2dEdE2d3E2d3E3d3E12d4G2FG2d3G3dG3Fd2Ed6Gd14",
   "I10K3V6TVd5FG3FE8dE3dE23dE16d2FEF3G4dF3dF4d7F2dE3d2Ed2E2F2d2I10d7RK7VEFG2RE8dE3dE23dE10dE5d2F",
   "EGFG5dFG2dG2F2d7G2d6E2dE2F2d2I10dE2Gd12F2G2E9dE3dE41F2EG3F4dG3dG3FEVd4E3GK7E3F2d2I10K9VE6dFG2",
   "dE18d3E24dE9dEd2E7d3Fd4G3F3dFdG8d6I10d2G2Rd12E48FE2F7d4TE6DF8RI10R2d37E2dEdE5dE24dEdE10FE2F9E",
   "d2E5dDdF7dI10d2E4d32EV3R15VRV3F2V6I10K10V+F3N+O2G2E8dE36d4F14GF5RF2E5F11dF36dV8FV6dV2R5V4R2",
   "d37E43G2F4GF6GF2G2F2EI10R6E6G2F2E4F3EG3E2G7E3F4E13FG2F2G6FEGI10G3FV2A38dAd5Ad2B43RDB3E329dE4",
   "d2E7dEdE4d2E41dE4d2E33dE4d2E7dEdE4d2E15dE57dE4d2E67d2F3R9K20d3E16V10d6A86d2B6d2ME620VRE17WE26",
   "NOd3E75R3J3E8d7E18F3Gd9E19F2GR2d9E18F2d12E13dE3dF2d12E52F2GF7G8FG2F11R3DR3TEFd2I10d6K10d6R6M",
   "R4F3aFI10d6E35DE53d7E5F2E34FEd5E70d10E31dF3G4F2G3d4G2FG6F3d4Vd3R2I10E30d2E5d11E44d4E26d6I10K",
   "d3V34E23F2G2Fd2R2E53GFGF7dFGFG2F8G6F10d2FI10d6I10d6R7DR6d2F14HF16d49F4GE47FGF5GFG5FG2E8dR2I10",
   "R7V10F9V9R3F2GE30GF4G2F2GF3E2I10E44FGF2G3FGF3G2d8R4E36G8F8G2F2d3R5I10d3E3I10E30D6R2B9ABd5A43",
   "d2A3R8d8F3RF13GF7E4FE6FE2GF2Ed5B44D63B13DB34D37F64A+B74AB9A+B48AB9A8B6d2A6d2B8A8B8A8B6d2A6d2",
   "B8d+A4B8A8B14d2B8C8B8C8B8C8B5dB2A4CUBU3B3dB2A4CU3B4d2B2A4dU3B8A5U3d2B3dB2A4CU2dW11a5M6R2PQNP2",
   "QNPR8XYa5WR9PQR4L2R3SNOR11SRLR10Wa5da10KDd2K6S3NODK10S3NOdD13d3T33d15F13H4FH3F12d15V2AV4AV2B",
   "A3B2A3BVAV2SA5V6A+V3A4VBA4BE4BV2B2A2S5AB4VSV2BVK16J35ABJ4KV2d4S5V5S2V4SV2SV2SV7SV31S2V2SVSV31",
   "S268V8N+O2V20S2V7NOV81SV30S25V40S6V72d22V11d21K60V78K22V183SV9SV54S8V111SV248N+O7K30V44S5NO",
   "S31N+O5S16V256S131N+O11S63N+O2S32NOS258V48S21V2S6V39d2V32dV105A48B48ABA3B2A+B3A4BAB2AB6D2A3",
   "B+A49B2V6A+B2F3ABd5R4KR2B38dBd5Bd2E56d7DRd14FE23d9E7dE7dE7dE7dE7dE7dE7dE7dF32R2P+Q2R3PQRPQR9M",
   "R2MRPQR2PQN+O4R5DR10M2R4MRNR13V2R3N+O4Md34V26dV89d12V214d26V16WR3VDEJN+O5V2N+O4MNO2VJ9F4G2MD5",
   "V2J3DERV2dE86d2F2U2D2EME90RD3Ed5E43dE94dV2K4V10E32V38d9VE16V31dK10V30K8VK15V32K10V39K15V320",
   "E6592V64E21013DE1143d3V55d9E40D6R2E268DR3E16I10E2d20A+B23EFH3RF10RDA+B14D2F2E70J10F2R6d8U23D9",
   "U2A+B6AB3A+B31DB8A+B2A2B+A4BDU2A+B2EABAB3A+B10A5BA5B+A7BA4BABA2Bd2AB+d2B+A4d21D3ABED2BE7FE3F",
   "E4FE23G2F2GV4Fd3K6V2TVd6E52R4d8G2E50G16F2d8R2I10d6F18E6R3ERE2FI10E28F8R2E23F11G2d11RE29d3F3G",
   "E47FG2F4G2F2G3R13dDI10d4R2E5FDE9I10E5dE41F6G2F2G2F2d9E3FE8FGd2I10d2R4E16DE6V3EGFGE50FEF3E2F2",
   "E5F2EFEd24E2DR2E11GF2G2R2ED2GFd10E6d2E6d2E6d9E7dE7dB43UD4B9DU2d4B80E35G2FG2FG2RGFd2I10d6",
   "E11172d12E23d4E49d4b2048c6400E366d2E106d38B7d12B5d5EFE10SE13dE5dEdE2dE2dE108U17d16E363ONV16",
   "E64d2E54d7Vd32E12TV3F16R7NORd6F16RM2L2N+O8R2NOR4L3R3dR4MN+O3R3SMS3dRTR2d4E5dE135d2adR3TR3NORS",
   "RMR2I10R2S3R2A26NROULUB26NSOSNORNOR2E10DE45D2E31d3E6d2E6d2E6d2E3d3T2SUVT2dVS4V2d10a3V2d2E12d",
   "E26dE19dE2dE15d2E14d34E123d5R3d4K45d3V9J53K4V17K2V3dV13d3Vd47V45Fd130E29d3E49d15FK27d4E32K4d9",
   "E20JE8Jd5E38F5d5E30dRE36d4E8RJ5d42A40B40E78d2I10d6A36d4B36d4E40d8E52d11RA11dA15dA7dA2dB11dB15",
   "dB7dB2d3E52d12E311d9E22d10E8d24D6dD42dD9d69E6d2EdE44dE2d3Ed2E23dRK8E23V2K7E31d8K9d48E19dE2d5",
   "K5E22K6d3RE26d5Rd64E56d4K2E2K16d2K46EF3dF2d5F4E4dE3dE29d2F3d4FK9d7R9d7E29K2RE29K3d32E8VE28F2",
   "d4K5R7d9E54d3R7E22d2K8E19d5K8E18d7R4d12K7d80E73d55A51d13B51d7K6E36F4d8I10d6I10E4DEA22d3F5MD",
   "B22d8S2d208K31dE42dF2Md2E2d16E3d55F4E29K10Ed8E22F11K4R5d22E18F4R4d38E21K7d20E23d9GFGE53F15R7",
   "d4K20I10FE2F2Ed9F3GE45G3F4G2F2R2aR4Fd10ad2E25d7I10d6F3E36F5GF8dI10R4EG2Ed8E35FR2Ed9F2GE48G3F9",
   "G2E4R4F4RGFI10ERER3dK20d11E18dE25G3F3G2FGF2R6FE2Fd62E7dEdE4dE15dE10Rd6E47FG3F8d5I10d6F2G2dE8",
   "d2E2d2E22dE7dE2dE5dF2EG2FG4d2G2d2G3d2Ed6Gd5E5G2d2F7d3F5d11E10dEd2EdE38dEG3F6dGd2GdG4dG2FGF+E2",
   "R2dR2d8F2d29E53G3F8G2F3GFE4R5I10R2dRFE3d30E48G3F6GFG4F2GF2E2REd8I10d166E47G3F4d2G4F2GF2R23E4",
   "F2d34E48G3F8G2FGF2R3Ed11I10d6R13d19E43FGFG2F6GFERd6I10d6I20d28E27d2FGFG2F4GF5d4I10K2R3VE7d185",
   "E44G3F9GF2Rd100A32B32I10K9d12E8d2Ed2E8dE2dE24G6dG2d2F2GFE+G2FR3d9I10d70E8d2E39G3F4d2F2G4FEREG",
   "d27EF10E40F6GEF4R8Fd8EF6G2F3E46F13GF2R3ER5d13E73d7R10d182E33Rd14I10d6E9dE37GF7dF6GFER5d10I10",
   "K19d3R2E30d2F22dGF7GF2GF2d73E7dE2dE38F6d3FdF2dF7EFd8I10d6E6dE2dE32G5dF2dG2FGFEd7I10d310E19F2",
   "G2R2d7F2EGE13dE34G2F5d3G2FGFR13I10Fd85Ed15K21V8T4V17d13RE922d102J111dR5d11E196d2636E97R2d13",
   "E1072a16FE6F15d10E3995d5E583d6841E30F12G3F3I10d1734E569d7E31dI10d4R2E79dI10d6E30d2F5Rd10E48F7",
   "R5V4D4RVd10I10dK7dE21d5E19d432D3E40D2R3I10d198A32B32K23R4d101E75d4FEG55d7F4D13d64D2RDFd11G2",
   "d14E6136d8E1238d41E10d8935D4dD7dD2dE291d15Ed29E3d2Ed14E4d8E396d2308E107d5E13d3E9d7E10d2VF2Ra4",
   "d3932V240I10d6V436d76F46d2F23d9V116d60V246d10V39d2V60G2F3V3G6a8F8V2F7V30F4V61d21V66F3Vd122K20",
   "d12K20d12V87d9K25d135A26B26A26B7dB18A26B26AdA2d2Ad2A2d2A4dA8B4dBdB7dB11A26B26A2dA4d2A8dA7dB26",
   "A2dA4dA5dAd3A7dB26A26B26A26B26A26B26A26B26A26B26A26B28d2A25SB25SB6A25SB25SB6A25SB25SB6A25SB25",
   "SB6A25SB25SB6ABd2I50V512F55V4F50V8FV14FV2R5d15F5dF15d1104B10EB20d6B6d213F7dF17d2F7dF2dF5d5D62",
   "d33Fd112E45d3F7D7d2I10d4EVd320E30Fd17E44F4I10d5Td464E27DF4I10d214E30F2EI10d4Rd480E7dE4dE2dE15",
   "dE197d2K9F7d41A34B34F7Dd4I10d4R2d785K59VK3TK4d76K45VK15d194E4dE27dE2dEd2EdE10dE4d+E2d6Ed4E+d3",
   "E3dE2dEd2E+d5E2dEd2E4dE7dE4dE4dEdE10dE17d5E3dE5dE17d52S2d270V44d4V100d12V15d2V15dV15dV37d10",
   "K13V161d56V29d13V44d4V9d7V2d14V6d154V251U5V728d4V17d3V13d3V119d4V95d6V12d4Vd15V12d4V56d8V10d6",
   "V40d8V30d2V12d4V2d62V340d12V14d2V13d3V10d5V56d7V15d2V11d6V9d7V147dV92I10d1030E42720d32E4154d6",
   "E222d2E5762d14E7473d15E622d2466E542d1506E4939d5E4192d711761ad30a96d128F240d65040c65534d2",
   "c65534d2"]

structure Run where
  first : Nat
  last : Nat
  category : String
deriving Inhabited

/-- Adds a character of the table to the letters and numbers that were read, the last ones first.
The flag says whether a plus sign came before it. -/
def readRun : List (List Char × Nat) × Bool → Char → List (List Char × Nat) × Bool
  | ([], _), c => ([([c], 0)], false)
  | ((letters, times) :: runs, joins), c =>
    if c == '+' then ((letters, times) :: runs, true)
    else if c.isDigit then ((letters, times * 10 + (c.toNat - 48)) :: runs, false)
    else if joins then ((letters ++ [c], times) :: runs, false)
    else (([c], 0) :: (letters, times) :: runs, false)

def categoryOf (letter : Char) : String :=
  categories[if letter.isUpper then letter.toNat - 65 else letter.toNat - 71]?.getD ""

/-- Categories with the lengths of their runs. -/
def runsOf (letters : List Char) (times : Nat) : List (String × Nat) :=
  match letters.map categoryOf with
  | [category] => [(category, max times 1)]
  | categories => (List.replicate (max times 1) (categories.map fun c => (c, 1))).flatten

def runTable : Array Run :=
  let runs := ((categoryRuns.flatMap String.toList).foldl readRun ([], false)).1.reverse
  ((runs.flatMap fun r => runsOf r.1 r.2).foldl (fun (state : Array Run × Nat) run =>
    let (category, length) := run
    (state.1.push ⟨state.2, state.2 + length - 1, category⟩, state.2 + length)) (#[], 0)).1

/-- The last run that starts at or before `c`, between positions `low` and `high` of the table. -/
def findRun (table : Array Run) (c : Nat) : Nat → Nat → Nat → Nat
  | 0, low, _ => low
  | fuel + 1, low, high =>
    if high ≤ low + 1 then low
    else
      let middle := (low + high) / 2
      if (table[middle]?.getD default).first ≤ c then findRun table c fuel middle high
      else findRun table c fuel low middle

def category (c : Char) : String :=
  (runTable[findRun runTable c.toNat 32 0 runTable.size]?.getD default).category

/-- Whether a category is `name`, or has it as its first letter. -/
def isUnder (category name : String) : Bool := category == name || category.take 1 == name

def hasCategory (name : String) (c : Char) : Bool := isUnder (category c) name

/-- The characters of some categories, by two letters or by the first one. -/
def inCategories (names : List String) : CharSet :=
  .ofRanges (runTable.toList.filterMap fun r =>
    if r.category != "Cs" && names.any (isUnder r.category) then some (r.first, r.last) else none)

/-- The code points that have been given to characters. -/
def assigned : CharSet := (inCategories ["Cn"]).complement

/-- Neither a control, a format character, a surrogate, unassigned, nor a blank other than the
space. -/
def isPrintable (c : Char) : Bool :=
  c == ' ' || !(hasCategory "C" c || hasCategory "Z" c)

end Conduit.Text
