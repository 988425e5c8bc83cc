import Conduit.Text.CharSet

/-!
# Case folding

Two characters are the same letter when they fold to the same one.  The table holds the simple
foldings of the standard, each a stretch of characters that all move by one distance.
-/

namespace Conduit

namespace Text

/-- Stretches of characters, every `step`-th of which folds to the character `shift` away. -/
structure FoldRow where
  shift : Int
  step : Nat
  table : List String

def foldRows : List FoldRow :=
  [⟨2, 1, ["1C4 7 A F1"]⟩, ⟨-7, 1, ["3F9 1FEC"]⟩,
   ⟨-8, 1, ["13F8-D F08-F 18-D 28-F 38-F 48-D 68-F 88-F 98-F A8-F B8-9 D8-9 E8-9"]⟩,
   ⟨-9, 1, ["1FBC CC FC"]⟩, ⟨16, 1, ["2160-F"]⟩, ⟨26, 1, ["24B6-CF"]⟩,
   ⟨32, 1, ["41-5A C0-D6 8-E 391-A1 3-B 410-2F FF21-3A 10D50-65 18A0-BF 6E40-5F"]⟩,
   ⟨34, 1, ["1E900-21"]⟩, ⟨37, 1, ["388-A"]⟩, ⟨39, 1, ["10570-A C-8A C-92 4-5"]⟩,
   ⟨40, 1, ["10400-27 B0-D3"]⟩, ⟨-48, 1, ["3F1 A7C4"]⟩, ⟨48, 1, ["531-56 2C00-2F"]⟩,
   ⟨63, 1, ["38E-F"]⟩, ⟨64, 1, ["38C 10C80-B2"]⟩, ⟨-74, 1, ["1FBA-B"]⟩, ⟨80, 1, ["400-F"]⟩,
   ⟨-86, 1, ["1FC8-B"]⟩, ⟨-100, 1, ["1FDA-B"]⟩, ⟨-112, 1, ["1FEA-B"]⟩, ⟨116, 1, ["345 7F"]⟩,
   ⟨-126, 1, ["1FFA-B"]⟩, ⟨-128, 1, ["1FF8-9"]⟩, ⟨-130, 1, ["220 3FD-F"]⟩, ⟨205, 1, ["189-A 93"]⟩,
   ⟨211, 1, ["196 C"]⟩, ⟨217, 1, ["1B1-2"]⟩, ⟨218, 1, ["1A6 9 E"]⟩, ⟨-3008, 1, ["1C90-BA D-F"]⟩,
   ⟨-6210, 1, ["1C83-4"]⟩, ⟨7264, 1, ["10A0-C5 7 D"]⟩, ⟨-10815, 1, ["2C7E-F"]⟩,
   ⟨-38864, 1, ["AB70-BF"]⟩, ⟨-42308, 1, ["A7AA E"]⟩,
   ⟨1, 2,
    ["100-2E 32-6 9-47 A-76 9-D 82-4 7 B 91 8 A0-4 7 C F B3-5 8 C C5 8 B-DB E-EE F2-4 8-21E",
     "22-32 B 41 6-E 370-2 6 C2 D8-EE F7 A 460-80 A-BE C1-D D0-52E 1C89 E00-94 A0-FE 2183",
     "C60 7-B 72 5 80-E2 B-D F2 A640-6C 80-9A 722-E 32-6E 79-B E-86 B 90-2 6-A8 B4-C2 7-9 C",
     "D0 6-A F5 FB05"]⟩,
   ⟨-8, 2, ["1F59-F"]⟩]

/-- The letters whose distance from their folded forms is their own, with these forms. -/
def loneFolds : List String :=
  ["B5-3BC 178-0FF 17F-073 181-253 186-254 18E-DD 8F-259 190-25B 194-263 197-268 19D-272 19F-275",
   "1B7-292 1F6-95 F7-BF 23A-2C65 023D-19A 23E-2C66 0243-180 244-89 45-8C 386-AC CF-D7 0-B2 D1-B8",
   "D5-C6 D6-C0 F0-BA F4-B8 F5-B5 4C0-F 1C80-0432 1C81-0434 1C82-043E 1C85-0442 1C86-044A",
   "1C87-0463 1C88-A64B 1E9B-61 9E-00DF 1FBE-03B9 1FD3-0390 1FE3-03B0 2126-03C9 212A-006B",
   "212B-00E5 2132-4E C62-026B 2C63-1D7D 2C64-027D 2C6D-0251 2C6E-0271 2C6F-0250 2C70-0252",
   "A77D-1D79 A78D-0265 A7AB-025C A7AC-0261 A7AD-026C A7B0-029E A7B1-0287 A7B2-029D A7B3-B53",
   "7C5-0282 A7C6-1D8E A7CB-0264 A7DC-019B"]

def foldPairs : List (Nat × Nat) :=
  CharSet.readRanges loneFolds ++ foldRows.flatMap fun row =>
    (CharSet.readRanges row.table).flatMap fun r =>
      (List.range ((r.2 - r.1) / row.step + 1)).map fun i =>
        let n : Nat := r.1 + i * row.step
        (n, (n + row.shift : Int).toNat)

end Text

namespace CharSet

/-- With every character that is the same letter in another case. -/
def folded (s : CharSet) : CharSet :=
  let touched := Text.foldPairs.filter fun p => s.hasCode p.1 || s.hasCode p.2
  let forms := ofCodes (touched.map Prod.snd)
  let same := Text.foldPairs.filter fun p => forms.hasCode p.2
  ofRanges (s.ranges ++ forms.ranges ++ same.map fun p => (p.1, p.1))

/-- With every letter of ASCII that is in the set in the other case. -/
def foldedAscii (s : CharSet) : CharSet :=
  let shifted (distance : Int) (letters : CharSet) :=
    (inter s letters).ranges.map fun r => ((r.1 + distance).toNat, (r.2 + distance).toNat)
  ofRanges (s.ranges ++ shifted 32 (range 'A' 'Z') ++ shifted (-32) (range 'a' 'z'))

end CharSet

end Conduit
