import Conduit.Text.Age
import Conduit.Text.Segment

/-!
# Sets of characters by the names of properties

Inside a pattern a set of characters may be named: by a property that characters have or have
not, by a general category, by a script, or by a property together with one of its values.  Names
are compared loosely: neither case nor dividers count, nor does a leading `is`.
-/

namespace Conduit

inductive PropertyName where
  | alone (name : List Char)
  | valued (property value : List Char) (negated : Bool)

namespace PropertyName

/-- The parts of a text before and after the first place where a sign stands. -/
def splitAt? (sign : List Char) : List Char → Option (List Char × List Char)
  | [] => none
  | c :: rest =>
    if sign.isPrefixOf (c :: rest) then some ([], (c :: rest).drop sign.length)
    else (splitAt? sign rest).map fun r => (c :: r.1, r.2)

/-- A name as it was written.  An inequality is looked for before a colon, and that before an
equality. -/
def parse (text : List Char) : PropertyName :=
  match splitAt? ['!', '='] text, splitAt? [':'] text, splitAt? ['='] text with
  | some (p, v), _, _ => .valued p v true
  | none, some (p, v), _ | none, none, some (p, v) => .valued p v false
  | none, none, none => .alone text

/-- The letters that count in a name.  A leading `is` counts only in `isc`, which is not a
category but a property of its own. -/
def loosely (name : List Char) : String :=
  let letters (cs : List Char) := String.ofList <|
    (cs.filter fun c => c.toNat < 128 && c != ' ' && c != '_' && c != '-').map Char.toLower
  match name with
  | a :: b :: rest =>
    if (a == 'i' || a == 'I') && (b == 's' || b == 'S') then
      let short := letters rest
      if short == "c" then "isc" else short
    else letters name
  | _ => letters name

def look? (name : String) (sets : List (List String × CharSet)) : Option CharSet :=
  (sets.find? fun s => s.1.contains name).map Prod.snd

def categoryNames : List (List String × List String) :=
  [(["l", "letter"], ["L"]), (["lu", "uppercaseletter"], ["Lu"]),
   (["ll", "lowercaseletter"], ["Ll"]), (["lt", "titlecaseletter"], ["Lt"]),
   (["lc", "casedletter"], ["Lu", "Ll", "Lt"]), (["lm", "modifierletter"], ["Lm"]),
   (["lo", "otherletter"], ["Lo"]), (["m", "mark", "combiningmark"], ["M"]),
   (["mn", "nonspacingmark"], ["Mn"]), (["mc", "spacingmark"], ["Mc"]),
   (["me", "enclosingmark"], ["Me"]), (["n", "number"], ["N"]),
   (["nd", "decimalnumber", "digit"], ["Nd"]), (["nl", "letternumber"], ["Nl"]),
   (["no", "othernumber"], ["No"]), (["p", "punctuation", "punct"], ["P"]),
   (["pc", "connectorpunctuation"], ["Pc"]), (["pd", "dashpunctuation"], ["Pd"]),
   (["ps", "openpunctuation"], ["Ps"]), (["pe", "closepunctuation"], ["Pe"]),
   (["pi", "initialpunctuation"], ["Pi"]), (["pf", "finalpunctuation"], ["Pf"]),
   (["po", "otherpunctuation"], ["Po"]), (["s", "symbol"], ["S"]), (["sm", "mathsymbol"], ["Sm"]),
   (["sc", "currencysymbol"], ["Sc"]), (["sk", "modifiersymbol"], ["Sk"]),
   (["so", "othersymbol"], ["So"]), (["z", "separator"], ["Z"]), (["zs", "spaceseparator"], ["Zs"]),
   (["zl", "lineseparator"], ["Zl"]), (["zp", "paragraphseparator"], ["Zp"]),
   (["c", "other"], ["C"]), (["cc", "control", "cntrl"], ["Cc"]), (["cf", "format"], ["Cf"]),
   (["co", "privateuse"], ["Co"]), (["cn", "unassigned"], ["Cn"])]

/-- The set of a general category, of all characters, of the assigned ones, or of ASCII. -/
def category? (name : String) : Option CharSet :=
  if name == "any" then some .any
  else if name == "assigned" then some (Text.inCategories ["Cn"]).complement
  else if name == "ascii" then some (.range (Char.ofNat 0) (Char.ofNat 127))
  else (categoryNames.find? fun c => c.1.contains name).map fun c => Text.inCategories c.2

def script? (name : String) : Option Text.Script :=
  Text.scripts.find? fun s => s.names.contains name

/-- The set of the characters that were there in a version, written `3.0` or `V3_0`. -/
def age? (version : String) : Option CharSet :=
  let asValue (v : String) := String.ofList ('v' :: v.toList.filter (· != '.'))
  (Text.ages.find? fun a => a.1 == version || asValue a.1 == version).bind fun a =>
    Text.presentIn? a.1

def valued? (property value : String) : Option CharSet :=
  if ["gc", "generalcategory"].contains property then category? value
  else if ["sc", "script"].contains property then (script? value).map Text.Script.set
  else if ["scx", "scriptextensions"].contains property then
    (script? value).map Text.scriptExtension
  else if property == "age" then age? value
  else if ["gcb", "graphemeclusterbreak"].contains property then look? value Text.graphemeBreaks
  else if ["wb", "wordbreak"].contains property then look? value Text.wordBreaks
  else if ["sb", "sentencebreak"].contains property then look? value Text.sentenceBreaks
  else none

/-- The set that is named, and whether it is asked for what is not in it. -/
def set? : PropertyName → Option (CharSet × Bool)
  | .alone name =>
    let name := loosely name
    let set := (look? name Text.properties).or
      ((category? name).or ((script? name).map Text.Script.set))
    set.map fun s => (s, false)
  | .valued property value negated =>
    (valued? (loosely property) (loosely value)).map fun s => (s, negated)

end PropertyName

end Conduit
