import ModuleLinker.Text.CharClass
import ModuleLinker.Text.Script

namespace ModuleLinker.Text

/-! # Properties of characters

The properties of the Unicode standard that sets of characters can be named by: the general
category, the script and properties that a character either has or has not. Of these only the ones
below are known. There are more of them in the standard, such as `Math`, and more properties with values,
such as the age of a character; a pattern that names one of those is refused.
-/

/-! ## Properties without a value -/

/-- The lower-case characters that are no lower-case letters. -/
def otherLowercase : CharSet :=
  .ofTable
   ["AA BA 2B0-2B8 2C0-2C1 2E0-2E4 345 37A 10FC 1D2C-1D6A 1D78 1D9B-1DBF 2071 207F 2090-209C",
    "2170-217F 24D0-24E9 2C7C-2C7D A69C-A69D A770 A7F2-A7F4 A7F8-A7F9 AB5C-AB5F AB69 10780",
    "10783-10785 10787-107B0 107B2-107BA 1E030-1E06D"]

/-- The upper-case characters that are no upper-case letters. -/
def otherUppercase : CharSet :=
  .ofTable
   ["2160-216F 24B6-24CF 1F130-1F149 1F150-1F169 1F170-1F189"]

/-- The lower-case characters. -/
def lowercase : CharSet := (inCategories ["ll"]).union otherLowercase

/-- The upper-case characters. -/
def uppercase : CharSet := (inCategories ["lu"]).union otherUppercase

/-- The characters that a name can start with. -/
def nameStarts : CharSet :=
  ((inCategories ["lu", "ll", "lt", "lm", "lo", "nl"]).union
    (.ofTable ["1885-1886 2118 212E 309B-309C"])).diff (.ofTable ["2E2F"])

/-- The characters that a name can go on with. -/
def nameParts : CharSet :=
  (nameStarts.union (inCategories ["mn", "mc", "nd", "pc"])).union
    (.ofTable ["B7 387 1369-1371 19DA 200C-200D 30FB FF65"])

/-- Further properties by their names. -/
def propertyTable : List (List String × List String) :=
  [(["asciihexdigit", "ahex"],
    ["30-39 41-46 61-66"]),
   (["dash"],
    ["2D 58A 5BE 1400 1806 2010-2015 2053 207B 208B 2212 2E17 2E1A 2E3A-2E3B 2E40 2E5D 301C 3030",
     "30A0 FE31-FE32 FE58 FE63 FF0D 10D6E 10EAD"]),
   (["emoji"],
    ["23 2A 30-39 A9 AE 203C 2049 2122 2139 2194-2199 21A9-21AA 231A-231B 2328 23CF 23E9-23F3",
     "23F8-23FA 24C2 25AA-25AB 25B6 25C0 25FB-25FE 2600-2604 260E 2611 2614-2615 2618 261D 2620",
     "2622-2623 2626 262A 262E-262F 2638-263A 2640 2642 2648-2653 265F-2660 2663 2665-2666 2668",
     "267B 267E-267F 2692-2697 2699 269B-269C 26A0-26A1 26A7 26AA-26AB 26B0-26B1 26BD-26BE",
     "26C4-26C5 26C8 26CE-26CF 26D1 26D3-26D4 26E9-26EA 26F0-26F5 26F7-26FA 26FD 2702 2705",
     "2708-270D 270F 2712 2714 2716 271D 2721 2728 2733-2734 2744 2747 274C 274E 2753-2755 2757",
     "2763-2764 2795-2797 27A1 27B0 27BF 2934-2935 2B05-2B07 2B1B-2B1C 2B50 2B55 3030 303D 3297",
     "3299 1F004 1F0CF 1F170-1F171 1F17E-1F17F 1F18E 1F191-1F19A 1F1E6-1F1FF 1F201-1F202 1F21A",
     "1F22F 1F232-1F23A 1F250-1F251 1F300-1F321 1F324-1F393 1F396-1F397 1F399-1F39B 1F39E-1F3F0",
     "1F3F3-1F3F5 1F3F7-1F4FD 1F4FF-1F53D 1F549-1F54E 1F550-1F567 1F56F-1F570 1F573-1F57A 1F587",
     "1F58A-1F58D 1F590 1F595-1F596 1F5A4-1F5A5 1F5A8 1F5B1-1F5B2 1F5BC 1F5C2-1F5C4 1F5D1-1F5D3",
     "1F5DC-1F5DE 1F5E1 1F5E3 1F5E8 1F5EF 1F5F3 1F5FA-1F64F 1F680-1F6C5 1F6CB-1F6D2 1F6D5-1F6D7",
     "1F6DC-1F6E5 1F6E9 1F6EB-1F6EC 1F6F0 1F6F3-1F6FC 1F7E0-1F7EB 1F7F0 1F90C-1F93A 1F93C-1F945",
     "1F947-1F9FF 1FA70-1FA7C 1FA80-1FA89 1FA8F-1FAC6 1FACE-1FADC 1FADF-1FAE9 1FAF0-1FAF8"]),
   (["hexdigit", "hex"],
    ["30-39 41-46 61-66 FF10-FF19 FF21-FF26 FF41-FF46"]),
   (["ideographic", "ideo"],
    ["3006-3007 3021-3029 3038-303A 3400-4DBF 4E00-9FFF F900-FA6D FA70-FAD9 16FE4 17000-187F7",
     "18800-18CD5 18CFF-18D08 1B170-1B2FB 20000-2A6DF 2A700-2B739 2B740-2B81D 2B820-2CEA1",
     "2CEB0-2EBE0 2EBF0-2EE5D 2F800-2FA1D 30000-3134A 31350-323AF"]),
   (["joincontrol", "joinc"],
    ["200C-200D"]),
   (["quotationmark", "qmark"],
    ["22 27 AB BB 2018-201F 2039-203A 2E42 300C-300F 301D-301F FE41-FE44 FF02 FF07 FF62-FF63"])]

/-- The characters that have a property by one of its names. -/
def binaryProperty? (name : String) : Option CharSet :=
  match name with
  | "alphabetic" | "alpha" => some letters
  | "whitespace" | "wspace" | "space" => some blanks
  | "lowercase" | "lower" => some lowercase
  | "uppercase" | "upper" => some uppercase
  | "cased" => some ((lowercase.union uppercase).union (inCategories ["lt"]))
  | "idstart" | "ids" => some nameStarts
  | "idcontinue" | "idc" => some nameParts
  | "xidstart" | "xids" => some <| nameStarts.diff <|
    .ofTable ["37A E33 EB3 309B-309C FC5E-FC63 FDFA-FDFB FE70 FE72 FE74 FE76 FE78 FE7A FE7C FE7E",
      "FF9E-FF9F"]
  | "xidcontinue" | "xidc" => some <| nameParts.diff <|
    .ofTable ["37A 309B-309C FC5E-FC63 FDFA-FDFB FE70 FE72 FE74 FE76 FE78 FE7A FE7C FE7E"]
  | _ => (propertyTable.find? fun entry => entry.1.contains name).map fun entry => .ofTable entry.2

/-! ## Names -/

/-- A name as it is looked up: case, blanks, underscores and hyphens make no difference, and neither
does the word `is` in front. -/
def looseName (cs : List Char) : String :=
  let lowered := cs.map Char.toLower
  let (isMarked, rest) := match lowered with
    | 'i' :: 's' :: rest => (true, rest)
    | cs => (false, cs)
  let name := String.ofList <| rest.filter fun c =>
    c.toNat ≤ 0x7F && c != ' ' && c != '_' && c != '-'
  -- there the word belongs to the name of another property
  if isMarked && name == "c" then "isc" else name

/-- The characters that a name stands for: those with a property, of a category or of a script. -/
def property? (name : List Char) : Option CharSet :=
  let name := looseName name
  (binaryProperty? name).or ((category? name).or (script? name))

/-- The characters whose property has a value. -/
def propertyValue? (property value : List Char) : Option CharSet :=
  match looseName property with
  | "gc" | "generalcategory" => category? (looseName value)
  | "sc" | "script" => script? (looseName value)
  | _ => none

end ModuleLinker.Text
