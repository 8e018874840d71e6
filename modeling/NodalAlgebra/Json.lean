/-!
# JSON values

The tree of a JSON document. Of numbers it keeps only whether they are written as
a natural number, and then which; another number is its text. The members of an
object are in the order of the document.
-/

namespace NodalAlgebra

/-- A JSON value. -/
inductive Json where
  | null
  | bool (b : Bool)
  /-- A number written with digits alone. -/
  | natural (n : Nat)
  /-- A number written in any other way. -/
  | decimal (text : String)
  | string (s : String)
  | array (items : List Json)
  | object (members : List (String × Json))

namespace Json

/-- The member of an object with the given key. -/
def member? (key : String) : List (String × Json) → Option Json
  | [] => none
  | (k, v) :: rest => if k = key then some v else member? key rest

/-! ## Compact text -/

/-- A character inside a string: quotes, backslashes and control characters are
escaped. -/
def escape (c : Char) : String :=
  if c = '"' then "\\\""
  else if c = '\\' then "\\\\"
  else if c = '\n' then "\\n"
  else if c = '\r' then "\\r"
  else if c = '\t' then "\\t"
  else if c.toNat = 8 then "\\b"
  else if c.toNat = 12 then "\\f"
  else if c.toNat < 32 then
    "\\u00" ++ (if c.toNat < 16 then "0" else "") ++ String.ofList (Nat.toDigits 16 c.toNat)
  else c.toString

/-- A string in quotes. -/
def quote (s : String) : String :=
  "\"" ++ String.join (s.toList.map escape) ++ "\""

mutual

/-- The text of a value without blanks. -/
def compact : Json → String
  | .null => "null"
  | .bool b => if b then "true" else "false"
  | .natural n => n.repr
  | .decimal t => t
  | .string s => quote s
  | .array items => "[" ++ ",".intercalate (compactItems items) ++ "]"
  | .object members => "\x7b" ++ ",".intercalate (compactMembers members) ++ "\x7d"

/-- The texts of the items of an array. -/
def compactItems : List Json → List String
  | [] => []
  | j :: rest => compact j :: compactItems rest

/-- The texts of the members of an object. -/
def compactMembers : List (String × Json) → List String
  | [] => []
  | (k, j) :: rest => (quote k ++ ":" ++ compact j) :: compactMembers rest

end

end Json

end NodalAlgebra
