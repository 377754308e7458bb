import SecretDotenv.Json.Decimal

/-! JSON values, as configuration is read into and as answers are built from. -/
namespace SecretDotenv

namespace Json

inductive Number where
  | integer (n : Int)
  | binary64 (bits : Bits)
deriving DecidableEq, Repr

end Json

/-- Objects keep the order of their fields. -/
inductive Json where
  | null
  | bool (b : Bool)
  | number (n : Json.Number)
  | string (s : String)
  | array (items : List Json)
  | object (fields : List (String × Json))
deriving Inhabited

namespace Json

def ofNat (n : Nat) : Json :=
  .number (.integer n)

def ofOption (s : Option String) : Json :=
  match s with
  | some s => .string s
  | none => .null

def ofStrings (xs : List String) : Json :=
  .array (xs.map .string)

/-- Puts a field among fields in the order of their keys; the later value of a key wins. -/
def insertField {α : Type} (key : String) (value : α) : List (String × α) → List (String × α)
  | [] => [(key, value)]
  | (k, v) :: rest =>
    if key = k then (key, value) :: rest
    else if key < k then (key, value) :: (k, v) :: rest
    else (k, v) :: insertField key value rest

def sortedFields {α : Type} (fields : List (String × α)) : List (String × α) :=
  fields.foldl (fun sorted (key, value) => insertField key value sorted) []

end Json

end SecretDotenv
