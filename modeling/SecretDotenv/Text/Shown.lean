import SecretDotenv.Text.Ascii

/-! Values as logs show them: texts in quotes, with escapes for what is not seen. -/
namespace SecretDotenv.Text

/-- Characters without an image of their own: controls, formats, marks that sit on the
character before, blanks other than the usual one, and private ones. -/
def isUnseen (c : Char) : Bool :=
  let n := c.toNat
  n < 0x20 || (0x7F ≤ n && n ≤ 0xA0) || n = 0xAD || (0x300 ≤ n && n ≤ 0x36F) ||
    (0x483 ≤ n && n ≤ 0x489) || (0x591 ≤ n && n ≤ 0x5BD) || (0x600 ≤ n && n ≤ 0x605) ||
    (0x610 ≤ n && n ≤ 0x61A) || n = 0x61C || (0x64B ≤ n && n ≤ 0x65F) || n = 0x1680 ||
    n = 0x180E || (0x1AB0 ≤ n && n ≤ 0x1AFF) || (0x1DC0 ≤ n && n ≤ 0x1DFF) ||
    (0x2000 ≤ n && n ≤ 0x200F) || (0x2028 ≤ n && n ≤ 0x202F) || (0x205F ≤ n && n ≤ 0x206F) ||
    (0x20D0 ≤ n && n ≤ 0x20F0) || n = 0x3000 || (0x302A ≤ n && n ≤ 0x302F) ||
    (0x3099 ≤ n && n ≤ 0x309A) || (0xE000 ≤ n && n ≤ 0xF8FF) || (0xFE00 ≤ n && n ≤ 0xFE0F) ||
    (0xFE20 ≤ n && n ≤ 0xFE2F) || n = 0xFEFF || (0xFFF0 ≤ n && n ≤ 0xFFFB) ||
    (0xFFFE ≤ n && n ≤ 0xFFFF) || 0xE0000 ≤ n

def shownChar (c : Char) : List Char :=
  match c with
  | '"' => ['\\', '"']
  | '\\' => ['\\', '\\']
  | '\n' => ['\\', 'n']
  | '\r' => ['\\', 'r']
  | '\t' => ['\\', 't']
  | '\x00' => ['\\', '0']
  | c =>
    if isUnseen c then ['\\', 'u', '\x7b'] ++ Nat.toDigits 16 c.toNat ++ ['\x7d'] else [c]

def shown (s : String) : String :=
  String.ofList ('"' :: s.toList.flatMap shownChar ++ ['"'])

def shownFlag (b : Bool) : String :=
  if b then "true" else "false"

def shownOption (s : Option String) : String :=
  match s with
  | some s => "Some(" ++ shown s ++ ")"
  | none => "None"

def shownList (xs : List String) : String :=
  "[" ++ ", ".intercalate (xs.map shown) ++ "]"

def shownRecord (name : String) (fields : List (String × String)) : String :=
  name ++ " \x7b " ++ ", ".intercalate (fields.map fun (field, value) => field ++ ": " ++ value) ++
    " \x7d"

end SecretDotenv.Text
