/-! Text as bytes and bytes as text. Bytes that are no UTF-8 are shown by the
replacement character, one for each longest run that could have begun a character. -/
namespace SecretDotenv.Text

def utf8 (s : List Char) : List UInt8 :=
  s.flatMap String.utf8EncodeChar

/-- What a first byte promises: the bounds of the second byte and how many bytes
follow. Overlong forms and surrogates are ruled out by the bounds. -/
def lead? (b : UInt8) : Option (UInt8 × UInt8 × Nat) :=
  if 0xC2 ≤ b && b ≤ 0xDF then some (0x80, 0xBF, 1)
  else if b = 0xE0 then some (0xA0, 0xBF, 2)
  else if b = 0xED then some (0x80, 0x9F, 2)
  else if 0xE1 ≤ b && b ≤ 0xEF then some (0x80, 0xBF, 2)
  else if b = 0xF0 then some (0x90, 0xBF, 3)
  else if 0xF1 ≤ b && b ≤ 0xF3 then some (0x80, 0xBF, 3)
  else if b = 0xF4 then some (0x80, 0x8F, 3)
  else none

/-- The longest run of at most `count` bytes that can follow a first byte. -/
def followers (low high : UInt8) : Nat → List UInt8 → List UInt8
  | count + 1, b :: rest =>
    if low ≤ b && b ≤ high then b :: followers 0x80 0xBF count rest else []
  | _, _ => []

def codePoint (first : UInt8) (rest : List UInt8) : Nat :=
  let bits := match rest.length with
    | 1 => first.toNat % 32
    | 2 => first.toNat % 16
    | _ => first.toNat % 8
  rest.foldl (fun n b => 64 * n + b.toNat % 64) bits

def replacement : Char := '\uFFFD'

def decodeUtf8 : List UInt8 → List Char
  | [] => []
  | b :: rest =>
    if b < 0x80 then Char.ofNat b.toNat :: decodeUtf8 rest
    else
      match lead? b with
      | none => replacement :: decodeUtf8 rest
      | some (low, high, count) =>
        let taken := followers low high count rest
        let c := if taken.length = count then Char.ofNat (codePoint b taken) else replacement
        c :: decodeUtf8 (rest.drop taken.length)
  termination_by bytes => bytes.length
  decreasing_by
    · exact Nat.lt_succ_self _
    · exact Nat.lt_succ_self _
    · exact Nat.lt_succ_of_le (List.drop_suffix _ _).length_le

def ofUtf8 (bytes : List UInt8) : String :=
  String.ofList (decodeUtf8 bytes)

end SecretDotenv.Text
