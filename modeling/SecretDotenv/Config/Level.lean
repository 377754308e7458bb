import SecretDotenv.Text.Ascii
import SecretDotenv.Text.Blank

/-! How much a run logs. -/
namespace SecretDotenv.Config

open SecretDotenv.Text

inductive Level where
  | silent
  | error
  | warn
  | info
  | debug
  | trace
deriving DecidableEq, Repr

namespace Level

def all : List Level := [.silent, .error, .warn, .info, .debug, .trace]

def name : Level → String
  | .silent => "silent"
  | .error => "error"
  | .warn => "warn"
  | .info => "info"
  | .debug => "debug"
  | .trace => "trace"

def filter : Level → String
  | .silent => "off"
  | level => level.name

def ofName? (name : String) : Option Level :=
  all.find? (·.name == name)

/-- Reads a level as people write it, in any case and with two other words. -/
def ofText? (text : String) : Option Level :=
  match lower (trim text) with
  | "off" => some .silent
  | "warning" => some .warn
  | word => ofName? word

def unknownMessage (text : String) : String :=
  "invalid log level: " ++ text

def directive (filter : String) : String :=
  "dotvault=" ++ filter

end Level

end SecretDotenv.Config
