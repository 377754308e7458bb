import SecretDotenv.Expansion.Options
import SecretDotenv.Text.Numeral
import SecretDotenv.Text.Shown

/-! The options of a run as logs show them: names of variables, but no values. -/
namespace SecretDotenv.Expansion

open SecretDotenv.Text

def durationText (ms : Nat) : String :=
  if ms ≥ 1000 then
    let fraction := (padded 3 (ms % 1000)).toList.reverse.dropWhile (· = '0')
    toString (ms / 1000) ++ (if fraction.isEmpty then "" else "." ++ String.ofList fraction.reverse) ++ "s"
  else if ms > 0 then toString ms ++ "ms"
  else "0ns"

def Options.description (o : Options) (vaults : List String) : String :=
  let names := ((o.bindings.map (·.1)).mergeSort (· ≤ ·))
  shownRecord "ExpansionOptions" [
    ("enable_unix_args", shownFlag o.unixArgs),
    ("enable_windows_variables", shownFlag o.windowsVariables),
    ("enable_command_substitution", shownFlag o.commands),
    ("enable_secret_substitution", shownFlag o.secrets),
    ("enable_shell_execution", shownFlag o.shell),
    ("use_shell", shown o.useShell),
    ("secrets_expression", shown o.keyword),
    ("variables", shownList names),
    ("vault_expanders", shownList vaults),
    ("args", toString o.args.length),
    ("command_timeout", match o.limit with
      | some ms => "Some(" ++ durationText ms ++ ")"
      | none => "None")]

end SecretDotenv.Expansion
