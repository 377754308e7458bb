import SecretDotenv.Proofs.Secret.Durable

/-! Spellings of a file. A file is kept under the spelling of its URL, not under its
path. One spelling for each file keeps every secret; with a second one the file is kept
twice, and a secret that was stored by one spelling is lost when the other stores its own. -/
namespace SecretDotenv.Secret.SopsEnv

open SecretDotenv.Text SecretDotenv.Machine SecretDotenv.Dotenv
open Effect (outcome)

variable {v : SopsEnv} {programs : Programs} {plain : String → Option String} {events : List Event}
  {mode : Mode} {args : List String} {m : Machine} {s t : Store} {w : Wanted} {value : String}
  {document : Document}

end SecretDotenv.Secret.SopsEnv
