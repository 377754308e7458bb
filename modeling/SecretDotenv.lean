import SecretDotenv.Expansion.Description
import SecretDotenv.Machine.Rehearsal
import SecretDotenv.Main
import SecretDotenv.Secret.Description
import SecretDotenv.Proofs.Dotenv.WrittenForm
import SecretDotenv.Proofs.Machine.DiskFrame
import SecretDotenv.Proofs.Machine.FreshPath
import SecretDotenv.Proofs.Machine.Backup
import SecretDotenv.Proofs.Machine.CommandRun
import SecretDotenv.Proofs.Secret.Outcome
import SecretDotenv.Proofs.Secret.FileSteps
import SecretDotenv.Proofs.Url.LocalPath
import SecretDotenv.Proofs.Secret.FileRequests
import SecretDotenv.Proofs.Secret.FailedRequest
import SecretDotenv.Proofs.Url.Authority
import SecretDotenv.Proofs.Url.Front
import SecretDotenv.Proofs.Url.PlainParts
import SecretDotenv.Proofs.Dotenv.Entries
import SecretDotenv.Proofs.Dotenv.ReadNodes
import SecretDotenv.Proofs.Secret.EntryNames
import SecretDotenv.Proofs.Secret.CacheKey
import SecretDotenv.Proofs.Secret.PlainRequest
import SecretDotenv.Proofs.Secret.Narrowed
import SecretDotenv.Proofs.Secret.HeldText
import SecretDotenv.Proofs.Secret.Durable
import SecretDotenv.Proofs.Secret.Spellings
import SecretDotenv.Proofs.Dotenv.Labels
import SecretDotenv.Proofs.Expansion.Pieces
import SecretDotenv.Proofs.Expansion.Questions
import SecretDotenv.Proofs.Expansion.Trace
import SecretDotenv.Proofs.Expansion.Frame
import SecretDotenv.Proofs.Expansion.Turns
import SecretDotenv.Proofs.Expansion.PassFrame
import SecretDotenv.Proofs.Expansion.Joined
import SecretDotenv.Proofs.Expansion.Stopped
import SecretDotenv.Proofs.Expansion.FirstFault
import SecretDotenv.Proofs.Expansion.Inert
import SecretDotenv.Proofs.Expansion.Verbatim
import SecretDotenv.Proofs.Expansion.Escaped
import SecretDotenv.Proofs.Expansion.Resolved
import SecretDotenv.Proofs.Dotenv.Alternation
import SecretDotenv.Proofs.Dotenv.Shifted
import SecretDotenv.Proofs.Dotenv.Placeless
import SecretDotenv.Proofs.Dotenv.Quoted
import SecretDotenv.Proofs.Dotenv.Concatenation
import SecretDotenv.Proofs.Dotenv.FrontMatter
import SecretDotenv.Proofs.Machine.Transcript
import SecretDotenv.Proofs.Secret.CloudCalls
import SecretDotenv.Proofs.Secret.FileCalls
import SecretDotenv.Proofs.Dotenv.Blocks
import SecretDotenv.Proofs.Arguments
import SecretDotenv.Proofs.Secret.Generation
import SecretDotenv.Proofs.Secret.FlagGroups
import SecretDotenv.Proofs.Text.Trimmed
import SecretDotenv.Proofs.Text.Decoded
import SecretDotenv.Proofs.Secret.WorkingDirectory
import SecretDotenv.Proofs.Secret.Precedence
import SecretDotenv.Proofs.Secret.ReadBack
import SecretDotenv.Proofs.Url.Escapes
import SecretDotenv.Proofs.Url.PathBytes
import SecretDotenv.Proofs.Url.LiteralPath
import SecretDotenv.Proofs.Secret.ConfiguredFile
import SecretDotenv.Proofs.Json.Fields
import SecretDotenv.Proofs.Rendering
import SecretDotenv.Proofs.Secret.DefaultRequest
import SecretDotenv.Proofs.Config.Dispatch
import SecretDotenv.Proofs.Dotenv.Places
import SecretDotenv.Proofs.Config.ReadBack
import SecretDotenv.Proofs.Secret.NameSpellings
