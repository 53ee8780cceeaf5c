import ContractHost.Assets.Contract
import ContractHost.Chaincode.Routing

/-!
# The command line

One run invokes one function of the asset contract on the demonstration ledger and prints the
answer. What a run does to the outside is an `Outcome`: an exit code and two texts. Files are read
through a function that the caller gives, in whatever monad it works, so the same definition runs on
a fixed set of files and on the file system.

The exit code is 0 for a success and for the two informative options, 1 for a failed call, and 2
when there was nothing to call or no chaincode to call it on.
-/

namespace ContractHost

namespace CommandLine

/-- What a run leaves behind. -/
structure Outcome where
  exitCode : Nat
  output : String
  errors : String
  deriving DecidableEq, Repr

/-- The name of the program. -/
def programName : String := "chaincode-router"

/-- The help text. -/
def help : String :=
  "\n".intercalate
    [programName ++ " v" ++ version,
      "Contract routing demo over an in-memory ledger",
      "",
      "USAGE:",
      "    " ++ programName ++ " [--config <path>] <function> [args...]",
      "",
      "FUNCTIONS (" ++ Assets.contractName ++ " is the default contract):",
      "    CreateAsset <id> <owner> <value>",
      "    ReadAsset <id>",
      "    AssetExists <id>",
      "    TransferAsset <id> <new-owner>",
      "    DeleteAsset <id>",
      "    " ++ systemName ++ ":" ++ metadataFunction,
      "",
      "OPTIONS:",
      "    --config <path>   TOML config (default_contract, metadata_path, log_level, info)",
      "    -h, --help        Print help",
      "    -V, --version     Print version",
      "",
      "EXAMPLES:",
      "    " ++ programName ++ " ReadAsset asset1",
      "    RUST_LOG=debug " ++ programName ++ " assets:TransferAsset asset2 Max",
      ""]

/-- A run that prints a text and succeeds. -/
def Outcome.informed (text : String) : Outcome :=
  ⟨0, text, ""⟩

/-- A run that could not call anything. -/
def Outcome.failed (reason : String) : Outcome :=
  ⟨2, "", "Error: " ++ reason ++ "\n"⟩

/-- A run that was answered. -/
def Outcome.answered (r : Response) : Outcome :=
  let last := if r.isOk then "payload: " ++ r.payloadText else "message: " ++ r.message
  ⟨if r.isOk then 0 else 1, "status:  " ++ toString r.status ++ "\n" ++ last ++ "\n", ""⟩

/-- A run in which a function broke the promise of its signature. -/
def Outcome.broken (b : Breach) : Outcome :=
  ⟨101, "", b.message ++ "\n"⟩

/-! ### Arguments -/

/-- What the arguments ask for. -/
inductive Request
  | help
  | version
  | call (configPath : Option String) (function : String) (args : List String)
  /-- The option for the configuration stands alone. -/
  | noConfigPath
  | noFunction
  deriving DecidableEq, Repr

/-- A call with what follows the options. -/
def Request.ofCall (configPath : Option String) : List String → Request
  | [] => .noFunction
  | function :: args => .call configPath function args

/-- Read the arguments. -/
def Request.ofArgs : List String → Request
  | [] => .help
  | first :: rest =>
    if first = "--help" ∨ first = "-h" then .help
    else if first = "--version" ∨ first = "-V" then .version
    else if first = "--config" then
      match rest with
      | [] => .noConfigPath
      | path :: rest => .ofCall (some path) rest
    else .ofCall none (first :: rest)

/-! ### Calls -/

/-- The chain of causes of a configuration error. The cause of an unreadable file is part of the
text and stands behind it once more. -/
def configFailure (path : String) (e : ConfigError) : String :=
  "loading config from " ++ path ++ ": " ++ e.message ++
    match e with
    | .unreadable cause => ": " ++ cause.message
    | _ => ""

/-- Put the asset contract into a chaincode of its own. -/
def assemble (config : Config) (files : FileView) : Except RegistrationError Chaincode :=
  match Assets.contract with
  | .error e => .error e
  | .ok c => Chaincode.assemble config none files [c.toService]

/-- Call one function on the demonstration ledger. -/
def call (config : Config) (files : FileView) (function : String) (args : List String) : Outcome :=
  match assemble config files with
  | .error e => .failed e.message
  | .ok c =>
    match (c.invoke (.ofCall function args) (.ofLedger Assets.seedLedger)).1 with
    | .error b => .broken b
    | .ok r => .answered r

section

variable {m : Type → Type} [Monad m]

/-- Read the configuration, if a path is given. -/
def readConfig (read : String → m (Except FileError (List UInt8))) :
    Option String → m (Except String Config)
  | none => pure (.ok .default)
  | some path => do
    match Config.load (← read path) with
    | .error e => pure (.error (configFailure path e))
    | .ok c => pure (.ok c)

/-- Read the one file that a configuration names. -/
def readMetadata (read : String → m (Except FileError (List UInt8))) (config : Config) :
    m FileView :=
  match config.metadataPath with
  | none => pure fun _ ↦ .error .notFound
  | some path => do
    let content ← read path
    pure fun _ ↦ content

/-- Run the command line. -/
def run (read : String → m (Except FileError (List UInt8))) (args : List String) : m Outcome :=
  match Request.ofArgs args with
  | .help => pure (.informed help)
  | .version => pure (.informed (programName ++ " " ++ ContractHost.version ++ "\n"))
  | .noConfigPath => pure (.failed "--config requires a path")
  | .noFunction => pure (.failed "no function given")
  | .call configPath function args => do
    match ← readConfig read configPath with
    | .error reason => pure (.failed reason)
    | .ok config => return call config (← readMetadata read config) function args

end

end CommandLine

end ContractHost
