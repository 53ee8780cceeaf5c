import ContractHost.Document.Basic
import ContractHost.Files
import ContractHost.Text.Blank
import ContractHost.Toml.Quoted
import ContractHost.Toml.Reader

/-!
# Configuration

A chaincode is configured by a TOML document with four entries, all of which may be missing: the
default contract, the path of a metadata file, the level of logging, and the title and version of
the chaincode. Other entries are passed over.

A configuration is **valid** when its level is one of the known ones and its default contract, if it
names one, is not blank. Loading checks this and writing does not.
-/

namespace ContractHost

/-- The configuration of a chaincode. -/
structure Config where
  defaultContract : Option String
  metadataPath : Option String
  logLevel : String
  info : Option Info
  deriving DecidableEq, Repr

/-- Why a configuration cannot be used. -/
inductive ConfigError
  | unreadable (e : FileError)
  /-- Not a TOML document, or an entry of the wrong type. -/
  | malformed
  | logLevel (found : String)
  | blankDefault
  deriving DecidableEq, Repr

/-- The levels of logging. -/
def logLevels : List String :=
  ["trace", "debug", "info", "warn", "error"]

namespace ConfigError

/-- The text of the error. -/
def message : ConfigError → String
  | unreadable e => "config I/O error: " ++ e.message
  | malformed => "failed to parse config: not a TOML document of this form"
  | logLevel found =>
    "invalid config: log_level must be one of " ++ ", ".intercalate logLevels ++ ", got " ++ found
  | blankDefault => "invalid config: default_contract must not be blank"

end ConfigError

namespace Info

/-- The info block whose fields are all missing. -/
def blank : Info :=
  ⟨"", "", none⟩

/-- An info block from what is found for its fields. -/
def ofFields? (title version description : Option Toml) : Option Info := do
  let title ← title.mapM Toml.asString?
  let version ← version.mapM Toml.asString?
  let description ← description.mapM Toml.asString?
  return ⟨title.getD "", version.getD "", description⟩

/-- An info block is a table, or a list of its fields. A moment has none of the fields. -/
def ofToml? : Toml → Option Info
  | .table entries =>
    ofFields? (entries.lookup "title") (entries.lookup "version") (entries.lookup "description")
  | .list items => ofFields? items[0]? items[1]? items[2]?
  | .moment _ => some blank
  | _ => none

end Info

namespace Config

/-- The configuration that says nothing. -/
def default : Config :=
  ⟨none, none, "info", none⟩

/-! ### Reading -/

/-- The configuration in a TOML document. -/
def ofToml? (doc : Toml) : Option Config := do
  let defaultContract ← (doc.get? "default_contract").mapM Toml.asString?
  let metadataPath ← (doc.get? "metadata_path").mapM Toml.asString?
  let logLevel ← (doc.get? "log_level").mapM Toml.asString?
  let info ← (doc.get? "info").mapM Info.ofToml?
  return ⟨defaultContract, metadataPath, logLevel.getD default.logLevel, info⟩

/-- The configuration in a text. -/
def read? (cs : List Char) : Option Config := do
  ofToml? (← Toml.read? cs)

/-- Check the values of a configuration. -/
def check (c : Config) : Except ConfigError Unit :=
  if c.logLevel ∉ logLevels then .error (.logLevel c.logLevel)
  else if c.defaultContract.any Text.isBlank then .error .blankDefault
  else .ok ()

/-- Load a configuration from the content of a file. -/
def load (content : Except FileError (List UInt8)) : Except ConfigError Config :=
  match FileView.text content with
  | .error e => .error (.unreadable e)
  | .ok cs =>
    match read? cs with
    | none => .error .malformed
    | some c => c.check.map fun () ↦ c

/-! ### Writing -/

/-- One entry on a line of its own. -/
def writeEntry (name value : String) : String :=
  name ++ " = " ++ Toml.writeText value ++ "\n"

/-- An entry that is written only if it is there. -/
def writeOptional (name : String) : Option String → String
  | none => ""
  | some value => writeEntry name value

/-- The info block as a table of its own. -/
def writeInfo : Option Info → String
  | none => ""
  | some i =>
    "\n[info]\n" ++ writeEntry "title" i.title ++ writeEntry "version" i.version ++
      writeOptional "description" i.description

/-- The text of a configuration. -/
def toText (c : Config) : String :=
  writeOptional "default_contract" c.defaultContract ++
    writeOptional "metadata_path" c.metadataPath ++ writeEntry "log_level" c.logLevel ++
    writeInfo c.info

end Config

end ContractHost
