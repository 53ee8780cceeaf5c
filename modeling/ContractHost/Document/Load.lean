import ContractHost.Document.Reader
import ContractHost.Files

/-!
# Loading metadata documents

A metadata document that is supplied from outside stands in a file as JSON text.
-/

namespace ContractHost

/-- Why a metadata file cannot be used. -/
inductive MetadataError
  | unreadable (e : FileError)
  /-- Not a JSON text, or not one of a metadata document. -/
  | malformed
  deriving DecidableEq, Repr

namespace MetadataError

/-- The text of the error. -/
def message : MetadataError → String
  | unreadable e => "failed to read metadata file: " ++ e.message
  | malformed => "failed to parse metadata file: not a metadata document"

end MetadataError

namespace Document

/-- Load a document from the content of a file. -/
def load (content : Except FileError (List UInt8)) : Except MetadataError Document :=
  match FileView.text content with
  | .error e => .error (.unreadable e)
  | .ok chars =>
    match read? (chars.map some) with
    | none => .error .malformed
    | some d => .ok d

end Document

end ContractHost
