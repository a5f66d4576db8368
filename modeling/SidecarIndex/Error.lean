import SidecarIndex.Json.Basic
import SidecarIndex.Value.Basic
import SidecarIndex.Path

/-! # Errors

Everything that can go wrong, by its cause, with the words in which it is reported. -/

namespace SidecarIndex

/-! ### Side-car text -/

/-- Why a text has not the shape of a side-car: it is no JSON, or another value stands where an
object, a list or a scalar has to be. -/
inductive ShapeFault where
  | json (fault : Json.Fault)
  | noObject (found : String)
  | noList (name found : String)
  | noScalar (name found : String)
  deriving DecidableEq

def ShapeFault.message : ShapeFault → String
  | json fault => fault.message
  | noObject found =>
    "invalid type: " ++ found
      ++ ", expected a JSON object mapping attribute names to arrays of scalars"
  | noList name found => s!"attribute {name} must hold an array, found {found}"
  | noScalar name found =>
    s!"attribute {name} holds {found} where only numbers, strings and booleans are allowed"

inductive ValueFault where
  | text (s : String)
  | date (s : String)
  | number (n : Number)
  | item (s : String) (variant : Variant)
  | brackets (s : String)
  deriving DecidableEq

def ValueFault.message : ValueFault → String
  | text s => s
  | date s => "Invalid date value: " ++ s
  | number n => String.ofList n.shownText
  | item s variant => "\"" ++ s ++ "\" is not a valid " ++ variant.name
  | brackets s => "unbalanced brackets in \"" ++ s ++ "\""

inductive Problem where
  | attributeFormat (name : String)
  | duplicateAttribute (name : String)
  | valueFormat (fault : ValueFault)
  | typeHomogeneity (name : String) (first other : Variant)
  deriving DecidableEq

def Problem.message : Problem → String
  | attributeFormat name => "Invalid attribute name: \"" ++ name ++ "\""
  | duplicateAttribute name => "Duplicate attribute: \"" ++ name ++ "\""
  | valueFormat fault => "Invalid value: " ++ fault.message
  | typeHomogeneity name first other =>
    s!"Value type is not homogeneous for attribute {name}: found {first.name} and {other.name}"

inductive DocumentError where
  | structural (fault : ShapeFault)
  | single (problem : Problem)
  | several (problems : List Problem)
  deriving DecidableEq

namespace DocumentError

/-- The error for a list of problems: none for none, and a problem alone stands for itself. -/
def ofProblems? : List Problem → Option DocumentError
  | [] => none
  | [problem] => some (single problem)
  | problems => some (several problems)

def message : DocumentError → String
  | structural fault => "Structural error: " ++ fault.message
  | single problem => problem.message
  | several problems =>
    "Errors in metadata content: " ++ "; ".intercalate (problems.map Problem.message)

def errors : DocumentError → List DocumentError
  | several problems => problems.map single
  | e => [e]

end DocumentError

/-! ### Files -/

/-- Why a file cannot be read or written. For reasons that do not show in a tree, such as
permissions and space, the system refuses with words of its own. -/
inductive FileFault where
  | missing
  | noFolder
  | isFolder
  | tooManyLinks
  | noText
  | nameTooLong
  | zeroCharacter
  | refused (reason : String)
  deriving DecidableEq

def FileFault.message : FileFault → String
  | missing => "No such file or directory (os error 2)"
  | noFolder => "Not a directory (os error 20)"
  | isFolder => "Is a directory (os error 21)"
  | tooManyLinks => "Too many levels of symbolic links (os error 40)"
  | noText => "stream did not contain valid UTF-8"
  | nameTooLong => "File name too long (os error 36)"
  | zeroCharacter => "file name contained an unexpected NUL byte"
  | refused reason => reason

inductive SourceError where
  | document (error : DocumentError)
  | file (fault : FileFault)
  deriving DecidableEq

namespace SourceError

def message : SourceError → String
  | document error => error.message
  | file fault => "IO error: " ++ fault.message

def errors : SourceError → List SourceError
  | document error => error.errors.map document
  | file fault => [file fault]

end SourceError

/-! ### Queries and settings -/

inductive QueryFault where
  | token (s : String)
  | space (query : String)
  deriving DecidableEq

def QueryFault.message : QueryFault → String
  | token s => s
  | space query => "unexpected space in \"" ++ query ++ "\""

inductive ConfigFault where
  | unreadable (file : Path) (fault : FileFault)
  | malformed (file : Path)
  | wrongType (file : Path) (key : String)
  | environment (key text : String)
  deriving DecidableEq

def ConfigFault.message : ConfigFault → String
  | unreadable file fault => s!"cannot read {file.text}: {fault.message}"
  | malformed file => s!"{file.text} is not valid TOML"
  | wrongType file key => s!"{key} in {file.text} has the wrong type"
  | environment key text => s!"{key} cannot be {text}"

/-! ### Errors -/

inductive Error where
  | problem (p : Problem)
  | typeConsistency (name : String) (path : Path) (registered found : Variant)
  | predicateFormat (fault : QueryFault)
  | notFound (path : Path)
  | invalidDocument (path : Path) (source : SourceError)
  | file (fault : FileFault)
  | config (fault : ConfigFault)
  deriving DecidableEq

def Error.message : Error → String
  | problem p => p.message
  | typeConsistency name path registered found =>
    s!"Inconsistent type for attribute {name} in {path.text}: "
      ++ s!"registered as {registered.name}, found {found.name}"
  | predicateFormat fault => "Invalid filter criteria: " ++ fault.message
  | notFound path => "Entry not found: " ++ path.text
  | invalidDocument path source => s!"Invalid metadata file {path.text}: {source.message}"
  | file fault => "IO error: " ++ fault.message
  | config fault => "Config error: " ++ fault.message

end SidecarIndex
