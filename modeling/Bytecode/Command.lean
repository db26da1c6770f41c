import Bytecode.Files.Tree
import Bytecode.FrontEnd.Source
import Bytecode.Schema.Document
import Bytecode.Schema.Load

/-!
# The command

The command reads a schema document and writes the source text of a front end for it, to a file or
to the standard output. It is written over an interface to files, so that it runs on the file system
and on a file tree alike.
-/

namespace Bytecode.Command

/-! ### Failures -/

/-- Why the command fails. -/
inductive Failure where
  /-- The document cannot be read as a text. -/
  | read (path : String)
  /-- The text is not a schema document. -/
  | parse (path : String)
  /-- The schema describes no format. -/
  | validate (path : String) (cause : SchemaError)
  /-- Names clash in the front end. -/
  | clash (reason : FrontEnd.Clash)
  /-- There are too many arguments. -/
  | usage
  /-- The folder of the output cannot be created. -/
  | create (folder : String)
  /-- The output cannot be written. -/
  | write (path : String)
deriving DecidableEq, Repr

namespace Failure

/-- The wording of a failure. -/
def message : Failure → String
  | read path => s!"read {path}"
  | parse path => s!"parse {path}"
  | validate path _ => s!"validate {path}"
  | clash reason => reason.message
  | usage => "usage: cartridge_codegen [format.json] [out.rs]"
  | create folder => s!"create {folder}"
  | write path => s!"write {path}"

/-- The wording of what lies behind a failure. -/
def cause? : Failure → Option String
  | validate _ cause => some cause.message
  | _ => none

end Failure

/-! ### Files -/

/-- What the command does with files, in a monad `m`. -/
structure Access (m : Type → Type) where
  /-- The text of a file, if there is one. -/
  readText : String → m (Option String)
  /-- Creates a folder and all folders on the way; says whether it exists now. -/
  createFolders : String → m Bool
  /-- Creates or replaces a file; says whether that worked. -/
  writeText : String → String → m Bool

/-- Access to a file tree. -/
def treeAccess : Access (StateM Files.Tree) :=
  let update (change : Files.Tree → Option Files.Tree) : StateM Files.Tree Bool := do
    match change (← get) with
    | some tree => set tree; return true
    | none => return false
  { readText := fun path => do return (← get).readText? path
    createFolders := fun path => update (·.createFolders? path)
    writeText := fun path text => update (·.write? path (Text.utf8 text)) }

/-! ### Running -/

/-- The document that is read when none is named. -/
def defaultPath : String := "formats/hir_v1.json"

variable {m : Type → Type} [Monad m]

/-- Goes on unless a file operation has failed. -/
def require (done : m Bool) (failure : Failure) : ExceptT Failure m Unit := do
  if !(← done) then throw failure

/-- The format that the document at a path describes. -/
def loadFormat (access : Access m) (path : String) : ExceptT Failure m Format := do
  let some text ← access.readText path | throw (.read path)
  let some schema := Schema.ofText? text | throw (.parse path)
  match schema.load with
  | .ok format => return format
  | .error cause => throw (.validate path cause)

/-- The source text of a front end for the document at a path. -/
def loadFrontEnd (access : Access m) (path : String) : ExceptT Failure m String := do
  match FrontEnd.sourceText (← loadFormat access path) path with
  | .ok text => return text
  | .error reason => throw (.clash reason)

/-- Writes a text to the file at a path, creating its folder first. -/
def save (access : Access m) (path text : String) : ExceptT Failure m Unit := do
  if let some folder := Files.parent? path then
    require (access.createFolders folder) (.create folder)
  require (access.writeText path text) (.write path)

/-- Runs the command: the first argument names the document, the second the output file. The result
is what goes to the standard output. -/
def run (access : Access m) (args : List String) : ExceptT Failure m String := do
  match args with
  | [] => loadFrontEnd access defaultPath
  | [path] => loadFrontEnd access path
  | [path, out] => do
    save access out (← loadFrontEnd access path)
    return ""
  | _ => throw .usage

end Bytecode.Command
