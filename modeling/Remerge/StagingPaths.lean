import Remerge.SnapshotTypes

/-!
# Names inside a staged runtime

Manifest keys are client text. The server splits them the way `std::path` does
and rebuilds a target from the normal components, so different keys may name
one target: `a//b` and `a/./b` are both `a/b`, and `foo/` is `foo`.
-/

set_option autoImplicit false

namespace Remerge.StagingPaths
open SnapshotTypes

inductive Component where
  | rootDir | curDir | parentDir
  | normal (segment : String)
  deriving DecidableEq, Repr

def isAbsolute (path : String) : Bool := path.toList.head? == some '/'

def bodyComponent (part : List Char) : Option Component :=
  if part = [] ∨ part = ['.'] then none
  else if part = ['.','.'] then some .parentDir
  else some (.normal (String.ofList part))

/-- `Path::components`: a leading `.` is kept, empty parts and inner dots are not. -/
def components (path : String) : List Component :=
  match isAbsolute path,path.toList.splitOn '/' with
  | true,parts => .rootDir::parts.filterMap bodyComponent
  | false,['.']::parts => .curDir::parts.filterMap bodyComponent
  | false,parts => parts.filterMap bodyComponent

def isSingleNormalPathComponent (name : String) : Bool :=
  match components name with
  | [.normal _] => true
  | _ => false

def sanitizeFileName (name : String) : Except Failure String :=
  if isSingleNormalPathComponent name then .ok name
  else .error (.bail s!"invalid file name '{name}'")

def sanitizeDistfileName (name : String) : Except Failure String :=
  if isSingleNormalPathComponent name then .ok name
  else .error (.bail s!"invalid distfile name '{name}'")

def invalidRelativePath (path : String) : Failure :=
  .bail s!"invalid relative path '\"{path}\"'"

def pushNormal : List Component → Option (List String)
  | [] => some []
  | .normal segment::rest => (pushNormal rest).map (segment::·)
  | _::_ => none

def sanitizeRelativePath (path : String) : Except Failure (List String) :=
  if path = "" ∨ isAbsolute path then .error (invalidRelativePath path)
  else match pushNormal (components path) with
    | some safe => .ok safe
    | none => .error (invalidRelativePath path)

/-- A path below the run's `snapshots` directory. A name spelled with a
trailing separator can only denote a directory. -/
structure StagedTarget where
  segments : List String
  directory : Bool
  deriving DecidableEq, Repr

def normalSegments (name : String) : List String :=
  (components name).filterMap fun
    | .normal segment => some segment
    | _ => none

/-- `repos_dir.join(sanitize_file_name(repo_name)?)`. -/
def repoBase (repoName : String) : Except Failure (List String) :=
  (sanitizeFileName repoName).map fun name => "repos"::normalSegments name

def repoTarget (base : List String) (relativePath : String) : Except Failure StagedTarget :=
  (sanitizeRelativePath relativePath).map fun safe => ⟨base++safe,false⟩

/-- `distfiles_dir.join(sanitize_distfile_name(name)?)`. -/
def distfileTarget (name : String) : Except Failure StagedTarget :=
  (sanitizeDistfileName name).map fun name =>
    ⟨"distfiles"::normalSegments name,normalSegments name != [name]⟩

end Remerge.StagingPaths
