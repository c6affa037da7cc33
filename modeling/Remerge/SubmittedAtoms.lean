import Remerge.EmergePolicy
import Remerge.AtomOperators
import Remerge.PackageEntries

/-!
# From the command line to the worker's command line

The client takes the atoms out of its arguments, expands the sets it knows and
leaves out what is installed. The list that remains is the workorder's, but the
arguments travel with it as they were given, atoms and sets included, and the
worker puts the two behind each other.
-/

set_option autoImplicit false

namespace Remerge.SubmittedAtoms
open SnapshotTypes ServerState ServerTasks ClientAuth WorkorderApi AtomValidation AtomOperators
open EmergePolicy RustText PackageEntries

section

inductive Profile where
  | dir (parents : List Profile) (packages : Option String)

/-- Lines starting with a star are system packages. -/
def systemPackage (line : String) : Option String :=
  (stripStart line "*").bind fun atom => if trim atom = "" then none else some (trim atom)

mutual

def readProfilePackages : Profile → List String
  | .dir parents packages =>
    readParents parents++(packages.map fun content => parseLines content systemPackage).getD []

def readParents : List Profile → List String
  | [] => []
  | profile::rest => readProfilePackages profile++readParents rest

end

/-- What the client reads: the world file, the profile behind `make.profile` and
the installed packages. -/
structure ClientFiles where
  world : Option String
  profile : Option Profile
  installed : PackageDb

def ClientFiles.readWorld (files : ClientFiles) : List String :=
  (files.world.map fun content => parseLines content some).getD []

def ClientFiles.readSystemSet (files : ClientFiles) : List String :=
  (files.profile.map readProfilePackages).getD []

/-- A set that is empty stands for itself, and so does one the client does not know. -/
def orItself (setName : String) (atoms : List String) : List String :=
  if atoms.isEmpty then [setName] else atoms

def ClientFiles.expandSet (files : ClientFiles) (setName : String) : List String :=
  if setName = "@world" then orItself setName files.readWorld
  else if setName = "@system" then orItself setName files.readSystemSet
  else [setName]

def isSet (atom : String) : Bool := atom.toList.head? == some '@'

def extractPackageAtoms (args : List String) : List String := args.filter fun arg => !isOption arg

structure Cli where
  emergeArgs : List String
  force : Bool
  dryRun : Bool

variable (cli : Cli) (files : ClientFiles)

def expandedAtoms : List String :=
  (extractPackageAtoms cli.emergeArgs).flatMap fun atom =>
    if isSet atom then files.expandSet atom else [atom]

/-- Sets that could not be expanded are not validated. -/
def firstInvalid : List String → Option (String × AtomValidationError)
  | [] => none
  | atom::rest =>
    if isSet atom then firstInvalid rest
    else match validateAtom atom with
      | .error e => some (atom,e)
      | .ok () => firstInvalid rest

def wantedAtoms : List String :=
  if cli.force then expandedAtoms cli files
  else (expandedAtoms cli files).filter fun atom => !isInstalled files.installed atom.toList

inductive RunOutcome where
  | usage
  | plainEmerge
  | invalidAtom (atom : String) (error : AtomValidationError)
  | nothingToDo
  | dryRun (atoms : List String)
  | submits (atoms emergeArgs : List String)
  deriving DecidableEq

/-- `Cli::run` up to the submission. -/
def run : RunOutcome :=
  if cli.emergeArgs.isEmpty then .usage
  else if (extractPackageAtoms cli.emergeArgs).isEmpty then .plainEmerge
  else match firstInvalid (expandedAtoms cli files) with
    | some (atom,e) => .invalidAtom atom e
    | none =>
      if cli.force = false ∧ wantedAtoms cli files = [] then .nothingToDo
      else if cli.dryRun then .dryRun (wantedAtoms cli files)
      else .submits (wantedAtoms cli files) cli.emergeArgs

inductive Ordered : Workorder → Prop where
  | intro (text : UnicodeText) (registry : CertRegistry) (headers : HeaderMap) (body : SubmitBody)
      (traceId : Option String) (request : ServerOps.SubmitRequest) (normalized : PortageConfig)
      (id : WorkorderId) (now : Time) (sent : run cli files = .submits body.atoms body.emergeArgs)
      (accepted : checkSubmit text registry headers body traceId = .ok request) :
      Ordered (newWorkorder request normalized id now)

end

def positional (args : List String) : List String := args.filter fun arg => !isOption arg

theorem positional_append (xs ys : List String) :
    positional (xs++ys) = positional xs++positional ys := List.filter_append ..

/-- The worker drops options only, so every atom of the client's arguments is
passed on, in front of the workorder's atoms. -/
theorem positional_invocation (w : Workorder) (emergeCmd : String) :
    positional (buildEmergeInvocation w emergeCmd).2 =
      extractPackageAtoms w.emergeArgs++positional w.atoms := by
  have hbase : positional baseArgs = [] := by decide
  have hkept : positional (w.emergeArgs.filter fun arg => !filteredArgs.contains arg) =
      extractPackageAtoms w.emergeArgs := by
    rw [positional,List.filter_filter]
    apply List.filter_congr
    intro arg _
    cases hc : filteredArgs.contains arg with
    | true =>
      have hall : ∀ arg ∈ filteredArgs, isOption arg := by decide
      simp [hall arg (by simpa using hc)]
    | false => simp
  rw [buildEmergeInvocation,buildEmergeArgs,positional_append,positional_append,hbase,hkept]
  rfl

theorem no_atom_of_positional (w : Workorder) (emergeCmd : String)
    (h : positional (buildEmergeInvocation w emergeCmd).2 = w.atoms) :
    extractPackageAtoms w.emergeArgs = [] := by
  rw [positional_invocation] at h
  have hplain : ∀ atom ∈ w.atoms, isOption atom = false := by
    intro atom ha
    rw [← h,List.mem_append] at ha
    rcases ha with ha | ha <;> simpa using (List.mem_filter.mp ha).2
  have hall : positional w.atoms = w.atoms :=
    List.filter_eq_self.mpr fun atom ha => by simp [hplain atom ha]
  rw [hall] at h
  simpa using h

variable {cli : Cli} {files : ClientFiles}

theorem firstInvalid_eq_none {atoms : List String} : firstInvalid atoms = none ↔
    ∀ atom ∈ atoms, isSet atom = false → validateAtom atom = .ok () := by
  induction atoms with
  | nil => simp [firstInvalid]
  | cons atom rest ih =>
    rw [firstInvalid,List.forall_mem_cons]
    by_cases hs : isSet atom
    · simp [hs,ih]
    · rw [if_neg hs]
      cases hv : validateAtom atom with
      | error e => simp [hs]
      | ok u => simp [ih]

structure Orders (cli : Cli) (files : ClientFiles) : Prop where
  named : extractPackageAtoms cli.emergeArgs ≠ []
  valid : ∀ atom ∈ expandedAtoms cli files, isSet atom = false → validateAtom atom = .ok ()
  wanted : wantedAtoms cli files ≠ []
  real : cli.dryRun = false
  sets : ∀ atom ∈ wantedAtoms cli files, isSet atom → validateAtom atom = .ok ()

theorem orItself_ne_nil (setName : String) (atoms : List String) : orItself setName atoms ≠ [] := by
  cases atoms <;> simp [orItself]

theorem expandSet_ne_nil (files : ClientFiles) (setName : String) :
    files.expandSet setName ≠ [] := by
  unfold ClientFiles.expandSet
  split
  · exact orItself_ne_nil _ _
  · split
    · exact orItself_ne_nil _ _
    · exact List.cons_ne_nil _ _

theorem expandedAtoms_ne_nil (files : ClientFiles) (h : extractPackageAtoms cli.emergeArgs ≠ []) :
    expandedAtoms cli files ≠ [] := by
  obtain ⟨atom,ha⟩ := List.exists_mem_of_ne_nil _ h
  intro hn
  have hnil := List.flatMap_eq_nil_iff.mp hn atom ha
  split at hnil
  · exact expandSet_ne_nil files atom hnil
  · cases hnil

theorem run_eq_submits {atoms emergeArgs : List String} :
    run cli files = .submits atoms emergeArgs ↔
      extractPackageAtoms cli.emergeArgs ≠ [] ∧
        (∀ atom ∈ expandedAtoms cli files, isSet atom = false → validateAtom atom = .ok ()) ∧
        wantedAtoms cli files ≠ [] ∧ cli.dryRun = false ∧
        atoms = wantedAtoms cli files ∧ emergeArgs = cli.emergeArgs := by
  unfold run
  by_cases hempty : cli.emergeArgs = []
  · simp [hempty,extractPackageAtoms]
  · by_cases hraw : extractPackageAtoms cli.emergeArgs = []
    · simp [hempty,hraw]
    · rw [if_neg (by simpa using hempty),if_neg (by simpa using hraw)]
      cases hfirst : firstInvalid (expandedAtoms cli files) with
      | some invalid =>
        have hbad : ¬ ∀ atom ∈ expandedAtoms cli files, isSet atom = false →
            validateAtom atom = .ok () := fun h => by simp [firstInvalid_eq_none.mpr h] at hfirst
        simp [hbad]
      | none =>
        have hgood := firstInvalid_eq_none.mp hfirst
        have hforce : cli.force → wantedAtoms cli files ≠ [] := by
          intro hf
          rw [wantedAtoms,if_pos hf]
          exact expandedAtoms_ne_nil files hraw
        by_cases hnone : wantedAtoms cli files = []
        · have hf : cli.force = false := by simpa using fun h => hforce h hnone
          simp [hnone,hf]
        · cases hdry : cli.dryRun with
          | true => simp [hnone]
          | false =>
            simp only [hnone,and_false,if_false,RunOutcome.submits.injEq,Bool.false_eq_true,
              ne_eq,hraw,not_false_eq_true,true_and]
            exact ⟨fun h => ⟨hgood,h.1.symm,h.2.symm⟩,fun h => ⟨h.2.1.symm,h.2.2.symm⟩⟩

theorem wanted_subset {atom : String} (h : atom ∈ wantedAtoms cli files) :
    atom ∈ expandedAtoms cli files := by
  unfold wantedAtoms at h
  split at h
  · exact h
  · exact (List.mem_filter.mp h).1

theorem ordered_of_orders (h : Orders cli files) :
    ∃ w, Ordered cli files w ∧ w.emergeArgs = cli.emergeArgs := by
  have hsent : run cli files = .submits (wantedAtoms cli files) cli.emergeArgs :=
    run_eq_submits.mpr ⟨h.named,h.valid,h.wanted,h.real,rfl,rfl⟩
  have hvalid : ∀ atom ∈ wantedAtoms cli files, validateAtom atom = .ok () := by
    intro atom ha
    cases hs : isSet atom with
    | true => exact h.sets atom ha hs
    | false => exact h.valid atom (wanted_subset ha) hs
  exact ⟨_,.intro _ _ _ _ _ _ .default "w1" 0 hsent
    (checkSubmit_bodyOf (wantedAtoms cli files) cli.emergeArgs (validateAtoms_ok.mpr hvalid)),
    rfl⟩

theorem orders_of_ordered {w : Workorder} (h : Ordered cli files w) :
    Orders cli files ∧ w.emergeArgs = cli.emergeArgs := by
  cases h with
  | intro text registry headers body traceId request normalized id now sent accepted =>
    obtain ⟨hnamed,hvalid,hwanted,hreal,hatoms,hargs⟩ := run_eq_submits.mp sent
    obtain ⟨hchecked,identity,-,rfl⟩ := checkSubmit_ok accepted
    exact ⟨⟨hnamed,hvalid,hwanted,hreal,fun atom ha _ => hchecked atom (hatoms ▸ ha)⟩,hargs⟩

/-- The worker is given exactly the atoms of the workorder only where no
workorder comes of the command line. -/
theorem worker_given_submitted_atoms_iff (cli : Cli) (files : ClientFiles) (emergeCmd : String) :
    (∀ w, Ordered cli files w → positional (buildEmergeInvocation w emergeCmd).2 = w.atoms) ↔
      ¬ Orders cli files := by
  constructor
  · intro h ho
    obtain ⟨w,hw,hargs⟩ := ordered_of_orders ho
    have hraw := no_atom_of_positional w emergeCmd (h w hw)
    rw [hargs] at hraw
    exact ho.named hraw
  · intro h w hw
    exact absurd (orders_of_ordered hw).1 h

def sampleFiles : ClientFiles where
  world := some "dev-lang/rust\n"
  profile := none
  installed category :=
    if category = "app-misc".toList then some ["jq-1.7".toList] else none

/-- The installed package and the set itself are passed along with the one
package that was to be built. -/
theorem installed_atom_and_set_passed :
    ∃ w, Ordered ⟨["app-misc/jq","@world"],false,false⟩ sampleFiles w ∧
      w.atoms = ["dev-lang/rust"] ∧
      positional (buildEmergeInvocation w "emerge").2 =
        ["app-misc/jq","@world","dev-lang/rust"] := by
  exact ⟨_,.intro _ _ _ (bodyOf ["dev-lang/rust"] ["app-misc/jq","@world"]) _ _
    .default "w1" 0 (by decide) (checkSubmit_bodyOf _ _ (by decide)),rfl,by decide⟩

end Remerge.SubmittedAtoms
