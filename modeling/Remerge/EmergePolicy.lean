import Remerge.WorkorderApi

/-!
# The command line of the worker

The worker builds the argument vector of `emerge` from fixed flags, from the
client's arguments without some actions, and from the atoms. Only the second
part is filtered. The policy is that no remote build runs one of the refused
actions and that an atom is never read as an option; for an accepted submission
it depends on the first characters of its atoms alone.
-/

set_option autoImplicit false

namespace Remerge.EmergePolicy
open SnapshotTypes ServerState ServerTasks ClientAuth WorkorderApi AtomValidation

def baseArgs : List String :=
  ["--buildpkg","--usepkg","--verbose","--ask=n","--color=y","--keep-going","--newuse","--update",
    "--autounmask-write","--autounmask-continue"]

def filteredArgs : List String :=
  ["--pretend","-p","--getbinpkg","-g","--newuse","-N","--update","-u","--autounmask-write",
    "--autounmask-continue","--depclean","--unmerge","-C","--deselect","--sync","--info","--search",
    "-s","--searchdesc","-S","--config","--rage-clean"]

def buildEmergeArgs (w : Workorder) : List String :=
  baseArgs++w.emergeArgs.filter fun arg => !filteredArgs.contains arg

def buildEmergeInvocation (w : Workorder) (emergeCmd : String) : String × List String :=
  (emergeCmd,buildEmergeArgs w++w.atoms)

/-- The actions a remote build must not run. -/
def refusedActions : List String :=
  ["--unmerge","-C","--depclean","--deselect","--sync","--info","--search","-s","--searchdesc","-S",
    "--config","--rage-clean","--pretend","-p"]

def isOption (arg : String) : Bool := arg.toList.head? == some '-'

/-- No refused action stands anywhere, and the atoms name packages or sets. -/
def KeepsPolicy (w : Workorder) (emergeCmd : String) : Prop :=
  (∀ arg ∈ (buildEmergeInvocation w emergeCmd).2, arg ∉ refusedActions) ∧
    ∀ atom ∈ w.atoms, AtomForm atom.toList ∧ isOption atom = false

variable {arg : String} {w : Workorder}

theorem buildEmergeArgs_not_refused (h : arg ∈ buildEmergeArgs w) : arg ∉ refusedActions := by
  rcases List.mem_append.mp h with hbase | hclient
  · have hall : ∀ arg ∈ baseArgs, arg ∉ refusedActions := by decide
    exact hall arg hbase
  · intro hr
    have hsub : ∀ arg ∈ refusedActions, filteredArgs.contains arg := by decide
    have hkept := (List.mem_filter.mp hclient).2
    rw [hsub arg hr] at hkept
    cases hkept

theorem keepsPolicy_of_atoms (emergeCmd : String) (hform : ∀ atom ∈ w.atoms, AtomForm atom.toList)
    (hplain : ∀ atom ∈ w.atoms, isOption atom = false) : KeepsPolicy w emergeCmd := by
  refine ⟨fun arg harg => ?_,fun atom ha => ⟨hform atom ha,hplain atom ha⟩⟩
  rcases List.mem_append.mp harg with hargs | hatom
  · exact buildEmergeArgs_not_refused hargs
  · intro hr
    have hall : ∀ arg ∈ refusedActions, isOption arg := by decide
    have hopt := hall arg hr
    rw [hplain arg hatom] at hopt
    cases hopt

/-- A submission passes the checks; its workorder keeps the policy exactly if
none of its atoms starts with a dash. -/
theorem keepsPolicy_iff_no_option (text : UnicodeText) (registry : CertRegistry)
    (headers : HeaderMap) (body : SubmitBody) (traceId : Option String)
    (request : ServerOps.SubmitRequest)
    (h : checkSubmit text registry headers body traceId = .ok request)
    (normalized : PortageConfig) (id : WorkorderId) (now : Time) (emergeCmd : String) :
    KeepsPolicy (newWorkorder request normalized id now) emergeCmd ↔
      ∀ atom ∈ body.atoms, isOption atom = false := by
  obtain ⟨hatoms,identity,-,rfl⟩ := checkSubmit_ok h
  constructor
  · exact fun hp atom ha => (hp.2 atom ha).2
  · intro hplain
    exact keepsPolicy_of_atoms emergeCmd
      (fun atom ha => (validateAtom_ok atom).mp (hatoms atom ha)) hplain

/-- The checks let a submission through exactly if its client is recognised and each
of its atoms is a set, a qualified atom or a package name. -/
theorem submission_passes_iff (text : UnicodeText) (registry : CertRegistry)
    (headers : HeaderMap) (body : SubmitBody) (traceId : Option String) :
    (∃ request, checkSubmit text registry headers body traceId = .ok request) ↔
      (∀ atom ∈ body.atoms, AtomForm atom.toList) ∧
        ∃ identity, registry.resolve text headers body.clientId body.role = .ok identity := by
  constructor
  · rintro ⟨request,h⟩
    obtain ⟨hatoms,identity,hid,-⟩ := checkSubmit_ok h
    exact ⟨fun atom ha => (validateAtom_ok atom).mp (hatoms atom ha),identity,hid⟩
  · rintro ⟨hform,identity,hid⟩
    have hatoms := validateAtoms_ok.mpr fun atom ha => (validateAtom_ok atom).mpr (hform atom ha)
    exact ⟨_,by simp only [checkSubmit,hatoms,hid]; rfl⟩

def bodyOf (atoms emergeArgs : List String) : SubmitBody :=
  ⟨"c1",.main,atoms,emergeArgs,.default,"portage","system","image"⟩

theorem checkSubmit_bodyOf (atoms emergeArgs : List String)
    (h : validateAtoms atoms = .ok ()) :
    checkSubmit asciiText (twoClients .mtls) firstHeaders (bodyOf atoms emergeArgs) none =
      .ok ((bodyOf atoms emergeArgs).requestAs ⟨"c1",.main,.certificate "ab" none⟩ none) := by
  have hid : (twoClients .mtls).resolve asciiText firstHeaders "c1" .main =
      .ok ⟨"c1",.main,.certificate "ab" none⟩ := by decide
  simp only [checkSubmit,bodyOf,h,hid]

/-- The client's own `--unmerge` is dropped. -/
theorem unmerge_argument_dropped :
    KeepsPolicy (newWorkorder ((bodyOf ["dev-lang/rust"] ["--unmerge","-1"]).requestAs
      ⟨"c1",.main,.certificate "ab" none⟩ none) .default "w1" 0) "emerge" :=
  (keepsPolicy_iff_no_option asciiText (twoClients .mtls) firstHeaders
    (bodyOf ["dev-lang/rust"] ["--unmerge","-1"]) none _
    (checkSubmit_bodyOf _ _ (by decide)) .default "w1" 0 "emerge").mpr
    (by decide)

/-- An atom `--unmerge` is accepted and reaches the command line. -/
theorem unmerge_atom_accepted :
    ∃ request, checkSubmit asciiText (twoClients .mtls) firstHeaders
        (bodyOf ["--unmerge","dev-lang/rust"] []) none = .ok request ∧
      (buildEmergeInvocation (newWorkorder request .default "w1" 0) "emerge").2 =
        baseArgs++["--unmerge","dev-lang/rust"] ∧
      "--unmerge" ∈ refusedActions ∧
      ¬ KeepsPolicy (newWorkorder request .default "w1" 0) "emerge" := by
  refine ⟨_,checkSubmit_bodyOf _ _ (by decide),rfl,by decide,fun h => ?_⟩
  exact h.1 "--unmerge" (by decide) (by decide)

end Remerge.EmergePolicy
