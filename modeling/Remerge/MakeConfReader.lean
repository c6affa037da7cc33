import Remerge.AtomValidation
import Remerge.MakeConfVars

/-!
# What the client sends of its make.conf

`readMakeConf` combines the variables of the two make.conf files with the
answers of `portageq`, the compiler and `cpuid2cpuflags`. These programs are
outside the client; what they print is part of `ClientSystem`.
-/

set_option autoImplicit false

namespace Remerge.MakeConfReader
open RustText SnapshotTypes StagingPaths MakeConfVars AtomValidation SnapshotRuntime

/-- The client's root with its make.conf files, and what other programs print
there when they succeed. A file that exists may still be unreadable. -/
structure ClientSystem where
  root : String
  preferred : Option (Except Failure String)
  legacy : Option (Except Failure String)
  portageq : List String → Option String
  resolveMarchNative : Option String
  gccTargetHelp : Option String
  gccDumpmachine : Option String
  cpuid2cpuflags : Option String
  uname : Except Failure String

structure MakeConf where
  cflags : String
  cxxflags : String
  ldflags : String
  makeopts : String
  useFlags : List String
  features : List String
  acceptLicense : String
  acceptKeywords : String
  emergeDefaultOpts : String
  chost : String
  cpuFlags : Option (String × List String)
  originalCflags : Option String
  useExpand : BTreeMap (List String)
  extra : BTreeMap String
  useFlagsResolved : Bool

structure ResolvedFlags where
  march : Option String
  cpuFlags : Option (String × List String)
  chost : String
  deriving DecidableEq, Repr

def marchOf (token : String) : Option String :=
  (stripStart token "-march=").filter fun value => value ≠ "native" && value ≠ ""

def extractMarchValue (flags : String) : Option String := (splitWhitespace flags).findSome? marchOf

def gccMarchLine (line : String) : Option String :=
  ((stripStart (trim line) "-march=").map trim).filter fun value => value ≠ "" && value ≠ "native"

def tryGccMarchNative (sys : ClientSystem) : Option String :=
  sys.gccTargetHelp.bind fun stdout => (lines stdout).findSome? gccMarchLine

def resolveMarchNative (sys : ClientSystem) : Option String :=
  (sys.resolveMarchNative.bind extractMarchValue).or (tryGccMarchNative sys)

def resolveToken (march token : String) : String :=
  if token = "-march=native" then "-march="++march
  else if token = "-mtune=native" then "-mtune="++march
  else token

def isNativeToken (token : String) : Bool := token == "-march=native" || token == "-mtune=native"

def resolveCflags (cflags march : String) : String × Bool :=
  (joinWords ((splitWhitespace cflags).map (resolveToken march)),
    (splitWhitespace cflags).any isNativeToken)

def resolveCpuFlags (sys : ClientSystem) : Option (String × List String) :=
  sys.cpuid2cpuflags.bind fun stdout =>
    (splitOnce ':' (trimList stdout.toList)).bind fun parts =>
      let flags := splitWhitespace (String.ofList parts.2)
      if flags = [] then none else some (String.ofList (trimList parts.1),flags)

def nonEmpty (s : String) : Option String := if s = "" then none else some s

def unameChost (arch : String) : String :=
  if arch = "x86_64" then "x86_64-pc-linux-gnu"
  else if arch = "aarch64" then "aarch64-unknown-linux-gnu"
  else if arch = "armv7l" then "armv7a-unknown-linux-gnueabihf"
  else if arch = "i686" then "i686-pc-linux-gnu"
  else if arch = "riscv64" then "riscv64-unknown-linux-gnu"
  else if arch = "ppc64le" then "powerpc64le-unknown-linux-gnu"
  else arch++"-unknown-linux-gnu"

def detectChost (sys : ClientSystem) : Except Failure String :=
  match (sys.portageq ["CHOST"]).bind fun stdout => nonEmpty (trim stdout) with
  | some chost => .ok chost
  | none =>
    match sys.gccDumpmachine.bind fun stdout => nonEmpty (trim stdout) with
    | some chost => .ok chost
    | none => sys.uname.map fun stdout => unameChost (trim stdout)

def resolveNativeFlags (sys : ClientSystem) : Except Failure ResolvedFlags :=
  (detectChost sys).map fun chost => ⟨resolveMarchNative sys,resolveCpuFlags sys,chost⟩

def matchLines : List String → List String → BTreeMap String → Option (BTreeMap String)
  | [], [], values => some values
  | var::vars, line::rest, values => matchLines vars rest (values.insert var (trim line))
  | _, _, _ => none

def portageqEnvvars (sys : ClientSystem) (vars : List String) : Option (BTreeMap String) :=
  (sys.portageq vars).bind fun stdout => matchLines vars (lines stdout) ∅

def portageqEnvvar (sys : ClientSystem) (var : String) : Option String :=
  (portageqEnvvars sys [var]).bind (·[var]?)

section
variable (sys : ClientSystem)

def canQueryPortageq : Bool := components sys.root == [.rootDir]

def initialVars : List String :=
  ["CFLAGS","CXXFLAGS","CHOST","USE","USE_EXPAND","USE_EXPAND_UNPREFIXED","USE_EXPAND_HIDDEN",
    "LDFLAGS","MAKEOPTS","FEATURES","ACCEPT_LICENSE","ACCEPT_KEYWORDS","EMERGE_DEFAULT_OPTS"]

def initialPortageq : Option (BTreeMap String) :=
  if canQueryPortageq sys then portageqEnvvars sys initialVars else none

def extend (vars more : BTreeMap String) : BTreeMap String :=
  more.toList.foldl (fun m e => m.insert e.1 e.2) vars

def joinRoot (path : String) : String :=
  if sys.root.toList.getLast? = some '/' then sys.root++path else sys.root++"/"++path

def loadVars (file : Option (Except Failure String)) (vars : BTreeMap String) :
    Except Failure (BTreeMap String) :=
  match file with
  | none => .ok vars
  | some content => content.map fun text => extend vars (parseMakeConfVars text)

def readMakeConfVars : Except Failure (BTreeMap String) := do
  let vars ← loadVars sys.preferred ∅
  let vars ← loadVars sys.legacy vars
  let preferred := joinRoot sys "etc/portage/make.conf"
  let legacy := joinRoot sys "etc/make.conf"
  if sys.preferred.isNone && sys.legacy.isNone then
    throw (.bail s!"Failed to read {preferred} or {legacy}")
  pure vars

def getVar (vars : BTreeMap String) (key : String) : String := vars[key]?.getD ""

def getEffective (vars : BTreeMap String) (key : String) : String :=
  ((((initialPortageq sys).bind (·[key]?)).filter (· ≠ ""))).getD (getVar vars key)

def splitFlags (vars : BTreeMap String) (key : String) : List String :=
  splitWhitespace (getEffective sys vars key)

def expandVariants : List String := ["USE_EXPAND","USE_EXPAND_UNPREFIXED","USE_EXPAND_HIDDEN"]

def answeredVariants (resolved : Option (BTreeMap String)) : List String :=
  expandVariants.filterMap fun var => resolved.bind (·[var]?)

def fallbackPrefixVars : List String :=
  ["ABI_X86","ABI_MIPS","ABI_S390","CPU_FLAGS_X86","CPU_FLAGS_ARM","PYTHON_TARGETS",
    "PYTHON_SINGLE_TARGET","RUBY_TARGETS","LUA_TARGETS","LUA_SINGLE_TARGET","LLVM_SLOT",
    "LLVM_TARGETS","VIDEO_CARDS","INPUT_DEVICES","L10N"]

def expandStart (var : String) : String := toAsciiLowercase var++"_"

def stripUseExpandFlags (flags : List String) (resolved : Option (BTreeMap String)) : List String :=
  let answered := answeredVariants resolved
  let starts :=
    if answered = [] then fallbackPrefixVars.map expandStart
    else answered.flatMap fun text => (splitWhitespace text).map expandStart
  flags.filter fun flag => !starts.any fun start => startsWith flag start

/-- The flags to send, and whether they are the resolved ones. With a root of
its own a client asks nobody and still calls its empty list resolved. -/
def resolveUse (vars : BTreeMap String) : List String × Bool :=
  let strip := fun text => stripUseExpandFlags (splitWhitespace text) (initialPortageq sys)
  if canQueryPortageq sys then
    match (((initialPortageq sys).bind (·["USE"]?)).or (portageqEnvvar sys "USE")) with
    | some text => (strip text,true)
    | none => (splitFlags sys vars "USE",false)
  else (strip "",true)

def fallbackExpandKeys : List String :=
  ["ABI_X86","VIDEO_CARDS","INPUT_DEVICES","L10N","PYTHON_TARGETS","PYTHON_SINGLE_TARGET",
    "RUBY_TARGETS","LUA_TARGETS","LUA_SINGLE_TARGET","LLVM_SLOT","LLVM_TARGETS"]

def useExpandKeys : List String :=
  let answered := answeredVariants (initialPortageq sys)
  if answered = [] then fallbackExpandKeys else keySet (answered.flatMap splitWhitespace)

def resolvedUseExpandValues : Option (BTreeMap String) :=
  if canQueryPortageq sys && useExpandKeys sys ≠ [] then portageqEnvvars sys (useExpandKeys sys)
  else none

/-- CPU_FLAGS_* are left to `cpuid2cpuflags`. -/
def collectUseExpand (values : String → List String) :
    List String → BTreeMap (List String) → BTreeMap (List String)
  | [], useExpand => useExpand
  | key::keys, useExpand =>
    if startsWith key "CPU_FLAGS_" then collectUseExpand values keys useExpand
    else if values key = [] then collectUseExpand values keys useExpand
    else collectUseExpand values keys (useExpand.insert key (values key))

def useExpandValues (vars : BTreeMap String) (key : String) : List String :=
  (((resolvedUseExpandValues sys).bind (·[key]?)).map splitWhitespace).getD
    (splitFlags sys vars key)

def modelledKeys : List String :=
  ["CFLAGS","CXXFLAGS","LDFLAGS","MAKEOPTS","USE","FEATURES","ACCEPT_LICENSE","ACCEPT_KEYWORDS",
    "EMERGE_DEFAULT_OPTS","CHOST"]

def knownKeys : List String := modelledKeys++useExpandKeys sys

def resolvedCflags (raw : String) : Option String → String × Option String
  | none => (raw,none)
  | some march =>
    if (resolveCflags raw march).2 then ((resolveCflags raw march).1,some raw) else (raw,none)

def resolvedCxxflags (raw : String) : Option String → String
  | none => raw
  | some march => if containsText raw "-march=native" then (resolveCflags raw march).1 else raw

def readMakeConf : Except Failure MakeConf := do
  let vars ← readMakeConfVars sys
  let resolved ← resolveNativeFlags sys
  let cflags := resolvedCflags (getEffective sys vars "CFLAGS") resolved.march
  let use := resolveUse sys vars
  pure
    { cflags := cflags.1
      cxxflags := resolvedCxxflags (getEffective sys vars "CXXFLAGS") resolved.march
      ldflags := getEffective sys vars "LDFLAGS"
      makeopts := getEffective sys vars "MAKEOPTS"
      useFlags := use.1
      features := splitFlags sys vars "FEATURES"
      acceptLicense := getEffective sys vars "ACCEPT_LICENSE"
      acceptKeywords := getEffective sys vars "ACCEPT_KEYWORDS"
      emergeDefaultOpts := getEffective sys vars "EMERGE_DEFAULT_OPTS"
      chost := (nonEmpty (getEffective sys vars "CHOST")).getD resolved.chost
      cpuFlags := resolved.cpuFlags
      originalCflags := cflags.2
      useExpand := collectUseExpand (useExpandValues sys vars) (useExpandKeys sys) ∅
      extra := vars.filter fun key _ => !(knownKeys sys).contains key
      useFlagsResolved := use.2 }

end

theorem getElem?_foldl_insert {key : String} (es : List (String × String))
    (vars : BTreeMap String) :
    (es.foldl (fun m e => m.insert e.1 e.2) vars)[key]? =
      ((es.reverse.find? (·.1 == key)).map (·.2)).or vars[key]? := by
  induction es generalizing vars with
  | nil => rfl
  | cons e es ih =>
    rw [List.foldl_cons,ih,Std.TreeMap.getElem?_insert,List.reverse_cons,List.find?_append]
    cases es.reverse.find? (·.1 == key) with
    | some e' => rfl
    | none =>
      by_cases hk : e.1 = key
      · simp [hk]
      · have hc : compare e.1 key ≠ .eq := fun h => hk (Std.LawfulEqCmp.eq_of_compare h)
        simp [hk,hc]

theorem find?_toList (more : BTreeMap String) (key : String) :
    (more.toList.reverse.find? (·.1 == key)).map (·.2) = more[key]? := by
  cases h : more.toList.reverse.find? (·.1 == key) with
  | none =>
    cases hv : more[key]? with
    | none => rfl
    | some value =>
      have hmem := Std.TreeMap.mem_toList_iff_getElem?_eq_some.mpr hv
      have hno := List.find?_eq_none.mp h (key,value) (by simpa using hmem)
      simp at hno
  | some e =>
    have hmem : e ∈ more.toList := by simpa using List.mem_of_find?_eq_some h
    have hkey : e.1 = key := by simpa using List.find?_some h
    have hv := Std.TreeMap.mem_toList_iff_getElem?_eq_some.mp hmem
    rw [← hkey,hv]
    rfl

theorem getElem?_extend (vars more : BTreeMap String) (key : String) :
    (extend vars more)[key]? = more[key]?.or vars[key]? := by
  rw [extend,getElem?_foldl_insert,find?_toList]

def fileVar (file : Option (Except Failure String)) (key : String) : Option String :=
  match file with
  | some (.ok text) => (parseMakeConfVars text)[key]?
  | _ => none

theorem getElem?_loadVars {file : Option (Except Failure String)} {vars vars' : BTreeMap String}
    (h : loadVars file vars = .ok vars') (key : String) :
    vars'[key]? = (fileVar file key).or vars[key]? := by
  cases file with
  | none =>
    cases h
    rfl
  | some content =>
    cases content with
    | error e => cases h
    | ok text =>
      cases h
      exact getElem?_extend _ _ _

theorem getElem?_readMakeConfVars {sys : ClientSystem} {vars : BTreeMap String}
    (h : readMakeConfVars sys = .ok vars) (key : String) :
    vars[key]? = (fileVar sys.legacy key).or (fileVar sys.preferred key) := by
  unfold readMakeConfVars at h
  cases hp : loadVars sys.preferred ∅ with
  | error e =>
    rw [hp] at h
    cases h
  | ok first =>
    cases hl : loadVars sys.legacy first with
    | error e =>
      rw [hp] at h
      change (loadVars sys.legacy first).bind _ = _ at h
      rw [hl] at h
      cases h
    | ok second =>
      have hsecond : second = vars := by
        rw [hp] at h
        change (loadVars sys.legacy first).bind _ = _ at h
        rw [hl] at h
        change (ite _ _ _ : Except Failure (BTreeMap String)) = _ at h
        split at h
        · cases h
        · cases h
          rfl
      rw [← hsecond,getElem?_loadVars hl,getElem?_loadVars hp]
      simp

variable {sys : ClientSystem} {m : MakeConf}

structure ReadFrom (sys : ClientSystem) (vars : BTreeMap String) (resolved : ResolvedFlags)
    (m : MakeConf) : Prop where
  cflags : m.cflags = (resolvedCflags (getEffective sys vars "CFLAGS") resolved.march).1
  cxxflags : m.cxxflags = resolvedCxxflags (getEffective sys vars "CXXFLAGS") resolved.march
  ldflags : m.ldflags = getEffective sys vars "LDFLAGS"
  makeopts : m.makeopts = getEffective sys vars "MAKEOPTS"
  useFlags : m.useFlags = (resolveUse sys vars).1
  features : m.features = splitFlags sys vars "FEATURES"
  acceptLicense : m.acceptLicense = getEffective sys vars "ACCEPT_LICENSE"
  acceptKeywords : m.acceptKeywords = getEffective sys vars "ACCEPT_KEYWORDS"
  emergeDefaultOpts : m.emergeDefaultOpts = getEffective sys vars "EMERGE_DEFAULT_OPTS"
  chost : m.chost = (nonEmpty (getEffective sys vars "CHOST")).getD resolved.chost
  cpuFlags : m.cpuFlags = resolved.cpuFlags
  useExpand : m.useExpand = collectUseExpand (useExpandValues sys vars) (useExpandKeys sys) ∅
  extra : m.extra = vars.filter fun key _ => !(knownKeys sys).contains key

theorem readMakeConf_ok (h : readMakeConf sys = .ok m) : ∃ vars resolved,
    readMakeConfVars sys = .ok vars ∧ resolveNativeFlags sys = .ok resolved ∧
      ReadFrom sys vars resolved m := by
  unfold readMakeConf at h
  cases hv : readMakeConfVars sys with
  | error e =>
    rw [hv] at h
    cases h
  | ok vars =>
    cases hr : resolveNativeFlags sys with
    | error e =>
      rw [hv,hr] at h
      cases h
    | ok resolved =>
      rw [hv,hr] at h
      cases h
      exact ⟨vars,resolved,rfl,rfl,⟨rfl,rfl,rfl,rfl,rfl,rfl,rfl,rfl,rfl,rfl,rfl,rfl,rfl⟩⟩

theorem resolveNativeFlags_ok {resolved : ResolvedFlags}
    (h : resolveNativeFlags sys = .ok resolved) : detectChost sys = .ok resolved.chost ∧
      resolved.march = resolveMarchNative sys ∧ resolved.cpuFlags = resolveCpuFlags sys := by
  unfold resolveNativeFlags at h
  cases hd : detectChost sys with
  | error e =>
    rw [hd] at h
    cases h
  | ok chost =>
    rw [hd] at h
    cases h
    exact ⟨rfl,rfl,rfl⟩

variable {values : String → List String} {key : String}

theorem mem_collectUseExpand (keys : List String) (acc : BTreeMap (List String)) :
    key ∈ collectUseExpand values keys acc ↔
      key ∈ acc ∨ key ∈ keys ∧ startsWith key "CPU_FLAGS_" = false ∧ values key ≠ [] := by
  induction keys generalizing acc with
  | nil => simp [collectUseExpand]
  | cons k keys ih =>
    simp only [collectUseExpand]
    split
    · next hcpu =>
      have hk : key = k → startsWith key "CPU_FLAGS_" ≠ false := by
        rintro rfl
        simp [hcpu]
      rw [ih,List.mem_cons]
      grind
    · next hcpu =>
      split
      · next hvalues =>
        rw [ih,List.mem_cons]
        grind
      · next hvalues =>
        rw [ih,List.mem_cons,Std.TreeMap.mem_insert,Std.LawfulEqCmp.compare_eq_iff_eq]
        grind

theorem getElem?_collectUseExpand {keys : List String} {acc : BTreeMap (List String)}
    (hacc : ∀ vals, acc[key]? = some vals → vals = values key) {vals : List String}
    (h : (collectUseExpand values keys acc)[key]? = some vals) : vals = values key := by
  induction keys generalizing acc with
  | nil => exact hacc vals h
  | cons k keys ih =>
    simp only [collectUseExpand] at h
    split at h
    · exact ih hacc h
    · split at h
      · exact ih hacc h
      · refine ih (fun vals' hvals' => ?_) h
        rw [Std.TreeMap.getElem?_insert] at hvals'
        split at hvals'
        · next hk =>
          rw [Std.LawfulEqCmp.compare_eq_iff_eq] at hk
          rw [← Option.some.inj hvals',hk]
        · exact hacc vals' hvals'

structure KeysApart (m : MakeConf) : Prop where
  expand : ∀ key ∈ m.useExpand, startsWith key "CPU_FLAGS_" = false
  extra : ∀ key ∈ m.extra, key ∉ m.useExpand ∧ key ∉ modelledKeys

theorem keysApart_readMakeConf (h : readMakeConf sys = .ok m) : KeysApart m := by
  obtain ⟨vars,resolved,-,-,hm⟩ := readMakeConf_ok h
  have hexpand : ∀ key ∈ m.useExpand,
      key ∈ useExpandKeys sys ∧ startsWith key "CPU_FLAGS_" = false := by
    intro key hk
    rw [hm.useExpand] at hk
    rcases (mem_collectUseExpand _ _).mp hk with hk | hk
    · exact absurd hk Std.TreeMap.not_mem_emptyc
    · exact ⟨hk.1,hk.2.1⟩
  refine ⟨fun key hk => (hexpand key hk).2,fun key hk => ?_⟩
  rw [hm.extra] at hk
  have hknown : key ∉ knownKeys sys := by
    obtain ⟨hmem,hkeep⟩ := Std.TreeMap.mem_filter.mp hk
    simpa using hkeep
  rw [knownKeys,List.mem_append,not_or] at hknown
  exact ⟨fun he => hknown.2 (hexpand key he).1,hknown.1⟩

def readsTo (sys : ClientSystem) (p : MakeConf → Bool) : Bool :=
  match readMakeConf sys with
  | .ok mc => p mc
  | .error _ => false

theorem exists_of_readsTo (sys : ClientSystem) (p : MakeConf → Bool) (h : readsTo sys p) :
    ∃ mc, readMakeConf sys = .ok mc ∧ p mc := by
  unfold readsTo at h
  split at h
  · next mc hr => exact ⟨mc,hr,h⟩
  · cases h

end Remerge.MakeConfReader
