import Remerge.MakeConfReader

/-!
# The make.conf a worker writes

The worker writes one line for each variable, with the value between double
quotes as it came. Only the extra variables are checked for characters that the
quotes do not protect.
-/

set_option autoImplicit false

namespace Remerge.MakeConfWriter
open RustText SnapshotTypes MakeConfVars MakeConfReader

/-- What the worker knows besides the submitted configuration. -/
structure WorkerSettings where
  workerChost : String
  gpgKey : Option String
  gpgHome : Option String
  parallelJobs : Option String
  loadAverage : Option String

def isParallelism (token : String) : Bool :=
  startsWith token "-j" || startsWith token "-l" || startsWith token "--jobs" ||
    startsWith token "--load-average"

def buildMakeoptsInner (clientMakeopts : String) (serverJobs serverLoad : Option String) : String :=
  if serverJobs = none ∧ serverLoad = none then clientMakeopts
  else
    joinWords ((splitWhitespace clientMakeopts).filter (fun token => !isParallelism token)++
      (serverJobs.map ("-j"++·)).toList++(serverLoad.map ("-l"++·)).toList)

def arch (chost : String) : List Char := chost.toList.takeWhile (· ≠ '-')

def pushFeature (features : List String) (feature : String) : List String :=
  if features.contains feature then features else features++[feature]

def buildFeatures (mc : MakeConf) (w : WorkerSettings) : List String :=
  let features :=
    if mc.features = [] then ["buildpkg","noclean"] else pushFeature mc.features "buildpkg"
  let signed :=
    if w.gpgKey.isSome && w.gpgHome.isSome then
      ["binpkg-signing","gpg-keepalive"].foldl pushFeature features
    else features
  signed.filter fun f => f ≠ "ccache" && f ≠ "distcc"

def validExtraKey (key : String) : Bool :=
  key ≠ "" && key.toList.all (fun c => c.isAlphanum || c == '_') &&
    !(key.toList.head?.any Char.isDigit)

def unsafeChars : List Char := "`$\\\"\n\r\x00".toList

def safeExtraValue (value : String) : Bool := value.toList.all fun c => !unsafeChars.contains c

def identityVars (mc : MakeConf) (w : WorkerSettings) : List (String × String) :=
  [("CHOST",mc.chost)]++
    if arch mc.chost ≠ arch w.workerChost then [("CBUILD",w.workerChost)] else []

def useVar (mc : MakeConf) : List (String × String) :=
  if mc.useFlags = [] then []
  else if mc.useFlagsResolved then [("USE","-* "++joinWords mc.useFlags)]
  else [("USE",joinWords mc.useFlags)]

def emergeOptsVar (mc : MakeConf) : List (String × String) :=
  if mc.emergeDefaultOpts = "" then [] else [("EMERGE_DEFAULT_OPTS",mc.emergeDefaultOpts)]

def cpuFlagsVar (mc : MakeConf) : List (String × String) :=
  (mc.cpuFlags.map fun e => (e.1,joinWords e.2)).toList

def settingVars (mc : MakeConf) (w : WorkerSettings) : List (String × String) :=
  [("CFLAGS",mc.cflags),("CXXFLAGS",mc.cxxflags),("LDFLAGS",mc.ldflags),
    ("MAKEOPTS",buildMakeoptsInner mc.makeopts w.parallelJobs w.loadAverage)]++useVar mc++
  [("ACCEPT_LICENSE",mc.acceptLicense),("ACCEPT_KEYWORDS",mc.acceptKeywords),
    ("FEATURES",joinWords (buildFeatures mc w))]++emergeOptsVar mc++cpuFlagsVar mc

def expandVars (mc : MakeConf) : List (String × String) :=
  mc.useExpand.toList.map fun e => (e.1,joinWords e.2)

def extraVars (mc : MakeConf) : List (String × String) :=
  mc.extra.toList.filter fun e => validExtraKey e.1 && safeExtraValue e.2

def bodyVars (mc : MakeConf) (w : WorkerSettings) : List (String × String) :=
  settingVars mc w++expandVars mc++extraVars mc

def packageDir : String × String := ("PKGDIR","/var/cache/binpkgs")

def signingVars (w : WorkerSettings) : List (String × String) :=
  match w.gpgKey,w.gpgHome with
  | some key,some home =>
    [("BINPKG_FORMAT","gpkg"),("BINPKG_GPG_SIGNING_KEY",key),("BINPKG_GPG_SIGNING_GPG_HOME",home)]
  | _,_ => []

def assignment (e : String × String) : String := e.1++"=\""++e.2++"\"\n"

def assignments (vars : List (String × String)) : String := String.join (vars.map assignment)

def writeMakeConf (mc : MakeConf) (w : WorkerSettings) : String :=
  "# Generated by remerge-worker — do not edit.\n\n"++assignments (identityVars mc w)++"\n"++
    assignments (bodyVars mc w)++
    "\n# remerge: output directory for binpkgs\n"++assignment packageDir++
    if signingVars w = [] then ""
    else "\n# Binary package OpenPGP signing (injected by remerge-server)\n"++
      assignments (signingVars w)

def writtenVars (mc : MakeConf) (w : WorkerSettings) : List (String × String) :=
  identityVars mc w++bodyVars mc w++[packageDir]++signingVars w

/-- The value the client's parser gives a contained line. -/
def readBack (value : String) : String := String.ofList (unquote value.toList)

def assignAll (vars : BTreeMap String) (written : List (String × String)) : BTreeMap String :=
  written.foldl (fun m e => m.insert e.1 (readBack e.2)) vars

def WellFormed (written : List (String × String)) : Prop :=
  ∀ e ∈ written, validName e.1 ∧ contained e.2.toList

theorem toList_assignment (e : String × String) (rest : List Char) :
    (assignment e).toList++rest = e.1.toList++ '=':: '"'::(e.2.toList++ '"':: '\n'::rest) := by
  simp [assignment]

theorem toList_assignments_cons (e : String × String) (es : List (String × String))
    (rest : List Char) : (assignments (e::es)).toList++rest =
      (assignment e).toList++((assignments es).toList++rest) := by
  simp [assignments]

theorem parseFrom_assignments (es : List (String × String)) (rest : List Char)
    (vars : BTreeMap String) (h : WellFormed es) :
    parseFrom ((assignments es).toList++rest) vars = parseFrom rest (assignAll vars es) := by
  induction es generalizing vars with
  | nil => rfl
  | cons e es ih =>
    have he := h e (by simp)
    rw [toList_assignments_cons,toList_assignment,parseFrom_assignment _ _ he.1 he.2]
    exact ih _ fun e' he' => h e' (by simp [he'])

theorem parseMakeConfVars_eq (content : String) :
    parseMakeConfVars content = parseFrom content.toList ∅ := rfl

theorem WellFormed.append {a b : List (String × String)} :
    WellFormed (a++b) ↔ WellFormed a ∧ WellFormed b := by
  unfold WellFormed
  constructor
  · exact fun h => ⟨fun e he => h e (by simp [he]),fun e he => h e (by simp [he])⟩
  · rintro ⟨ha,hb⟩ e he
    rcases List.mem_append.mp he with he | he
    · exact ha e he
    · exact hb e he

theorem parseFrom_header (rest : List Char) (vars : BTreeMap String) :
    parseFrom ("# Generated by remerge-worker — do not edit.\n\n".toList++rest) vars =
      parseFrom rest vars := by
  have htext : "# Generated by remerge-worker — do not edit.\n\n".toList =
      '#'::(" Generated by remerge-worker — do not edit.".toList++['\n','\n']) := by decide
  rw [htext,List.cons_append,List.append_assoc]
  change parseFrom ('#'::(_++ '\n':: '\n'::rest)) vars = _
  rw [parseFrom_comment _ _ _ (by decide),parseFrom_newline]

theorem parseFrom_packageDirNote (rest : List Char) (vars : BTreeMap String) :
    parseFrom ("\n# remerge: output directory for binpkgs\n".toList++rest) vars =
      parseFrom rest vars := by
  have htext : "\n# remerge: output directory for binpkgs\n".toList =
      '\n':: '#'::(" remerge: output directory for binpkgs".toList++['\n']) := by decide
  rw [htext,List.cons_append,parseFrom_newline,List.cons_append,List.append_assoc]
  exact parseFrom_comment _ _ _ (by decide)

theorem parseFrom_signingNote (rest : List Char) (vars : BTreeMap String) :
    parseFrom ("\n# Binary package OpenPGP signing (injected by remerge-server)\n".toList++rest)
      vars = parseFrom rest vars := by
  have htext : "\n# Binary package OpenPGP signing (injected by remerge-server)\n".toList =
      '\n':: '#'::(" Binary package OpenPGP signing (injected by remerge-server)".toList++
        ['\n']) := by decide
  rw [htext,List.cons_append,parseFrom_newline,List.cons_append,List.append_assoc]
  exact parseFrom_comment _ _ _ (by decide)

theorem parse_writeMakeConf (mc : MakeConf) (w : WorkerSettings)
    (h : WellFormed (writtenVars mc w)) :
    parseMakeConfVars (writeMakeConf mc w) = assignAll ∅ (writtenVars mc w) := by
  unfold writtenVars at h ⊢
  rw [WellFormed.append,WellFormed.append,WellFormed.append] at h
  obtain ⟨⟨⟨hid,hset⟩,hpkg⟩,hsign⟩ := h
  have hpkg' : (assignment packageDir).toList = (assignments [packageDir]).toList := by
    simp [assignments]
  have htail : ∀ vars, parseFrom ((if signingVars w = [] then ""
      else "\n# Binary package OpenPGP signing (injected by remerge-server)\n"++
        assignments (signingVars w)).toList) vars = assignAll vars (signingVars w) := by
    intro vars
    split
    · next hnil =>
      rw [hnil]
      rfl
    · have hs := parseFrom_assignments (signingVars w) [] vars hsign
      rw [List.append_nil] at hs
      rw [String.toList_append,parseFrom_signingNote,hs]
      rfl
  rw [parseMakeConfVars_eq]
  unfold writeMakeConf
  simp only [String.toList_append,List.append_assoc] at htail ⊢
  rw [parseFrom_header,parseFrom_assignments _ _ _ hid]
  have hblank : "\n".toList = ['\n'] := by decide
  rw [hblank,List.singleton_append,parseFrom_newline,parseFrom_assignments _ _ _ hset,
    parseFrom_packageDirNote,hpkg',
    parseFrom_assignments _ _ _ hpkg,htail]
  simp only [assignAll,List.foldl_append]

def lineChars (es : List (String × String)) : List Char :=
  es.flatMap fun e => e.1.toList++ '=' :: '"' :: (e.2.toList++['"','\n'])

theorem toList_assignments (es : List (String × String)) :
    (assignments es).toList = lineChars es := by
  induction es with
  | nil => rfl
  | cons e es ih =>
    have h := toList_assignments_cons e es []
    rw [List.append_nil,List.append_nil,toList_assignment,ih] at h
    rw [h]
    simp [lineChars]

def fileChars (mc : MakeConf) (w : WorkerSettings) : List Char :=
  "# Generated by remerge-worker — do not edit.\n\n".toList++lineChars (identityVars mc w)++
    "\n".toList++lineChars (bodyVars mc w)++
    "\n# remerge: output directory for binpkgs\n".toList++lineChars [packageDir]++
    if signingVars w = [] then []
    else "\n# Binary package OpenPGP signing (injected by remerge-server)\n".toList++
      lineChars (signingVars w)

theorem toList_writeMakeConf (mc : MakeConf) (w : WorkerSettings) :
    (writeMakeConf mc w).toList = fileChars mc w := by
  have hpkg : (assignment packageDir).toList = lineChars [packageDir] := by
    rw [← toList_assignments]
    simp [assignments]
  unfold writeMakeConf fileChars
  split <;> simp only [String.toList_append,toList_assignments,hpkg,String.toList_empty]

theorem parseMakeConfVars_written (mc : MakeConf) (w : WorkerSettings) :
    parseMakeConfVars (writeMakeConf mc w) = parseFrom (fileChars mc w) ∅ := by
  rw [parseMakeConfVars_eq,toList_writeMakeConf]

end Remerge.MakeConfWriter
