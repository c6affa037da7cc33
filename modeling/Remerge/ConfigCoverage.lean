import Remerge.MakeConfReader

/-!
# What of a make.conf reaches the request

A variable is sent in a field of its own, as a USE_EXPAND variable, as the CPU
flags or among the extra ones. Flags of the resolved USE that look like those of
a USE_EXPAND variable are left out, because that variable is sent. Whether it is
depends on what `portageq` and `cpuid2cpuflags` answer.
-/

set_option autoImplicit false

namespace Remerge.ConfigCoverage
open RustText SnapshotTypes MakeConfVars MakeConfReader

theorem resolveCflags_ne_empty {cflags : String} (march : String)
    (h : splitWhitespace cflags ≠ []) : (resolveCflags cflags march).1 ≠ "" := by
  cases hs : splitWhitespace cflags with
  | nil => exact absurd hs h
  | cons token tokens =>
    have htoken : (resolveToken march token).toList ≠ [] := by
      unfold resolveToken
      split
      · simp
      · split
        · simp
        · exact (isWord_of_mem_splitWhitespace (s := cflags) (by simp [hs])).1
    intro hempty
    have hlist := congrArg String.toList hempty
    rw [resolveCflags,hs,toList_joinWords,List.map_cons,List.map_cons] at hlist
    have hhead := head_intercalate htoken ((tokens.map (resolveToken march)).map String.toList)
    rw [hlist] at hhead
    exact htoken (List.head?_eq_none_iff.mp hhead.symm)

theorem resolvedCflags_ne_empty {raw : String} (march : Option String) (h : raw ≠ "") :
    (resolvedCflags raw march).1 ≠ "" := by
  cases march with
  | none => exact h
  | some march =>
    simp only [resolvedCflags]
    split
    · next hnative =>
      refine resolveCflags_ne_empty march fun hnil => ?_
      rw [resolveCflags,hnil] at hnative
      cases hnative
    · exact h

theorem resolvedCxxflags_ne_empty {raw : String} (march : Option String) (h : raw ≠ "") :
    resolvedCxxflags raw march ≠ "" := by
  cases march with
  | none => exact h
  | some march =>
    simp only [resolvedCxxflags]
    split
    · next hnative =>
      refine resolveCflags_ne_empty march fun hnil => ?_
      have hhyphen : '-' ∈ raw.toList := mem_of_occurs (by decide) hnative
      have hblank := (splitWhitespace_eq_nil_iff raw).mp hnil '-' hhyphen
      revert hblank
      decide
    · exact h

section
variable (sys : ClientSystem)

def answer (key : String) : Option String := (initialPortageq sys).bind (·[key]?)

def expandAnswer (key : String) : Option String := (resolvedUseExpandValues sys).bind (·[key]?)

variable {sys} {key text : String}

theorem matchLines_trimmed {vars ls : List String} {values values' : BTreeMap String}
    (h : matchLines vars ls values = some values')
    (hvalues : ∀ key text : String, values[key]? = some text → ∃ line, text = trim line)
    (htext : values'[key]? = some text) : ∃ line, text = trim line := by
  induction vars generalizing ls values with
  | nil =>
    cases ls with
    | nil =>
      cases h
      exact hvalues key text htext
    | cons line ls => cases h
  | cons var vars ih =>
    cases ls with
    | nil => cases h
    | cons line ls =>
      refine ih h fun key text hkey => ?_
      rw [Std.TreeMap.getElem?_insert] at hkey
      split at hkey
      · cases hkey
        exact ⟨line,rfl⟩
      · exact hvalues key text hkey

theorem portageqEnvvars_trimmed {vars : List String} {values : BTreeMap String}
    (h : portageqEnvvars sys vars = some values) (htext : values[key]? = some text) :
    ∃ line, text = trim line := by
  obtain ⟨stdout,-,hlines⟩ := Option.bind_eq_some_iff.mp h
  exact matchLines_trimmed hlines (fun key text hkey => by simp at hkey) htext

theorem answer_trimmed (h : answer sys key = some text) : ∃ line, text = trim line := by
  obtain ⟨values,hvalues,htext⟩ := Option.bind_eq_some_iff.mp h
  unfold initialPortageq at hvalues
  split at hvalues
  · exact portageqEnvvars_trimmed hvalues htext
  · cases hvalues

theorem expandAnswer_trimmed (h : expandAnswer sys key = some text) : ∃ line, text = trim line := by
  obtain ⟨values,hvalues,htext⟩ := Option.bind_eq_some_iff.mp h
  unfold resolvedUseExpandValues at hvalues
  split at hvalues
  · exact portageqEnvvars_trimmed hvalues htext
  · cases hvalues

theorem splitWhitespace_trimmed (h : ∃ line, text = trim line) :
    splitWhitespace text ≠ [] ↔ text ≠ "" := by
  obtain ⟨line,rfl⟩ := h
  exact ⟨fun h he => h (he ▸ rfl),splitWhitespace_trim⟩

theorem getEffective_eq (vars : BTreeMap String) (key : String) :
    getEffective sys vars key = ((answer sys key).filter (· ≠ "")).getD (getVar vars key) := rfl

theorem getEffective_ne_empty {vars : BTreeMap String} {value : String}
    (hkey : vars[key]? = some value) (hvalue : value ≠ "") : getEffective sys vars key ≠ "" := by
  rw [getEffective_eq]
  cases hanswer : (answer sys key).filter (· ≠ "") with
  | none => simpa [getVar,hkey] using hvalue
  | some text => simpa using (Option.filter_eq_some_iff.mp hanswer).2

theorem splitFlags_ne_nil_iff (vars : BTreeMap String) (key : String) :
    splitFlags sys vars key ≠ [] ↔
      (answer sys key).any (· ≠ "") ∨ splitWhitespace (getVar vars key) ≠ [] := by
  rw [splitFlags,getEffective_eq]
  cases hanswer : answer sys key with
  | none => simp
  | some text =>
    by_cases hempty : text = ""
    · simp [hempty,Option.filter]
    · have hwords := (splitWhitespace_trimmed (answer_trimmed hanswer)).mpr hempty
      simp [hempty,hwords,Option.filter]

end

def textFields (m : MakeConf) : List (String × String) :=
  [("CFLAGS",m.cflags),("CXXFLAGS",m.cxxflags),("LDFLAGS",m.ldflags),("MAKEOPTS",m.makeopts),
    ("ACCEPT_LICENSE",m.acceptLicense),("ACCEPT_KEYWORDS",m.acceptKeywords),
    ("EMERGE_DEFAULT_OPTS",m.emergeDefaultOpts),("CHOST",m.chost)]

def CarriedFamily (m : MakeConf) (family : String) : Prop :=
  family ∈ m.useExpand ∨ ∃ flags, m.cpuFlags = some (family,flags)

/-- The variable has a part of the configuration that is not empty. USE, of
which the flags count, always has one. -/
inductive Represented (m : MakeConf) (key value : String) : Prop
  | text {field : String} (h : (key,field) ∈ textFields m) (hfield : field ≠ "")
  | features (h : key = "FEATURES") (hfield : m.features ≠ [])
  | use (h : key = "USE")
  | family (h : CarriedFamily m key)
  | extra (h : m.extra[key]? = some value)

def InFamily (carried : String → Prop) (flag : String) : Prop :=
  ∃ family, startsWith flag (expandStart family) ∧ carried family

def obtainedUse (sys : ClientSystem) : Option String :=
  if canQueryPortageq sys then (answer sys "USE").or (portageqEnvvar sys "USE") else none

def configuredUse (sys : ClientSystem) (vars : BTreeMap String) : List String :=
  splitWhitespace ((obtainedUse sys).getD (getVar vars "USE"))

structure NothingDropped (sys : ClientSystem) (vars : BTreeMap String) (m : MakeConf) : Prop where
  represented : ∀ key value : String, vars[key]? = some value → value ≠ "" → Represented m key value
  flags : ∀ flag ∈ configuredUse sys vars, flag ∈ m.useFlags ∨ InFamily (CarriedFamily m) flag

section
variable (sys : ClientSystem) (vars : BTreeMap String)

def valued (key : String) : Bool :=
  match expandAnswer sys key with
  | some text => text ≠ ""
  | none => (answer sys key).any (· ≠ "") || splitWhitespace (getVar vars key) ≠ []

def Sent (family : String) : Prop :=
  family ∈ useExpandKeys sys ∧ startsWith family "CPU_FLAGS_" = false ∧
      valued sys vars family ∨
    ∃ flags, resolveCpuFlags sys = some (family,flags)

def strippedStarts : List String :=
  let answered := answeredVariants (initialPortageq sys)
  if answered = [] then fallbackPrefixVars.map expandStart
  else answered.flatMap fun text => (splitWhitespace text).map expandStart

def isStripped (flag : String) : Bool := (strippedStarts sys).any (startsWith flag)

/-- The listed variables that are set are sent, and so are those whose flags are
left out of USE. A root of its own sends no USE at all. -/
structure Covered : Prop where
  features : ∀ value, vars["FEATURES"]? = some value → value ≠ "" →
    (answer sys "FEATURES").any (· ≠ "") ∨ splitWhitespace value ≠ [] ∨ Sent sys vars "FEATURES"
  expand : ∀ key ∈ useExpandKeys sys, key ∉ modelledKeys → ∀ value, vars[key]? = some value →
    value ≠ "" → Sent sys vars key
  otherRoot : canQueryPortageq sys = false → ∀ flag ∈ splitWhitespace (getVar vars "USE"),
    InFamily (Sent sys vars) flag
  stripped : ∀ text, obtainedUse sys = some text → ∀ flag ∈ splitWhitespace text,
    isStripped sys flag → InFamily (Sent sys vars) flag

end

variable {sys : ClientSystem} {vars : BTreeMap String} {resolved : ResolvedFlags} {m : MakeConf}

theorem useExpandValues_ne_nil_iff (key : String) :
    useExpandValues sys vars key ≠ [] ↔ valued sys vars key := by
  have hunfold : useExpandValues sys vars key =
      ((expandAnswer sys key).map splitWhitespace).getD (splitFlags sys vars key) := rfl
  rw [hunfold,valued]
  cases hanswer : expandAnswer sys key with
  | none => simpa using splitFlags_ne_nil_iff vars key
  | some text => simpa using splitWhitespace_trimmed (expandAnswer_trimmed hanswer)

theorem carriedFamily_iff (hr : resolveNativeFlags sys = .ok resolved)
    (hm : ReadFrom sys vars resolved m) (family : String) :
    CarriedFamily m family ↔ Sent sys vars family := by
  have hcpu : m.cpuFlags = resolveCpuFlags sys := hm.cpuFlags.trans (resolveNativeFlags_ok hr).2.2
  rw [CarriedFamily,Sent,hcpu,hm.useExpand,mem_collectUseExpand,useExpandValues_ne_nil_iff]
  simp

variable {key field value : String}

theorem textFields_key (h : (key,field) ∈ textFields m) :
    key ∈ modelledKeys ∧ key ≠ "FEATURES" := by
  have hkey : key ∈ (textFields m).map (·.1) := List.mem_map_of_mem h
  have hkeys : ∀ k ∈ (textFields m).map (·.1), k ∈ modelledKeys ∧ k ≠ "FEATURES" := by
    change ∀ k ∈ ["CFLAGS","CXXFLAGS","LDFLAGS","MAKEOPTS","ACCEPT_LICENSE","ACCEPT_KEYWORDS",
      "EMERGE_DEFAULT_OPTS","CHOST"], _
    decide
  exact hkeys key hkey

theorem textFields_of_modelled (h : key ∈ modelledKeys) (hf : key ≠ "FEATURES") (hu : key ≠ "USE") :
    ∃ field, (key,field) ∈ textFields m := by
  have hkeys : ∀ k ∈ modelledKeys, k ≠ "FEATURES" → k ≠ "USE" →
      k ∈ (textFields m).map (·.1) := by
    change ∀ k ∈ modelledKeys, k ≠ "FEATURES" → k ≠ "USE" →
      k ∈ ["CFLAGS","CXXFLAGS","LDFLAGS","MAKEOPTS","ACCEPT_LICENSE","ACCEPT_KEYWORDS",
        "EMERGE_DEFAULT_OPTS","CHOST"]
    decide
  obtain ⟨e,he,hkey⟩ := List.mem_map.mp (hkeys key h hf hu)
  exact ⟨e.2,by rw [← hkey]; exact he⟩

theorem textField_ne_empty (hm : ReadFrom sys vars resolved m) (hkey : vars[key]? = some value)
    (hvalue : value ≠ "") (h : (key,field) ∈ textFields m) : field ≠ "" := by
  have he : getEffective sys vars key ≠ "" := getEffective_ne_empty hkey hvalue
  simp only [textFields,List.mem_cons,Prod.mk.injEq,List.not_mem_nil,or_false] at h
  rcases h with ⟨rfl,rfl⟩ | ⟨rfl,rfl⟩ | ⟨rfl,rfl⟩ | ⟨rfl,rfl⟩ | ⟨rfl,rfl⟩ | ⟨rfl,rfl⟩ | ⟨rfl,rfl⟩ |
    ⟨rfl,rfl⟩
  · rw [hm.cflags]
    exact resolvedCflags_ne_empty _ he
  · rw [hm.cxxflags]
    exact resolvedCxxflags_ne_empty _ he
  · rwa [hm.ldflags]
  · rwa [hm.makeopts]
  · rwa [hm.acceptLicense]
  · rwa [hm.acceptKeywords]
  · rwa [hm.emergeDefaultOpts]
  · rw [hm.chost,nonEmpty,if_neg he]
    exact he

theorem extra_eq_some_iff (hm : ReadFrom sys vars resolved m) (hkey : vars[key]? = some value) :
    m.extra[key]? = some value ↔ key ∉ modelledKeys ∧ key ∉ useExpandKeys sys := by
  rw [hm.extra,Std.TreeMap.getElem?_filter',hkey]
  simp [knownKeys,Option.filter]

theorem useFlags_otherRoot (hm : ReadFrom sys vars resolved m)
    (hroot : canQueryPortageq sys = false) : m.useFlags = [] := by
  rw [hm.useFlags]
  simp only [resolveUse,hroot]
  rfl

theorem useFlags_obtained (hm : ReadFrom sys vars resolved m) {text : String}
    (h : obtainedUse sys = some text) :
    m.useFlags = (splitWhitespace text).filter fun flag => !isStripped sys flag := by
  unfold obtainedUse at h
  split at h
  · next hroot =>
    rw [hm.useFlags]
    simp only [resolveUse,hroot,if_true]
    rw [show ((initialPortageq sys).bind (·["USE"]?)).or (portageqEnvvar sys "USE") = some text
      from h]
    rfl
  · cases h

theorem useFlags_none (hm : ReadFrom sys vars resolved m) (hroot : canQueryPortageq sys)
    (h : obtainedUse sys = none) : m.useFlags = splitWhitespace (getVar vars "USE") := by
  rw [obtainedUse,if_pos hroot] at h
  have hanswer : answer sys "USE" = none := (Option.or_eq_none_iff.mp h).1
  rw [hm.useFlags]
  simp only [resolveUse,hroot,if_true]
  rw [show ((initialPortageq sys).bind (·["USE"]?)).or (portageqEnvvar sys "USE") = none from h]
  simp only [splitFlags,getEffective_eq,hanswer]
  rfl

theorem inFamily_congr {carried carried' : String → Prop} (h : ∀ f, carried f ↔ carried' f)
    (flag : String) : InFamily carried flag ↔ InFamily carried' flag := by
  simp only [InFamily,h]

theorem represented_iff (hr : resolveNativeFlags sys = .ok resolved)
    (hm : ReadFrom sys vars resolved m) :
    (∀ key value, vars[key]? = some value → value ≠ "" → Represented m key value) ↔
      (∀ value, vars["FEATURES"]? = some value → value ≠ "" →
        (answer sys "FEATURES").any (· ≠ "") ∨ splitWhitespace value ≠ [] ∨
          Sent sys vars "FEATURES") ∧
      ∀ key ∈ useExpandKeys sys, key ∉ modelledKeys → ∀ value, vars[key]? = some value →
        value ≠ "" → Sent sys vars key := by
  have hfeatures : ∀ value, vars["FEATURES"]? = some value → (m.features ≠ [] ↔
      (answer sys "FEATURES").any (· ≠ "") ∨ splitWhitespace value ≠ []) := by
    intro value hkey
    rw [hm.features,splitFlags_ne_nil_iff,getVar,hkey]
    rfl
  constructor
  · intro h
    constructor
    · intro value hkey hvalue
      cases h _ _ hkey hvalue with
      | text hfield => exact absurd rfl (textFields_key hfield).2
      | features _ hfield => exact ((hfeatures value hkey).mp hfield).imp_right .inl
      | use huse => exact absurd huse (by decide)
      | family hfamily => exact .inr (.inr ((carriedFamily_iff hr hm _).mp hfamily))
      | extra hextra => exact absurd (by decide) ((extra_eq_some_iff hm hkey).mp hextra).1
    · intro key hlisted hother value hkey hvalue
      cases h _ _ hkey hvalue with
      | text hfield => exact absurd (textFields_key hfield).1 hother
      | features hfeature => exact absurd (by rw [hfeature]; decide) hother
      | use huse => exact absurd (by rw [huse]; decide) hother
      | family hfamily => exact (carriedFamily_iff hr hm _).mp hfamily
      | extra hextra => exact absurd hlisted ((extra_eq_some_iff hm hkey).mp hextra).2
  · rintro ⟨hfeature,hexpand⟩ key value hkey hvalue
    by_cases hmodelled : key ∈ modelledKeys
    · by_cases hf : key = "FEATURES"
      · subst hf
        rcases hfeature value hkey hvalue with h | h | h
        · exact .features rfl ((hfeatures value hkey).mpr (.inl h))
        · exact .features rfl ((hfeatures value hkey).mpr (.inr h))
        · exact .family ((carriedFamily_iff hr hm _).mpr h)
      · by_cases hu : key = "USE"
        · exact .use hu
        · obtain ⟨field,hfield⟩ := textFields_of_modelled (m := m) hmodelled hf hu
          exact .text hfield (textField_ne_empty hm hkey hvalue hfield)
    · by_cases hlisted : key ∈ useExpandKeys sys
      · exact .family ((carriedFamily_iff hr hm _).mpr
          (hexpand key hlisted hmodelled value hkey hvalue))
      · exact .extra ((extra_eq_some_iff hm hkey).mpr ⟨hmodelled,hlisted⟩)

theorem flags_iff (hr : resolveNativeFlags sys = .ok resolved)
    (hm : ReadFrom sys vars resolved m) :
    (∀ flag ∈ configuredUse sys vars, flag ∈ m.useFlags ∨ InFamily (CarriedFamily m) flag) ↔
      (canQueryPortageq sys = false → ∀ flag ∈ splitWhitespace (getVar vars "USE"),
        InFamily (Sent sys vars) flag) ∧
      ∀ text, obtainedUse sys = some text → ∀ flag ∈ splitWhitespace text,
        isStripped sys flag → InFamily (Sent sys vars) flag := by
  simp only [inFamily_congr (carriedFamily_iff hr hm),configuredUse]
  cases hobtained : obtainedUse sys with
  | some text =>
    have hroot : canQueryPortageq sys := by
      by_contra hno
      rw [obtainedUse,if_neg hno] at hobtained
      cases hobtained
    rw [useFlags_obtained hm hobtained,Option.getD_some]
    simp only [hroot,List.mem_filter,Bool.not_eq_true',Option.some.injEq,forall_eq']
    constructor
    · intro h
      refine ⟨fun hno => (by cases hno),fun flag hflag hstripped => ?_⟩
      rcases h flag hflag with hkept | hfamily
      · rw [hstripped] at hkept
        cases hkept.2
      · exact hfamily
    · rintro ⟨-,h⟩ flag hflag
      cases hstripped : isStripped sys flag with
      | true => exact .inr (h flag hflag hstripped)
      | false => exact .inl ⟨hflag,rfl⟩
  | none =>
    rw [Option.getD_none]
    cases hroot : canQueryPortageq sys with
    | true =>
      rw [useFlags_none hm hroot hobtained]
      simpa using fun flag hflag => .inl hflag
    | false =>
      rw [useFlags_otherRoot hm hroot]
      simp

/-- Nothing of a make.conf is dropped exactly when it is covered. -/
theorem nothing_dropped_iff (sys : ClientSystem) (vars : BTreeMap String) (m : MakeConf)
    (hvars : readMakeConfVars sys = .ok vars) (hread : readMakeConf sys = .ok m) :
    NothingDropped sys vars m ↔ Covered sys vars := by
  obtain ⟨vars',resolved,hvars',hr,hm⟩ := readMakeConf_ok hread
  obtain rfl : vars = vars' := by
    rw [hvars] at hvars'
    cases hvars'
    rfl
  constructor
  · intro h
    obtain ⟨hfeatures,hexpand⟩ := (represented_iff hr hm).mp h.represented
    obtain ⟨hroot,hstripped⟩ := (flags_iff hr hm).mp h.flags
    exact ⟨hfeatures,hexpand,hroot,hstripped⟩
  · intro h
    exact ⟨(represented_iff hr hm).mpr ⟨h.features,h.expand⟩,
      (flags_iff hr hm).mpr ⟨h.otherRoot,h.stripped⟩⟩

def fileClient (root text : String) : ClientSystem where
  root := root
  preferred := some (.ok text)
  legacy := none
  portageq := fun _ => none
  resolveMarchNative := none
  gccTargetHelp := none
  gccDumpmachine := some "x86_64-pc-linux-gnu\n"
  cpuid2cpuflags := none
  uname := .ok "x86_64\n"

def fileVars (text : String) : BTreeMap String := extend ∅ (parseMakeConfVars text)

def desktopConf : String := "USE=\"x11 -doc\"\nVIDEO_CARDS=\"amdgpu\"\nGRUB_PLATFORMS=\"efi\"\n"

theorem desktop_covered : Covered (fileClient "/" desktopConf) (fileVars desktopConf) := by
  constructor
  · intro value hkey
    have hnone : (fileVars desktopConf)["FEATURES"]? = none := by decide
    rw [hnone] at hkey
    cases hkey
  · intro key hlisted _ value hkey hvalue
    have hall : ∀ key ∈ useExpandKeys (fileClient "/" desktopConf),
        (fileVars desktopConf)[key]? = none ∨ startsWith key "CPU_FLAGS_" = false ∧
          valued (fileClient "/" desktopConf) (fileVars desktopConf) key := by
      decide
    rcases hall key hlisted with hnone | hsent
    · rw [hnone] at hkey
      cases hkey
    · exact .inl ⟨hlisted,hsent⟩
  · intro hroot
    have hquery : canQueryPortageq (fileClient "/" desktopConf) := by decide
    rw [hquery] at hroot
    cases hroot
  · intro text htext
    have hnone : obtainedUse (fileClient "/" desktopConf) = none := by decide
    rw [hnone] at htext
    cases htext

theorem desktop_nothing_dropped : ∃ m, readMakeConf (fileClient "/" desktopConf) = .ok m ∧
    NothingDropped (fileClient "/" desktopConf) (fileVars desktopConf) m := by
  obtain ⟨m,hr,-⟩ := exists_of_readsTo (fileClient "/" desktopConf) (fun _ => true)
    (by decide)
  exact ⟨m,hr,(nothing_dropped_iff _ _ m rfl hr).mpr
    desktop_covered⟩

def listingClient : ClientSystem :=
  { fileClient "/" "CPU_FLAGS_X86=\"avx2\"\n" with
    portageq := fun vars =>
      if vars.length = 13 then some "\n\n\n\nCPU_FLAGS_X86\n\n\n\n\n\n\n\n\n" else none }

/-- Under a root of its own a client sends no USE flag, and the CPU flags of
make.conf are dropped without `cpuid2cpuflags`. -/
theorem configured_flags_dropped :
    (∃ m, readMakeConf (fileClient "/mnt/gentoo" desktopConf) = .ok m ∧ m.useFlags = [] ∧
      "x11" ∈ configuredUse (fileClient "/mnt/gentoo" desktopConf) (fileVars desktopConf) ∧
      ¬InFamily (CarriedFamily m) "x11") ∧
    ∃ m, readMakeConf listingClient = .ok m ∧
      readMakeConfVars listingClient = .ok (fileVars "CPU_FLAGS_X86=\"avx2\"\n") ∧
      (fileVars "CPU_FLAGS_X86=\"avx2\"\n")["CPU_FLAGS_X86"]? = some "avx2" ∧
      ¬Represented m "CPU_FLAGS_X86" "avx2" := by
  constructor
  · obtain ⟨m,hr,hm⟩ := exists_of_readsTo (fileClient "/mnt/gentoo" desktopConf)
      (fun m => m.useFlags == [] && m.cpuFlags.isNone &&
        m.useExpand.keys.all fun key => !startsWith "x11" (expandStart key))
      (by decide)
    simp only [Bool.and_eq_true,beq_iff_eq,Option.isNone_iff_eq_none,List.all_eq_true] at hm
    obtain ⟨⟨hflags,hcpu⟩,hkeys⟩ := hm
    refine ⟨m,hr,hflags,by decide,?_⟩
    rintro ⟨family,hstart,hfamily | ⟨flags,hfamily⟩⟩
    · have hno := hkeys family (Std.TreeMap.mem_keys.mpr hfamily)
      simp [hstart] at hno
    · rw [hcpu] at hfamily
      cases hfamily
  · obtain ⟨m,hr,hm⟩ := exists_of_readsTo listingClient
      (fun m => m.cpuFlags.isNone && !m.useExpand.contains "CPU_FLAGS_X86" &&
        m.extra["CPU_FLAGS_X86"]?.isNone)
      (by decide +kernel)
    simp only [Bool.and_eq_true,Option.isNone_iff_eq_none,Bool.not_eq_true'] at hm
    obtain ⟨⟨hcpu,hexpand⟩,hextra⟩ := hm
    refine ⟨m,hr,rfl,by decide,fun h => ?_⟩
    cases h with
    | text hfield => exact absurd (textFields_key hfield).1 (by decide)
    | features hkey | use hkey => exact absurd hkey (by decide)
    | family hfamily =>
      rcases hfamily with hfamily | ⟨flags,hfamily⟩
      · rw [Std.TreeMap.mem_iff_contains.mp hfamily] at hexpand
        cases hexpand
      · rw [hcpu] at hfamily
        cases hfamily
    | extra hkey =>
      rw [hextra] at hkey
      cases hkey

end Remerge.ConfigCoverage
