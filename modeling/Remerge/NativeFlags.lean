import Remerge.ConfigCoverage
import Remerge.MakeConfTrip

/-!
# Native flags on their way to the worker

`-march=native` means the machine a compiler runs on, so the client replaces it
before it sends its flags. The replacement is made in CFLAGS, and in CXXFLAGS if
it has `-march=native`; every other compiler variable is sent as it is. Where no value
leaves its quotes, the last line the worker writes for a variable is its value: that of
USE_EXPAND if the variable is listed there, and the client's otherwise.
-/

set_option autoImplicit false

namespace Remerge.NativeFlags
open RustText SnapshotTypes MakeConfVars MakeConfReader MakeConfWriter MakeConfTrip ConfigCoverage

def nativeTokens : List String := ["-march=native","-mtune=native","-mcpu=native"]

def Clean (text : String) : Prop := ∀ token ∈ splitWhitespace text, token ∉ nativeTokens

instance (text : String) : Decidable (Clean text) :=
  inferInstanceAs (Decidable (∀ token ∈ splitWhitespace text, token ∉ nativeTokens))

structure Replaceable (march text : String) : Prop where
  kept : "-mcpu=native" ∉ splitWhitespace text
  newMarch : "-march=native" ∈ splitWhitespace text → Clean ("-march="++march)
  newMtune : "-mtune=native" ∈ splitWhitespace text → Clean ("-mtune="++march)

variable {text march : String}

theorem clean_of_mem {token : String} (h : token ∈ splitWhitespace text) :
    Clean token ↔ token ∉ nativeTokens := by
  have hwords : splitWhitespace token = [token] := by
    rw [splitWhitespace_eq,words_of_isWord (isWord_of_mem_splitWhitespace h)]
    simp
  simp [Clean,hwords]

theorem clean_resolveCflags (text march : String) :
    Clean (resolveCflags text march).1 ↔
      ∀ token ∈ splitWhitespace text, Clean (resolveToken march token) := by
  unfold Clean
  rw [resolveCflags,splitWhitespace_joinWords_eq,List.flatMap_map]
  simp only [List.mem_flatMap]
  constructor
  · intro h token htoken u hu
    exact h u ⟨token,htoken,hu⟩
  · intro h u hu
    obtain ⟨token,htoken,hu⟩ := hu
    exact h token htoken u hu

theorem clean_resolveCflags_iff (text march : String) :
    Clean (resolveCflags text march).1 ↔ Replaceable march text := by
  rw [clean_resolveCflags]
  constructor
  · intro h
    refine ⟨fun hmem => ?_,fun hmem => ?_,fun hmem => ?_⟩
    · have hclean := h _ hmem
      rw [resolveToken,if_neg (by decide),if_neg (by decide),clean_of_mem hmem] at hclean
      exact hclean (by decide)
    · have hclean := h _ hmem
      rwa [resolveToken,if_pos rfl] at hclean
    · have hclean := h _ hmem
      rwa [resolveToken,if_neg (by decide),if_pos rfl] at hclean
  · intro h token hmem
    unfold resolveToken
    split
    · next heq => exact h.newMarch (heq ▸ hmem)
    · next hmarch =>
      split
      · next heq => exact h.newMtune (heq ▸ hmem)
      · next hmtune =>
        have hmcpu : token ≠ "-mcpu=native" := fun heq => h.kept (heq ▸ hmem)
        rw [clean_of_mem hmem]
        simp [nativeTokens,hmarch,hmtune,hmcpu]

theorem replaceable_of_clean (h : Clean text) : Replaceable march text :=
  ⟨fun hmem => h _ hmem (by decide),fun hmem => absurd (by decide) (h _ hmem),
    fun hmem => absurd (by decide) (h _ hmem)⟩

theorem clean_resolvedCflags (raw march : String) :
    Clean (resolvedCflags raw (some march)).1 ↔ Replaceable march raw := by
  simp only [resolvedCflags]
  split
  · exact clean_resolveCflags_iff raw march
  · next hnone =>
    refine ⟨replaceable_of_clean,fun h token hmem hnative => ?_⟩
    simp only [resolveCflags,List.any_eq_true,not_exists,not_and,isNativeToken,Bool.or_eq_true,
      beq_iff_eq,not_or] at hnone
    have hno := hnone token hmem
    simp only [nativeTokens,List.mem_cons,hno.1,hno.2,false_or,List.not_mem_nil,or_false] at hnative
    exact h.kept (hnative ▸ hmem)

theorem clean_resolvedCxxflags (raw march : String) :
    Clean (resolvedCxxflags raw (some march)) ↔
      if containsText raw "-march=native" then Replaceable march raw else Clean raw := by
  simp only [resolvedCxxflags]
  split
  · exact clean_resolveCflags_iff raw march
  · rfl

theorem isWord_of_all {cs : List Char}
    (h : (cs ≠ [] && cs.all fun c => !isWhitespace c)) : IsWord cs := by
  simpa [IsWord] using h

theorem clean_append {front : String} (hfront : IsWord front.toList)
    (hmarch : IsWord march.toList) :
    Clean (front++march) ↔ front++march ∉ nativeTokens := by
  have hword : IsWord (front++march).toList := by
    rw [String.toList_append]
    refine ⟨by simp [hfront.1],fun c hc => ?_⟩
    rcases List.mem_append.mp hc with hc | hc
    · exact hfront.2 c hc
    · exact hmarch.2 c hc
  have hwords : splitWhitespace (front++march) = [front++march] := by
    rw [splitWhitespace_eq,words_of_isWord hword]
    simp
  simp [Clean,hwords]

theorem replaceable_of_isWord (h : IsWord march.toList) (hne : march ≠ "native")
    (hmcpu : "-mcpu=native" ∉ splitWhitespace text) : Replaceable march text := by
  have hnative : ∀ front : String, front = "-march=" ∨ front = "-mtune=" →
      front++march ∉ nativeTokens := by
    intro front hfront hmem
    have hlist : march.toList = "native".toList := by
      have hmem' : (front++march).toList ∈ nativeTokens.map String.toList :=
        List.mem_map_of_mem hmem
      rw [String.toList_append] at hmem'
      have htokens : nativeTokens.map String.toList =
          ["-march=".toList++"native".toList,"-mtune=".toList++"native".toList,
            "-mcpu=native".toList] := by decide
      rw [htokens] at hmem'
      rcases hfront with rfl | rfl
      · simpa using hmem'
      · simpa using hmem'
    exact hne (String.toList_inj.mp hlist)
  refine ⟨hmcpu,fun _ => ?_,fun _ => ?_⟩
  · exact (clean_append (isWord_of_all (by decide)) h).mpr (hnative _ (.inl rfl))
  · exact (clean_append (isWord_of_all (by decide)) h).mpr (hnative _ (.inr rfl))

def compilerVars : List String :=
  ["CFLAGS","CXXFLAGS","LDFLAGS","COMMON_FLAGS","FCFLAGS","FFLAGS"]

/-- Read back, no compiler variable of the worker's file has a native flag. -/
def NoNative (m : MakeConf) (w : WorkerSettings) : Prop :=
  ∀ key ∈ compilerVars, Clean (getVar (parseMakeConfVars (writeMakeConf m w)) key)

/-- The file reads back line by line: names that a shell accepts, values that stay inside
their quotes, and no escapes in those of the compiler variables. -/
structure Quoted (m : MakeConf) (w : WorkerSettings) : Prop where
  expand : ∀ key ∈ m.useExpand, validName key
  cpu : CpuFlagsNamed m
  contained : Contained m w
  plainFlags : ∀ e ∈ writtenVars m w, e.1 ∈ compilerVars → plain e.2.toList

def Listed (sys : ClientSystem) (vars : BTreeMap String) (key : String) : Prop :=
  key ∈ useExpandKeys sys ∧ useExpandValues sys vars key ≠ []

/-- The native flags of a client are only where they are replaced. -/
structure NativeFree (sys : ClientSystem) (vars : BTreeMap String) (march : String) : Prop where
  cflags : ¬Listed sys vars "CFLAGS" → Replaceable march (getEffective sys vars "CFLAGS")
  cxxflags : ¬Listed sys vars "CXXFLAGS" →
    if containsText (getEffective sys vars "CXXFLAGS") "-march=native" then
      Replaceable march (getEffective sys vars "CXXFLAGS")
    else Clean (getEffective sys vars "CXXFLAGS")
  ldflags : ¬Listed sys vars "LDFLAGS" → Clean (getEffective sys vars "LDFLAGS")
  listed : ∀ key ∈ compilerVars, Listed sys vars key →
    ∀ token ∈ useExpandValues sys vars key, token ∉ nativeTokens
  extra : ∀ key ∈ ["COMMON_FLAGS","FCFLAGS","FFLAGS"], key ∉ useExpandKeys sys →
    ∀ value, vars[key]? = some value → safeExtraValue value → Clean value

variable {sys : ClientSystem} {vars : BTreeMap String} {resolved : ResolvedFlags} {m : MakeConf}
  {w : WorkerSettings} {key : String}

theorem useExpandValues_isWord (key : String) :
    ∀ token ∈ useExpandValues sys vars key, IsWord token.toList := by
  intro token htoken
  unfold useExpandValues at htoken
  cases h : (resolvedUseExpandValues sys).bind (·[key]?) with
  | none | some text =>
    rw [h] at htoken
    exact isWord_of_mem_splitWhitespace htoken

theorem getVar_written (hq : Quoted m w) (hkey : key ∈ compilerVars) :
    getVar (parseMakeConfVars (writeMakeConf m w)) key =
      (lastValue key (writtenVars m w)).getD "" := by
  rw [parse_writeMakeConf m w (wellFormed_writtenVars hq.expand hq.cpu hq.contained),
    getVar_assignAll]
  cases hv : lastValue key (writtenVars m w) with
  | none => rfl
  | some v => exact (readBack_eq_self_iff v).mpr (hq.plainFlags _ (mem_of_lastValue hv) hkey)

theorem lastValue_expand (hm : ReadFrom sys vars resolved m) (hkey : key ∈ compilerVars) :
    (Listed sys vars key →
      lastValue key (expandVars m) = some (joinWords (useExpandValues sys vars key))) ∧
    (¬Listed sys vars key → lastValue key (expandVars m) = none) := by
  have hcpu : ∀ key ∈ compilerVars, startsWith key "CPU_FLAGS_" = false := by decide
  have hmem : key ∈ m.useExpand ↔ Listed sys vars key := by
    rw [hm.useExpand,mem_collectUseExpand]
    simp [Listed,hcpu key hkey]
  have hvalue : ∀ v, (key,v) ∈ expandVars m → v = joinWords (useExpandValues sys vars key) := by
    intro v hv
    obtain ⟨⟨key',vals⟩,hentry,he⟩ := List.mem_map.mp hv
    cases he
    have hget := Std.TreeMap.mem_toList_iff_getElem?_eq_some.mp hentry
    rw [hm.useExpand] at hget
    rw [getElem?_collectUseExpand (fun vals' hvals' => by simp at hvals') hget]
  constructor
  · intro hl
    have hin := hmem.mpr hl
    have hline : (key,joinWords (m.useExpand.get key hin)) ∈ expandVars m :=
      List.mem_map.mpr ⟨(key,m.useExpand.get key hin),by
        rw [Std.TreeMap.mem_toList_iff_getElem?_eq_some]
        exact Std.TreeMap.getElem?_eq_some_getElem hin,rfl⟩
    rw [hvalue _ hline] at hline
    exact lastValue_of_mem hline hvalue
  · exact fun hl => lastValue_expandVars fun h => hl (hmem.mp h)

theorem mem_extra_iff (hm : ReadFrom sys vars resolved m) (value : String) :
    (key,value) ∈ extraVars m ↔
      (key ∉ knownKeys sys ∧ validExtraKey key) ∧ vars[key]? = some value ∧ safeExtraValue value := by
  rw [extraVars,List.mem_filter,Std.TreeMap.mem_toList_iff_getElem?_eq_some,hm.extra,
    Std.TreeMap.getElem?_filter',Option.filter_eq_some_iff]
  simp only [Bool.not_eq_true',List.contains_eq_mem,decide_eq_false_iff_not,Bool.and_eq_true]
  tauto

theorem lastValue_extra (hm : ReadFrom sys vars resolved m) :
    (key ∈ knownKeys sys → lastValue key (extraVars m) = none) ∧
      (key ∉ knownKeys sys → validExtraKey key →
        lastValue key (extraVars m) = (vars[key]?).filter safeExtraValue) := by
  constructor
  · intro hknown
    refine lastValue_eq_none fun e he hk => ?_
    subst hk
    exact ((mem_extra_iff hm e.2).mp he).1.1 hknown
  · intro hknown hvalid
    cases ho : (vars[key]?).filter safeExtraValue with
    | none =>
      refine lastValue_eq_none fun e he hk => ?_
      subst hk
      rw [Option.filter_eq_none_iff] at ho
      exact ho e.2 ((mem_extra_iff hm e.2).mp he).2.1 ((mem_extra_iff hm e.2).mp he).2.2
    | some value =>
      have hfound := Option.filter_eq_some_iff.mp ho
      refine lastValue_of_mem ((mem_extra_iff hm value).mpr ⟨⟨hknown,hvalid⟩,hfound⟩) fun v hv => ?_
      have hsame := ((mem_extra_iff hm v).mp hv).2.1
      rw [hfound.1] at hsame
      exact (Option.some.inj hsame).symm

/-- The last line of a compiler variable is an extra one, one of USE_EXPAND, or one of
the lines that are always written. -/
theorem lastValue_compiler (hcpu : CpuFlagsNamed m) (hkey : key ∈ compilerVars) :
    lastValue key (writtenVars m w) = (lastValue key (extraVars m)).or
      ((lastValue key (expandVars m)).or (lastValue key
        [("CFLAGS",m.cflags),("CXXFLAGS",m.cxxflags),("LDFLAGS",m.ldflags)])) := by
  have hnames : key ∉ ["CHOST","CBUILD","USE","EMERGE_DEFAULT_OPTS","PKGDIR","BINPKG_FORMAT",
      "BINPKG_GPG_SIGNING_KEY","BINPKG_GPG_SIGNING_GPG_HOME","ACCEPT_LICENSE","ACCEPT_KEYWORDS",
      "FEATURES","MAKEOPTS"] := by
    revert key
    decide
  have hstart : startsWith key "CPU_FLAGS_" = false := by
    revert key
    decide
  simp only [List.mem_cons,List.not_mem_nil,or_false,not_or] at hnames
  obtain ⟨h1,h2,h3,h4,h5,h6,h7,h8,h9,h10,h11,h12⟩ := hnames
  have hsign : lastValue key (signingVars w) = none := by
    refine lastValue_eq_none fun e he hk => ?_
    unfold signingVars at he
    split at he
    · simp only [List.mem_cons,List.not_mem_nil,or_false] at he
      rcases he with rfl | rfl | rfl
      · exact h6 hk.symm
      · exact h7 hk.symm
      · exact h8 hk.symm
    · cases he
  rw [lastValue_writtenVars,hsign,lastValue_firstVars hcpu hstart,lastValue_useVar h3,
    lastValue_emergeOptsVar h4,lastValue_identityVars h1 h2]
  simp [lastValue,packageDir,Ne.symm h5,Ne.symm h9,Ne.symm h10,Ne.symm h11,Ne.symm h12]

theorem clean_joinWords {tokens : List String} (h : ∀ token ∈ tokens, IsWord token.toList) :
    Clean (joinWords tokens) ↔ ∀ token ∈ tokens, token ∉ nativeTokens := by
  rw [Clean,splitWhitespace_joinWords tokens h]

theorem value_of_listed (hm : ReadFrom sys vars resolved m) (hq : Quoted m w)
    (hkey : key ∈ compilerVars) (hl : Listed sys vars key) :
    getVar (parseMakeConfVars (writeMakeConf m w)) key =
      joinWords (useExpandValues sys vars key) := by
  have hknown : key ∈ knownKeys sys := by simp [knownKeys,hl.1]
  rw [getVar_written hq hkey,lastValue_compiler hq.cpu hkey,(lastValue_expand hm hkey).1 hl,
    (lastValue_extra hm).1 hknown]
  rfl

theorem value_of_modelled (hm : ReadFrom sys vars resolved m) (hq : Quoted m w)
    (hkey : key ∈ compilerVars) (hmodelled : key ∈ modelledKeys) (hl : ¬Listed sys vars key) :
    getVar (parseMakeConfVars (writeMakeConf m w)) key = (lastValue key
      [("CFLAGS",m.cflags),("CXXFLAGS",m.cxxflags),("LDFLAGS",m.ldflags)]).getD "" := by
  have hknown : key ∈ knownKeys sys := by simp [knownKeys,hmodelled]
  rw [getVar_written hq hkey,lastValue_compiler hq.cpu hkey,(lastValue_expand hm hkey).2 hl,
    (lastValue_extra hm).1 hknown]
  rfl

theorem clean_of_extra (hm : ReadFrom sys vars resolved m) (hq : Quoted m w)
    (hkey : key ∈ ["COMMON_FLAGS","FCFLAGS","FFLAGS"]) (hl : ¬Listed sys vars key) :
    Clean (getVar (parseMakeConfVars (writeMakeConf m w)) key) ↔ (key ∉ useExpandKeys sys →
      ∀ value, vars[key]? = some value → safeExtraValue value → Clean value) := by
  have hnames : ∀ key ∈ ["COMMON_FLAGS","FCFLAGS","FFLAGS"], key ∈ compilerVars ∧
      key ∉ modelledKeys ∧ validExtraKey key ∧ key ∉ ["CFLAGS","CXXFLAGS","LDFLAGS"] := by decide
  obtain ⟨hcompiler,hother,hvalid,hfirst⟩ := hnames key hkey
  have hnone : lastValue key [("CFLAGS",m.cflags),("CXXFLAGS",m.cxxflags),("LDFLAGS",m.ldflags)] =
      none := by
    refine lastValue_eq_none fun e he hk => hfirst ?_
    rw [← hk]
    exact List.mem_map_of_mem (f := Prod.fst) he
  have hempty : Clean "" := by decide
  rw [getVar_written hq hcompiler,lastValue_compiler hq.cpu hcompiler,
    (lastValue_expand hm hcompiler).2 hl,hnone]
  by_cases hx : key ∈ useExpandKeys sys
  · rw [(lastValue_extra hm).1 (by simp [knownKeys,hx])]
    exact iff_of_true hempty fun h => absurd hx h
  · rw [(lastValue_extra hm).2 (by simp [knownKeys,hx,hother]) hvalid]
    cases ho : (vars[key]?).filter safeExtraValue with
    | none =>
      rw [Option.filter_eq_none_iff] at ho
      exact iff_of_true hempty fun _ value hv hs => absurd hs (ho value hv)
    | some value =>
      obtain ⟨hv,hs⟩ := Option.filter_eq_some_iff.mp ho
      refine ⟨fun h _ v hv' _ => ?_,fun h => h hx value hv hs⟩
      rw [hv] at hv'
      cases hv'
      exact h

def skylakeClient (text : String) : ClientSystem :=
  { fileClient "/" text with resolveMarchNative := some "-march=skylake -mmmx\n" }

def plainWorker : WorkerSettings := ⟨"x86_64-pc-linux-gnu",none,none,none,none⟩

def nativeConf : String := "CFLAGS=\"-O2 -march=native\"\nCXXFLAGS=\"-O2 -march=native\"\n"

theorem native_conf_free :
    NativeFree (skylakeClient nativeConf) (fileVars nativeConf) "skylake" := by
  have hword : IsWord "skylake".toList := isWord_of_all (by decide)
  have hkeys : ∀ key ∈ compilerVars, key ∉ useExpandKeys (skylakeClient nativeConf) := by
    decide
  have hnone : ∀ key ∈ ["COMMON_FLAGS","FCFLAGS","FFLAGS"], (fileVars nativeConf)[key]? = none := by
    decide
  refine ⟨fun _ => replaceable_of_isWord hword (by decide) (by decide),fun _ => ?_,fun _ => by decide,
    fun key hkey hl => absurd hl.1 (hkeys key hkey),fun key hkey _ value hvalue => ?_⟩
  · rw [if_pos (by decide)]
    exact replaceable_of_isWord hword (by decide) (by decide)
  · rw [hnone key hkey] at hvalue
    cases hvalue

def readsBack (m : MakeConf) (w : WorkerSettings) : Bool :=
  m.useExpand.keys.all validName && m.cpuFlags.isNone && decide (Contained m w) &&
    (writtenVars m w).all fun e => !compilerVars.contains e.1 || plain e.2.toList

theorem quoted_of_readsBack (h : readsBack m w) : Quoted m w := by
  simp only [readsBack,Bool.and_eq_true,List.all_eq_true,Option.isNone_iff_eq_none,
    decide_eq_true_eq,Bool.or_eq_true,Bool.not_eq_true'] at h
  obtain ⟨⟨⟨hexpand,hcpu⟩,hc⟩,hplain⟩ := h
  refine ⟨fun key hk => hexpand key (Std.TreeMap.mem_keys.mpr hk),fun var flags hv => ?_,hc,
    fun e he hkey => (hplain e he).resolve_left ?_⟩
  · rw [hcpu] at hv
    cases hv
  · simp [hkey]

def leakyConf : String :=
  "CFLAGS=\"-mcpu=native\"\nCXXFLAGS=\"-mtune=native\"\nLDFLAGS=\"-march=native\"\n"++
    "FFLAGS=\"-march=native\"\n"

end Remerge.NativeFlags
