import Remerge.MakeConfWriter

/-!
# make.conf from the client to the worker and back

The worker writes the submitted values between double quotes without escaping
them. When every value stays inside its quotes, the client's parser reads the
file line by line and removes the escapes it finds, so a value comes back
exactly if the parser takes no escape in it. A resolved USE without flags is
not written at all.
-/

set_option autoImplicit false

namespace Remerge.MakeConfTrip
open RustText SnapshotTypes MakeConfVars MakeConfReader MakeConfWriter

variable {key : String} {e : String × String}

section

def lastValue (key : String) : List (String × String) → Option String
  | [] => none
  | e::rest => (lastValue key rest).or (if e.1 = key then some e.2 else none)

theorem lastValue_append (key : String) (a b : List (String × String)) :
    lastValue key (a++b) = (lastValue key b).or (lastValue key a) := by
  induction a with
  | nil => simp [lastValue]
  | cons e a ih => simp [lastValue,ih,Option.or_assoc]

variable {value : String} {es : List (String × String)}

theorem lastValue_eq_none (h : ∀ e ∈ es, e.1 ≠ key) : lastValue key es = none := by
  induction es with
  | nil => rfl
  | cons e es ih =>
    rw [lastValue,ih fun e' he => h e' (by simp [he]),if_neg (h e (by simp))]
    rfl

theorem mem_of_lastValue (h : lastValue key es = some value) : (key,value) ∈ es := by
  induction es with
  | nil => cases h
  | cons e es ih =>
    rw [lastValue,Option.or_eq_some_iff] at h
    rcases h with h | ⟨-,h⟩
    · exact List.mem_cons_of_mem _ (ih h)
    · split at h
      · next hk =>
        cases h
        rw [← hk]
        exact List.mem_cons_self
      · cases h

theorem lastValue_isSome (h : (key,value) ∈ es) : ∃ w, lastValue key es = some w := by
  cases hl : lastValue key es with
  | some w => exact ⟨w,rfl⟩
  | none =>
    exfalso
    induction es with
    | nil => cases h
    | cons e es ih =>
      rw [lastValue,Option.or_eq_none_iff] at hl
      rcases List.mem_cons.mp h with rfl | h
      · simp at hl
      · exact ih h hl.1

theorem lastValue_of_mem (h : (key,value) ∈ es) (hu : ∀ w, (key,w) ∈ es → w = value) :
    lastValue key es = some value := by
  obtain ⟨w,hw⟩ := lastValue_isSome h
  rw [hw,hu w (mem_of_lastValue hw)]

theorem getElem?_insertAll (f : String → String) (key : String) (es : List (String × String))
    (vars : BTreeMap String) : (es.foldl (fun m e => m.insert e.1 (f e.2)) vars)[key]? =
      ((lastValue key es).map f).or vars[key]? := by
  induction es generalizing vars with
  | nil => rfl
  | cons e es ih =>
    rw [List.foldl_cons,ih,Std.TreeMap.getElem?_insert,lastValue]
    by_cases hk : e.1 = key
    · subst hk
      cases lastValue e.1 es <;> simp
    · have hc : compare e.1 key ≠ .eq := fun h => hk (Std.LawfulEqCmp.eq_of_compare h)
      rw [if_neg hc,if_neg hk]
      cases lastValue key es <;> simp

end

section
variable (mc : MakeConf) (w : WorkerSettings)

def submittedVars : List (String × String) :=
  [("CHOST",mc.chost),("CFLAGS",mc.cflags),("CXXFLAGS",mc.cxxflags),("LDFLAGS",mc.ldflags),
    ("ACCEPT_LICENSE",mc.acceptLicense),("ACCEPT_KEYWORDS",mc.acceptKeywords),
    ("EMERGE_DEFAULT_OPTS",mc.emergeDefaultOpts)]

def expectedVars : List (String × String) :=
  submittedVars mc++expandVars mc++
    (if mc.useFlagsResolved then [("USE",joinWords ("-*"::mc.useFlags))] else [])++[packageDir]

/-- Reading the file gives every variable its value; one that is not there is
empty. -/
def Survives (vars : BTreeMap String) : Prop :=
  ∀ e ∈ expectedVars mc, getVar vars e.1 = e.2

def Contained : Prop := ∀ e ∈ writtenVars mc w, contained e.2.toList

/-- When the file says what was submitted: the parser takes no escape in any
value, a resolved USE has flags, no variable is submitted twice with different
values, and the lines for signing agree with what they replace. -/
structure Faithful : Prop where
  plainValues : ∀ e ∈ expectedVars mc, (∀ e' ∈ signingVars w, e'.1 ≠ e.1) → plain e.2.toList
  useWritten : mc.useFlagsResolved → mc.useFlags ≠ [] ∨ "USE" ∈ mc.useExpand
  agree : ∀ e ∈ expectedVars mc, ∀ e' ∈ expectedVars mc, e.1 = e'.1 → e.2 = e'.2
  signing : ∀ e ∈ expectedVars mc, ∀ e' ∈ signingVars w, e'.1 = e.1 → readBack e'.2 = e.2

def CpuFlagsNamed : Prop :=
  ∀ var flags, mc.cpuFlags = some (var,flags) → validName var ∧ startsWith var "CPU_FLAGS_" = true

end

section
variable {mc : MakeConf} {w : WorkerSettings}

theorem validName_of_validExtraKey (h : validExtraKey key) : validName key := by
  simp only [validExtraKey,Bool.and_eq_true,decide_eq_true_eq] at h
  obtain ⟨⟨hne,hall⟩,hdigit⟩ := h
  unfold validName
  cases hk : key.toList with
  | nil => exact absurd (String.toList_eq_nil_iff.mp hk) hne
  | cons ch rest =>
    rw [hk] at hall hdigit
    simp only [List.all_cons,Bool.and_eq_true,List.head?_cons,Option.any_some,
      Bool.not_eq_true'] at hall hdigit
    obtain ⟨hch,hrest⟩ := hall
    simp only [Bool.and_eq_true]
    constructor
    · unfold isVarStart
      unfold Char.isAlphanum at hch
      rw [hdigit,Bool.or_false,Bool.or_comm] at hch
      exact hch
    · refine List.all_eq_true.mpr fun c hc => ?_
      have := List.all_eq_true.mp hrest c hc
      unfold isVarChar
      rwa [Bool.or_comm] at this

theorem mem_expandVars (h : e ∈ expandVars mc) : e.1 ∈ mc.useExpand := by
  obtain ⟨⟨key,values⟩,hm,rfl⟩ := List.mem_map.mp h
  rw [Std.TreeMap.mem_iff_isSome_getElem?,Std.TreeMap.mem_toList_iff_getElem?_eq_some.mp hm]
  rfl

theorem mem_extraVars (h : e ∈ extraVars mc) : e.1 ∈ mc.extra ∧ validExtraKey e.1 := by
  obtain ⟨hm,hv⟩ := List.mem_filter.mp h
  rw [Bool.and_eq_true] at hv
  refine ⟨?_,hv.1⟩
  rw [Std.TreeMap.mem_iff_isSome_getElem?,Std.TreeMap.mem_toList_iff_getElem?_eq_some.mp hm]
  rfl

theorem mem_cpuFlagsVar (h : e ∈ cpuFlagsVar mc) : ∃ flags, mc.cpuFlags = some (e.1,flags) := by
  unfold cpuFlagsVar at h
  rw [Option.mem_toList,Option.map_eq_some_iff] at h
  obtain ⟨⟨var,flags⟩,hc,rfl⟩ := h
  exact ⟨flags,hc⟩

def ownNames : List String :=
  ["CHOST","CBUILD","CFLAGS","CXXFLAGS","LDFLAGS","MAKEOPTS","USE","ACCEPT_LICENSE",
    "ACCEPT_KEYWORDS","FEATURES","EMERGE_DEFAULT_OPTS","PKGDIR","BINPKG_FORMAT",
    "BINPKG_GPG_SIGNING_KEY","BINPKG_GPG_SIGNING_GPG_HOME"]

theorem writtenVars_name (h : e ∈ writtenVars mc w) :
    e.1 ∈ ownNames ∨ e ∈ cpuFlagsVar mc ∨ e ∈ expandVars mc ∨ e ∈ extraVars mc := by
  simp only [writtenVars,bodyVars,settingVars,List.mem_append] at h
  rcases h with ((h | (((((h | h) | h) | h) | h) | h) | h) | h) | h
  · left
    unfold identityVars at h
    split at h <;> simp at h
    · rcases h with rfl | rfl <;> simp [ownNames]
    · rw [h]
      simp [ownNames]
  · left
    simp at h
    rcases h with rfl | rfl | rfl | rfl <;> simp [ownNames]
  · left
    unfold useVar at h
    split at h
    · cases h
    · split at h <;> simp at h <;> simp [h,ownNames]
  · left
    simp at h
    rcases h with rfl | rfl | rfl <;> simp [ownNames]
  · left
    unfold emergeOptsVar at h
    split at h
    · cases h
    · simp at h
      simp [h,ownNames]
  · exact .inr (.inl h)
  · exact .inr (.inr (.inl h))
  · exact .inr (.inr (.inr h))
  · left
    simp [packageDir] at h
    simp [h,ownNames]
  · left
    unfold signingVars at h
    split at h
    · simp at h
      rcases h with rfl | rfl | rfl <;> simp [ownNames]
    · cases h

theorem wellFormed_writtenVars (hexpand : ∀ key ∈ mc.useExpand, validName key)
    (hcpu : CpuFlagsNamed mc) (hc : Contained mc w) : WellFormed (writtenVars mc w) := by
  intro e he
  refine ⟨?_,hc e he⟩
  rcases writtenVars_name he with h | h | h | h
  · exact (by decide : ∀ name ∈ ownNames, validName name) e.1 h
  · obtain ⟨flags,hf⟩ := mem_cpuFlagsVar h
    exact (hcpu e.1 flags hf).1
  · exact hexpand e.1 (mem_expandVars h)
  · exact validName_of_validExtraKey (mem_extraVars h).2

theorem lastValue_useVar (h : key ≠ "USE") : lastValue key (useVar mc) = none := by
  refine lastValue_eq_none fun e he => ?_
  unfold useVar at he
  split at he
  · cases he
  · split at he <;> simp at he <;> simp [he,Ne.symm h]

theorem lastValue_emergeOptsVar (h : key ≠ "EMERGE_DEFAULT_OPTS") :
    lastValue key (emergeOptsVar mc) = none := by
  refine lastValue_eq_none fun e he => ?_
  unfold emergeOptsVar at he
  split at he
  · cases he
  · simp at he
    simp [he,Ne.symm h]

theorem lastValue_cpuFlagsVar (hcpu : CpuFlagsNamed mc) (h : startsWith key "CPU_FLAGS_" = false) :
    lastValue key (cpuFlagsVar mc) = none := by
  refine lastValue_eq_none fun e he hk => ?_
  obtain ⟨flags,hf⟩ := mem_cpuFlagsVar he
  rw [← hk,(hcpu e.1 flags hf).2] at h
  cases h

theorem lastValue_identityVars (h : key ≠ "CHOST") (h' : key ≠ "CBUILD") :
    lastValue key (identityVars mc w) = none := by
  refine lastValue_eq_none fun e he => ?_
  unfold identityVars at he
  split at he <;> simp at he
  · rcases he with rfl | rfl
    · exact Ne.symm h
    · exact Ne.symm h'
  · rw [he]
    exact Ne.symm h

theorem lastValue_chost : lastValue "CHOST" (identityVars mc w) = some mc.chost := by
  unfold identityVars
  split <;> simp [lastValue]

def firstVars (mc : MakeConf) (w : WorkerSettings) : List (String × String) :=
  identityVars mc w++settingVars mc w

theorem lastValue_firstVars (hcpu : CpuFlagsNamed mc) (h : startsWith key "CPU_FLAGS_" = false) :
    lastValue key (firstVars mc w) =
      ((lastValue key (emergeOptsVar mc)).or
        ((lastValue key [("ACCEPT_LICENSE",mc.acceptLicense),
            ("ACCEPT_KEYWORDS",mc.acceptKeywords),
            ("FEATURES",joinWords (buildFeatures mc w))]).or
          ((lastValue key (useVar mc)).or
            (lastValue key [("CFLAGS",mc.cflags),("CXXFLAGS",mc.cxxflags),("LDFLAGS",mc.ldflags),
              ("MAKEOPTS",buildMakeoptsInner mc.makeopts w.parallelJobs w.loadAverage)])))).or
        (lastValue key (identityVars mc w)) := by
  simp only [firstVars,settingVars,lastValue_append,lastValue_cpuFlagsVar hcpu h,Option.none_or]

theorem submittedVars_name (h : e ∈ submittedVars mc) :
    startsWith e.1 "CPU_FLAGS_" = false ∧ e.1 ≠ "USE" ∧ e.1 ∈ modelledKeys := by
  simp only [submittedVars,List.mem_cons,List.not_mem_nil,or_false] at h
  rcases h with rfl | rfl | rfl | rfl | rfl | rfl | rfl <;> dsimp only <;> decide

theorem lastValue_submitted (hcpu : CpuFlagsNamed mc) (h : e ∈ submittedVars mc) :
    lastValue e.1 (firstVars mc w) = some e.2 ∨
      e = ("EMERGE_DEFAULT_OPTS","") ∧ lastValue e.1 (firstVars mc w) = none := by
  obtain ⟨hstart,huse,-⟩ := submittedVars_name h
  rw [lastValue_firstVars hcpu hstart,lastValue_useVar huse]
  simp only [submittedVars,List.mem_cons,List.not_mem_nil,or_false] at h
  rcases h with rfl | rfl | rfl | rfl | rfl | rfl | rfl
  pick_goal 7
  · rw [lastValue_identityVars (by simp) (by simp)]
    unfold emergeOptsVar
    split
    · next hempty => exact .inr ⟨by rw [hempty],by simp [lastValue]⟩
    · exact .inl (by simp [lastValue])
  · left
    rw [lastValue_emergeOptsVar (by simp),lastValue_chost]
    simp [lastValue]
  all_goals exact .inl (by rw [lastValue_emergeOptsVar (by simp)]; simp [lastValue])

theorem lastValue_use (hcpu : CpuFlagsNamed mc) (hr : mc.useFlagsResolved) :
    lastValue "USE" (firstVars mc w) =
      if mc.useFlags = [] then none else some (joinWords ("-*"::mc.useFlags)) := by
  rw [lastValue_firstVars hcpu (by decide),lastValue_emergeOptsVar (by decide),
    lastValue_identityVars (by decide) (by decide)]
  unfold useVar
  rw [hr]
  split
  · simp [lastValue]
  · next hne =>
    rw [joinWords_cons hne]
    simp [lastValue]

theorem lastValue_expandVars (h : key ∉ mc.useExpand) : lastValue key (expandVars mc) = none := by
  refine lastValue_eq_none fun e he hk => ?_
  rw [← hk] at h
  exact h (mem_expandVars he)

theorem expectedVars_name (h : e ∈ expectedVars mc) :
    e.1 ∈ modelledKeys ∨ e.1 ∈ mc.useExpand ∨ e = packageDir := by
  simp only [expectedVars,List.mem_append,List.mem_singleton] at h
  rcases h with ((h | h) | h) | h
  · exact .inl (submittedVars_name h).2.2
  · exact .inr (.inl (mem_expandVars h))
  · left
    split at h
    · simp at h
      simp [h,modelledKeys]
    · cases h
  · exact .inr (.inr h)

/-- Extra variables do not touch the expected ones, except for the package
directory, which is written after them. -/
theorem lastValue_extraVars (ha : KeysApart mc) (h : e ∈ expectedVars mc) (hp : e.1 ≠ "PKGDIR") :
    lastValue e.1 (extraVars mc) = none := by
  refine lastValue_eq_none fun x hx hk => ?_
  obtain ⟨hu,hm⟩ := ha.extra x.1 (mem_extraVars hx).1
  rw [hk] at hu hm
  rcases expectedVars_name h with h | h | h
  · exact hm h
  · exact hu h
  · rw [h] at hp
    exact hp rfl

theorem lastValue_writtenVars (key : String) : lastValue key (writtenVars mc w) =
    (lastValue key (signingVars w)).or ((lastValue key [packageDir]).or
      ((lastValue key (extraVars mc)).or ((lastValue key (expandVars mc)).or
        (lastValue key (firstVars mc w))))) := by
  simp only [writtenVars,bodyVars,firstVars,lastValue_append,Option.or_assoc]

/-- Without a signing line, the last line of an expected variable is itself one
of the expected values, or there is none. -/
theorem lastValue_expected (ha : KeysApart mc) (hcpu : CpuFlagsNamed mc) (h : e ∈ expectedVars mc)
    (hs : lastValue e.1 (signingVars w) = none) :
    (∃ v, lastValue e.1 (writtenVars mc w) = some v ∧ (e.1,v) ∈ expectedVars mc) ∨
      lastValue e.1 (writtenVars mc w) = none ∧ (e = ("EMERGE_DEFAULT_OPTS","") ∨
        mc.useFlagsResolved ∧ mc.useFlags = [] ∧ "USE" ∉ mc.useExpand) := by
  rw [lastValue_writtenVars,hs,Option.none_or]
  by_cases hp : e.1 = "PKGDIR"
  · left
    refine ⟨packageDir.2,?_,?_⟩
    · rw [hp]
      simp [lastValue,packageDir]
    · rw [hp]
      simp [expectedVars,packageDir]
  · have hpkg : lastValue e.1 [packageDir] = none :=
      lastValue_eq_none fun x hx hk => hp (by
        rw [← hk,List.mem_singleton.mp hx]
        rfl)
    rw [hpkg,Option.none_or,lastValue_extraVars ha h hp,Option.none_or]
    by_cases hx : e.1 ∈ mc.useExpand
    · left
      have hmem : (e.1,joinWords (mc.useExpand.get e.1 hx)) ∈ expandVars mc :=
        List.mem_map.mpr ⟨(e.1,mc.useExpand.get e.1 hx),by
          rw [Std.TreeMap.mem_toList_iff_getElem?_eq_some]
          exact Std.TreeMap.getElem?_eq_some_getElem hx,rfl⟩
      obtain ⟨v,hv⟩ := lastValue_isSome hmem
      refine ⟨v,by rw [hv,Option.some_or],?_⟩
      simp only [expectedVars,List.mem_append]
      exact .inl (.inl (.inr (mem_of_lastValue hv)))
    · rw [lastValue_expandVars hx,Option.none_or]
      have hmem := h
      simp only [expectedVars,List.mem_append,List.mem_singleton] at hmem
      rcases hmem with ((hmem | hmem) | hmem) | hmem
      · rcases lastValue_submitted hcpu hmem with hv | ⟨he,hv⟩
        · exact .inl ⟨e.2,hv,h⟩
        · exact .inr ⟨hv,.inl he⟩
      · exact absurd (mem_expandVars hmem) hx
      · split at hmem
        · next hr =>
          rw [List.mem_singleton] at hmem
          subst hmem
          rw [lastValue_use hcpu hr]
          split
          · next hnil => exact .inr ⟨rfl,.inr ⟨hr,hnil,hx⟩⟩
          · exact .inl ⟨_,rfl,h⟩
        · cases hmem
      · exact absurd (by rw [hmem]; rfl) hp

theorem readBack_eq_self_iff (v : String) : readBack v = v ↔ plain v.toList := by
  rw [← unquote_eq_self_iff]
  unfold readBack
  constructor
  · intro h
    have := congrArg String.toList h
    rwa [String.toList_ofList] at this
  · intro h
    rw [h,String.ofList_toList]

theorem getVar_assignAll (key : String) (es : List (String × String)) :
    getVar (assignAll ∅ es) key = ((lastValue key es).map readBack).getD "" := by
  unfold getVar
  rw [assignAll,getElem?_insertAll]
  cases lastValue key es <;> simp

theorem lastValue_signingVars (h : e ∈ signingVars w) :
    lastValue e.1 (signingVars w) = some e.2 := by
  refine lastValue_of_mem h fun v hv => ?_
  cases hk : w.gpgKey with
  | none => simp [signingVars,hk] at h
  | some key =>
    cases hh : w.gpgHome with
    | none => simp [signingVars,hk,hh] at h
    | some home =>
      simp only [signingVars,hk,hh,List.mem_cons,List.not_mem_nil,or_false] at h hv
      rcases h with rfl | rfl | rfl <;> simpa using hv

theorem signingVars_name (h : e ∈ signingVars w) : e.1 ≠ "USE" := by
  unfold signingVars at h
  split at h
  · simp only [List.mem_cons,List.not_mem_nil,or_false] at h
    rcases h with rfl | rfl | rfl <;> simp
  · cases h

theorem lastValue_use_unwritten (ha : KeysApart mc) (hcpu : CpuFlagsNamed mc)
    (hr : mc.useFlagsResolved) (hnil : mc.useFlags = []) (hx : "USE" ∉ mc.useExpand) :
    lastValue "USE" (writtenVars mc w) = none := by
  have he : ("USE",joinWords ("-*"::mc.useFlags)) ∈ expectedVars mc := by simp [expectedVars,hr]
  rw [lastValue_writtenVars,lastValue_extraVars ha he (by simp),lastValue_expandVars hx,
    lastValue_use hcpu hr,if_pos hnil,lastValue_eq_none fun e => signingVars_name]
  rfl

/-- The parser gives every expected variable its value exactly when the
submitted values are faithful to it. -/
theorem survives_iff (ha : KeysApart mc) (hexpand : ∀ key ∈ mc.useExpand, validName key)
    (hcpu : CpuFlagsNamed mc) (hc : Contained mc w) :
    Survives mc (parseMakeConfVars (writeMakeConf mc w)) ↔ Faithful mc w := by
  unfold Survives
  rw [parse_writeMakeConf mc w (wellFormed_writtenVars hexpand hcpu hc)]
  simp only [getVar_assignAll]
  have hsigned : ∀ e ∈ signingVars w,
      ((lastValue e.1 (writtenVars mc w)).map readBack).getD "" = readBack e.2 := by
    intro e he
    rw [lastValue_writtenVars,lastValue_signingVars he]
    rfl
  have hunsigned : ∀ e : String × String, (∀ e' ∈ signingVars w, e'.1 ≠ e.1) →
      lastValue e.1 (signingVars w) = none := fun e => lastValue_eq_none
  constructor
  · intro h
    refine ⟨fun e he hs => ?_,fun hr => ?_,fun e he e' he' hk => ?_,fun e he e' he' hk => ?_⟩
    · rw [← readBack_eq_self_iff]
      have hread := h e he
      rcases lastValue_expected ha hcpu he (hunsigned e hs) with ⟨v,hv,hm⟩ | ⟨hv,hcase⟩
      · have hv' := h _ hm
        rw [hv] at hread hv'
        rw [← hread]
        exact congrArg readBack hv'
      · rw [hv] at hread
        rw [← hread]
        rfl
    · by_contra hno
      rw [not_or,not_not] at hno
      have hread := h ("USE",joinWords ("-*"::mc.useFlags)) (by simp [expectedVars,hr])
      rw [lastValue_use_unwritten ha hcpu hr hno.1 hno.2,hno.1] at hread
      exact absurd hread (by decide)
    · rw [← h e he,← h e' he',hk]
    · rw [← h e he,← hk,hsigned e' he']
  · intro h e he
    by_cases hs : ∃ e' ∈ signingVars w, e'.1 = e.1
    · obtain ⟨e',he',hk⟩ := hs
      rw [← hk,hsigned e' he']
      exact h.signing e he e' he' hk
    · have hs' : ∀ e' ∈ signingVars w, e'.1 ≠ e.1 := fun e' he' hk => hs ⟨e',he',hk⟩
      rcases lastValue_expected ha hcpu he (hunsigned e hs') with ⟨v,hv,hm⟩ | ⟨hv,hcase⟩
      · have hve : v = e.2 := h.agree _ hm e he rfl
        rw [hv,hve]
        exact (readBack_eq_self_iff _).mpr (h.plainValues e he hs')
      · rw [hv]
        rcases hcase with rfl | ⟨hr,hnil,hx⟩
        · rfl
        · rcases h.useWritten hr with hu | hu
          · exact absurd hnil hu
          · exact absurd hu hx

end

/-- In every configuration that a client reads, with variable names that a shell
accepts and values that stay inside the quotes the worker puts around them, the
worker's file gives the client's parser back what was submitted exactly when
the values are faithful. -/
theorem make_conf_survives_iff (sys : ClientSystem) (mc : MakeConf) (w : WorkerSettings)
    (hread : readMakeConf sys = .ok mc) (hexpand : ∀ key ∈ mc.useExpand, validName key)
    (hcpu : CpuFlagsNamed mc) (hc : Contained mc w) :
    Survives mc (parseMakeConfVars (writeMakeConf mc w)) ↔ Faithful mc w :=
  survives_iff (keysApart_readMakeConf hread) hexpand hcpu hc

instance (mc : MakeConf) (w : WorkerSettings) : Decidable (Contained mc w) :=
  inferInstanceAs (Decidable (∀ e ∈ writtenVars mc w, contained e.2.toList))

instance (mc : MakeConf) (vars : BTreeMap String) : Decidable (Survives mc vars) :=
  inferInstanceAs (Decidable (∀ e ∈ expectedVars mc, getVar vars e.1 = e.2))

def sampleWorker : WorkerSettings := ⟨"x86_64-pc-linux-gnu",none,none,none,none⟩

def sampleAnswer (var : String) : String :=
  if var = "USE" then "X wayland video_cards_amdgpu"
  else if var = "USE_EXPAND" then "VIDEO_CARDS"
  else if var = "VIDEO_CARDS" then "amdgpu"
  else if var = "CFLAGS" then "-O2 -pipe"
  else ""

def sampleClient : ClientSystem where
  root := "/"
  preferred := some (.ok "CFLAGS=\"-O2 -pipe\"\nUSE=\"wayland\"\n")
  legacy := none
  portageq := fun vars => some (String.join (vars.map fun var => sampleAnswer var++"\n"))
  resolveMarchNative := none
  gccTargetHelp := none
  gccDumpmachine := some "x86_64-pc-linux-gnu\n"
  cpuid2cpuflags := none
  uname := .ok "x86_64\n"

def chrootClient : ClientSystem :=
  { sampleClient with
    root := "/mnt/gentoo"
    preferred := some (.ok "CFLAGS=\"-O2 -DNAME=\\\"x\\\"\"\nUSE=\"wayland\"\n") }

/-- The hypotheses and the condition for a client without `cpuid2cpuflags` and a
worker that does not sign, in a form that can be evaluated. -/
def harmless (w : WorkerSettings) (mc : MakeConf) : Bool :=
  mc.cpuFlags.isNone && mc.useExpand.keys.all validName && decide (Contained mc w) &&
    (expectedVars mc).all (fun e => plain e.2.toList) && !mc.useFlags.isEmpty &&
    (expectedVars mc).all (fun e => (expectedVars mc).all fun e' => e.1 ≠ e'.1 || e.2 == e'.2)

theorem sample_survives : ∃ mc, readMakeConf sampleClient = .ok mc ∧
    mc.useFlags = ["X","wayland"] ∧
    Survives mc (parseMakeConfVars (writeMakeConf mc sampleWorker)) := by
  obtain ⟨mc,hr,h⟩ := exists_of_readsTo sampleClient
    (fun mc => harmless sampleWorker mc && mc.useFlags == ["X","wayland"]) (by decide +kernel)
  simp only [harmless,Bool.and_eq_true,decide_eq_true_eq,beq_iff_eq,List.all_eq_true,
    Option.isNone_iff_eq_none,Bool.or_eq_true,ne_eq] at h
  obtain ⟨⟨⟨⟨⟨⟨hcpu,hexpand⟩,hc⟩,hplain⟩,hflags⟩,hagree⟩,hnames⟩ := h
  refine ⟨mc,hr,hnames,(make_conf_survives_iff sampleClient mc sampleWorker hr ?_ ?_ hc).mpr ?_⟩
  · exact fun key hk => hexpand key (Std.TreeMap.mem_keys.mpr hk)
  · intro var flags hv
    rw [hcpu] at hv
    cases hv
  · refine ⟨fun e he _ => hplain e he,fun _ => .inl ?_,fun e he e' he' hk => ?_,?_⟩
    · intro hnil
      rw [hnil] at hflags
      cases hflags
    · rcases hagree e he e' he' with hne | heq
      · exact absurd hk hne
      · exact heq
    · exact fun _ _ e' he' => absurd he' (by simp [signingVars,sampleWorker])

/-- A value that leaves its quotes can assign any other variable, even put back
what another one lost. So containment is not necessary for each single file. -/
def injectingClient : ClientSystem :=
  { sampleClient with
    preferred := some (.ok "CFLAGS='x\"y'\nFEATURES=\"a\\\" CFLAGS='x\\\"y'\"\n")
    portageq := fun _ => none }

example : readsTo injectingClient (fun mc => !decide (Contained mc sampleWorker) &&
    decide (Survives mc (parseMakeConfVars (writeMakeConf mc sampleWorker)))) := by
  simp only [parseMakeConfVars_written]
  decide +kernel

/-- The quotes inside CFLAGS end the value the worker writes, and the resolved
USE of a client with a root of its own is not written at all. -/
theorem quoted_cflags_lost : ∃ mc, readMakeConf chrootClient = .ok mc ∧
    (∀ key ∈ mc.useExpand, validName key) ∧ mc.useFlagsResolved ∧
    mc.cflags = "-O2 -DNAME=\"x\"" ∧
    getVar (parseMakeConfVars (writeMakeConf mc sampleWorker)) "CFLAGS" = "-O2 -DNAME=" ∧
    (parseMakeConfVars (writeMakeConf mc sampleWorker))["USE"]? = none ∧
    ¬Survives mc (parseMakeConfVars (writeMakeConf mc sampleWorker)) := by
  obtain ⟨mc,hr,h⟩ := exists_of_readsTo chrootClient (fun mc =>
      mc.useExpand.keys.all validName && mc.useFlagsResolved &&
      mc.cflags == "-O2 -DNAME=\"x\"" &&
      getVar (parseFrom (fileChars mc sampleWorker) ∅) "CFLAGS" == "-O2 -DNAME=" &&
      (parseFrom (fileChars mc sampleWorker) ∅)["USE"]? == none)
    (by decide +kernel)
  simp only [Bool.and_eq_true,beq_iff_eq,List.all_eq_true] at h
  obtain ⟨⟨⟨⟨hexpand,hres⟩,hcflags⟩,hread⟩,huse⟩ := h
  rw [← parseMakeConfVars_written] at hread huse
  refine ⟨mc,hr,fun key hk => hexpand key (Std.TreeMap.mem_keys.mpr hk),hres,hcflags,hread,
    huse,fun hs => ?_⟩
  have hback := hs ("CFLAGS",mc.cflags) (by simp [expectedVars,submittedVars])
  rw [hread,hcflags] at hback
  exact absurd hback (by decide)

end Remerge.MakeConfTrip
