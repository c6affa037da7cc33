import Remerge.RustText

/-!
# The package.* files of a client and their copies in a worker

The client reads a file, or every visible file below a directory, line by line.
The worker writes all entries of one kind into a single file `remerge`.
-/

set_option autoImplicit false

namespace Remerge.PackageEntries
open RustText

variable {T : Type}

/-- What stands at `etc/portage/package.*`. The children of a directory are in
the order of their names, which the reader sorts by; a file that cannot be read
has no content. -/
inductive PackageFiles where
  | missing
  | file (content : Option String)
  | dir (children : List (String × PackageFiles))

structure PackageUseEntry where
  atom : String
  flags : List String
  deriving DecidableEq, Repr

structure PackageKeywordEntry where
  atom : String
  keywords : List String
  deriving DecidableEq, Repr

structure PackageLicenseEntry where
  atom : String
  licenses : List String
  deriving DecidableEq, Repr

structure PackageEnvEntry where
  atom : String
  envFile : String
  deriving DecidableEq, Repr

def isComment (line : String) : Bool := line == "" || startsWith line "#"

def parseLines (content : String) (parser : String → Option T) : List T :=
  (lines content).filterMap fun line =>
    if isComment (trim line) then none else parser (trim line)

mutual

def readPackageEntries (parser : String → Option T) : PackageFiles → List T
  | .missing => []
  | .file content => parseLines (content.getD "") parser
  | .dir children => readChildren parser children

def readChildren (parser : String → Option T) : List (String × PackageFiles) → List T
  | [] => []
  | (name,child)::rest =>
    if startsWith name "." then readChildren parser rest
    else readPackageEntries parser child++readChildren parser rest

end

def listedLine (entry : String → List String → T) (line : String) : Option T :=
  match splitWhitespace line with
  | atom::word::words => some (entry atom (word::words))
  | _ => none

def packageUseLine : String → Option PackageUseEntry := listedLine PackageUseEntry.mk

def readPackageUse : PackageFiles → List PackageUseEntry := readPackageEntries packageUseLine

def emptyAcceptKeywordsDefaults (globalAcceptKeywords : String) : List String :=
  ((splitWhitespace globalAcceptKeywords).filter fun keyword =>
    keyword ≠ "" && !startsWith keyword "~" && !startsWith keyword "-").map ("~"++·)

def packageKeywordLine (defaults : List String) (line : String) : Option PackageKeywordEntry :=
  match splitWhitespace line with
  | [] => none
  | [atom] => some ⟨atom,defaults⟩
  | atom::keywords => some ⟨atom,keywords⟩

def readPackageAcceptKeywords (globalAcceptKeywords : String) :
    PackageFiles → List PackageKeywordEntry :=
  readPackageEntries (packageKeywordLine (emptyAcceptKeywordsDefaults globalAcceptKeywords))

def packageLicenseLine : String → Option PackageLicenseEntry :=
  listedLine PackageLicenseEntry.mk

def readPackageLicense : PackageFiles → List PackageLicenseEntry :=
  readPackageEntries packageLicenseLine

def packageAtomLine (line : String) : Option String :=
  (splitWhitespace line).head?.filter (· ≠ "")

def readPackageAtoms : PackageFiles → List String := readPackageEntries packageAtomLine

def readPackageMask : PackageFiles → List String := readPackageAtoms

def readPackageUnmask : PackageFiles → List String := readPackageAtoms

def packageEnvLine (line : String) : Option PackageEnvEntry :=
  match splitWhitespace line with
  | atom::envFile::_ => some ⟨atom,envFile⟩
  | _ => none

def readPackageEnv : PackageFiles → List PackageEnvEntry := readPackageEntries packageEnvLine

def remergeFile {T : Type} (entries : List T) (content : List String) : PackageFiles :=
  if entries.isEmpty then .missing
  else .dir [("remerge",.file (some (String.join (content.map (·++"\n")))))]

def writePackageUse (entries : List PackageUseEntry) : PackageFiles :=
  remergeFile entries (entries.map fun e => e.atom++" "++joinWords e.flags)

def writePackageAcceptKeywords (entries : List PackageKeywordEntry) : PackageFiles :=
  remergeFile entries (entries.map fun e => e.atom++" "++joinWords e.keywords)

def writePackageLicense (entries : List PackageLicenseEntry) : PackageFiles :=
  remergeFile entries (entries.map fun e => e.atom++" "++joinWords e.licenses)

def writePackageMask (entries : List String) : PackageFiles := remergeFile entries entries

def writePackageUnmask (entries : List String) : PackageFiles := remergeFile entries entries

def validEnvFile (envFile : String) : Bool :=
  trim envFile ≠ "" && !envFile.toList.contains '/' && !containsText envFile ".."

def writePackageEnv (entries : List PackageEnvEntry) : PackageFiles :=
  remergeFile entries
    ((entries.filter fun e => validEnvFile e.envFile).map fun e => e.atom++" "++e.envFile)

/-- A parsed line: its words, the first of which does not open a comment. -/
def Parsed (parser : String → Option T) (e : T) : Prop :=
  ∃ line, isComment line = false ∧ trim line = line ∧ parser line = some e

theorem parsed_of_mem_parseLines {parser : String → Option T} {e : T} {content : String}
    (h : e ∈ parseLines content parser) : Parsed parser e := by
  obtain ⟨line,-,hline⟩ := List.mem_filterMap.mp h
  split at hline
  · cases hline
  · next hc =>
    exact ⟨trim line,by simpa using hc,by simp [trim],hline⟩

mutual

theorem parsed_of_mem {parser : String → Option T} {e : T} (files : PackageFiles)
    (h : e ∈ readPackageEntries parser files) : Parsed parser e := by
  cases files with
  | missing => simp [readPackageEntries] at h
  | file content =>
    rw [readPackageEntries] at h
    exact parsed_of_mem_parseLines h
  | dir children =>
    rw [readPackageEntries] at h
    exact parsed_of_mem_children children h

theorem parsed_of_mem_children {parser : String → Option T} {e : T}
    (children : List (String × PackageFiles)) (h : e ∈ readChildren parser children) :
    Parsed parser e := by
  cases children with
  | nil => simp [readChildren] at h
  | cons child rest =>
    obtain ⟨name,child⟩ := child
    rw [readChildren] at h
    split at h
    · exact parsed_of_mem_children rest h
    · rcases List.mem_append.mp h with h | h
      · exact parsed_of_mem child h
      · exact parsed_of_mem_children rest h

end

structure LineWords (ws : List String) : Prop where
  isWord : ∀ w ∈ ws, IsWord w.toList
  noComment : ∀ w, ws.head? = some w → startsWith w "#" = false

theorem startsWith_hash (s : String) : startsWith s "#" = true ↔ s.toList.head? = some '#' := by
  cases h : s.toList with
  | nil => simp [startsWith,h]
  | cons c cs =>
    have hc : ('#' = c) ↔ (c = '#') := eq_comm
    simp [startsWith,h,hc]

theorem isComment_eq_false {line : String} :
    isComment line = false ↔ ∃ c cs, line.toList = c::cs ∧ c ≠ '#' := by
  rw [isComment,Bool.or_eq_false_iff,← Bool.not_eq_true (startsWith _ _),startsWith_hash]
  cases h : line.toList with
  | nil =>
    have hempty : line = "" := String.toList_eq_nil_iff.mp h
    simp [hempty]
  | cons c cs =>
    have hne : line ≠ "" := by
      rintro rfl
      simp at h
    simp [hne]

theorem lineWords_of_line {line : String} (hc : isComment line = false) (ht : trim line = line) :
    LineWords (splitWhitespace line) := by
  obtain ⟨c,cs,hline,hne⟩ := isComment_eq_false.mp hc
  have hspace : isWhitespace c = false := by
    refine head_trimList line.toList ?_
    rw [trim] at ht
    rw [← String.toList_ofList (l := trimList line.toList),ht,hline]
    rfl
  refine ⟨fun w hw => isWord_of_mem_splitWhitespace hw,fun w hw => ?_⟩
  obtain ⟨first,others,hwords⟩ := words_cons hspace cs
  rw [splitWhitespace_eq,hline,hwords,List.map_cons,List.head?_cons,Option.some.injEq] at hw
  rw [← Bool.not_eq_true,startsWith_hash,← hw]
  simpa using hne

structure ReadsAs (parser : String → Option T) (line : String) (e : T) : Prop where
  noNewline : '\n' ∉ line.toList
  noReturn : line.toList.getLast? ≠ some '\r'
  trimmed : trim line = line
  noComment : isComment line = false
  parsed : parser line = some e

theorem readsAs_joinWords {parser : String → Option T} {ws : List String} {e : T}
    (h : LineWords ws) (hne : ws ≠ []) (hp : parser (joinWords ws) = some e) :
    ReadsAs parser (joinWords ws) e := by
  have hws : ∀ w ∈ ws.map String.toList, IsWord w := by simpa using h.isWord
  constructor
  · rw [toList_joinWords]
    intro hmem
    rcases mem_intercalate hmem with hc | ⟨w,hw,hc⟩
    · exact absurd hc (by decide)
    · exact absurd ((hws w hw).2 _ hc) (by decide)
  · rw [toList_joinWords]
    intro hlast
    exact absurd (getLast_intercalate hws hlast) (by decide)
  · exact trim_joinWords ws h.isWord
  · rw [isComment_eq_false]
    cases ws with
    | nil => exact absurd rfl hne
    | cons w ws =>
      have hw := h.isWord w (by simp)
      have hhead := head_intercalate hw.1 (ws.map String.toList)
      have hfirst := h.noComment w rfl
      rw [← Bool.not_eq_true,startsWith_hash] at hfirst
      rw [toList_joinWords,List.map_cons]
      cases htext : [' '].intercalate (w.toList::ws.map String.toList) with
      | nil =>
        rw [htext] at hhead
        exact absurd (List.head?_eq_none_iff.mp hhead.symm) hw.1
      | cons c cs =>
        rw [htext,List.head?_cons] at hhead
        refine ⟨c,cs,rfl,fun hc => hfirst ?_⟩
        rw [← hhead,hc]
  · exact hp

theorem filterMap_eq_self {f : T → Option T} {es : List T} (h : ∀ e ∈ es, f e = some e) :
    es.filterMap f = es := by
  induction es with
  | nil => rfl
  | cons e es ih =>
    rw [List.filterMap_cons,h e (by simp)]
    simp [ih fun v hv => h v (by simp [hv])]

theorem read_remergeFile (parser : String → Option T) (entries : List T) (render : T → String)
    (h : ∀ e ∈ entries, ReadsAs parser (render e) e) :
    readPackageEntries parser (remergeFile entries (entries.map render)) = entries := by
  unfold remergeFile
  split
  · next hempty => simp [List.isEmpty_iff.mp hempty,readPackageEntries]
  · have hlines : lines (String.join ((entries.map render).map (·++"\n"))) =
        entries.map render := by
      refine lines_join_ended _ fun l hl => ?_
      obtain ⟨e,he,rfl⟩ := List.mem_map.mp hl
      exact ⟨(h e he).noNewline,(h e he).noReturn⟩
    have hparse : (entries.map render).filterMap (fun line =>
        if isComment (trim line) then none else parser (trim line)) = entries := by
      rw [List.filterMap_map]
      refine filterMap_eq_self fun e he => ?_
      simp [(h e he).trimmed,(h e he).noComment,(h e he).parsed]
    simp only [readPackageEntries,readChildren,Option.getD_some,parseLines,hlines,hparse]
    simp [startsWith]

theorem readsAs_listed {entry : String → List String → T} {e : T}
    (h : Parsed (listedLine entry) e) : ∃ atom words,
      e = entry atom words ∧ ReadsAs (listedLine entry) (atom++" "++joinWords words) e := by
  obtain ⟨line,hc,ht,hp⟩ := h
  have hws := lineWords_of_line hc ht
  unfold listedLine at hp
  split at hp
  · next atom word words hline =>
    rw [hline] at hws
    refine ⟨atom,word::words,(Option.some.inj hp).symm,?_⟩
    rw [← joinWords_cons (by simp)]
    refine readsAs_joinWords hws (by simp) ?_
    rw [listedLine,splitWhitespace_joinWords _ hws.isWord]
    exact hp
  · cases hp

theorem readsAs_packageUse {e : PackageUseEntry} (h : Parsed packageUseLine e) :
    ReadsAs packageUseLine (e.atom++" "++joinWords e.flags) e := by
  obtain ⟨atom,words,rfl,hreads⟩ := readsAs_listed h
  exact hreads

theorem readsAs_packageLicense {e : PackageLicenseEntry} (h : Parsed packageLicenseLine e) :
    ReadsAs packageLicenseLine (e.atom++" "++joinWords e.licenses) e := by
  obtain ⟨atom,words,rfl,hreads⟩ := readsAs_listed h
  exact hreads

theorem isWord_default {accept keyword : String}
    (h : keyword ∈ emptyAcceptKeywordsDefaults accept) : IsWord keyword.toList := by
  obtain ⟨word,hword,rfl⟩ := List.mem_map.mp h
  have hw := isWord_of_mem_splitWhitespace (List.mem_filter.mp hword).1
  constructor
  · simp
  · intro c hc
    rcases List.mem_cons.mp (by simpa using hc) with rfl | hc
    · decide
    · exact hw.2 c hc

theorem readsAs_packageKeyword {accept : String} {defaults : List String}
    {e : PackageKeywordEntry}
    (h : Parsed (packageKeywordLine (emptyAcceptKeywordsDefaults accept)) e)
    (hne : e.keywords ≠ []) :
    ReadsAs (packageKeywordLine defaults) (e.atom++" "++joinWords e.keywords) e := by
  obtain ⟨line,hc,ht,hp⟩ := h
  have hws := lineWords_of_line hc ht
  have hwords : LineWords (e.atom::e.keywords) := by
    unfold packageKeywordLine at hp
    split at hp
    · cases hp
    · next atom hline =>
      cases hp
      rw [hline] at hws
      refine ⟨fun w hw => ?_,fun w hw => hws.noComment w hw⟩
      rcases List.mem_cons.mp hw with rfl | hw
      · exact hws.isWord w (by simp)
      · exact isWord_default hw
    · next atom keywords _ hline =>
      cases hp
      rwa [hline] at hws
  rw [← joinWords_cons hne]
  refine readsAs_joinWords hwords (by simp) ?_
  rw [packageKeywordLine,splitWhitespace_joinWords _ hwords.isWord]
  cases hk : e.keywords with
  | nil => exact absurd hk hne
  | cons k ks => simp [← hk]

theorem readsAs_packageAtom {atom : String} (h : Parsed packageAtomLine atom) :
    ReadsAs packageAtomLine atom atom := by
  obtain ⟨line,hc,ht,hp⟩ := h
  have hws := lineWords_of_line hc ht
  obtain ⟨hhead,hne⟩ := Option.filter_eq_some_iff.mp hp
  have hword : LineWords [atom] := by
    refine ⟨fun w hw => ?_,fun w hw => hws.noComment w (hhead.trans hw)⟩
    rw [List.mem_singleton.mp hw]
    exact hws.isWord atom (List.mem_of_head? hhead)
  have hparse : packageAtomLine (joinWords [atom]) = some atom := by
    rw [packageAtomLine,splitWhitespace_joinWords _ hword.isWord,List.head?_cons]
    exact Option.filter_eq_some_iff.mpr ⟨rfl,hne⟩
  simpa [joinWords] using readsAs_joinWords hword (by simp) hparse

theorem readsAs_packageEnv {e : PackageEnvEntry} (h : Parsed packageEnvLine e) :
    ReadsAs packageEnvLine (e.atom++" "++e.envFile) e := by
  obtain ⟨line,hc,ht,hp⟩ := h
  have hws := lineWords_of_line hc ht
  unfold packageEnvLine at hp
  split at hp
  · next atom envFile others hline =>
    cases hp
    rw [hline] at hws
    have hwords : LineWords [atom,envFile] := by
      refine ⟨fun w hw => hws.isWord w ?_,fun w hw => hws.noComment w hw⟩
      exact List.mem_append_left others hw
    have hparse : packageEnvLine (joinWords [atom,envFile]) = some ⟨atom,envFile⟩ := by
      rw [packageEnvLine,splitWhitespace_joinWords _ hwords.isWord]
    simpa [joinWords] using readsAs_joinWords hwords (by simp) hparse
  · cases hp

theorem validEnvFile_of_parsed {e : PackageEnvEntry} (h : Parsed packageEnvLine e)
    (hslash : '/' ∉ e.envFile.toList) (hdots : containsText e.envFile ".." = false) :
    validEnvFile e.envFile := by
  obtain ⟨line,-,-,hp⟩ := h
  unfold packageEnvLine at hp
  split at hp
  · next atom envFile others hline =>
    cases hp
    have hword : IsWord envFile.toList :=
      isWord_of_mem_splitWhitespace (s := line) (by simp [hline])
    have htrim : trim envFile = envFile := by
      simpa [joinWords] using trim_joinWords [envFile] (by simpa using hword)
    have hne : envFile ≠ "" := by
      rintro rfl
      exact hword.1 rfl
    simp [validEnvFile,htrim,hne,hslash,hdots]
  · cases hp

/-- What the worker writes of the client's package.* files is what the client
reads from them again, whatever its own ACCEPT_KEYWORDS is then. -/
theorem package_files_round_trip (use keywords license mask unmask env : PackageFiles)
    (accept accept' : String)
    (hkeywords : ∀ e ∈ readPackageAcceptKeywords accept keywords, e.keywords ≠ [])
    (henv : ∀ e ∈ readPackageEnv env,
      '/' ∉ e.envFile.toList ∧ containsText e.envFile ".." = false) :
    readPackageUse (writePackageUse (readPackageUse use)) = readPackageUse use ∧
      readPackageAcceptKeywords accept'
        (writePackageAcceptKeywords (readPackageAcceptKeywords accept keywords)) =
          readPackageAcceptKeywords accept keywords ∧
      readPackageLicense (writePackageLicense (readPackageLicense license)) =
        readPackageLicense license ∧
      readPackageMask (writePackageMask (readPackageMask mask)) = readPackageMask mask ∧
      readPackageUnmask (writePackageUnmask (readPackageUnmask unmask)) =
        readPackageUnmask unmask ∧
      readPackageEnv (writePackageEnv (readPackageEnv env)) = readPackageEnv env := by
  have hatoms : ∀ files, readPackageAtoms (remergeFile (readPackageAtoms files)
      (readPackageAtoms files)) = readPackageAtoms files := by
    intro files
    have hread := read_remergeFile packageAtomLine (readPackageAtoms files) id
      fun e he => readsAs_packageAtom (parsed_of_mem files he)
    rwa [List.map_id] at hread
  have hvalid : (readPackageEnv env).filter (fun e => validEnvFile e.envFile) =
      readPackageEnv env :=
    List.filter_eq_self.mpr fun e he =>
      validEnvFile_of_parsed (parsed_of_mem env he) (henv e he).1 (henv e he).2
  refine ⟨?_,?_,?_,hatoms mask,hatoms unmask,?_⟩
  · exact read_remergeFile _ _ _ fun e he => readsAs_packageUse (parsed_of_mem use he)
  · exact read_remergeFile _ _ _ fun e he =>
      readsAs_packageKeyword (parsed_of_mem keywords he) (hkeywords e he)
  · exact read_remergeFile _ _ _ fun e he => readsAs_packageLicense (parsed_of_mem license he)
  · rw [writePackageEnv,hvalid]
    exact read_remergeFile _ _ _ fun e he => readsAs_packageEnv (parsed_of_mem env he)

def sampleUse : PackageFiles := .dir [(".bak",.file (some "a/b c")),
  ("local",.file (some "# flags\r\n x/y\t-z  w\r\nx/v\n"))]

def sampleKeywords : PackageFiles := .file (some "x/y\nx/v ~arm64 # why")

def sampleEnv : PackageFiles := .file (some "x/y no-lto.conf\n")

/-- The sample has a hidden file, a line without flags, an atom that takes the
default keywords and a comment behind keywords. -/
theorem sample_files_round_trip :
    readPackageUse sampleUse = [⟨"x/y",["-z","w"]⟩] ∧
      readPackageUse (writePackageUse [⟨"x/y",["-z","w"]⟩]) = [⟨"x/y",["-z","w"]⟩] ∧
      readPackageAcceptKeywords "amd64 -x86" sampleKeywords =
        [⟨"x/y",["~amd64"]⟩,⟨"x/v",["~arm64","#","why"]⟩] ∧
      readPackageAcceptKeywords "" (writePackageAcceptKeywords
        [⟨"x/y",["~amd64"]⟩,⟨"x/v",["~arm64","#","why"]⟩]) =
          [⟨"x/y",["~amd64"]⟩,⟨"x/v",["~arm64","#","why"]⟩] := by
  have huse : readPackageUse sampleUse = [⟨"x/y",["-z","w"]⟩] := by decide
  have hkeywords : readPackageAcceptKeywords "amd64 -x86" sampleKeywords =
      [⟨"x/y",["~amd64"]⟩,⟨"x/v",["~arm64","#","why"]⟩] := by decide
  have henv : readPackageEnv sampleEnv = [⟨"x/y","no-lto.conf"⟩] := by decide
  have h := package_files_round_trip sampleUse sampleKeywords .missing .missing .missing sampleEnv
    "amd64 -x86" "" (by simp [hkeywords]) (by
      rw [henv]
      decide)
  rw [huse,hkeywords] at h
  exact ⟨huse,h.1,hkeywords,h.2.1⟩

end Remerge.PackageEntries
