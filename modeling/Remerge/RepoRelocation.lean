import Remerge.ReposConf

/-!
# Moving a repository in repos.conf

The worker rewrites the lines that give a repository's old location. Reading the
rewritten file gives the repositories of the original one, moved: the rewriter
finds its lines the way the reader does, and no header is taken for one.
-/

set_option autoImplicit false

namespace Remerge.RepoRelocation
open RustText IniText AtomValidation ReposConf

variable (old new : String)

def givesLocation (line : String) : Bool :=
  match splitOnce '=' (trimList line.toList) with
  | some parts => eqIgnoreAsciiCase (String.ofList (trimList parts.1)) "location" &&
      String.ofList (trimList parts.2) == old
  | none => false

def rewriteLine (line : String) : String :=
  if givesLocation old line then "location = "++new else line

/-- The content that `rewrite_repo_location_inner` writes. -/
def rewriteRepoLocation (content : String) : String :=
  String.join (((lines content).map (rewriteLine old new)).map (·++"\n"))

def moved (location : String) : String := if location = old then new else location

def WorkerRepo.moved (repo : WorkerRepo) : WorkerRepo :=
  { repo with location := RepoRelocation.moved old new repo.location }

def WorkerScan.moved (s : WorkerScan) : WorkerScan :=
  { s with location := s.location.map (RepoRelocation.moved old new) }

def IniLine.moved : IniLine → IniLine
  | .setting key value =>
    if eqIgnoreAsciiCase key "location" && value == old then .setting "location" new
    else .setting key value
  | line => line

section

theorem trimList_dropCarriageReturn (cs : List Char) :
    trimList (dropCarriageReturn cs) = trimList cs := by
  unfold dropCarriageReturn
  split
  · next h =>
    obtain ⟨front,rfl⟩ : ∃ front, cs = front++['\r'] :=
      ⟨cs.dropLast,(List.dropLast_append_getLast? _ h).symm⟩
    have hr : isWhitespace '\r' := by decide
    rw [List.dropLast_concat]
    unfold trimList
    rw [List.dropWhile_append]
    split
    · next hnil => simp [List.isEmpty_iff.mp hnil,hr]
    · simp [hr]
  · rfl

theorem mem_trimList {c : Char} {cs : List Char} (hc : isWhitespace c = false) (h : c ∈ cs) :
    c ∈ trimList cs := by
  have kept : ∀ ds : List Char, c ∈ ds → c ∈ ds.dropWhile isWhitespace := by
    intro ds hd
    induction ds with
    | nil => exact hd
    | cons d ds ih =>
      rw [List.dropWhile_cons]
      split
      · next hs => exact ih (List.mem_of_ne_of_mem (fun e => by simp [e,hs] at hc) hd)
      · exact hd
  exact List.mem_reverse.mpr (kept _ (List.mem_reverse.mpr (kept _ h)))

variable {old new}

/-- A line that starts with a bracket has no key that is `location`. -/
theorem not_header_of_location {cs front back : List Char}
    (h : splitOnce '=' cs = some (front,back))
    (hk : eqIgnoreAsciiCase (String.ofList (trimList front)) "location" = true) :
    isHeader cs = false := by
  have hcs := splitOnce_some h
  rw [← Bool.not_eq_true]
  intro hh
  simp only [isHeader,Bool.and_eq_true,beq_iff_eq] at hh
  cases front with
  | nil => simp [hcs] at hh
  | cons c front =>
    have hc : c = '[' := by simpa [hcs] using hh.1
    subst hc
    have hm : '[' ∈ trimList ('['::front) := mem_trimList (by decide) (by simp)
    simp only [eqIgnoreAsciiCase,toAsciiLowercase,beq_iff_eq,String.toList_ofList] at hk
    have hl : Char.toLower '[' ∈
        (String.ofList ((trimList ('['::front)).map Char.toLower)).toList := by
      rw [String.toList_ofList]
      exact List.mem_map_of_mem hm
    rw [hk] at hl
    revert hl
    decide

theorem readLine_location (h : trim new = new) :
    readLine ("location = "++new) = .setting "location" new := by
  have hnew : trimList new.toList = new.toList := by
    conv => rhs; rw [← h,trim,String.toList_ofList]
  have hvalue : String.ofList (trimList (' '::new.toList)) = new := by
    have hs : trimList (' '::new.toList) = trimList new.toList := by
      simp [trimList,show isWhitespace ' ' = true from by decide]
    rw [hs,hnew,String.ofList_toList]
  have hsplit : ∀ back, splitOnce '=' ("location ".toList++ '='::back) =
      some ("location ".toList,back) := fun back => splitOnce_append back (by decide)
  unfold readLine
  by_cases he : new = ""
  · subst he
    decide
  · have hline : trimList ("location = "++new).toList =
        "location ".toList++ '='::(' '::new.toList) := by
      have hne : new.toList ≠ [] := by simpa using he
      rw [String.toList_append,trimList_of_ends]
      · rfl
      · intro c hc
        have hl : c = 'l' := by simpa using hc.symm
        subst hl
        decide
      · intro c hc
        rw [List.getLast?_append_of_ne_nil _ hne,← hnew] at hc
        exact getLast_trimList _ hc
    simp only [hline,hsplit,hvalue]
    rfl

theorem readLine_rewriteLine (h : trim new = new) (line : String) :
    readLine (rewriteLine old new line) = IniLine.moved old new (readLine line) := by
  unfold rewriteLine
  split
  · next hg =>
    rw [readLine_location h]
    unfold givesLocation at hg
    split at hg
    · next parts hp =>
      have hh := not_header_of_location hp (Bool.and_eq_true_iff.mp hg).1
      simp only [readLine,hh,hp,IniLine.moved,hg,if_true,Bool.false_eq_true,if_false]
    · cases hg
  · next hg =>
    unfold givesLocation at hg
    unfold readLine
    dsimp only
    split
    · rfl
    · cases hp : splitOnce '=' (trimList line.toList) with
      | none => rfl
      | some parts =>
        simp only [hp] at hg
        simp only [IniLine.moved,hg,Bool.false_eq_true,if_false]

end

theorem workerFlush_moved (s : WorkerScan) :
    workerFlush (WorkerScan.moved old new s) = (workerFlush s).map (WorkerRepo.moved old new) := by
  obtain ⟨name,location,syncUri⟩ := s
  cases location with
  | none => rfl
  | some location =>
    cases hn : isNamed name with
    | false => simp [workerFlush,WorkerScan.moved,hn]
    | true => simp [workerFlush,WorkerScan.moved,WorkerRepo.moved,hn]

theorem workerSetting_moved (s : WorkerScan) (key value : String)
    (h : ¬ (eqIgnoreAsciiCase key "location" && value == old)) :
    workerSetting (WorkerScan.moved old new s) key value =
      WorkerScan.moved old new (workerSetting s key value) := by
  unfold workerSetting
  split
  · next hk =>
    have hv : value ≠ old := by simpa [hk] using h
    simp [WorkerScan.moved,moved,hv]
  · split <;> rfl

theorem scanLines_moved {f : String → String}
    (hf : ∀ line, readLine (f line) = IniLine.moved old new (readLine line)) (ls : List String)
    (s : WorkerScan) (out : List WorkerRepo) :
    scanLines workerReader (WorkerScan.moved old new s) (out.map (WorkerRepo.moved old new))
        (ls.map f) =
      (scanLines workerReader s out ls).map (WorkerRepo.moved old new) := by
  induction ls generalizing s out with
  | nil =>
    change out.map _++workerFlush _ = (out++workerFlush s).map _
    rw [workerFlush_moved,List.map_append]
  | cons line rest ih =>
    rw [List.map_cons]
    unfold scanLines
    rw [hf line]
    cases hl : readLine line with
    | header text =>
      have hflush := workerFlush_moved old new s
      change scanLines workerReader _ (_++workerFlush _) _ = _
      rw [hflush,← List.map_append]
      exact ih (workerReader.start text) (out++workerFlush s)
    | setting key value =>
      by_cases hk : (eqIgnoreAsciiCase key "location" && value == old)
      · have hset : workerSetting (WorkerScan.moved old new s) "location" new =
            WorkerScan.moved old new (workerSetting s key value) := by
          have hloc : eqIgnoreAsciiCase "location" "location" = true := by decide
          obtain ⟨hkey,hvalue⟩ := Bool.and_eq_true_iff.mp hk
          simp [workerSetting,hloc,hkey,WorkerScan.moved,moved,beq_iff_eq.mp hvalue]
        rw [IniLine.moved,if_pos hk]
        refine Eq.trans ?_ (ih (workerSetting s key value) out)
        rw [← hset]
        rfl
      · rw [IniLine.moved,if_neg hk]
        change scanLines workerReader (workerSetting _ _ _) _ _ = _
        rw [workerSetting_moved old new s key value hk]
        exact ih _ out
    | other => exact ih s out

theorem relocation_exact (content old new : String) (hline : '\n' ∉ new.toList)
    (htrim : trim new = new) :
    workerRepos (rewriteRepoLocation old new content) =
      (workerRepos content).map (WorkerRepo.moved old new) := by
  have hwritten : ∀ l ∈ (lines content).map (rewriteLine old new), '\n' ∉ l.toList := by
    simp only [List.mem_map,forall_exists_index,and_imp,forall_apply_eq_imp_iff₂]
    intro l hl
    unfold rewriteLine
    split
    · simpa using hline
    · exact newline_not_mem_lines hl
  have hread : ∀ line,
      readLine (String.ofList (dropCarriageReturn (rewriteLine old new line).toList)) =
      IniLine.moved old new (readLine line) := by
    intro line
    rw [← readLine_rewriteLine htrim]
    unfold readLine
    rw [String.toList_ofList,trimList_dropCarriageReturn]
  unfold workerRepos readSections rewriteRepoLocation
  rw [lines_join _ hwritten,List.map_map]
  exact scanLines_moved old new hread (lines content) ⟨"",none,none⟩ []

/-- A section gives its location twice, once in capitals, on lines that end in
carriage returns. -/
theorem repeated_location_moved :
    workerRepos (rewriteRepoLocation "/b" "/c" "[x]\r\nlocation=/a\r\nLOCATION = /b\r\n") =
      [⟨"x","/c",none⟩] := by
  rw [relocation_exact _ _ _ (by decide) (by decide)]
  decide

end Remerge.RepoRelocation
