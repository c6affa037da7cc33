import Remerge.ServerTasks

/-!
# Events in the worker's output

The log task reads the worker's terminal in chunks, keeps at most 64 KiB of
them, and looks at each complete line. A line announces a package, reports one
as built or failed, or says nothing. What a line reports does not depend on the
clock; only the duration of a build does.
-/

set_option autoImplicit false

namespace Remerge.WorkerOutput
open StepProgram SnapshotTypes SnapshotCleanup ServerState ServerOps ServerTasks

def takeLine : Bytes → Option (Bytes × Bytes)
  | [] => none
  | b::bs => if b = 10 then some ([],bs) else (takeLine bs).map fun parts => (b::parts.1,parts.2)

def splitLines : Bytes → List Bytes × Bytes
  | [] => ([],[])
  | b::bs =>
    if b = 10 then ([]::(splitLines bs).1,(splitLines bs).2)
    else match (splitLines bs).1 with
      | [] => ([],b::(splitLines bs).2)
      | line::lines => ((b::line)::lines,(splitLines bs).2)

variable {buf line rest : Bytes}

theorem takeLine_length (h : takeLine buf = some (line,rest)) : rest.length < buf.length := by
  induction buf generalizing line with
  | nil => cases h
  | cons b bs ih =>
    unfold takeLine at h
    by_cases hb : b = 10
    · rw [if_pos hb] at h
      cases h
      simp
    · rw [if_neg hb] at h
      obtain ⟨⟨line',rest'⟩,hs,he⟩ := Option.map_eq_some_iff.mp h
      cases he
      exact Nat.lt_succ_of_lt (ih hs)

theorem splitLines_none (h : takeLine buf = none) : splitLines buf = ([],buf) := by
  induction buf with
  | nil => rfl
  | cons b bs ih =>
    unfold takeLine at h
    by_cases hb : b = 10
    · rw [if_pos hb] at h
      cases h
    · rw [if_neg hb,Option.map_eq_none_iff] at h
      rw [splitLines,if_neg hb,ih h]

theorem splitLines_some (h : takeLine buf = some (line,rest)) :
    splitLines buf = (line::(splitLines rest).1,(splitLines rest).2) := by
  induction buf generalizing line with
  | nil => cases h
  | cons b bs ih =>
    unfold takeLine at h
    by_cases hb : b = 10
    · rw [if_pos hb] at h
      cases h
      rw [splitLines,if_pos hb]
    · rw [if_neg hb] at h
      obtain ⟨⟨line',rest'⟩,hs,he⟩ := Option.map_eq_some_iff.mp h
      cases he
      rw [splitLines,if_neg hb,ih hs]

/-- Lines do not depend on how the output is cut into chunks. -/
theorem splitLines_append (front back : Bytes) :
    splitLines (front++back) =
      ((splitLines front).1++(splitLines ((splitLines front).2++back)).1,
        (splitLines ((splitLines front).2++back)).2) := by
  induction front with
  | nil => rfl
  | cons b bs ih =>
    by_cases hb : b = 10
    · simp [splitLines,hb,ih]
    · cases hl : (splitLines bs).1 with
      | nil | cons line lines => simp [splitLines,hb,ih,hl]

section

/-- What the log task takes from libraries: lossy decoding, the JSON reader for
events, and the regular expressions with their first capture group. -/
structure LineReaders where
  fromUtf8Lossy : Bytes → String
  workerEvent : String → Option WorkerEvent
  emerging : String → Option String
  completed : String → Option String
  error : String → Option String
  missingDep : String → Option String
  useConflict : String → Bool
  fetchFail : String → Bool

variable (readers : LineReaders)

def trimReturns (line : String) : String :=
  String.ofList (line.toList.reverse.dropWhile (· == '\r')).reverse

def eventText (line : String) : Option String :=
  ("REMERGE_EVENT:".toList.isPrefixOf? line.toList).map String.ofList

def lineText (bytes : Bytes) : String := trimReturns (readers.fromUtf8Lossy bytes)

abbrev Current : Type := Option (String × Time)

def elapsedSecs (start now : Time) : ℕ := ((now-start)/1000000000).toNat

def buildDuration (current : Current) (atom : String) (now : Time) : ℕ :=
  ((current.filter fun c => c.1 == atom).map fun c => elapsedSecs c.2 now).getD 0

def currentAtom (current : Current) : String := (current.map Prod.fst).getD "unknown"

def parseLine (now : Time) (current : Current) (line : String) : Current × Option WorkerEvent :=
  match (eventText line).bind readers.workerEvent with
  | some event => (current,some event)
  | none =>
    match readers.emerging line with
    | some atom => (some (atom,now),none)
    | none =>
      match readers.completed line with
      | some atom => (none,some (.packageBuilt atom (buildDuration current atom now)))
      | none =>
        match readers.error line with
        | some atom => (current,some (.packageFailed atom line))
        | none =>
          match readers.missingDep line with
          | some dep =>
            (current,some (.packageFailed dep s!"Missing dependency: {line}"))
          | none =>
            if readers.useConflict line then
              (current,some (.packageFailed (currentAtom current) s!"USE flag conflict: {line}"))
            else if readers.fetchFail line then
              (current,some (.packageFailed (currentAtom current) s!"Fetch failure: {line}"))
            else (current,none)

end

inductive Report where
  | built (atom : String)
  | failed (package : FailedPackage)
  deriving DecidableEq, Repr

def reportOf : WorkerEvent → Report
  | .packageBuilt atom _ => .built atom
  | .packageFailed atom reason => .failed ⟨atom,reason,none⟩

def tally : List Report → List String × List FailedPackage
  | [] => ([],[])
  | .built atom::rest => (atom::(tally rest).1,(tally rest).2)
  | .failed package::rest => ((tally rest).1,package::(tally rest).2)

theorem tally_append (reports reports' : List Report) :
    tally (reports++reports') =
      ((tally reports).1++(tally reports').1,(tally reports).2++(tally reports').2) := by
  induction reports with
  | nil => rfl
  | cons r rest ih => cases r <;> simp [tally,ih]

theorem tally_length (reports : List Report) :
    (tally reports).1.length+(tally reports).2.length = reports.length := by
  induction reports with
  | nil => rfl
  | cons r rest ih =>
    cases r <;> simp only [tally,List.length_cons] <;> omega

theorem tally_nil {reports : List Report} (h : tally reports = ([],[])) : reports = [] := by
  cases reports with
  | nil => rfl
  | cons r rest => cases r <;> simp [tally] at h

variable (readers : LineReaders)

def lineReports : Current → List Bytes → List Report × Current
  | current, [] => ([],current)
  | current, line::lines =>
    (((parseLine readers 0 current (lineText readers line)).2.map reportOf).toList++
        (lineReports (parseLine readers 0 current (lineText readers line)).1 lines).1,
      (lineReports (parseLine readers 0 current (lineText readers line)).1 lines).2)

def SameCurrent (current current' : Current) : Prop :=
  current.map Prod.fst = current'.map Prod.fst

variable {current current' : Current}

theorem parseLine_same (now now' : Time) (h : SameCurrent current current') (line : String) :
    SameCurrent (parseLine readers now current line).1 (parseLine readers now' current' line).1 ∧
      (parseLine readers now current line).2.map reportOf =
        (parseLine readers now' current' line).2.map reportOf := by
  have hatom : currentAtom current = currentAtom current' := by
    unfold currentAtom
    rw [h]
  unfold parseLine
  rw [hatom]
  split
  · exact ⟨h,rfl⟩
  split
  · exact ⟨rfl,rfl⟩
  split
  · exact ⟨rfl,rfl⟩
  split
  · exact ⟨h,rfl⟩
  split
  · exact ⟨h,rfl⟩
  split
  · exact ⟨h,rfl⟩
  split
  · exact ⟨h,rfl⟩
  · exact ⟨h,rfl⟩

theorem lineReports_same (h : SameCurrent current current') (lines : List Bytes) :
    (lineReports readers current lines).1 = (lineReports readers current' lines).1 ∧
      SameCurrent (lineReports readers current lines).2 (lineReports readers current' lines).2 := by
  induction lines generalizing current current' with
  | nil => exact ⟨rfl,h⟩
  | cons line lines ih =>
    obtain ⟨hcur,hrep⟩ := parseLine_same readers 0 0 h (lineText readers line)
    obtain ⟨hlater,hend⟩ := ih hcur
    rw [lineReports,lineReports,hrep,hlater]
    exact ⟨rfl,hend⟩

variable {readers}

theorem lineReports_append (current : Current) (lines lines' : List Bytes) :
    lineReports readers current (lines++lines') =
      ((lineReports readers current lines).1++
        (lineReports readers (lineReports readers current lines).2 lines').1,
        (lineReports readers (lineReports readers current lines).2 lines').2) := by
  induction lines generalizing current with
  | nil => rfl
  | cons line lines ih => simp [lineReports,ih]

variable (readers)

def maxLineBuf : ℕ := 64*1024

/-- The front of a buffer that has grown too long is dropped. -/
def capped (buf : Bytes) : Bytes := buf.drop (buf.length-maxLineBuf)

def reportsFrom : Bytes → Current → List Bytes → List Report
  | _, _, [] => []
  | buf, current, chunk::chunks =>
    (lineReports readers current (splitLines (capped (buf++chunk))).1).1++
      reportsFrom (splitLines (capped (buf++chunk))).2
        (lineReports readers current (splitLines (capped (buf++chunk))).1).2 chunks

def deliveredReports (chunks : List Bytes) : List Report := reportsFrom readers [] none chunks

def printedReports (chunks : List Bytes) : List Report :=
  (lineReports readers none (splitLines chunks.flatten).1).1

variable {readers}

theorem reportsFrom_same (h : SameCurrent current current') (buf : Bytes) (chunks : List Bytes) :
    reportsFrom readers buf current chunks = reportsFrom readers buf current' chunks := by
  induction chunks generalizing buf current current' with
  | nil => rfl
  | cons chunk chunks ih =>
    obtain ⟨hrep,hcur⟩ := lineReports_same readers h (splitLines (capped (buf++chunk))).1
    simp only [reportsFrom,hrep,ih hcur]

end Remerge.WorkerOutput
