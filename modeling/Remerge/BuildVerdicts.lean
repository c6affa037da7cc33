import Remerge.EventRelay

/-!
# Built and failed packages

What the processor reports is what the first lines of the output report, as many
as the channel takes. A line about a failed download or a USE conflict names no
package; it is held against the package that was announced last and has not
completed since. Where several jobs run at once that package may complete
nevertheless, and is then reported as built and as failed.
-/

set_option autoImplicit false

namespace Remerge.BuildVerdicts
open SnapshotTypes ServerState WorkerOutput LineDetection EventRelay

section
variable {readers : LineReaders} {s s' : Relay} {chunks : List Bytes}

/-- A log task that was aborted had filled the channel from the start of the output. -/
def CutOff (readers : LineReaders) (chunks : List Bytes) (s : Relay) : Prop :=
  s.log = .aborted → ∃ done rest, tally done = s.processor.lists ∧
    done++s.channel.map reportOf++rest = deliveredReports readers chunks ∧
    done.length+s.channel.length = channelCapacity

theorem cutOff_moved (shape : Shape s) (acc : Accounted readers chunks s)
    (h : CutOff readers chunks s) (hm : Moved readers s s') : CutOff readers chunks s' := by
  intro ha
  cases hm with
  | print hp => exact h ha
  | exit hp he => exact h ha
  | read hl hs | close hl hs he | refill hl ht | send hl hc => cases ha
  | @parse now buf line rest current hl ht =>
    dsimp only at ha
    exact absurd ha
      (afterLine_ne_aborted rest (parseLine readers now current (lineText readers line)))
  | wait hp he =>
    obtain ⟨done,rest,hdone,hsum⟩ := h ha
    rw [hp] at hdone
    exact ⟨done,rest,hdone,hsum⟩
  | join hp hl =>
    have hn : s.log = .aborted := ha
    rw [hl] at hn
    cases hn
  | abort hp hl hc =>
    rcases acc with hn | ⟨done,hdone,hsum⟩
    · rw [hl] at hn
      cases hn
    · rw [hp] at hdone
      cases tally_nil hdone
      have hb := shape.bounded
      refine ⟨[],_,rfl,hsum,?_⟩
      simp only [List.length_nil]
      omega
  | @take built failed event rest hp hc =>
    obtain ⟨done,later,hdone,hsum,hlen⟩ := h ha
    rw [hp] at hdone
    rw [hc] at hsum hlen
    refine ⟨done++[reportOf event],later,tally_collect event hdone,?_,?_⟩
    · simpa using hsum
    · simpa [Nat.add_right_comm,Nat.add_assoc] using hlen
  | finish hp hc =>
    obtain ⟨done,later,hdone,hsum⟩ := h ha
    rw [hp] at hdone
    exact ⟨done,later,hdone,hsum⟩

theorem cutOff_run (run : Run readers (start chunks) s) : CutOff readers chunks s := by
  have hall := run_keeps
    (P := fun s => (Shape s ∧ Accounted readers chunks s) ∧ CutOff readers chunks s)
    (fun _ _ h hm => ⟨⟨shape_moved h.1.1 hm,accounted_moved h.1.1 h.1.2 hm⟩,
      cutOff_moved h.1.1 h.1.2 h.2 hm⟩) run
    ⟨⟨shape_start chunks,accounted_start chunks⟩,fun h => by cases h⟩
  exact hall.2

theorem drained_reports {built : List String} {failed : List FailedPackage}
    (run : Run readers (start chunks) s) (hp : s.processor = .drained built failed) :
    (built,failed) = tally ((deliveredReports readers chunks).take channelCapacity) := by
  have hshape := (reached run).1
  have hempty := hshape.emptied built failed hp
  by_cases hfew : (deliveredReports readers chunks).length ≤ channelCapacity
  · rw [List.take_of_length_le hfew]
    exact drained_lists run hfew hp
  · rcases hshape.closing (by rw [hp]; rfl) with he | ha
    · -- A log task that came to its end has sent everything.
      rcases (reached run).2 with ha | ⟨done,hdone,hsum⟩
      · rw [he] at ha
        cases ha
      · have hall : done = deliveredReports readers chunks := by
          simpa [ahead,he,hempty] using hsum
        have hb := collected_le run
        have hlen := tally_length done
        rw [hdone] at hlen
        unfold Processor.collected at hb
        rw [hlen,hall] at hb
        exact absurd hb hfew
    · obtain ⟨done,rest,hdone,hsum,hlen⟩ := cutOff_run run ha
      rw [hempty] at hsum hlen
      have hfirst : (deliveredReports readers chunks).take channelCapacity = done := by
        rw [← hsum,← hlen]
        simp
      rw [hfirst,hdone,hp]
      rfl

end

section

/-- The lines emerge prints about its packages, and all others. -/
inductive LogLine where
  | emerging (atom : String)
  | completed (atom : String)
  | error (atom : String)
  | useConflict
  | fetchFailure
  | other
  deriving DecidableEq, Repr

variable (readers : LineReaders)

/-- Lines with a structured event of the worker and those about a missing
dependency are of another kind. -/
def logLine (line : String) : Option LogLine :=
  match (eventText line).bind readers.workerEvent with
  | some _ => none
  | none =>
    match readers.emerging line with
    | some atom => some (.emerging atom)
    | none =>
      match readers.completed line with
      | some atom => some (.completed atom)
      | none =>
        match readers.error line with
        | some atom => some (.error atom)
        | none =>
          match readers.missingDep line with
          | some _ => none
          | none =>
            if readers.useConflict line then some .useConflict
            else if readers.fetchFail line then some .fetchFailure
            else some .other

def Shows (chunks : List Bytes) (lines : List LogLine) : Prop :=
  (linesFrom [] chunks).map (fun line => logLine readers (lineText readers line)) = lines.map some

instance (chunks : List Bytes) (lines : List LogLine) : Decidable (Shows readers chunks lines) :=
  inferInstanceAs (Decidable (_ = _))

inductive Verdict where
  | built (atom : String)
  | failed (atom : String)
  deriving DecidableEq, Repr

def LogLine.blames : LogLine → Bool
  | .useConflict | .fetchFailure => true
  | _ => false

def LogLine.announces (current : Option String) : LogLine → Option String
  | .emerging atom => some atom
  | .completed _ => none
  | _ => current

def LogLine.verdict (current : Option String) : LogLine → Option Verdict
  | .completed atom => some (.built atom)
  | .error atom => some (.failed atom)
  | .useConflict | .fetchFailure => some (.failed (current.getD "unknown"))
  | _ => none

def verdicts : Option String → List LogLine → List Verdict
  | _, [] => []
  | current, line::lines =>
    (line.verdict current).toList++verdicts (line.announces current) lines

def verdictOf : Report → Verdict
  | .built atom => .built atom
  | .failed package => .failed package.atom

variable {readers}

theorem parseLine_logLine {text : String} {line : LogLine} (h : logLine readers text = some line)
    (now : Time) (current : Current) :
    (parseLine readers now current text).1.map Prod.fst = line.announces (current.map Prod.fst) ∧
      (parseLine readers now current text).2.map (fun event => verdictOf (reportOf event)) =
        line.verdict (current.map Prod.fst) := by
  unfold logLine at h
  unfold parseLine
  -- The two functions ask the same questions in the same order.
  cases hevent : (eventText text).bind readers.workerEvent with
  | some event =>
    simp only [hevent] at h
    cases h
  | none =>
    cases hemerging : readers.emerging text with
    | some atom =>
      simp only [hevent,hemerging] at h ⊢
      cases h
      exact ⟨rfl,rfl⟩
    | none =>
      cases hcompleted : readers.completed text with
      | some atom =>
        simp only [hevent,hemerging,hcompleted] at h ⊢
        cases h
        exact ⟨rfl,rfl⟩
      | none =>
        cases herror : readers.error text with
        | some atom =>
          simp only [hevent,hemerging,hcompleted,herror] at h ⊢
          cases h
          exact ⟨rfl,rfl⟩
        | none =>
          cases hmissing : readers.missingDep text with
          | some dep =>
            simp only [hevent,hemerging,hcompleted,herror,hmissing] at h
            cases h
          | none =>
            simp only [hevent,hemerging,hcompleted,herror,hmissing] at h ⊢
            by_cases huse : readers.useConflict text
            · rw [if_pos huse] at h ⊢
              cases h
              exact ⟨rfl,rfl⟩
            · rw [if_neg huse] at h ⊢
              by_cases hfetch : readers.fetchFail text
              · rw [if_pos hfetch] at h ⊢
                cases h
                exact ⟨rfl,rfl⟩
              · rw [if_neg hfetch] at h ⊢
                cases h
                exact ⟨rfl,rfl⟩

variable {lines : List LogLine}

theorem lineReports_verdicts {texts : List Bytes}
    (h : texts.map (fun line => logLine readers (lineText readers line)) = lines.map some)
    (current : Current) :
    (lineReports readers current texts).1.map verdictOf =
      verdicts (current.map Prod.fst) lines := by
  induction texts generalizing current lines with
  | nil =>
    cases lines with
    | nil => rfl
    | cons line lines => cases h
  | cons text texts ih =>
    cases lines with
    | nil => cases h
    | cons line lines =>
      obtain ⟨hline,hrest⟩ := List.cons.inj h
      obtain ⟨hcur,hver⟩ := parseLine_logLine hline 0 current
      rw [lineReports,verdicts,List.map_append,ih hrest,hcur,← hver]
      cases (parseLine readers 0 current (lineText readers text)).2 <;> rfl

end

section

/-- The package that counts as being built after these lines: the last that was
announced, unless one has completed since. -/
inductive Announced : List LogLine → String → Prop where
  | last (before after : List LogLine) (atom : String)
      (quiet : ∀ line ∈ after, ∀ current, line.announces current = current) :
      Announced (before++.emerging atom::after) atom
  | cleared (before after : List LogLine) (done : String)
      (quiet : ∀ line ∈ after, ∀ current, line.announces current = current) :
      Announced (before++.completed done::after) "unknown"
  | never (lines : List LogLine)
      (quiet : ∀ line ∈ lines, ∀ current, line.announces current = current) :
      Announced lines "unknown"

def announcedAfter (current : Option String) (lines : List LogLine) : Option String :=
  lines.foldl LogLine.announces current

variable {lines : List LogLine} {atom : String}

theorem announcedAfter_quiet (h : ∀ line ∈ lines, ∀ current, line.announces current = current)
    (current : Option String) : announcedAfter current lines = current := by
  induction lines with
  | nil => rfl
  | cons line lines ih =>
    obtain ⟨hline,hrest⟩ := List.forall_mem_cons.mp h
    rw [announcedAfter,List.foldl_cons,hline]
    exact ih hrest

theorem announcedAfter_append (current : Option String) (lines lines' : List LogLine) :
    announcedAfter current (lines++lines') = announcedAfter (announcedAfter current lines) lines' :=
  List.foldl_append

theorem last_mark (lines : List LogLine) :
    (∀ line ∈ lines, ∀ current, line.announces current = current) ∨
      ∃ before mark after, lines = before++mark::after ∧
        ((∃ atom, mark = .emerging atom) ∨ ∃ done, mark = .completed done) ∧
        ∀ line ∈ after, ∀ current, line.announces current = current := by
  induction lines with
  | nil => exact .inl fun line h => by cases h
  | cons line lines ih =>
    rcases ih with quiet | ⟨before,mark,after,rfl,hmark,quiet⟩
    · cases line with
      | emerging atom => exact .inr ⟨[],_,lines,rfl,.inl ⟨atom,rfl⟩,quiet⟩
      | completed done => exact .inr ⟨[],_,lines,rfl,.inr ⟨done,rfl⟩,quiet⟩
      | _ => exact .inl (List.forall_mem_cons.mpr ⟨fun _ => rfl,quiet⟩)
    · exact .inr ⟨line::before,mark,after,rfl,hmark,quiet⟩

theorem announced_iff :
    Announced lines atom ↔ (announcedAfter none lines).getD "unknown" = atom := by
  constructor
  · intro h
    cases h with
    | last before after atom quiet =>
      rw [announcedAfter_append]
      exact congrArg (fun current => Option.getD current "unknown")
        (announcedAfter_quiet quiet (some atom))
    | cleared before after done quiet =>
      rw [announcedAfter_append]
      exact congrArg (fun current => Option.getD current "unknown")
        (announcedAfter_quiet quiet none)
    | never lines quiet => rw [announcedAfter_quiet quiet]; rfl
  · rintro rfl
    rcases last_mark lines with quiet | ⟨before,mark,after,rfl,hmark,quiet⟩
    · rw [announcedAfter_quiet quiet]
      exact .never lines quiet
    · rw [announcedAfter_append]
      change Announced _ ((announcedAfter (mark.announces _) after).getD "unknown")
      rw [announcedAfter_quiet quiet]
      rcases hmark with ⟨atom,rfl⟩ | ⟨done,rfl⟩
      · exact .last before after atom quiet
      · exact .cleared before after done quiet

theorem built_mem_verdicts (current : Option String) (lines : List LogLine) :
    .built atom ∈ verdicts current lines ↔ .completed atom ∈ lines := by
  induction lines generalizing current with
  | nil => simp [verdicts]
  | cons line lines ih =>
    rw [verdicts,List.mem_append,List.mem_cons,ih]
    cases line <;> simp [LogLine.verdict,eq_comm]

theorem failed_mem_verdicts (current : Option String) (lines : List LogLine) :
    .failed atom ∈ verdicts current lines ↔ .error atom ∈ lines ∨
      ∃ before line after, lines = before++line::after ∧ line.blames ∧
        (announcedAfter current before).getD "unknown" = atom := by
  induction lines generalizing current with
  | nil => simp [verdicts]
  | cons line lines ih =>
    rw [verdicts,List.mem_append,List.mem_cons,ih]
    have hfirst : .failed atom ∈ (line.verdict current).toList ↔
        LogLine.error atom = line ∨ line.blames ∧ current.getD "unknown" = atom := by
      cases line <;> simp [LogLine.verdict,LogLine.blames,eq_comm]
    have hlater : (∃ before l after, line::lines = before++l::after ∧ l.blames ∧
          (announcedAfter current before).getD "unknown" = atom) ↔
        (line.blames ∧ current.getD "unknown" = atom) ∨
        ∃ before l after, lines = before++l::after ∧ l.blames ∧
          (announcedAfter (line.announces current) before).getD "unknown" = atom := by
      constructor
      · rintro ⟨before,l,after,he,hb,ha⟩
        cases before with
        | nil =>
          cases he
          exact .inl ⟨hb,ha⟩
        | cons x before =>
          cases he
          exact .inr ⟨before,l,after,rfl,hb,ha⟩
      · rintro (⟨hb,ha⟩ | ⟨before,l,after,rfl,hb,ha⟩)
        · exact ⟨[],line,lines,rfl,hb,ha⟩
        · exact ⟨line::before,l,after,rfl,hb,ha⟩
    rw [hfirst,hlater,or_or_or_comm]

def LogLine.reports : LogLine → Bool
  | .completed _ | .error _ | .useConflict | .fetchFailure => true
  | .emerging _ | .other => false

def heard : ℕ → List LogLine → List LogLine
  | _, [] => []
  | room, line::lines =>
    if line.reports = false then line::heard room lines
    else if room = 0 then []
    else line::heard (room-1) lines

theorem verdict_isSome (line : LogLine) (current : Option String) :
    (line.verdict current).isSome = line.reports := by
  cases line <;> rfl

theorem verdicts_take (current : Option String) (room : ℕ) (lines : List LogLine) :
    (verdicts current lines).take room = verdicts current (heard room lines) := by
  induction lines generalizing current room with
  | nil => simp [verdicts,heard]
  | cons line lines ih =>
    rw [heard,← verdict_isSome line current]
    cases hv : line.verdict current with
    | none => simp [verdicts,hv,ih]
    | some verdict =>
      cases room with
      | zero => simp [verdicts]
      | succ room => simp [verdicts,hv,ih]

theorem heard_subset {room : ℕ} : heard room lines ⊆ lines := by
  induction lines generalizing room with
  | nil => exact List.Subset.refl _
  | cons line lines ih =>
    rw [heard]
    split
    · exact List.cons_subset_cons line ih
    · split
      · exact List.nil_subset _
      · exact List.cons_subset_cons line ih

/-- A failure without a name is held against a package that completes. -/
def Misattributed (lines : List LogLine) : Prop :=
  ∃ before line after atom, lines = before++line::after ∧ line.blames ∧
    Announced before atom ∧ .completed atom ∈ lines

end

section
variable {readers : LineReaders} {chunks : List Bytes} {lines : List LogLine}
  {reports : List Report} {atom : String}

theorem mem_tally_built : atom ∈ (tally reports).1 ↔ .built atom ∈ reports.map verdictOf := by
  induction reports with
  | nil => simp [tally]
  | cons report rest ih => cases report <;> simp [tally,verdictOf,ih]

theorem mem_tally_failed :
    (∃ package ∈ (tally reports).2, package.atom = atom) ↔
      .failed atom ∈ reports.map verdictOf := by
  induction reports with
  | nil => simp [tally]
  | cons report rest ih =>
    rw [List.map_cons,List.mem_cons,← ih]
    cases report <;> simp [tally,verdictOf,eq_comm]

def ReportsDisjoint (readers : LineReaders) (chunks : List Bytes) : Prop :=
  ∀ s built failed, Run readers (start chunks) s → s.processor = .drained built failed →
    ∀ package ∈ failed, package.atom ∉ built

theorem reportsDisjoint_iff (h : Shows readers chunks lines) :
    ReportsDisjoint readers chunks ↔
      ∀ atom, .failed atom ∈ verdicts none (heard channelCapacity lines) →
        .built atom ∉ verdicts none (heard channelCapacity lines) := by
  have hreports : ((deliveredReports readers chunks).take channelCapacity).map verdictOf =
      verdicts none (heard channelCapacity lines) := by
    rw [List.map_take,deliveredReports,reportsFrom_lines,lineReports_verdicts h none,verdicts_take]
    rfl
  rw [← hreports]
  constructor
  · intro hd atom hf hb
    obtain ⟨s,built,failed,run,hp⟩ : ∃ s built failed, Run readers (start chunks) s ∧
        s.processor = .drained built failed := processor_ends (shape_start chunks)
    obtain ⟨package,hm,rfl⟩ := mem_tally_failed.mpr hf
    have hbuilt := mem_tally_built.mpr hb
    rw [← drained_reports run hp] at hm hbuilt
    exact hd s built failed run hp package hm hbuilt
  · intro hv s built failed run hp package hm hbuilt
    have hlists := drained_reports run hp
    have hb : package.atom ∈
        (tally ((deliveredReports readers chunks).take channelCapacity)).1 := by
      rw [← hlists]
      exact hbuilt
    have hf : package ∈ (tally ((deliveredReports readers chunks).take channelCapacity)).2 := by
      rw [← hlists]
      exact hm
    exact hv package.atom (mem_tally_failed.mp ⟨package,hf,rfl⟩) (mem_tally_built.mp hb)

/-- Where no package that completes has an error line of its own, the built and
the failed packages are disjoint exactly if no failure without a name, among the
lines that are heard, is held against a package that completes. -/
theorem built_failed_disjoint_iff (readers : LineReaders) (chunks : List Bytes)
    (lines : List LogLine) (h : Shows readers chunks lines)
    (own : ∀ atom, .completed atom ∈ lines → .error atom ∉ lines) :
    ReportsDisjoint readers chunks ↔ ¬ Misattributed (heard channelCapacity lines) := by
  rw [reportsDisjoint_iff h]
  simp only [built_mem_verdicts,failed_mem_verdicts]
  constructor
  · rintro hd ⟨before,line,after,atom,he,hb,ha,hc⟩
    exact hd atom (.inr ⟨before,line,after,he,hb,announced_iff.mp ha⟩) hc
  · rintro hm atom (herror | ⟨before,line,after,he,hb,ha⟩) hc
    · exact own atom (heard_subset hc) (heard_subset herror)
    · exact hm ⟨before,line,after,atom,he,hb,announced_iff.mpr ha,hc⟩

end

/-- A match of a pattern that starts as far to the left as possible. -/
def searchFrom {α : Type} (matchHere : List Char → Option α) : List Char → Option α
  | [] => matchHere []
  | c::cs => matchHere (c::cs) <|> searchFrom matchHere cs

/-- `(.+)` in front of a rest of the pattern, as long as it can be. -/
def longestFront (rest : List Char → Bool) : List Char → Option (List Char)
  | [] => none
  | c::cs =>
    match longestFront rest cs with
    | some front => some (c::front)
    | none => if rest cs then some [c] else none

/-- `(.+?)` in front of a rest of the pattern, as short as it can be. -/
def shortestFront (rest : List Char → Bool) : List Char → Option (List Char)
  | [] => none
  | c::cs => if rest cs then some [c] else (shortestFront rest cs).map (c::·)

def stripText (text : String) (cs : List Char) : Option (List Char) := text.toList.isPrefixOf? cs

def stripDigits : List Char → Option (List Char)
  | [] => none
  | c::cs => if c.isDigit then some (cs.dropWhile Char.isDigit) else none

def countedAtom (marker : String) (cs : List Char) : Option (List Char) := do
  let cs ← stripText marker cs
  let cs ← stripDigits cs
  let cs ← stripText " of " cs
  let cs ← stripDigits cs
  let cs ← stripText ") " cs
  longestFront (fun rest => "::".toList.isPrefixOf rest) cs

def repoFailed (cs : List Char) : Bool :=
  match stripText "::" cs with
  | none => false
  | some rest =>
    !(rest.takeWhile fun c => !c.isWhitespace).isEmpty &&
      " failed".toList.isPrefixOf (rest.dropWhile fun c => !c.isWhitespace)

def capture (matchHere : List Char → Option (List Char)) (line : String) : Option String :=
  (searchFrom matchHere line.toList).map String.ofList

def containsPattern (text line : String) : Bool := (searchFrom (stripText text) line.toList).isSome

/-- The patterns of the log task, on a worker that prints ASCII and no
structured events. -/
def emergeReaders : LineReaders where
  fromUtf8Lossy := fun bytes => String.ofList (bytes.map fun b => Char.ofNat b.toNat)
  workerEvent := fun _ => none
  emerging := capture (countedAtom ">>> Emerging (")
  completed := capture (countedAtom ">>> Completed (")
  error := capture fun cs => (stripText "* ERROR: " cs).bind (longestFront repoFailed)
  missingDep := capture fun cs =>
    (stripText "emerge: there are no ebuilds to satisfy \"" cs).bind
      (shortestFront fun rest => rest.head? == some '"')
  useConflict := containsPattern "The following USE changes are necessary"
  fetchFail := fun line =>
    containsPattern "Couldn't download" line || containsPattern "!!! Fetch failed" line

def printed (lines : List String) : List Bytes :=
  lines.map fun line => (line.toList.map fun c => UInt8.ofNat c.toNat)++[13,10]

/-- The download of a package fails before it is announced. -/
def earlyFailure : List Bytes :=
  printed ["!!! Fetch failed for 'app-misc/jq-1.7'",">>> Emerging (2 of 2) dev-libs/nettle-3::gentoo",
    ">>> Completed (2 of 2) dev-libs/nettle-3::gentoo"]

theorem early_failure_disjoint : ReportsDisjoint emergeReaders earlyFailure := by
  refine (built_failed_disjoint_iff emergeReaders earlyFailure
    [.fetchFailure,.emerging "dev-libs/nettle-3",.completed "dev-libs/nettle-3"] (by decide)
    (by simp)).mpr ?_
  rintro ⟨before,line,after,atom,he,hb,ha,hc⟩
  cases before with
  | nil =>
    obtain rfl : "unknown" = atom := announced_iff.mp ha
    revert hc
    decide
  | cons first before =>
    -- behind the first line nothing is blamed on a package
    have hrest : [.emerging "dev-libs/nettle-3",.completed "dev-libs/nettle-3"] =
        before++line::after := (List.cons.inj he).2
    have hm : line ∈ before++line::after := List.mem_append_right before List.mem_cons_self
    rw [← hrest] at hm
    simp only [List.mem_cons,List.not_mem_nil,or_false] at hm
    rcases hm with rfl | rfl <;> cases hb

/-- Two jobs: the download of the first package fails when the second has been
announced, and the second completes. -/
def parallelFailure : List Bytes :=
  printed [">>> Emerging (1 of 2) app-misc/jq-1.7::gentoo",
    ">>> Emerging (2 of 2) dev-libs/nettle-3::gentoo","!!! Fetch failed for 'app-misc/jq-1.7'",
    ">>> Completed (2 of 2) dev-libs/nettle-3::gentoo"]

def parallelLines : List LogLine :=
  [.emerging "app-misc/jq-1.7",.emerging "dev-libs/nettle-3",.fetchFailure,
    .completed "dev-libs/nettle-3"]

/-- The package that completes is reported as built and as failed. -/
theorem completed_package_reported_failed :
    Shows emergeReaders parallelFailure parallelLines ∧
    (∀ atom, .completed atom ∈ parallelLines → .error atom ∉ parallelLines) ∧
    ¬ ReportsDisjoint emergeReaders parallelFailure := by
  have hshows : Shows emergeReaders parallelFailure parallelLines := by decide
  refine ⟨hshows,by simp [parallelLines],fun hd => ?_⟩
  exact (reportsDisjoint_iff hshows).mp hd "dev-libs/nettle-3" (by decide) (by decide)

end Remerge.BuildVerdicts
