import Mathlib.Logic.Relation
import Remerge.LineDetection

/-!
# From the worker's output to the processor's lists

Three parties run side by side: the worker prints and exits, the log task turns
lines into events and sends them over a channel of bounded capacity, and the
processor waits for the container, then for the log task, and only then empties
the channel. The output stream is taken to deliver all that was printed and to
end with the container. The five seconds the processor grants the log task are
taken to be enough for a task that can run, so the timer is left to a log task
that cannot.
-/

set_option autoImplicit false

namespace Remerge.EventRelay
open SnapshotTypes ServerState WorkerOutput LineDetection

section

/-- Where the log task stands: at the next chunk, at the next line of its
buffer, at the channel with an event, or past its end. -/
inductive LogTask where
  | reading (buf : Bytes) (current : Current)
  | scanning (buf : Bytes) (current : Current)
  | sending (event : WorkerEvent) (buf : Bytes) (current : Current)
  | ended
  | aborted

inductive Processor where
  | waiting
  | joining
  | draining (built : List String) (failed : List FailedPackage)
  | drained (built : List String) (failed : List FailedPackage)

structure Relay where
  /-- What the worker is yet to print, and what it printed and nobody has read. -/
  printing : List Bytes
  stream : List Bytes
  exited : Bool
  log : LogTask
  channel : List WorkerEvent
  processor : Processor

def start (chunks : List Bytes) : Relay := ⟨chunks,[],false,.reading [] none,[],.waiting⟩

def channelCapacity : ℕ := 64

variable (readers : LineReaders)

def workerStep (s : Relay) : Option Relay :=
  match s.printing with
  | chunk::rest => some { s with printing := rest, stream := s.stream++[chunk] }
  | [] => if s.exited then none else some { s with exited := true }

def afterLine (rest : Bytes) : Current × Option WorkerEvent → LogTask
  | (current,some event) => .sending event rest current
  | (current,none) => .scanning rest current

def logStep (now : Time) (s : Relay) : Option Relay :=
  match s.log with
  | .reading buf current =>
    match s.stream with
    | chunk::rest =>
      some { s with stream := rest, log := .scanning (capped (buf++chunk)) current }
    | [] => if s.exited then some { s with log := .ended } else none
  | .scanning buf current =>
    match takeLine buf with
    | none => some { s with log := .reading buf current }
    | some (line,rest) => some { s with
        log := afterLine rest (parseLine readers now current (lineText readers line)) }
  | .sending event buf current =>
    if s.channel.length < channelCapacity then
      some { s with log := .scanning buf current, channel := s.channel++[event] }
    else none
  | .ended => none
  | .aborted => none

def collect (built : List String) (failed : List FailedPackage) : WorkerEvent → Processor
  | .packageBuilt atom _ => .draining (built++[atom]) failed
  | .packageFailed atom reason => .draining built (failed++[⟨atom,reason,none⟩])

/-- The wait also ends when the build takes too long, as the container is then
stopped. -/
def processorStep (s : Relay) : Option Relay :=
  match s.processor with
  | .waiting => if s.exited then some { s with processor := .joining } else none
  | .joining =>
    match s.log with
    | .ended => some { s with processor := .draining [] [] }
    | .sending _ _ _ =>
      if s.channel.length < channelCapacity then none
      else some { s with log := .aborted, processor := .draining [] [] }
    | _ => none
  | .draining built failed =>
    match s.channel with
    | event::rest => some { s with channel := rest, processor := collect built failed event }
    | [] => some { s with processor := .drained built failed }
  | .drained _ _ => none

/-- Whose turn it is, and what the log task's clock shows. -/
inductive Turn where
  | worker
  | log (now : Time)
  | processor

def step (s : Relay) : Turn → Option Relay
  | .worker => workerStep s
  | .log now => logStep readers now s
  | .processor => processorStep s

def Step (s s' : Relay) : Prop := ∃ turn, step readers s turn = some s'

def Run : Relay → Relay → Prop := Relation.ReflTransGen (Step readers)

def Blocked (s : Relay) : Prop :=
  (∃ event buf current, s.log = .sending event buf current) ∧ channelCapacity ≤ s.channel.length

end

section
variable {readers : LineReaders} {s s' : Relay}

inductive Moved (readers : LineReaders) (s : Relay) : Relay → Prop where
  | print {chunk : Bytes} {rest : List Bytes} (hp : s.printing = chunk::rest) :
      Moved readers s { s with printing := rest, stream := s.stream++[chunk] }
  | exit (hp : s.printing = []) (he : s.exited = false) :
      Moved readers s { s with exited := true }
  | read {buf chunk : Bytes} {current : Current} {rest : List Bytes}
      (hl : s.log = .reading buf current) (hs : s.stream = chunk::rest) :
      Moved readers s { s with stream := rest, log := .scanning (capped (buf++chunk)) current }
  | close {buf : Bytes} {current : Current} (hl : s.log = .reading buf current)
      (hs : s.stream = []) (he : s.exited) : Moved readers s { s with log := .ended }
  | refill {buf : Bytes} {current : Current} (hl : s.log = .scanning buf current)
      (ht : takeLine buf = none) : Moved readers s { s with log := .reading buf current }
  | parse (now : Time) {buf line rest : Bytes} {current : Current}
      (hl : s.log = .scanning buf current) (ht : takeLine buf = some (line,rest)) :
      Moved readers s { s with
        log := afterLine rest (parseLine readers now current (lineText readers line)) }
  | send {event : WorkerEvent} {buf : Bytes} {current : Current}
      (hl : s.log = .sending event buf current) (hc : s.channel.length < channelCapacity) :
      Moved readers s { s with log := .scanning buf current, channel := s.channel++[event] }
  | wait (hp : s.processor = .waiting) (he : s.exited) :
      Moved readers s { s with processor := .joining }
  | join (hp : s.processor = .joining) (hl : s.log = .ended) :
      Moved readers s { s with processor := .draining [] [] }
  | abort {event : WorkerEvent} {buf : Bytes} {current : Current} (hp : s.processor = .joining)
      (hl : s.log = .sending event buf current) (hc : channelCapacity ≤ s.channel.length) :
      Moved readers s { s with log := .aborted, processor := .draining [] [] }
  | take {built : List String} {failed : List FailedPackage} {event : WorkerEvent}
      {rest : List WorkerEvent} (hp : s.processor = .draining built failed)
      (hc : s.channel = event::rest) :
      Moved readers s { s with channel := rest, processor := collect built failed event }
  | finish {built : List String} {failed : List FailedPackage}
      (hp : s.processor = .draining built failed) (hc : s.channel = []) :
      Moved readers s { s with processor := .drained built failed }

theorem moved_of_step (h : Step readers s s') : Moved readers s s' := by
  obtain ⟨turn,h⟩ := h
  cases turn with
  | worker =>
    simp only [step,workerStep] at h
    split at h
    · next hp =>
      cases h
      exact .print hp
    · next hp =>
      simp only [Option.ite_none_left_eq_some,Bool.not_eq_true] at h
      cases h.2
      exact .exit hp h.1
  | log now =>
    simp only [step,logStep] at h
    split at h
    · next hl =>
      split at h
      · next hs =>
        cases h
        exact .read hl hs
      · next hs =>
        simp only [Option.ite_none_right_eq_some] at h
        cases h.2
        exact .close hl hs h.1
    · next hl =>
      split at h
      · next ht =>
        cases h
        exact .refill hl ht
      · next ht =>
        cases h
        exact .parse now hl ht
    · next hl =>
      simp only [Option.ite_none_right_eq_some] at h
      cases h.2
      exact .send hl h.1
    · cases h
    · cases h
  | processor =>
    simp only [step,processorStep] at h
    split at h
    · next hp =>
      simp only [Option.ite_none_right_eq_some] at h
      cases h.2
      exact .wait hp h.1
    · next hp =>
      split at h
      · next hl =>
        cases h
        exact .join hp hl
      · next hl =>
        simp only [Option.ite_none_left_eq_some,not_lt] at h
        cases h.2
        exact .abort hp hl h.1
      · cases h
    · next hp =>
      split at h
      · next hc =>
        cases h
        exact .take hp hc
      · next hc =>
        cases h
        exact .finish hp hc
    · cases h

theorem step_of_moved (h : Moved readers s s') : Step readers s s' := by
  cases h with
  | print hp => exact ⟨.worker,by simp [step,workerStep,hp]⟩
  | exit hp he => exact ⟨.worker,by simp [step,workerStep,hp,he]⟩
  | read hl hs => exact ⟨.log 0,by simp [step,logStep,hl,hs]⟩
  | close hl hs he => exact ⟨.log 0,by simp [step,logStep,hl,hs,he]⟩
  | refill hl ht => exact ⟨.log 0,by simp [step,logStep,hl,ht]⟩
  | parse now hl ht => exact ⟨.log now,by simp [step,logStep,hl,ht]⟩
  | send hl hc => exact ⟨.log 0,by simp [step,logStep,hl,hc]⟩
  | wait hp he => exact ⟨.processor,by simp [step,processorStep,hp,he]⟩
  | join hp hl => exact ⟨.processor,by simp [step,processorStep,hp,hl]⟩
  | abort hp hl hc =>
    exact ⟨.processor,by simp [step,processorStep,hp,hl,Nat.not_lt.mpr hc]⟩
  | take hp hc | finish hp hc => exact ⟨.processor,by simp [step,processorStep,hp,hc]⟩

theorem run_keeps {P : Relay → Prop} (keeps : ∀ s s', P s → Moved readers s s' → P s')
    (run : Run readers s s') (h : P s) : P s' := by
  induction run with
  | refl => exact h
  | tail _ hs ih => exact keeps _ _ ih (moved_of_step hs)

def Processor.collecting : Processor → Bool
  | .waiting | .joining => false
  | .draining _ _ | .drained _ _ => true

def Processor.lists : Processor → List String × List FailedPackage
  | .waiting | .joining => ([],[])
  | .draining built failed | .drained built failed => (built,failed)

def Processor.collected (p : Processor) : ℕ := p.lists.1.length+p.lists.2.length

theorem collected_of_not_collecting {p : Processor} (h : p.collecting = false) :
    p.collected = 0 := by
  cases p with
  | waiting | joining => rfl
  | _ => cases h

theorem collect_collected (built : List String) (failed : List FailedPackage)
    (event : WorkerEvent) :
    (collect built failed event).collected = built.length+failed.length+1 := by
  cases event <;> simp [collect,Processor.collected,Processor.lists] <;> omega

theorem afterLine_ne_aborted (rest : Bytes) (parsed : Current × Option WorkerEvent) :
    afterLine rest parsed ≠ .aborted := by
  obtain ⟨current,event⟩ := parsed
  cases event <;> exact fun h => by cases h

structure Shape (s : Relay) : Prop where
  printed : s.exited → s.printing = []
  bounded : s.processor.collected+s.channel.length ≤ channelCapacity
  closing : s.processor.collecting → s.log = .ended ∨ s.log = .aborted
  given : s.log = .aborted → s.processor.collecting
  emptied : ∀ built failed, s.processor = .drained built failed → s.channel = []

theorem shape_start (chunks : List Bytes) : Shape (start chunks) where
  printed := fun h => by cases h
  bounded := Nat.zero_le _
  closing := fun h => by cases h
  given := fun h => by cases h
  emptied := fun _ _ h => by cases h

theorem Shape.working (h : Shape s) (he : s.log ≠ .ended) (ha : s.log ≠ .aborted) :
    s.processor.collecting = false := by
  cases hc : s.processor.collecting with
  | false => rfl
  | true => exact ((h.closing hc).elim he ha).elim

theorem shape_moved (h : Shape s) (hm : Moved readers s s') : Shape s' := by
  -- The log task moves on its own only while nobody collects its events.
  have logMoves : ∀ (stream : List Bytes) (log : LogTask) (channel : List WorkerEvent),
      s.log ≠ .ended → s.log ≠ .aborted → log ≠ .aborted →
      s.processor.collected+channel.length ≤ channelCapacity →
      Shape { s with stream := stream, log := log, channel := channel } := by
    intro stream log channel he ha hl hc
    have hw := h.working he ha
    refine ⟨h.printed,hc,fun hcol => (by rw [hw] at hcol; cases hcol),fun e => absurd e hl,?_⟩
    intro built failed hp
    have hp' : s.processor = .drained built failed := hp
    rw [hp'] at hw
    cases hw
  cases hm with
  | print hp =>
    refine ⟨fun he => ?_,h.bounded,h.closing,h.given,h.emptied⟩
    have hnil := h.printed he
    rw [hp] at hnil
    cases hnil
  | exit hp he => exact ⟨fun _ => hp,h.bounded,h.closing,h.given,h.emptied⟩
  | read hl hs =>
    exact logMoves _ _ _ (by simp [hl]) (by simp [hl]) (by simp) h.bounded
  | close hl hs he | refill hl ht =>
    exact logMoves s.stream _ _ (by simp [hl]) (by simp [hl]) (by simp) h.bounded
  | @parse now buf line rest current hl ht =>
    have hgoes := afterLine_ne_aborted rest (parseLine readers now current (lineText readers line))
    exact logMoves s.stream _ _ (by simp [hl]) (by simp [hl]) hgoes h.bounded
  | @send event buf current hl hc =>
    refine logMoves s.stream _ (s.channel++[event]) (by simp [hl]) (by simp [hl]) (by simp) ?_
    have hnone : s.processor.collected = 0 :=
      collected_of_not_collecting (h.working (by simp [hl]) (by simp [hl]))
    rw [hnone,List.length_append,List.length_singleton]
    omega
  | wait hp he =>
    have hb := h.bounded
    rw [hp] at hb
    refine ⟨h.printed,hb,fun hc => (by cases hc),fun ha => ?_,fun _ _ e => (by cases e)⟩
    have hcol := h.given ha
    rw [hp] at hcol
    cases hcol
  | join hp hl =>
    have hb := h.bounded
    rw [hp] at hb
    exact ⟨h.printed,hb,fun _ => .inl hl,fun _ => rfl,fun _ _ e => (by cases e)⟩
  | abort hp hl hc =>
    have hb := h.bounded
    rw [hp] at hb
    exact ⟨h.printed,hb,fun _ => .inr rfl,fun _ => rfl,fun _ _ e => (by cases e)⟩
  | @take built failed event rest hp hc =>
    have hcol : s.processor.collecting := by
      rw [hp]
      rfl
    refine ⟨h.printed,?_,fun _ => h.closing hcol,fun _ => by cases event <;> rfl,?_⟩
    · have hb := h.bounded
      have hgrown := collect_collected built failed event
      have hbefore : s.processor.collected = built.length+failed.length := by rw [hp]; rfl
      rw [hc,List.length_cons] at hb
      dsimp only
      omega
    · cases event <;> exact fun _ _ e => (by cases e)
  | finish hp hc =>
    have hcol : s.processor.collecting := by
      rw [hp]
      rfl
    have hb := h.bounded
    rw [hp] at hb
    exact ⟨h.printed,hb,fun _ => h.closing hcol,fun _ => rfl,fun _ _ _ => hc⟩

def LogTask.weight : LogTask → ℕ
  | .reading buf _ => 3*buf.length+1
  | .scanning buf _ => 3*buf.length+2
  | .sending _ buf _ => 3*buf.length+4
  | .ended => 0
  | .aborted => 0

def Processor.weight : Processor → ℕ
  | .waiting => 3
  | .joining => 2
  | .draining _ _ => 1
  | .drained _ _ => 0

def Relay.weight (s : Relay) : ℕ :=
  3*s.printing.flatten.length+3*s.printing.length+(3*s.stream.flatten.length+2*s.stream.length)+
    (if s.exited then 0 else 1)+s.log.weight+s.channel.length+s.processor.weight

theorem capped_length (buf : Bytes) : (capped buf).length ≤ buf.length := by
  unfold capped
  rw [List.length_drop]
  omega

theorem afterLine_weight (rest : Bytes) (parsed : Current × Option WorkerEvent) :
    (afterLine rest parsed).weight ≤ 3*rest.length+4 := by
  obtain ⟨current,event⟩ := parsed
  cases event <;> simp [afterLine,LogTask.weight]

theorem weight_moved (hm : Moved readers s s') : s'.weight < s.weight := by
  unfold Relay.weight
  cases hm with
  | print hp =>
    simp only [hp,List.flatten_cons,List.flatten_append,List.flatten_nil,List.length_append,
      List.length_cons,List.length_nil]
    omega
  | exit hp he =>
    simp only [he,if_true,Bool.false_eq_true,if_false]
    omega
  | @read buf chunk current rest hl hs =>
    have hcap := capped_length (buf++chunk)
    rw [List.length_append] at hcap
    simp only [hl,hs,LogTask.weight,List.flatten_cons,List.length_append,List.length_cons]
    omega
  | close hl hs he | refill hl ht =>
    simp only [hl,LogTask.weight]
    omega
  | @parse now buf line rest current hl ht =>
    have hlen := takeLine_length ht
    have hw := afterLine_weight rest (parseLine readers now current (lineText readers line))
    have hlog : s.log.weight = 3*buf.length+2 := by rw [hl]; rfl
    dsimp only
    omega
  | send hl hc =>
    simp only [hl,LogTask.weight,List.length_append,List.length_singleton]
    omega
  | wait hp he | join hp hl | finish hp hc =>
    simp only [hp,Processor.weight]
    omega
  | abort hp hl hc =>
    simp only [hp,hl,Processor.weight,LogTask.weight]
    omega
  | @take built failed event rest hp hc =>
    have hw : (collect built failed event).weight = 1 := by cases event <;> rfl
    have hproc : s.processor.weight = 1 := by rw [hp]; rfl
    simp only [hc,List.length_cons]
    omega

theorem log_runs_out (h : Shape s) (hw : s.processor = .waiting) :
    ∃ s', Run readers s s' ∧ s'.processor = .waiting ∧ (s'.log = .ended ∨ Blocked s') := by
  induction hn : s.weight using Nat.strong_induction_on generalizing s with
  | _ n ih =>
    have go : ∀ s1, Moved readers s s1 → s1.processor = .waiting →
        ∃ s', Run readers s s' ∧ s'.processor = .waiting ∧ (s'.log = .ended ∨ Blocked s') := by
      intro s1 hm hw1
      obtain ⟨s',run,hrest⟩ := ih s1.weight (hn ▸ weight_moved hm) (shape_moved h hm) hw1 rfl
      exact ⟨s',.head (step_of_moved hm) run,hrest⟩
    cases hl : s.log with
    | reading buf current =>
      cases hs : s.stream with
      | cons chunk rest => exact go _ (.read hl hs) hw
      | nil =>
        cases hp : s.printing with
        | cons chunk rest => exact go _ (.print hp) hw
        | nil =>
          cases he : s.exited with
          | false => exact go _ (.exit hp he) hw
          | true => exact go _ (.close hl hs he) hw
    | scanning buf current =>
      cases ht : takeLine buf with
      | none => exact go _ (.refill hl ht) hw
      | some parts => exact go _ (.parse 0 hl ht) hw
    | sending event buf current =>
      by_cases hc : s.channel.length < channelCapacity
      · exact go _ (.send hl hc) hw
      · exact ⟨s,.refl,hw,.inr ⟨⟨event,buf,current,hl⟩,Nat.not_lt.mp hc⟩⟩
    | ended => exact ⟨s,.refl,hw,.inl hl⟩
    | aborted =>
      have hcol := h.given hl
      rw [hw] at hcol
      cases hcol

theorem processor_ends (h : Shape s) :
    ∃ s' built failed, Run readers s s' ∧ s'.processor = .drained built failed := by
  induction hn : s.weight using Nat.strong_induction_on generalizing s with
  | _ n ih =>
    have go : ∀ s1, Moved readers s s1 →
        ∃ s' built failed, Run readers s s' ∧ s'.processor = .drained built failed := by
      intro s1 hm
      obtain ⟨s',built,failed,run,hend⟩ :=
        ih s1.weight (hn ▸ weight_moved hm) (shape_moved h hm) rfl
      exact ⟨s',built,failed,.head (step_of_moved hm) run,hend⟩
    cases hp : s.processor with
    | waiting =>
      cases hr : s.printing with
      | cons chunk rest => exact go _ (.print hr)
      | nil =>
        cases he : s.exited with
        | false => exact go _ (.exit hr he)
        | true => exact go _ (.wait hp he)
    | joining =>
      cases hl : s.log with
      | reading buf current =>
        cases hs : s.stream with
        | cons chunk rest => exact go _ (.read hl hs)
        | nil =>
          cases hr : s.printing with
          | cons chunk rest => exact go _ (.print hr)
          | nil =>
            cases he : s.exited with
            | false => exact go _ (.exit hr he)
            | true => exact go _ (.close hl hs he)
      | scanning buf current =>
        cases ht : takeLine buf with
        | none => exact go _ (.refill hl ht)
        | some parts => exact go _ (.parse 0 hl ht)
      | sending event buf current =>
        by_cases hc : s.channel.length < channelCapacity
        · exact go _ (.send hl hc)
        · exact go _ (.abort hp hl (Nat.not_lt.mp hc))
      | ended => exact go _ (.join hp hl)
      | aborted =>
        have hcol := h.given hl
        rw [hp] at hcol
        cases hcol
    | draining built failed =>
      cases hc : s.channel with
      | nil => exact go _ (.finish hp hc)
      | cons event rest => exact go _ (.take hp hc)
    | drained built failed => exact ⟨s,built,failed,.refl,hp⟩

end

section
variable {readers : LineReaders} {s s' : Relay} {chunks : List Bytes}

def scanned (readers : LineReaders) (buf : Bytes) (current : Current) (chunks : List Bytes) :
    List Report :=
  (lineReports readers current (splitLines buf).1).1++
    reportsFrom readers (splitLines buf).2 (lineReports readers current (splitLines buf).1).2 chunks

def ahead (readers : LineReaders) (chunks : List Bytes) : LogTask → List Report
  | .reading buf current => reportsFrom readers buf current chunks
  | .scanning buf current => scanned readers buf current chunks
  | .sending event buf current => reportOf event::scanned readers buf current chunks
  | .ended => []
  | .aborted => []

/-- Nothing is lost: what was collected, what is in the channel and what is yet
to come make up what the log task finds in the output. -/
def Accounted (readers : LineReaders) (chunks : List Bytes) (s : Relay) : Prop :=
  s.log = .aborted ∨ ∃ done, tally done = s.processor.lists ∧
    done++s.channel.map reportOf++ahead readers (s.stream++s.printing) s.log =
      deliveredReports readers chunks

theorem accounted_start (chunks : List Bytes) : Accounted readers chunks (start chunks) :=
  .inr ⟨[],rfl,rfl⟩

variable {buf : Bytes} {built : List String} {failed : List FailedPackage}

theorem scanned_none (h : takeLine buf = none) (current : Current) (chunks : List Bytes) :
    scanned readers buf current chunks = reportsFrom readers buf current chunks := by
  unfold scanned
  rw [splitLines_none h]
  rfl

theorem scanned_same {current current' : Current} (h : SameCurrent current current')
    (buf : Bytes) (chunks : List Bytes) :
    scanned readers buf current chunks = scanned readers buf current' chunks := by
  obtain ⟨hrep,hcur⟩ := lineReports_same readers h (splitLines buf).1
  unfold scanned
  rw [hrep,reportsFrom_same hcur]

theorem ahead_afterLine (rest : Bytes) (parsed : Current × Option WorkerEvent)
    (chunks : List Bytes) :
    ahead readers chunks (afterLine rest parsed) =
      (parsed.2.map reportOf).toList++scanned readers rest parsed.1 chunks := by
  obtain ⟨current,event⟩ := parsed
  cases event <;> rfl

theorem scanned_some (now : Time) {line rest : Bytes} (h : takeLine buf = some (line,rest))
    (current : Current) (chunks : List Bytes) :
    scanned readers buf current chunks = ahead readers chunks
      (afterLine rest (parseLine readers now current (lineText readers line))) := by
  have same : SameCurrent current current := rfl
  obtain ⟨hcur,hrep⟩ := parseLine_same readers 0 now same (lineText readers line)
  rw [ahead_afterLine,← hrep,← scanned_same hcur]
  unfold scanned
  rw [splitLines_some h,lineReports,List.append_assoc]

theorem tally_collect {done : List Report} (event : WorkerEvent) (h : tally done = (built,failed)) :
    tally (done++[reportOf event]) = (collect built failed event).lists := by
  rw [tally_append,h]
  cases event <;> simp [reportOf,tally,collect,Processor.lists]

theorem accounted_moved (shape : Shape s) (h : Accounted readers chunks s)
    (hm : Moved readers s s') : Accounted readers chunks s' := by
  rcases h with habort | ⟨done,hdone,hsum⟩
  · -- After an abort only the processor moves, and it leaves the log task alone.
    cases hm with
    | read hl _ | close hl _ _ | refill hl _ | parse _ hl _ | send hl _ | abort _ hl _ =>
      rw [habort] at hl
      cases hl
    | join _ hl =>
      rw [habort] at hl
      cases hl
    | _ => exact .inl habort
  · cases hm with
    | print hp =>
      refine .inr ⟨done,hdone,?_⟩
      rw [← hsum,hp]
      simp
    | exit hp he => exact .inr ⟨done,hdone,hsum⟩
    | read hl hs =>
      refine .inr ⟨done,hdone,?_⟩
      rw [← hsum,hl,hs]
      rfl
    | close hl hs he =>
      refine .inr ⟨done,hdone,?_⟩
      rw [← hsum,hl,hs,shape.printed he]
      rfl
    | refill hl ht =>
      refine .inr ⟨done,hdone,?_⟩
      rw [← hsum,hl]
      simp only [ahead,scanned_none ht]
    | parse now hl ht =>
      refine .inr ⟨done,hdone,?_⟩
      dsimp only
      rw [← scanned_some now ht,← hsum,hl]
      simp only [ahead]
    | send hl hc =>
      refine .inr ⟨done,hdone,?_⟩
      rw [← hsum,hl]
      simp [ahead]
    | wait hp he | join hp hl | finish hp hc =>
      rw [hp] at hdone
      exact .inr ⟨done,hdone,hsum⟩
    | abort hp hl hc => exact .inl rfl
    | @take built failed event rest hp hc =>
      rw [hp] at hdone
      refine .inr ⟨done++[reportOf event],tally_collect event hdone,?_⟩
      rw [← hsum,hc]
      simp

theorem reached (run : Run readers (start chunks) s) : Shape s ∧ Accounted readers chunks s :=
  run_keeps (P := fun s => Shape s ∧ Accounted readers chunks s)
    (fun _ _ h hm => ⟨shape_moved h.1 hm,accounted_moved h.1 h.2 hm⟩) run
    ⟨shape_start chunks,accounted_start chunks⟩

theorem not_blocked (h : Accounted readers chunks s)
    (hfew : (deliveredReports readers chunks).length ≤ channelCapacity) : ¬ Blocked s := by
  rintro ⟨⟨event,buf,current,hl⟩,hfull⟩
  rcases h with habort | ⟨done,-,hsum⟩
  · rw [habort] at hl
    cases hl
  · have hlen := congrArg List.length hsum
    rw [hl] at hlen
    simp only [ahead,List.length_append,List.length_map,List.length_cons] at hlen
    omega

theorem not_aborted (run : Run readers (start chunks) s)
    (hfew : (deliveredReports readers chunks).length ≤ channelCapacity) : s.log ≠ .aborted := by
  induction run with
  | refl => exact fun h => by cases h
  | tail before hs ih =>
    cases moved_of_step hs with
    | abort hp hl hc =>
      exact absurd ⟨⟨_,_,_,hl⟩,hc⟩ (not_blocked (reached before).2 hfew)
    | @parse now buf line rest current hl ht =>
      dsimp only
      exact afterLine_ne_aborted rest (parseLine readers now current (lineText readers line))
    | print | exit | wait | join | take | finish => exact ih
    | _ => exact fun e => by cases e

theorem drained_lists (run : Run readers (start chunks) s)
    (hfew : (deliveredReports readers chunks).length ≤ channelCapacity)
    (hp : s.processor = .drained built failed) :
    (built,failed) = tally (deliveredReports readers chunks) := by
  obtain ⟨shape,hacc⟩ := reached run
  have hend : s.log = .ended := by
    rcases shape.closing (by rw [hp]; rfl) with he | ha
    · exact he
    · exact absurd ha (not_aborted run hfew)
  rcases hacc with ha | ⟨done,hdone,hsum⟩
  · exact absurd ha (not_aborted run hfew)
  · rw [hend,shape.emptied built failed hp] at hsum
    have hall : done = deliveredReports readers chunks := by simpa [ahead] using hsum
    rw [← hall,hdone,hp]
    rfl

end

variable {readers : LineReaders} {s : Relay} {chunks : List Bytes}

/-- No event is lost and nobody is held up: the log task is not blocked while
the processor waits, the processor comes to the end of its drain, and its lists
are then those of the printed lines. -/
structure Relays (readers : LineReaders) (chunks : List Bytes) : Prop where
  unblocked : ∀ s, Run readers (start chunks) s → s.processor = .waiting → ¬ Blocked s
  complete : ∀ s built failed, Run readers (start chunks) s →
    s.processor = .drained built failed → (built,failed) = tally (printedReports readers chunks)
  ends : ∀ s, Run readers (start chunks) s →
    ∃ s' built failed, Run readers s s' ∧ s'.processor = .drained built failed

/-- While the processor waits, more events than the channel takes block the log
task. -/
theorem blocks_of_many (h : channelCapacity < (deliveredReports readers chunks).length) :
    ∃ s, Run readers (start chunks) s ∧ s.processor = .waiting ∧ Blocked s := by
  obtain ⟨s,run,hw,hstop⟩ : ∃ s, Run readers (start chunks) s ∧ s.processor = .waiting ∧
      (s.log = .ended ∨ Blocked s) := log_runs_out (shape_start chunks) rfl
  refine ⟨s,run,hw,hstop.resolve_left fun hend => ?_⟩
  obtain ⟨shape,hacc⟩ := reached run
  rcases hacc with ha | ⟨done,hdone,hsum⟩
  · rw [hend] at ha
    cases ha
  · have hnone : done = [] := tally_nil (by rw [hdone,hw]; rfl)
    have hb := shape.bounded
    rw [← hsum,hend,hnone] at h
    simp only [ahead,List.append_nil,List.nil_append,List.length_map] at h
    omega

theorem collected_le (run : Run readers (start chunks) s) :
    s.processor.collected ≤ channelCapacity :=
  Nat.le_trans (Nat.le_add_right _ _) (reached run).1.bounded

theorem reportsFrom_lines (buf : Bytes) (current : Current) (chunks : List Bytes) :
    reportsFrom readers buf current chunks =
      (lineReports readers current (linesFrom buf chunks)).1 := by
  induction chunks generalizing buf current with
  | nil => rfl
  | cons chunk chunks ih => rw [reportsFrom,linesFrom,lineReports_append,ih]

theorem deliveredReports_of_fitting (h : Fitting [] chunks) :
    deliveredReports readers chunks = printedReports readers chunks := by
  have hclean : 10 ∉ ([] : Bytes) := List.not_mem_nil
  rw [deliveredReports,reportsFrom_lines,(linesFrom_eq_iff hclean (h.length_lt hclean)).mpr h]
  rfl

/-- With no line cut, the events reach the lists exactly if the channel takes all of them. -/
theorem relays_iff (readers : LineReaders) (chunks : List Bytes) (hfit : Fitting [] chunks) :
    Relays readers chunks ↔ (printedReports readers chunks).length ≤ channelCapacity := by
  rw [← deliveredReports_of_fitting hfit]
  constructor
  · intro h
    by_contra hmany
    obtain ⟨s,run,hw,hblocked⟩ := blocks_of_many (Nat.not_le.mp hmany)
    exact h.unblocked s run hw hblocked
  · intro hfew
    refine ⟨fun s run _ => not_blocked (reached run).2 hfew,?_,?_⟩
    · intro s built failed run hp
      rw [← deliveredReports_of_fitting hfit]
      exact drained_lists run hfew hp
    · exact fun s run => processor_ends (reached run).1

def completedLine : String := ">>> Completed (1 of 1) dev-lang/rust::gentoo"

def plainReaders : LineReaders where
  fromUtf8Lossy := fun bytes => String.ofList (bytes.map fun b => Char.ofNat b.toNat)
  workerEvent := fun _ => none
  emerging := fun _ => none
  completed := fun line => if line = completedLine then some "dev-lang/rust" else none
  error := fun _ => none
  missingDep := fun _ => none
  useConflict := fun _ => false
  fetchFail := fun _ => false

def builds (n : ℕ) : List Bytes :=
  List.replicate n ((completedLine.toList.map fun c => UInt8.ofNat c.toNat)++[13,10])

theorem fitting_builds (n : ℕ) : Fitting [] (builds n) := by
  induction n with
  | zero => exact fun before chunk after he => by cases before <;> cases he
  | succ n ih => exact (fitting_cons List.not_mem_nil).mpr ⟨fun _ => by decide,ih⟩

theorem sixty_four_builds_relayed :
    Relays plainReaders (builds 64) ∧ ¬ Relays plainReaders (builds 65) := by
  have hfew := relays_iff plainReaders (builds 64) (fitting_builds 64)
  have hmany := relays_iff plainReaders (builds 65) (fitting_builds 65)
  rw [← deliveredReports_of_fitting (fitting_builds _)] at hfew hmany
  exact ⟨hfew.mpr (by decide),fun h => absurd (hmany.mp h) (by decide)⟩

/-- The 65th package is lost, and the log task is held up by it. -/
theorem sixty_fifth_build_lost :
    tally (printedReports plainReaders (builds 65)) = (List.replicate 65 "dev-lang/rust",[]) ∧
      (∃ s, Run plainReaders (start (builds 65)) s ∧ s.processor = .waiting ∧ Blocked s) ∧
      (∀ s built failed, Run plainReaders (start (builds 65)) s →
        s.processor = .drained built failed → built.length ≤ 64) ∧
      ¬ Relays plainReaders (builds 65) := by
  have hmany : channelCapacity < (deliveredReports plainReaders (builds 65)).length := by
    decide
  obtain ⟨s,run,hw,hblocked⟩ := blocks_of_many hmany
  refine ⟨by decide,⟨s,run,hw,hblocked⟩,fun s built failed run hp => ?_,
    fun h => h.unblocked s run hw hblocked⟩
  have hle := collected_le run
  rw [hp] at hle
  exact Nat.le_trans (Nat.le_add_right _ _) hle

end Remerge.EventRelay
