import Remerge.WorkerOutput

/-!
# Lines that the log task examines

The log task appends each chunk to its buffer, drops the front of a buffer that
has grown over 64 KiB, and only then takes complete lines off. A chunk may
bring many lines at once, so the front that is dropped can hold lines nobody
has looked at. The lines it examines are the lines of the stream exactly if no
chunk with a newline makes the buffer too long.
-/

set_option autoImplicit false

namespace Remerge.LineDetection
open SnapshotTypes WorkerOutput

def linesFrom : Bytes → List Bytes → List Bytes
  | _, [] => []
  | buf, chunk::chunks => (splitLines (capped (buf++chunk))).1++
      linesFrom (splitLines (capped (buf++chunk))).2 chunks

def examinedLines (chunks : List Bytes) : List Bytes := linesFrom [] chunks

def streamLines (chunks : List Bytes) : List Bytes := (splitLines chunks.flatten).1

/-- A chunk with a newline fits behind the unfinished line before it. -/
def Fitting (buf : Bytes) (chunks : List Bytes) : Prop :=
  ∀ before chunk after, chunks = before++chunk::after → 10 ∈ chunk →
    (splitLines (buf++before.flatten)).2.length+chunk.length ≤ maxLineBuf

theorem splitLines_clean {x : Bytes} (h : 10 ∉ x) : splitLines x = ([],x) := by
  induction x with
  | nil => rfl
  | cons b x ih =>
    rw [List.mem_cons,not_or] at h
    rw [splitLines,if_neg (Ne.symm h.1),ih h.2]

theorem splitLines_line {line : Bytes} (h : 10 ∉ line) (x : Bytes) :
    splitLines (line++10::x) = (line::(splitLines x).1,(splitLines x).2) := by
  induction line with
  | nil => simp [splitLines]
  | cons b line ih =>
    rw [List.mem_cons,not_or] at h
    rw [List.cons_append,splitLines,if_neg (Ne.symm h.1),ih h.2]

theorem length_lines (x : Bytes) : (splitLines x).1.length = x.count 10 := by
  induction x with
  | nil => rfl
  | cons b x ih =>
    by_cases hb : b = 10
    · simp [splitLines,hb,ih]
    · rw [splitLines,if_neg hb,List.count_cons_of_ne hb,← ih]
      cases (splitLines x).1 <;> rfl

theorem clean_rest (x : Bytes) : 10 ∉ (splitLines x).2 := by
  induction x with
  | nil => simp [splitLines]
  | cons b x ih =>
    by_cases hb : b = 10
    · simpa [splitLines,hb] using ih
    · rw [splitLines,if_neg hb]
      cases hl : (splitLines x).1 with
      | nil => simpa [Ne.symm hb] using ih
      | cons line lines => exact ih

theorem splitLines_resume (front back : Bytes) :
    (splitLines (front++back)).2 = (splitLines ((splitLines front).2++back)).2 := by
  rw [splitLines_append]

section
variable {buf chunk : Bytes} {chunks : List Bytes}

theorem capped_of_le (h : buf.length ≤ maxLineBuf) : capped buf = buf := by
  rw [capped,Nat.sub_eq_zero_of_le h,List.drop_zero]

theorem linesFrom_clean (hbuf : 10 ∉ buf) (h : 10 ∉ chunks.flatten) :
    linesFrom buf chunks = [] := by
  induction chunks generalizing buf with
  | nil => rfl
  | cons chunk chunks ih =>
    rw [List.flatten_cons,List.mem_append,not_or] at h
    have hcapped : 10 ∉ capped (buf++chunk) := fun hm => by
      have hm' := List.mem_of_mem_drop hm
      simp [hbuf,h.1] at hm'
    rw [linesFrom,splitLines_clean hcapped,ih hcapped h.2]
    rfl

theorem length_linesFrom_le (buf : Bytes) (chunks : List Bytes) :
    (linesFrom buf chunks).length ≤ (buf++chunks.flatten).count 10 := by
  induction chunks generalizing buf with
  | nil => simp [linesFrom]
  | cons chunk chunks ih =>
    have hrest := ih (splitLines (capped (buf++chunk))).2
    have hclean := List.count_eq_zero_of_not_mem (clean_rest (capped (buf++chunk)))
    have hdrop : (capped (buf++chunk)).count 10 ≤ (buf++chunk).count 10 :=
      (List.drop_sublist _ _).count_le 10
    rw [linesFrom,List.length_append,length_lines,List.flatten_cons]
    simp only [List.count_append] at hrest hdrop ⊢
    omega

theorem fitting_cons (hbuf : 10 ∉ buf) : Fitting buf (chunk::chunks) ↔
    (10 ∈ chunk → buf.length+chunk.length ≤ maxLineBuf) ∧
      Fitting (splitLines (buf++chunk)).2 chunks := by
  constructor
  · intro h
    constructor
    · intro hc
      simpa [splitLines_clean hbuf] using h [] chunk chunks rfl hc
    · intro before next after he hc
      have hnext := h (chunk::before) next after (by rw [he]; rfl) hc
      rwa [List.flatten_cons,← List.append_assoc,splitLines_resume] at hnext
  · rintro ⟨hfirst,hlater⟩ before next after he hc
    cases before with
    | nil =>
      cases he
      simpa [splitLines_clean hbuf] using hfirst hc
    | cons first before =>
      cases he
      rw [List.flatten_cons,← List.append_assoc,splitLines_resume]
      exact hlater before next after rfl hc

theorem length_of_mem_lines {x line : Bytes} (h : line ∈ (splitLines x).1) :
    line.length < x.length := by
  induction x generalizing line with
  | nil => cases h
  | cons b x ih =>
    by_cases hb : b = 10
    · rw [splitLines,if_pos hb,List.mem_cons] at h
      rcases h with rfl | h
      · exact Nat.succ_pos _
      · exact Nat.lt_succ_of_lt (ih h)
    · rw [splitLines,if_neg hb] at h
      cases hl : (splitLines x).1 with
      | nil => rw [hl] at h; cases h
      | cons first lines =>
        rw [hl] at h ih
        rcases List.mem_cons.mp h with rfl | h
        · exact Nat.succ_lt_succ (ih List.mem_cons_self)
        · exact Nat.lt_succ_of_lt (ih (List.mem_cons_of_mem _ h))

theorem Fitting.length_lt (hbuf : 10 ∉ buf) (h : Fitting buf chunks) :
    ∀ line ∈ (splitLines (buf++chunks.flatten)).1, line.length < maxLineBuf := by
  induction chunks generalizing buf with
  | nil => simp [splitLines_clean hbuf]
  | cons chunk chunks ih =>
    obtain ⟨hfirst,hlater⟩ := (fitting_cons hbuf).mp h
    intro line hm
    rw [List.flatten_cons,← List.append_assoc,splitLines_append,List.mem_append] at hm
    rcases hm with hm | hm
    · by_cases hc : 10 ∈ chunk
      · have hlt := length_of_mem_lines hm
        have hle := hfirst hc
        rw [List.length_append] at hlt
        omega
      · rw [splitLines_clean (by simp [hbuf,hc])] at hm
        cases hm
    · exact ih (clean_rest _) hlater line hm

theorem lines_of_overlong (hmem : 10 ∈ buf++chunk) (hlong : maxLineBuf < (buf++chunk).length) :
    linesFrom buf (chunk::chunks) ≠ (splitLines (buf++(chunk::chunks).flatten)).1 := by
  obtain ⟨line,rest,hsplit,hclean⟩ := List.eq_append_cons_of_mem hmem
  have hstream : buf++(chunk::chunks).flatten = line++10::(rest++chunks.flatten) := by
    rw [List.flatten_cons,← List.append_assoc,hsplit]
    simp
  have hcut : 0 < (buf++chunk).length-maxLineBuf := by omega
  generalize hk : (buf++chunk).length-maxLineBuf = k at hcut
  intro heq
  rw [hstream,linesFrom,capped,hk,hsplit] at heq
  by_cases hshort : k ≤ line.length
  · have hdrop : 10 ∉ line.drop k := fun hm => hclean (List.mem_of_mem_drop hm)
    rw [List.drop_append_of_le_length hshort,splitLines_line hdrop,splitLines_line hclean] at heq
    have hhead := congrArg List.length (List.cons.inj heq).1
    rw [List.length_drop] at hhead
    omega
  · have hdrop : (line++10::rest).drop k = rest.drop (k-line.length-1) := by
      rw [List.drop_append,List.drop_eq_nil_of_le (by omega),List.nil_append]
      obtain ⟨n,hn⟩ : ∃ n, k-line.length = n+1 := ⟨k-line.length-1,by omega⟩
      rw [hn,List.drop_succ_cons]
      rfl
    have hlines := length_linesFrom_le (splitLines ((line++10::rest).drop k)).2 chunks
    have hrest := List.count_eq_zero_of_not_mem (clean_rest ((line++10::rest).drop k))
    have hfewer : ((line++10::rest).drop k).count 10 ≤ rest.count 10 := by
      rw [hdrop]
      exact (List.drop_sublist _ _).count_le 10
    have hlen := congrArg List.length heq
    rw [List.length_append,length_lines,length_lines] at hlen
    simp only [List.count_append,List.count_cons_self] at hlen hlines
    omega

theorem linesFrom_eq_iff (hbuf : 10 ∉ buf)
    (hlines : ∀ line ∈ (splitLines (buf++chunks.flatten)).1, line.length < maxLineBuf) :
    linesFrom buf chunks = (splitLines (buf++chunks.flatten)).1 ↔ Fitting buf chunks := by
  induction chunks generalizing buf with
  | nil => simp [linesFrom,splitLines_clean hbuf,Fitting]
  | cons chunk chunks ih =>
    rw [fitting_cons hbuf]
    by_cases hlong : maxLineBuf < (buf++chunk).length
    · rw [List.length_append] at hlong
      by_cases hc : 10 ∈ chunk
      · refine iff_of_false (lines_of_overlong (by simp [hc]) (by simpa using hlong)) ?_
        intro h
        exact absurd (h.1 hc) (by omega)
      · -- The unfinished line is too long already, so it is never finished.
        have hrest : 10 ∉ chunks.flatten := by
          intro hm
          obtain ⟨line,rest,hsplit,hline⟩ := List.eq_append_cons_of_mem hm
          have hfirst : 10 ∉ buf++chunk++line := by simp [hbuf,hc,hline]
          rw [List.flatten_cons,← List.append_assoc,hsplit,← List.append_assoc,
            splitLines_line hfirst] at hlines
          have hlt := hlines _ List.mem_cons_self
          rw [List.length_append,List.length_append] at hlt
          omega
        have hall : 10 ∉ (chunk::chunks).flatten := by simp [hc,hrest]
        have hlater : Fitting (splitLines (buf++chunk)).2 chunks := by
          rintro before next after rfl hm
          exact absurd (by simp [hm]) hrest
        have hwhole : 10 ∉ buf++(chunk::chunks).flatten := by
          rw [List.mem_append,not_or]
          exact ⟨hbuf,hall⟩
        rw [linesFrom_clean hbuf hall,splitLines_clean hwhole]
        exact iff_of_true rfl ⟨fun hm => absurd hm hc,hlater⟩
    · rw [not_lt] at hlong
      have hcat : buf++(chunk::chunks).flatten = (buf++chunk)++chunks.flatten := by simp
      rw [hcat,splitLines_append] at hlines ⊢
      have hlater := ih (clean_rest (buf++chunk))
        fun line hm => hlines line (List.mem_append_right _ hm)
      rw [linesFrom,capped_of_le hlong,List.append_cancel_left_eq,hlater]
      rw [List.length_append] at hlong
      exact ⟨fun h => ⟨fun _ => hlong,h⟩,And.right⟩

end

theorem line_detection_iff (chunks : List Bytes)
    (hlines : ∀ line ∈ streamLines chunks, line.length < maxLineBuf) :
    examinedLines chunks = streamLines chunks ↔ Fitting [] chunks :=
  linesFrom_eq_iff (by simp) hlines

theorem line_in_two_chunks_fits : Fitting [] [[104,105],[10]] :=
  (line_detection_iff [[104,105],[10]] (by decide)).mp rfl

def shortLines (n : ℕ) : Bytes := (List.replicate n [97,10]).flatten

theorem splitLines_shortLines (n : ℕ) : splitLines (shortLines n) = (List.replicate n [97],[]) := by
  induction n with
  | zero => rfl
  | succ n ih =>
    have hline : shortLines (n+1) = [97]++10::shortLines n := rfl
    rw [hline,splitLines_line (by decide),ih,List.replicate_succ]

theorem length_shortLines (n : ℕ) : (shortLines n).length = 2*n := by
  rw [shortLines,List.length_flatten,List.map_replicate,List.sum_replicate_nat]
  exact Nat.mul_comm n 2

theorem examined_shortLines {n : ℕ} (h : maxLineBuf < 2*n) :
    examinedLines [shortLines n] ≠ streamLines [shortLines n] := by
  have hpos : 0 < n := by omega
  apply lines_of_overlong
  · refine List.mem_flatten.mpr ⟨[97,10],?_,by decide⟩
    exact List.mem_replicate.mpr ⟨hpos.ne',rfl⟩
  · rwa [List.nil_append,length_shortLines]

theorem short_lines_lost_in_one_chunk :
    (∀ line ∈ streamLines [shortLines 32769], line.length < maxLineBuf) ∧
      (splitLines (shortLines 32769)).2 = [] ∧
      examinedLines [shortLines 32769] ≠ streamLines [shortLines 32769] := by
  refine ⟨?_,by rw [splitLines_shortLines],examined_shortLines (by decide)⟩
  intro line hm
  rw [streamLines,List.flatten_singleton,splitLines_shortLines] at hm
  rw [List.eq_of_mem_replicate hm]
  decide

end Remerge.LineDetection
