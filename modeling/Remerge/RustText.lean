import Mathlib.Data.Nat.Notation

/-!
# String functions of the Rust standard library

The functions on `str` that the command line tools use, over the characters of
a string. Whitespace is the Unicode property White_Space, as in `char`.
-/

set_option autoImplicit false

namespace Remerge.RustText

/-- `char::is_whitespace`. -/
def isWhitespace (c : Char) : Bool :=
  (9 ≤ c.toNat && c.toNat ≤ 13) || c.toNat == 0x20 || c.toNat == 0x85 || c.toNat == 0xA0 ||
    c.toNat == 0x1680 || (0x2000 ≤ c.toNat && c.toNat ≤ 0x200A) || c.toNat == 0x2028 ||
    c.toNat == 0x2029 || c.toNat == 0x202F || c.toNat == 0x205F || c.toNat == 0x3000

/-- `str::split_whitespace`. -/
def splitWhitespace (s : String) : List String :=
  ((s.toList.splitOnP isWhitespace).filter (· ≠ [])).map String.ofList

def trimList (cs : List Char) : List Char :=
  ((cs.dropWhile isWhitespace).reverse.dropWhile isWhitespace).reverse

/-- `str::trim`. -/
def trim (s : String) : String := String.ofList (trimList s.toList)

def dropCarriageReturn (line : List Char) : List Char :=
  if line.getLast? = some '\r' then line.dropLast else line

/-- `str::lines`: no line follows a final newline, and a last line without a
newline keeps its carriage return. -/
def lines (s : String) : List String :=
  let parts := s.toList.splitOn '\n'
  let ended := parts.dropLast.map dropCarriageReturn
  (ended++(parts.getLast?.filter (· ≠ [])).toList).map String.ofList

def toAsciiLowercase (s : String) : String := String.ofList (s.toList.map Char.toLower)

def eqIgnoreAsciiCase (a b : String) : Bool := toAsciiLowercase a == toAsciiLowercase b

/-- `str::trim_end_matches` of a slash. -/
def trimEndSlashes (cs : List Char) : List Char := (cs.reverse.dropWhile (· == '/')).reverse

def startsWith (s start : String) : Bool := start.toList.isPrefixOf s.toList

/-- `str::strip_prefix`. -/
def stripStart (s start : String) : Option String :=
  (start.toList.isPrefixOf? s.toList).map String.ofList

def occurs (part : List Char) : List Char → Bool
  | [] => part.isEmpty
  | c::cs => part.isPrefixOf (c::cs) || occurs part cs

/-- `str::contains` of a string. -/
def containsText (s part : String) : Bool := occurs part.toList s.toList

/-- `[T]::join` with one space. -/
def joinWords (words : List String) : String := String.intercalate " " words

section

/-- A run of characters that `split_whitespace` returns whole. -/
def IsWord (w : List Char) : Prop := w ≠ [] ∧ ∀ c ∈ w, isWhitespace c = false

def words (cs : List Char) : List (List Char) := (cs.splitOnP isWhitespace).filter (· ≠ [])

theorem splitWhitespace_eq (s : String) :
    splitWhitespace s = (words s.toList).map String.ofList := rfl

@[simp] theorem words_nil : words [] = [] := by
  simp [words]

variable {c : Char} {w : List Char}

theorem words_append_space (cs ds : List Char) (h : isWhitespace c) :
    words (cs++c::ds) = words cs++words ds := by
  simp [words,List.splitOnP_append_cons cs ds h]

theorem words_space (cs : List Char) (h : isWhitespace c) :
    words (c::cs) = words cs := words_append_space [] cs h

theorem words_of_isWord (h : IsWord w) : words w = [w] := by
  simp [words,List.splitOnP_eq_singleton h.2,h.1]

variable {p : Char → Bool}

theorem of_mem_splitOnP (cs : List Char) (hw : w ∈ cs.splitOnP p) (hc : c ∈ w) :
    c ∈ cs ∧ p c = false := by
  induction cs generalizing w with
  | nil =>
    rw [List.splitOnP_nil,List.mem_singleton] at hw
    simp [hw] at hc
  | cons d cs ih =>
    have later : ∀ v ∈ cs.splitOnP p, c ∈ v → c ∈ d::cs ∧ p c = false := fun v hv hcv =>
      ⟨List.mem_cons_of_mem d (ih hv hcv).1,(ih hv hcv).2⟩
    rw [List.splitOnP_cons_eq_if_modifyHead] at hw
    split at hw
    · rcases List.mem_cons.mp hw with hw | hw
      · simp [hw] at hc
      · exact later w hw hc
    · next hd =>
      cases hs : cs.splitOnP p with
      | nil => exact absurd hs (List.splitOnP_ne_nil _ _)
      | cons first others =>
        rw [hs,List.modifyHead_cons] at hw
        rcases List.mem_cons.mp hw with hw | hw
        · subst hw
          rcases List.mem_cons.mp hc with hc | hc
          · simpa [hc] using hd
          · exact later first (by simp [hs]) hc
        · exact later w (by simp [hs,hw]) hc

theorem not_of_mem_splitOnP (cs : List Char) (hw : w ∈ cs.splitOnP p) (hc : c ∈ w) :
    p c = false := (of_mem_splitOnP cs hw hc).2

theorem isWord_of_mem_words {cs : List Char} (h : w ∈ words cs) : IsWord w := by
  rw [words,List.mem_filter] at h
  exact ⟨by simpa using h.2,fun c hc => not_of_mem_splitOnP cs h.1 hc⟩

theorem words_intercalate_eq (ws : List (List Char)) :
    words ([' '].intercalate ws) = ws.flatMap words := by
  induction ws with
  | nil => simp
  | cons w ws ih =>
    cases ws with
    | nil => simp
    | cons v vs =>
      rw [List.intercalate_cons_cons,List.append_assoc,List.singleton_append,
        words_append_space _ _ (by decide),ih]
      rfl

theorem words_intercalate (ws : List (List Char)) (h : ∀ w ∈ ws, IsWord w) :
    words ([' '].intercalate ws) = ws := by
  rw [words_intercalate_eq]
  induction ws with
  | nil => rfl
  | cons w ws ih =>
    rw [List.flatMap_cons,words_of_isWord (h w (by simp)),ih fun v hv => h v (by simp [hv]),
      List.singleton_append]

theorem words_eq_nil_iff (cs : List Char) : words cs = [] ↔ ∀ c ∈ cs, isWhitespace c := by
  induction cs with
  | nil => simp
  | cons d cs ih =>
    cases hd : isWhitespace d with
    | true => simp [words_space cs hd,ih,hd]
    | false =>
      cases hs : cs.splitOnP isWhitespace with
      | nil => exact absurd hs (List.splitOnP_ne_nil _ _)
      | cons first others =>
        simp [words,List.splitOnP_cons_eq_if_modifyHead,hd,hs]

theorem words_cons (h : isWhitespace c = false) (cs : List Char) :
    ∃ w ws, words (c::cs) = (c::w)::ws := by
  cases hs : cs.splitOnP isWhitespace with
  | nil => exact absurd hs (List.splitOnP_ne_nil _ _)
  | cons first others =>
    exact ⟨first,others.filter (· ≠ []),by
      simp [words,List.splitOnP_cons_eq_if_modifyHead,h,hs]⟩

theorem toList_joinWords (ws : List String) :
    (joinWords ws).toList = [' '].intercalate (ws.map String.toList) := by
  simp [joinWords]

theorem isWord_of_mem_splitWhitespace {s w : String} (h : w ∈ splitWhitespace s) :
    IsWord w.toList := by
  rw [splitWhitespace_eq,List.mem_map] at h
  obtain ⟨cs,hcs,rfl⟩ := h
  simpa using isWord_of_mem_words hcs

theorem splitWhitespace_joinWords_eq (ws : List String) :
    splitWhitespace (joinWords ws) = ws.flatMap splitWhitespace := by
  rw [splitWhitespace_eq,toList_joinWords,words_intercalate_eq,List.flatMap_map,List.map_flatMap]
  rfl

theorem splitWhitespace_eq_nil_iff (s : String) :
    splitWhitespace s = [] ↔ ∀ c ∈ s.toList, isWhitespace c := by
  rw [splitWhitespace_eq,List.map_eq_nil_iff,words_eq_nil_iff]

theorem splitWhitespace_joinWords (ws : List String) (h : ∀ w ∈ ws, IsWord w.toList) :
    splitWhitespace (joinWords ws) = ws := by
  rw [splitWhitespace_eq,toList_joinWords,words_intercalate _ (by simpa using h),List.map_map]
  simp

end

variable {cs : List Char} {c : Char} {s : String} {ws : List (List Char)}

theorem trimList_of_ends (hfirst : ∀ c, cs.head? = some c → isWhitespace c = false)
    (hlast : ∀ c, cs.getLast? = some c → isWhitespace c = false) : trimList cs = cs := by
  have hfront : cs.dropWhile isWhitespace = cs := by
    cases cs with
    | nil => rfl
    | cons c cs => simp [hfirst c rfl]
  have hback : cs.reverse.dropWhile isWhitespace = cs.reverse := by
    rcases List.eq_nil_or_concat cs with rfl | ⟨front,c,rfl⟩
    · rfl
    · simp [hlast c (by simp)]
  rw [trimList,hfront,hback,List.reverse_reverse]

theorem head_dropWhile (cs : List Char) (h : (cs.dropWhile isWhitespace).head? = some c) :
    isWhitespace c = false := by
  have hne : cs.dropWhile isWhitespace ≠ [] := by
    intro hnil
    simp [hnil] at h
  have hhead := List.head_dropWhile_not isWhitespace hne
  rw [List.head?_eq_some_head hne,Option.some.injEq] at h
  rwa [h] at hhead

theorem head_trimList (cs : List Char) (h : (trimList cs).head? = some c) :
    isWhitespace c = false := by
  refine head_dropWhile cs ?_
  obtain ⟨tail,htail⟩ : trimList cs <+: cs.dropWhile isWhitespace := by
    rw [trimList,← List.reverse_suffix,List.reverse_reverse]
    exact List.dropWhile_suffix _
  rw [← htail,List.head?_append,h]
  rfl

theorem getLast_trimList (cs : List Char) (h : (trimList cs).getLast? = some c) :
    isWhitespace c = false := by
  rw [trimList,List.getLast?_reverse] at h
  exact head_dropWhile _ h

@[simp] theorem trimList_trimList (cs : List Char) : trimList (trimList cs) = trimList cs :=
  trimList_of_ends (fun _ h => head_trimList cs h) fun _ h => getLast_trimList cs h

theorem splitWhitespace_trim (h : trim s ≠ "") : splitWhitespace (trim s) ≠ [] := by
  intro hnil
  rw [splitWhitespace_eq_nil_iff,trim,String.toList_ofList] at hnil
  cases ht : trimList s.toList with
  | nil => exact h (by rw [trim,ht])
  | cons c cs =>
    have hblank := hnil c (by simp [ht])
    rw [head_trimList s.toList (c := c) (by simp [ht])] at hblank
    cases hblank

theorem mem_intercalate (h : c ∈ [' '].intercalate ws) : c = ' ' ∨ ∃ w ∈ ws, c ∈ w := by
  induction ws with
  | nil => simp at h
  | cons w ws ih =>
    cases ws with
    | nil => exact .inr ⟨w,by simpa using h⟩
    | cons v vs =>
      rw [List.intercalate_cons_cons,List.append_assoc,List.singleton_append,List.mem_append,
        List.mem_cons] at h
      rcases h with h | h | h
      · exact .inr ⟨w,by simp,h⟩
      · exact .inl h
      · rcases ih h with h | ⟨u,hu,hc⟩
        · exact .inl h
        · exact .inr ⟨u,by simp [hu],hc⟩

theorem head_intercalate {w : List Char} (h : w ≠ []) (ws : List (List Char)) :
    ([' '].intercalate (w::ws)).head? = w.head? := by
  cases ws with
  | nil => simp
  | cons v vs =>
    rw [List.intercalate_cons_cons,List.append_assoc,List.head?_append,List.head?_eq_some_head h]
    rfl

theorem getLast_intercalate (h : ∀ w ∈ ws, IsWord w)
    (hc : ([' '].intercalate ws).getLast? = some c) :
    isWhitespace c = false := by
  induction ws with
  | nil => simp at hc
  | cons w ws ih =>
    have hw := h w (by simp)
    cases ws with
    | nil => exact hw.2 c (List.mem_of_getLast? (by simpa using hc))
    | cons v vs =>
      rw [List.intercalate_cons_cons,List.append_assoc,List.singleton_append,
        List.getLast?_append,List.getLast?_cons] at hc
      cases hlast : ([' '].intercalate (v::vs)).getLast? with
      | none =>
        have hv := head_intercalate (h v (by simp)).1 vs
        rw [List.getLast?_eq_none_iff.mp hlast] at hv
        exact absurd (List.head?_eq_none_iff.mp hv.symm) (h v (by simp)).1
      | some d =>
        refine ih (fun u hu => h u (by simp [hu])) ?_
        simpa [hlast] using hc

theorem trim_joinWords (ws : List String) (h : ∀ w ∈ ws, IsWord w.toList) :
    trim (joinWords ws) = joinWords ws := by
  have hws : ∀ w ∈ ws.map String.toList, IsWord w := by simpa using h
  have ht : trimList (joinWords ws).toList = (joinWords ws).toList := by
    refine trimList_of_ends (fun c hc => ?_) fun c hc => ?_
    · cases ws with
      | nil => simp [joinWords] at hc
      | cons w ws =>
        have hw := h w (by simp)
        rw [toList_joinWords,List.map_cons,head_intercalate hw.1] at hc
        exact hw.2 c (List.mem_of_head? hc)
    · rw [toList_joinWords] at hc
      exact getLast_intercalate hws hc
  rw [trim,ht,String.ofList_toList]

theorem toList_join_ended (ls : List String) :
    (String.join (ls.map (·++"\n"))).toList = ls.flatMap fun l => l.toList++['\n'] := by
  induction ls with
  | nil => rfl
  | cons l ls ih => simp [← ih]

theorem splitOn_ended (ls : List (List Char)) (h : ∀ l ∈ ls, '\n' ∉ l) :
    (ls.flatMap fun l => l++['\n']).splitOn '\n' = ls++[[]] := by
  induction ls with
  | nil => rfl
  | cons l ls ih =>
    rw [List.flatMap_cons,List.append_assoc,List.singleton_append,
      List.splitOn_append_cons_self_of_not_mem (h l (by simp)),ih fun v hv => h v (by simp [hv]),
      List.cons_append]

theorem lines_join (ls : List String) (h : ∀ l ∈ ls, '\n' ∉ l.toList) :
    lines (String.join (ls.map (·++"\n"))) =
      ls.map fun l => String.ofList (dropCarriageReturn l.toList) := by
  have hsplit : (String.join (ls.map (·++"\n"))).toList.splitOn '\n' =
      ls.map String.toList++[[]] := by
    rw [toList_join_ended,← splitOn_ended (ls.map String.toList) (by simpa using h),
      List.flatMap_map]
  rw [lines,hsplit]
  simp [Function.comp_def,Option.filter]

theorem lines_join_ended (ls : List String)
    (h : ∀ l ∈ ls, '\n' ∉ l.toList ∧ l.toList.getLast? ≠ some '\r') :
    lines (String.join (ls.map (·++"\n"))) = ls := by
  rw [lines_join ls fun l hl => (h l hl).1]
  conv => rhs; rw [← List.map_id ls]
  exact List.map_congr_left fun l hl => by simp [dropCarriageReturn,(h l hl).2]

theorem newline_not_mem_lines {l : String} (h : l ∈ lines s) : '\n' ∉ l.toList := by
  have parts : ∀ p ∈ s.toList.splitOn '\n', '\n' ∉ p := fun p hp hc => by
    simpa using not_of_mem_splitOnP _ hp hc
  simp only [lines,List.map_append,List.map_map,List.mem_append,List.mem_map] at h
  rcases h with ⟨p,hp,rfl⟩ | ⟨p,hp,rfl⟩
  · have hsub : (dropCarriageReturn p).Sublist p := by
      unfold dropCarriageReturn
      split
      · exact List.dropLast_sublist p
      · exact .refl p
    intro hc
    rw [Function.comp_apply,String.toList_ofList] at hc
    exact parts p ((List.dropLast_sublist _).subset hp) (hsub.subset hc)
  · rw [Option.mem_toList,Option.filter_eq_some_iff] at hp
    rw [String.toList_ofList]
    exact parts p (List.mem_of_getLast? hp.1)

theorem mem_of_occurs {part : List Char} (hc : c ∈ part) (h : occurs part cs) : c ∈ cs := by
  induction cs with
  | nil =>
    rw [occurs,List.isEmpty_iff] at h
    rw [h] at hc
    cases hc
  | cons d cs ih =>
    rw [occurs,Bool.or_eq_true] at h
    rcases h with h | h
    · exact (List.isPrefixOf_iff_prefix.mp h).subset hc
    · exact List.mem_cons_of_mem _ (ih h)

theorem append_cons_eq_iff {α : Type} {a b u v : List α} {c : α} :
    a++c::u = b++c::v ↔ a = b ∧ u = v ∨ (∃ x, b = a++c::x ∧ u = x++c::v) ∨
      ∃ x, a = b++c::x ∧ v = x++c::u := by
  rw [List.append_eq_append_iff]
  constructor
  · rintro (⟨x,hb,hu⟩ | ⟨x,ha,hv⟩)
    · cases x with
      | nil => exact .inl ⟨by simpa using hb.symm,by simpa using hu⟩
      | cons d x =>
        simp only [List.cons_append,List.cons.injEq] at hu
        exact .inr (.inl ⟨x,by rw [hb,hu.1],hu.2⟩)
    · cases x with
      | nil => exact .inl ⟨by simpa using ha,by simpa using hv.symm⟩
      | cons d x =>
        simp only [List.cons_append,List.cons.injEq] at hv
        exact .inr (.inr ⟨x,by rw [ha,hv.1],hv.2⟩)
  · rintro (⟨rfl,rfl⟩ | ⟨x,rfl,rfl⟩ | ⟨x,rfl,rfl⟩)
    · exact .inl ⟨[],by simp⟩
    · exact .inl ⟨c::x,by simp⟩
    · exact .inr ⟨c::x,by simp⟩

theorem joinWords_cons {word : String} {words : List String} (h : words ≠ []) :
    joinWords (word::words) = word++" "++joinWords words := by
  cases words with
  | nil => exact absurd rfl h
  | cons w ws => exact String.intercalate_cons_cons

end Remerge.RustText
