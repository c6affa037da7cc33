import Remerge.MakeConfTrip

/-!
# Rendered make.conf assignments

A value may stand between double quotes with four characters escaped, between
single quotes, or bare. Whatever is chosen for each assignment, and whether a
newline or a space comes after it, the parser recovers the values.
-/

set_option autoImplicit false

namespace Remerge.MakeConfText
open RustText SnapshotTypes MakeConfVars MakeConfTrip

def escape (v : List Char) : List Char :=
  v.flatMap fun c => if escapable c then ['\\',c] else [c]

inductive Renders (v : List Char) : List Char → Prop where
  | double : Renders v ('"'::(escape v++['"']))
  | single (quote : '\'' ∉ v) (break_ : ¬['\\','\n'] <:+: v) : Renders v ('\''::(v++['\'']))
  | bare (nonempty : v ≠ [])
      (h : ∀ c ∈ v, isWhitespace c = false ∧ c ∉ ['"','\'','#','\\']) : Renders v v

inductive Text : List Char → List (String × String) → Prop where
  | empty : Text [] []
  | comment {text rest : List Char} {es : List (String × String)} (line : '\n' ∉ text)
      (h : Text rest es) : Text ('#'::(text++ '\n'::rest)) es
  | lastComment {text : List Char} (line : '\n' ∉ text) : Text ('#'::text) []
  | assign {name value : String} {r rest : List Char} {es : List (String × String)} {c : Char}
      (hn : validName name) (hr : Renders value.toList r) (hc : c = '\n' ∨ c = ' ')
      (h : Text rest es) : Text (name.toList++ '='::(r++c::rest)) ((name,value)::es)
  | last {name value : String} {r : List Char} (hn : validName name)
      (hr : Renders value.toList r) : Text (name.toList++ '='::r) [(name,value)]

section
variable {c quote : Char} {v r : List Char} {rest : List Char}

theorem scanQuoted_push (hq : c ≠ quote) (hb : c = '\\' → quote ≠ '"' ∧ rest.head? ≠ some '\n') :
    scanQuoted quote (c::rest) = (scanQuoted quote rest).push c := by
  cases rest with
  | nil => simp [scanQuoted,hq,Scan.push]
  | cons next rest =>
    rw [scanQuoted,if_neg hq,if_neg,if_neg]
    · rintro ⟨h,h',-⟩
      exact (hb h).1 h'
    · rintro ⟨h,h'⟩
      exact (hb h).2 (congrArg some h')

theorem scanQuoted_escape (v rest : List Char) :
    scanQuoted '"' (escape v++ '"'::rest) = ⟨v,rest,true⟩ := by
  induction v with
  | nil => exact scanQuoted_end _ _
  | cons c v ih =>
    rw [escape,List.flatMap_cons,← escape,List.append_assoc]
    split
    · next h =>
      have hn : c ≠ '\n' := by
        rintro rfl
        exact absurd h (by decide)
      simp [scanQuoted,hn,h,ih,Scan.push]
    · next h =>
      have hne : c ≠ '"' ∧ c ≠ '\\' := by
        constructor <;>
        · rintro rfl
          exact h (by decide)
      rw [List.singleton_append,scanQuoted_push hne.1 fun e => absurd e hne.2,ih]
      rfl

theorem scanQuoted_single (v rest : List Char) (hq : '\'' ∉ v) (hb : ¬['\\','\n'] <:+: v) :
    scanQuoted '\'' (v++ '\''::rest) = ⟨v,rest,true⟩ := by
  induction v with
  | nil => exact scanQuoted_end _ _
  | cons c v ih =>
    rw [List.mem_cons,not_or] at hq
    rw [List.cons_append,scanQuoted_push (Ne.symm hq.1),
      ih hq.2 fun h => hb (h.trans (List.suffix_cons c v).isInfix)]
    · rfl
    · rintro rfl
      refine ⟨by decide,fun h => ?_⟩
      cases v with
      | nil => cases h
      | cons next v =>
        cases h
        exact hb (List.prefix_append ['\\','\n'] v).isInfix

def Ends (rest : List Char) : Prop := ∀ c ∈ rest.head?, isWhitespace c

theorem scanBare_ends (h : Ends rest) : scanBare rest = ⟨[],rest,true⟩ := by
  match rest with
  | [] => rfl
  | [c] => simp [scanBare,h c rfl]
  | c::next::rest =>
    have hc := h c rfl
    have hne : c ≠ '\\' := by
      rintro rfl
      exact absurd hc (by decide)
    simp [scanBare,hc,hne]

theorem scanBare_append (h : Ends rest)
    (hv : ∀ c ∈ v, isWhitespace c = false ∧ c ∉ ['"','\'','#','\\']) :
    scanBare (v++rest) = ⟨v,rest,true⟩ := by
  induction v with
  | nil => exact scanBare_ends h
  | cons c v ih =>
    obtain ⟨hw,hc⟩ := hv c (by simp)
    simp only [List.mem_cons,List.not_mem_nil,or_false,not_or] at hc
    have hrest := ih fun c' h' => hv c' (by simp [h'])
    rw [List.cons_append]
    cases htail : v++rest with
    | nil =>
      rw [htail] at hrest
      cases hrest
      simp [scanBare,hw,hc]
    | cons next tail =>
      rw [htail] at hrest
      simp [scanBare,hw,hc,hrest,Scan.push]

theorem parseValue_renders (rest : List Char) (hr : Renders v r) (h : Ends rest) :
    skipBlanks (r++rest) = r++rest ∧ parseValue (r++rest) = ⟨v,rest,true⟩ := by
  cases hr with
  | double =>
    refine ⟨rfl,?_⟩
    simp [parseValue,scanQuoted_escape]
  | single hq hb =>
    refine ⟨rfl,?_⟩
    simp [parseValue,scanQuoted_single v rest hq hb]
  | bare nonempty hv =>
    obtain ⟨c,v',rfl⟩ := List.exists_cons_of_ne_nil nonempty
    obtain ⟨hw,hc⟩ := hv c (by simp)
    simp only [List.mem_cons,List.not_mem_nil,or_false,not_or] at hc
    constructor
    · simp [skipBlanks,hw]
    · have hs := scanBare_append h hv
      rw [List.cons_append] at hs ⊢
      rw [parseValue,if_neg (by simp [hc]),hs]

end

theorem parseFrom_text {cs : List Char} {es : List (String × String)} (h : Text cs es)
    (vars : BTreeMap String) :
    parseFrom cs vars = es.foldl (fun m e => m.insert e.1 e.2) vars := by
  induction h generalizing vars with
  | empty => rfl
  | comment line _ ih => rw [parseFrom_comment _ _ _ line,ih]
  | @lastComment text line =>
    have hend : toLineEnd ('#'::text) = [] := by
      have hall : ∀ c ∈ '#'::text, decide (c ≠ '\n') := by
        intro c hc
        rcases List.mem_cons.mp hc with rfl | hc
        · decide
        · exact decide_eq_true fun e => line (e ▸ hc)
      have hdrop : ('#'::text++[]).dropWhile (· ≠ '\n') = [] := List.dropWhile_append_of_pos hall
      rwa [List.append_nil] at hdrop
    rw [parseFrom_item (by decide)]
    simp only [parseItem,if_pos,hend,assign]
    rfl
  | @assign name value r rest es c hn hr hc h ih =>
    have hw : isWhitespace c := by rcases hc with rfl | rfl <;> decide
    obtain ⟨hs,hv⟩ := parseValue_renders (c::rest) hr fun c' h' => by
      cases h'
      exact hw
    rw [parseFrom_assigned vars hn hs hv,parseFrom_space hw,ih,String.ofList_toList]
    rfl
  | last hn hr =>
    obtain ⟨hs,hv⟩ := parseValue_renders [] hr fun _ h => by cases h
    rw [List.append_nil] at hs hv
    rw [parseFrom_assigned vars hn hs hv,String.ofList_toList]
    rfl

/-- Every variable has the value of its last assignment. -/
theorem rendered_assignments_recovered (content : String) (es : List (String × String))
    (h : Text content.toList es) (name : String) :
    (parseMakeConfVars content)[name]? = lastValue name es := by
  rw [MakeConfWriter.parseMakeConfVars_eq,parseFrom_text h]
  exact (getElem?_insertAll id name es ∅).trans (by simp)

theorem mixed_renderings_recovered :
    (parseMakeConfVars "# c\nA=x B='$y'\nA=\"a\\\"b\"")["A"]? = some "a\"b" := by
  have text : Text "# c\nA=x B='$y'\nA=\"a\\\"b\"".toList [("A","x"),("B","$y"),("A","a\"b")] := by
    refine @Text.comment [' ','c'] _ _ (by decide) ?_
    refine @Text.assign "A" "x" ['x'] _ _ ' ' (by decide) ?_ (.inr rfl) ?_
    · exact .bare (by decide) (List.forall_mem_singleton.mpr (by decide))
    refine @Text.assign "B" "$y" ['\'','$','y','\''] _ _ '\n' (by decide) ?_ (.inl rfl) ?_
    · exact .single (by decide) (by decide)
    exact @Text.last "A" "a\"b" _ (by decide) .double
  exact (rendered_assignments_recovered _ _ text "A").trans (by decide)

end Remerge.MakeConfText
