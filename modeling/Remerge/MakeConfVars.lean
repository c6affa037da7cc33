import Remerge.RustText
import Remerge.SnapshotTypes

/-!
# The client's make.conf parser

`parseMakeConfVars` reads assignments character by character: comments, junk up
to the end of a line, and values that are quoted or not. Each turn of its loop
takes at least one character, so the length of the text is enough fuel. A value
between double quotes that never leaves them is read back without the escapes
that the parser removes.
-/

set_option autoImplicit false

namespace Remerge.MakeConfVars
open RustText SnapshotTypes

def isVarStart (ch : Char) : Bool := ch == '_' || ch.isAlpha

def isVarChar (ch : Char) : Bool := ch == '_' || ch.isAlphanum

def toLineEnd (chars : List Char) : List Char := chars.dropWhile (· ≠ '\n')

def skipBlanks (chars : List Char) : List Char :=
  chars.dropWhile fun c => isWhitespace c && c ≠ '\n'

/-- What a backslash protects between double quotes. -/
def escapable (c : Char) : Bool := c == '\\' || c == '"' || c == '$' || c == '`'

structure Scan where
  value : List Char
  rest : List Char
  terminated : Bool
  deriving DecidableEq, Repr

def Scan.push (ch : Char) (s : Scan) : Scan := { s with value := ch::s.value }

def scanQuoted (quote : Char) : List Char → Scan
  | [] => ⟨[],[],false⟩
  | [ch] => if ch = quote then ⟨[],[],true⟩ else ⟨[ch],[],false⟩
  | ch::next::rest =>
    if ch = quote then ⟨[],next::rest,true⟩
    else if ch = '\\' ∧ next = '\n' then scanQuoted quote rest
    else if ch = '\\' ∧ quote = '"' ∧ escapable next then (scanQuoted quote rest).push next
    else (scanQuoted quote (next::rest)).push ch

def scanBare : List Char → Scan
  | [] => ⟨[],[],true⟩
  | [ch] => if isWhitespace ch || ch == '#' then ⟨[],[ch],true⟩ else ⟨[ch],[],true⟩
  | ch::next::rest =>
    if ch = '\\' ∧ next = '\n' then scanBare rest
    else if isWhitespace ch || ch == '#' then ⟨[],ch::next::rest,true⟩
    else (scanBare (next::rest)).push ch

/-- A quote that is never closed becomes part of the value. -/
def parseValue : List Char → Scan
  | [] => ⟨[],[],true⟩
  | ch::rest =>
    if ch = '"' ∨ ch = '\'' then
      let scan := scanQuoted ch rest
      if scan.terminated then scan else scan.push ch
    else scanBare (ch::rest)

def skipComment (chars : List Char) : List Char :=
  if chars.head? = some '#' then toLineEnd chars else chars

def parseItem (ch : Char) (rest : List Char) : Option (String × String) × List Char :=
  if ch = '#' then (none,toLineEnd (ch::rest))
  else if isVarStart ch = false then (none,toLineEnd (ch::rest))
  else
    let key := ch::rest.takeWhile isVarChar
    match skipBlanks (rest.dropWhile isVarChar) with
    | '='::value =>
      let scan := parseValue (skipBlanks value)
      (some (String.ofList key,String.ofList scan.value),skipComment (skipBlanks scan.rest))
    | other => (none,toLineEnd other)

def assign (vars : BTreeMap String) : Option (String × String) → BTreeMap String
  | none => vars
  | some (key,value) => vars.insert key value

def parseLoop : ℕ → List Char → BTreeMap String → BTreeMap String
  | 0, _, vars => vars
  | fuel+1, chars, vars =>
    match chars.dropWhile isWhitespace with
    | [] => vars
    | ch::rest => parseLoop fuel (parseItem ch rest).2 (assign vars (parseItem ch rest).1)

def parseMakeConfVars (content : String) : BTreeMap String :=
  parseLoop content.toList.length content.toList ∅

theorem length_dropWhile_le (p : Char → Bool) (cs : List Char) :
    (cs.dropWhile p).length ≤ cs.length :=
  (List.dropWhile_sublist p).length_le

theorem length_scanQuoted (quote : Char) (cs : List Char) :
    (scanQuoted quote cs).rest.length ≤ cs.length := by
  fun_induction scanQuoted quote cs with
  | case1 => simp
  | case2 => simp
  | case3 ch h => simp
  | case4 next rest => simp
  | case5 ch next rest h h' ih =>
    simp only [List.length_cons]
    omega
  | case6 ch next rest h h' h'' ih =>
    simp only [Scan.push,List.length_cons]
    omega
  | case7 ch next rest h h' h'' ih =>
    simp only [Scan.push,List.length_cons] at *
    omega

theorem length_scanBare (cs : List Char) : (scanBare cs).rest.length ≤ cs.length := by
  fun_induction scanBare cs with
  | case1 => simp
  | case2 ch h => simp
  | case3 ch h => simp
  | case4 ch next rest h ih =>
    simp only [List.length_cons]
    omega
  | case5 ch next rest h h' => simp
  | case6 ch next rest h h' ih =>
    simp only [Scan.push,List.length_cons] at *
    omega

theorem length_parseValue (cs : List Char) : (parseValue cs).rest.length ≤ cs.length := by
  cases cs with
  | nil => simp [parseValue]
  | cons ch rest =>
    simp only [parseValue]
    split
    · have h := length_scanQuoted ch rest
      split
      · simp only [List.length_cons]
        omega
      · simp only [Scan.push,List.length_cons]
        omega
    · exact length_scanBare _

theorem length_skipComment (cs : List Char) : (skipComment cs).length ≤ cs.length := by
  unfold skipComment
  split
  · exact length_dropWhile_le _ _
  · exact le_refl _

variable {ch : Char} {rest v : List Char} {key : String}

theorem length_toLineEnd_cons (h : isWhitespace ch = false) (rest : List Char) :
    (toLineEnd (ch::rest)).length ≤ rest.length := by
  have hne : ch ≠ '\n' := by
    rintro rfl
    exact absurd h (by decide)
  unfold toLineEnd
  rw [List.dropWhile_cons_of_pos (by simpa using hne)]
  exact length_dropWhile_le _ _

theorem length_parseItem (h : isWhitespace ch = false) (rest : List Char) :
    (parseItem ch rest).2.length ≤ rest.length := by
  unfold parseItem
  split
  · exact length_toLineEnd_cons h rest
  · split
    · exact length_toLineEnd_cons h rest
    · have hkey : (skipBlanks (rest.dropWhile isVarChar)).length ≤ rest.length :=
        Nat.le_trans (length_dropWhile_le _ _) (length_dropWhile_le _ _)
      dsimp only
      split
      · next value heq =>
        rw [heq,List.length_cons] at hkey
        have h1 := length_skipComment (skipBlanks (parseValue (skipBlanks value)).rest)
        have h2 := length_dropWhile_le (fun c => isWhitespace c && c ≠ '\n')
          (parseValue (skipBlanks value)).rest
        have h3 := length_parseValue (skipBlanks value)
        have h4 := length_dropWhile_le (fun c => isWhitespace c && c ≠ '\n') value
        unfold skipBlanks at *
        dsimp only
        omega
      · exact Nat.le_trans (length_dropWhile_le _ _) hkey

theorem not_isWhitespace_of_dropWhile {cs : List Char} (h : cs.dropWhile isWhitespace = ch::rest) :
    isWhitespace ch = false := by
  have hh := List.head?_dropWhile_not isWhitespace cs
  rw [h] at hh
  simpa using hh

theorem parseLoop_fuel (n m : ℕ) (cs : List Char) (vars : BTreeMap String) (hn : cs.length ≤ n)
    (hm : cs.length ≤ m) : parseLoop n cs vars = parseLoop m cs vars := by
  induction n generalizing m cs vars with
  | zero =>
    have hnil : cs = [] := List.length_eq_zero_iff.mp (by omega)
    subst hnil
    cases m <;> rfl
  | succ n ih =>
    cases m with
    | zero =>
      have hnil : cs = [] := List.length_eq_zero_iff.mp (by omega)
      subst hnil
      rfl
    | succ m =>
      unfold parseLoop
      split
      · rfl
      · next ch rest heq =>
        have hlen := length_dropWhile_le isWhitespace cs
        rw [heq,List.length_cons] at hlen
        have hitem := length_parseItem (not_isWhitespace_of_dropWhile heq) rest
        exact ih m _ _ (by omega) (by omega)

def parseFrom (chars : List Char) (vars : BTreeMap String) : BTreeMap String :=
  parseLoop chars.length chars vars

theorem parseFrom_space {c : Char} (h : isWhitespace c) (cs : List Char)
    (vars : BTreeMap String) : parseFrom (c::cs) vars = parseFrom cs vars := by
  unfold parseFrom
  rw [← parseLoop_fuel (cs.length+1) cs.length cs vars (by omega) (le_refl _)]
  simp only [List.length_cons,parseLoop,List.dropWhile_cons_of_pos h]

theorem parseFrom_item (h : isWhitespace ch = false) (rest : List Char) (vars : BTreeMap String) :
    parseFrom (ch::rest) vars =
      parseFrom (parseItem ch rest).2 (assign vars (parseItem ch rest).1) := by
  have hdrop : (ch::rest).dropWhile isWhitespace = ch::rest :=
    List.dropWhile_cons_of_neg (by rw [h]; exact Bool.false_ne_true)
  unfold parseFrom
  rw [← parseLoop_fuel rest.length _ _ _ (length_parseItem h rest) (le_refl _)]
  simp only [List.length_cons,parseLoop,hdrop]

/-- The text with the escapes removed as the parser does between double quotes. -/
def unquote : List Char → List Char
  | [] => []
  | [ch] => [ch]
  | ch::next::rest =>
    if ch = '\\' ∧ next = '\n' then unquote rest
    else if ch = '\\' ∧ escapable next then next::unquote rest
    else ch::unquote (next::rest)

/-- Between double quotes the text does not end them, and does not protect the
quote that follows it. -/
def contained : List Char → Bool
  | [] => true
  | [ch] => ch ≠ '"' && ch ≠ '\\'
  | ch::next::rest =>
    if ch = '"' then false
    else if ch = '\\' ∧ (next = '\n' ∨ escapable next) then contained rest
    else contained (next::rest)

/-- No backslash of the text is an escape for the parser. -/
def plain : List Char → Bool
  | [] => true
  | [_] => true
  | ch::next::rest =>
    !(ch == '\\' && (next == '\n' || escapable next)) && plain (next::rest)

theorem scanQuoted_end (quote : Char) (rest : List Char) :
    scanQuoted quote (quote::rest) = ⟨[],rest,true⟩ := by
  cases rest <;> simp [scanQuoted]

theorem scanQuoted_contained (v rest : List Char) (h : contained v) :
    scanQuoted '"' (v++ '"'::rest) = ⟨unquote v,rest,true⟩ := by
  fun_induction contained v with
  | case1 => exact scanQuoted_end _ _
  | case2 ch =>
    simp only [ne_eq,Bool.and_eq_true,decide_eq_true_eq] at h
    simp [scanQuoted,h.1,h.2,scanQuoted_end,Scan.push,unquote]
  | case3 next tail => cases h
  | case4 ch next tail hq he ih =>
    obtain ⟨rfl,he⟩ := he
    rcases he with rfl | he
    · simp [scanQuoted,ih h,unquote]
    · have hn : next ≠ '\n' := by
        rintro rfl
        exact absurd he (by decide)
      simp [scanQuoted,ih h,unquote,he,hn,Scan.push]
  | case5 ch next tail hq he ih =>
    have hn : ¬(ch = '\\' ∧ next = '\n') := fun hc => he ⟨hc.1,.inl hc.2⟩
    have hesc : ¬(ch = '\\' ∧ escapable next) := fun hc => he ⟨hc.1,.inr hc.2⟩
    have hrest := ih h
    rw [List.cons_append] at hrest
    simp only [List.cons_append,scanQuoted,if_neg hq,if_neg hn,true_and,if_neg hesc,hrest,
      Scan.push,unquote]

theorem length_unquote_le (v : List Char) : (unquote v).length ≤ v.length := by
  fun_induction unquote v with
  | case1 | case2 ch => exact le_refl _
  | case3 ch next rest h ih | case4 ch next rest h h' ih =>
    simp only [List.length_cons]
    omega
  | case5 ch next rest h h' ih =>
    simp only [List.length_cons] at *
    omega

/-- The parser gives a text back exactly if it takes no escape in it. -/
theorem unquote_eq_self_iff (v : List Char) : unquote v = v ↔ plain v := by
  fun_induction plain v with
  | case1 => simp [unquote]
  | case2 ch => simp [unquote]
  | case3 ch next rest ih =>
    simp only [unquote]
    have hlen := length_unquote_le rest
    split
    · next h =>
      obtain ⟨rfl,rfl⟩ := h
      constructor
      · intro he
        have := congrArg List.length he
        simp only [List.length_cons] at this
        omega
      · simp
    · split
      · next h =>
        obtain ⟨rfl,he⟩ := h
        constructor
        · intro heq
          have := congrArg List.length heq
          simp only [List.length_cons] at this
          omega
        · simp [he]
      · next hn he =>
        have hkeep : (!(ch == '\\' && (next == '\n' || escapable next))) := by
          by_cases hc : ch = '\\'
          · have h1 : next ≠ '\n' := fun h => hn ⟨hc,h⟩
            have h2 : escapable next = false := by
              by_contra hb
              exact he ⟨hc,by simpa using hb⟩
            simp [h1,h2]
          · simp [hc]
        rw [hkeep,Bool.true_and,List.cons.injEq,← ih]
        simp

def validName (name : String) : Bool :=
  match name.toList with
  | [] => false
  | ch::rest => isVarStart ch && rest.all isVarChar

theorem not_isWhitespace_of_isVarStart (h : isVarStart ch) : isWhitespace ch = false := by
  unfold isVarStart Char.isAlpha Char.isUpper Char.isLower at h
  simp only [Bool.or_eq_true,Bool.and_eq_true,decide_eq_true_eq,beq_iff_eq,
    UInt32.le_iff_toNat_le] at h
  rcases h with rfl | h
  · decide
  · unfold isWhitespace Char.toNat
    simp at h ⊢
    omega

theorem parseFrom_newline (cs : List Char) (vars : BTreeMap String) :
    parseFrom ('\n'::cs) vars = parseFrom cs vars := parseFrom_space (by decide) cs vars

theorem toLineEnd_append (text rest : List Char) (h : '\n' ∉ text) :
    toLineEnd (text++ '\n'::rest) = '\n'::rest := by
  induction text with
  | nil => rfl
  | cons c cs ih =>
    simp only [List.mem_cons,not_or] at h
    unfold toLineEnd at *
    rw [List.cons_append,List.dropWhile_cons_of_pos (by simpa using Ne.symm h.1)]
    exact ih h.2

theorem parseFrom_comment (text rest : List Char) (vars : BTreeMap String) (h : '\n' ∉ text) :
    parseFrom ('#'::(text++ '\n'::rest)) vars = parseFrom rest vars := by
  rw [parseFrom_item (by decide)]
  have hend : toLineEnd ('#'::(text++ '\n'::rest)) = '\n'::rest :=
    toLineEnd_append ('#'::text) rest (by simp [h])
  simp only [parseItem,if_pos,hend,assign,parseFrom_newline]

theorem parseFrom_skipBlanks (cs : List Char) (vars : BTreeMap String) :
    parseFrom (skipBlanks cs) vars = parseFrom cs vars := by
  unfold skipBlanks
  induction cs with
  | nil => rfl
  | cons c cs ih =>
    rw [List.dropWhile_cons]
    split
    · next h => rw [ih,parseFrom_space (Bool.and_eq_true_iff.mp h).1]
    · rfl

theorem parseFrom_skipComment (cs : List Char) (vars : BTreeMap String) :
    parseFrom (skipComment cs) vars = parseFrom cs vars := by
  unfold skipComment
  split
  · next h =>
    obtain ⟨cs,rfl⟩ := List.head?_eq_some_iff.mp h
    rw [parseFrom_item (by decide) cs]
    rfl
  · rfl

theorem parseFrom_assigned {t : List Char} (vars : BTreeMap String) (hk : validName key)
    (ht : skipBlanks t = t) (hv : parseValue t = ⟨v,rest,true⟩) :
    parseFrom (key.toList++ '='::t) vars = parseFrom rest (vars.insert key (String.ofList v)) := by
  unfold validName at hk
  cases hkey : key.toList with
  | nil =>
    rw [hkey] at hk
    cases hk
  | cons ch ks =>
    rw [hkey] at hk
    simp only [Bool.and_eq_true] at hk
    have hhash : ch ≠ '#' := by
      rintro rfl
      exact absurd hk.1 (by decide)
    have htake : (ks++ '='::t).takeWhile isVarChar = ks := by
      rw [List.takeWhile_append_of_pos (by simpa using hk.2)]
      simp [isVarChar]
    have hdrop : (ks++ '='::t).dropWhile isVarChar = '='::t := by
      rw [List.dropWhile_append_of_pos (by simpa using hk.2)]
      rfl
    have hitem : parseItem ch (ks++ '='::t) =
        (some (key,String.ofList v),skipComment (skipBlanks rest)) := by
      unfold parseItem
      rw [if_neg hhash,if_neg (by simp [hk.1]),htake,hdrop,← hkey]
      change (some (String.ofList key.toList,String.ofList (parseValue (skipBlanks t)).value),
        skipComment (skipBlanks (parseValue (skipBlanks t)).rest)) = _
      rw [ht,hv,String.ofList_toList]
    rw [List.cons_append,parseFrom_item (not_isWhitespace_of_isVarStart hk.1),hitem]
    simp only [assign,parseFrom_skipComment,parseFrom_skipBlanks]

theorem parseFrom_assignment (rest : List Char) (vars : BTreeMap String) (hk : validName key)
    (hv : contained v) :
    parseFrom (key.toList++ '=':: '"'::(v++ '"':: '\n'::rest)) vars =
      parseFrom rest (vars.insert key (String.ofList (unquote v))) := by
  have hvalue : parseValue ('"'::(v++ '"':: '\n'::rest)) = ⟨unquote v,'\n'::rest,true⟩ := by
    simp [parseValue,scanQuoted_contained v _ hv]
  rw [parseFrom_assigned vars hk rfl hvalue,parseFrom_newline]

end Remerge.MakeConfVars
