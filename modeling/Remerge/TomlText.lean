import Mathlib.Data.List.Nodup

/-!
# Configuration files with one string per line

The part of TOML that such files use: comments, and keys with a basic or a
literal string. A basic string stands for the text between its quotes only if
no character of it is a quote, a backslash or a control character; otherwise it
ends before, or an escape makes it shorter.
-/

set_option autoImplicit false

namespace Remerge.TomlText

def isControl (c : Char) : Bool := (c.toNat < 32 && c != '\t') || c.toNat == 127

def plainChar (c : Char) : Bool := c != '"' && c != '\\' && !isControl c

def simpleEscape : Char → Option Char
  | 'b' => some (Char.ofNat 8)
  | 't' => some '\t'
  | 'n' => some '\n'
  | 'f' => some (Char.ofNat 12)
  | 'r' => some '\r'
  | '"' => some '"'
  | '\\' => some '\\'
  | _ => none

/-- A basic string from behind its first quote: its value and what follows it. -/
def basicChars : List Char → Option (List Char × List Char)
  | [] => none
  | [c] => if c = '"' then some ([],[]) else none
  | c::d::cs =>
    if c = '"' then some ([],d::cs)
    else if c = '\\' then
      (simpleEscape d).bind fun e => (basicChars cs).map fun r => (e::r.1,r.2)
    else if isControl c then none
    else (basicChars (d::cs)).map fun r => (c::r.1,r.2)

def literalChars : List Char → Option (List Char × List Char)
  | [] => none
  | c::cs =>
    if c = '\'' then some ([],cs)
    else if isControl c then none
    else (literalChars cs).map fun r => (c::r.1,r.2)

def stringValue : List Char → Option (List Char × List Char)
  | '"'::cs => basicChars cs
  | '\''::cs => literalChars cs
  | _ => none

theorem basicChars_plain {s : List Char} (h : s.all plainChar) (rest : List Char) :
    basicChars (s++ '"'::rest) = some (s,rest) := by
  induction s with
  | nil => cases rest <;> simp [basicChars]
  | cons c s ih =>
    obtain ⟨hc,hs⟩ := Bool.and_eq_true_iff.mp h
    simp only [plainChar,Bool.and_eq_true,bne_iff_ne,ne_eq,Bool.not_eq_true'] at hc
    have htail : ∃ d ds, s++ '"'::rest = d::ds := by cases s <;> simp
    obtain ⟨d,ds,hd⟩ := htail
    have hrest := ih hs
    rw [List.cons_append,hd] at *
    simp [basicChars,hc.1.1,hc.1.2,hc.2,hrest]

/-- The value is not longer than what is written for it, and as long only if it
is what is written. -/
theorem basicChars_raw {t v rest : List Char} (h : basicChars t = some (v,rest)) :
    ∃ raw, t = raw++ '"'::rest ∧ v.length ≤ raw.length ∧
      (v.length = raw.length → v = raw ∧ raw.all plainChar) := by
  fun_induction basicChars t generalizing v with
  | case1 => cases h
  | case2 | case4 d cs =>
    cases h
    exact ⟨[],rfl,Nat.le_refl _,fun _ => ⟨rfl,rfl⟩⟩
  | case3 => cases h
  | case5 d cs hq ih =>
    obtain ⟨e,-,he⟩ := Option.bind_eq_some_iff.mp h
    obtain ⟨⟨v',rest'⟩,hr,heq⟩ := Option.map_eq_some_iff.mp he
    cases heq
    obtain ⟨raw,rfl,hle,-⟩ := ih hr
    refine ⟨'\\'::d::raw,rfl,?_,fun hlen => ?_⟩
    · simp only [List.length_cons]
      omega
    · simp only [List.length_cons] at hlen
      omega
  | case6 => cases h
  | case7 c d cs hq hb hc ih =>
    obtain ⟨⟨v',rest'⟩,hr,heq⟩ := Option.map_eq_some_iff.mp h
    cases heq
    obtain ⟨raw,hraw,hle,hsame⟩ := ih hr
    refine ⟨c::raw,by rw [hraw]; rfl,Nat.succ_le_succ hle,fun hlen => ?_⟩
    obtain ⟨rfl,hplain⟩ := hsame (Nat.succ.inj hlen)
    exact ⟨rfl,by simp [plainChar,hq,hb,hc,hplain]⟩

abbrev Entry : Type := List Char × List Char

def blank (c : Char) : Bool := c == ' ' || c == '\t'

def keyChar (c : Char) : Bool := c.isAlphanum || c == '_' || c == '-'

def lineEnd (cs : List Char) : Bool :=
  match cs.dropWhile blank with
  | [] => true
  | c::_ => c == '#'

/-- The key and the string of a line, if it has any. -/
def lineEntry (line : List Char) : Option (List Entry) :=
  if lineEnd line then some []
  else
    let cs := line.dropWhile blank
    match (cs.dropWhile keyChar).dropWhile blank with
    | '='::value =>
      match stringValue (value.dropWhile blank) with
      | some (text,after) =>
        if cs.takeWhile keyChar ≠ [] ∧ lineEnd after = true then
          some [(cs.takeWhile keyChar,text)]
        else none
      | none => none
    | _ => none

def entriesOf : List (List Char) → Option (List Entry)
  | [] => some []
  | line::lines => (lineEntry line).bind fun es => (entriesOf lines).map (es++·)

def document (content : List Char) : Option (List Entry) :=
  (entriesOf (content.splitOn '\n')).filter fun es => (es.map (·.1)).Nodup

variable {es : List Entry} {key : List Char}

theorem entriesOf_append {front : List (List Char)} (h : entriesOf front = some es)
    (back : List (List Char)) : entriesOf (front++back) = (entriesOf back).map (es++·) := by
  induction front generalizing es with
  | nil =>
    cases h
    simp
  | cons line front ih =>
    rw [entriesOf] at h
    obtain ⟨e,he,hm⟩ := Option.bind_eq_some_iff.mp h
    obtain ⟨es',hes,rfl⟩ := Option.map_eq_some_iff.mp hm
    rw [List.cons_append,entriesOf,he,ih hes]
    cases entriesOf back <;> simp

theorem document_eq_some {content : List Char} : document content = some es ↔
    entriesOf (content.splitOn '\n') = some es ∧ (es.map (·.1)).Nodup := by
  simp [document,Option.filter_eq_some_iff]

def written (key text : List Char) : List Char := key++" = \"".toList++text++['"']

theorem keyChar_start {c : Char} (h : keyChar c) : blank c = false ∧ (c == '#') = false := by
  constructor
  · cases hb : blank c with
    | false => rfl
    | true =>
      simp only [blank,Bool.or_eq_true,beq_iff_eq] at hb
      rcases hb with rfl | rfl <;> exact absurd h (by decide)
  · cases hb : c == '#' with
    | false => rfl
    | true =>
      rw [eq_of_beq hb] at h
      exact absurd h (by decide)

theorem lineEntry_key (hkey : key.all keyChar) (hne : key ≠ []) (rest : List Char) :
    lineEntry (key++" = \"".toList++rest) =
      match basicChars rest with
      | some (text,after) => if lineEnd after = true then some [(key,text)] else none
      | none => none := by
  obtain ⟨c,cs,rfl⟩ := List.exists_cons_of_ne_nil hne
  obtain ⟨hblank,hhash⟩ := keyChar_start (List.all_eq_true.mp hkey c List.mem_cons_self)
  have hall := List.all_eq_true.mp hkey
  have hshape : c::cs++" = \"".toList++rest = c::cs++(' ':: '=':: ' ':: '"'::rest) := by simp
  have htake : (c::cs++(' ':: '=':: ' ':: '"'::rest)).takeWhile keyChar = c::cs := by
    rw [List.takeWhile_append_of_pos hall]
    simp [keyChar]
  have hdrop : (c::cs++(' ':: '=':: ' ':: '"'::rest)).dropWhile keyChar =
      ' ':: '=':: ' ':: '"'::rest := by
    rw [List.dropWhile_append_of_pos hall]
    simp [keyChar]
  have hfirst : (c::cs++(' ':: '=':: ' ':: '"'::rest)).dropWhile blank =
      c::cs++(' ':: '=':: ' ':: '"'::rest) := by
    rw [List.cons_append,List.dropWhile_cons_of_neg (by simp [hblank])]
  have hstarts : lineEnd (c::cs++(' ':: '=':: ' ':: '"'::rest)) = false := by
    unfold lineEnd
    rw [hfirst]
    exact hhash
  rw [hshape]
  unfold lineEntry
  simp only [hstarts,Bool.false_eq_true,if_false,hfirst,htake,hdrop]
  simp [blank,stringValue]

theorem lineEntry_written {text : List Char} (hkey : key.all keyChar) (hne : key ≠ [])
    (h : text.all plainChar) : lineEntry (written key text) = some [(key,text)] := by
  rw [written,List.append_assoc,lineEntry_key hkey hne,basicChars_plain h]
  rfl

theorem lineEntry_value {text front : List Char} (hkey : key.all keyChar) (hne : key ≠ [])
    (hfront : front <+: text++['"']) (h : lineEntry (key++" = \"".toList++front) = some es) :
    ∃ value, es = [(key,value)] ∧ (value = text → text.all plainChar) := by
  rw [lineEntry_key hkey hne] at h
  split at h
  · next value after hvalue =>
    split at h
    · refine ⟨value,(Option.some.inj h).symm,?_⟩
      rintro rfl
      obtain ⟨raw,rfl,hle,hsame⟩ := basicChars_raw hvalue
      have hlen := hfront.length_le
      simp only [List.length_append,List.length_cons,List.length_nil] at hlen
      obtain ⟨rfl,hplain⟩ := hsame (by omega)
      exact hplain
    · cases h
  · cases h

end Remerge.TomlText
