import Remerge.ServerState

/-!
# Package atoms

The server checks every atom of a submission character by character.
`validateAtom_ok` is the exact language of the check: sets, qualified atoms
with an optional operator, and bare package names.
-/

set_option autoImplicit false

namespace Remerge.AtomValidation
open ServerState

inductive AtomValidationError where
  | empty
  | dangerousCharacters
  | invalidFormat (message : String)
  deriving DecidableEq, Repr

def AtomValidationError.text : AtomValidationError → String
  | .empty => "atom is empty"
  | .dangerousCharacters => "atom contains dangerous shell metacharacters"
  | .invalidFormat message => s!"invalid atom format: {message}"

def shellChars : List Char := "`$\\\"';&|()\x7b\x7d\n\r\x00".toList

def nameChar (c : Char) : Bool := c.isAlphanum || c == '-' || c == '_'

def packageChar (c : Char) : Bool :=
  c.isAlphanum || c == '-' || c == '_' || c == '.' || c == '+' || c == '*'

def versionOperators : List (List Char) :=
  [['>','='],['<','='],['='],['>'],['<'],['~']]

def stripOperator (atom : List Char) : List Char :=
  (versionOperators.findSome? fun o => o.isPrefixOf? atom).getD atom

/-- `str::split_once`. -/
def splitOnce (c : Char) : List Char → Option (List Char × List Char)
  | [] => none
  | x::rest =>
    if x = c then some ([],rest)
    else (splitOnce c rest).map fun parts => (x::parts.1,parts.2)

def validatePackageName (package : List Char) : Except AtomValidationError Unit :=
  if package = [] then .error (.invalidFormat "empty package name")
  else if package.all packageChar = false then
    .error (.invalidFormat "invalid package name characters")
  else .ok ()

def validateSetName (setName : List Char) : Except AtomValidationError Unit :=
  if setName = [] then .error (.invalidFormat "empty set name")
  else if setName.all nameChar = false then
    .error (.invalidFormat "invalid set name characters")
  else .ok ()

def validateQualified (category package : List Char) : Except AtomValidationError Unit :=
  if package.contains '/' then .error (.invalidFormat "too many '/' separators")
  else if category = [] then .error (.invalidFormat "empty category")
  else if category.all nameChar = false then
    .error (.invalidFormat "invalid category characters")
  else if package = [] then .error (.invalidFormat "empty package name")
  else validatePackageName package

def validateChars (atom : List Char) : Except AtomValidationError Unit :=
  if atom = [] then .error .empty
  else if atom.any shellChars.contains then .error .dangerousCharacters
  else match atom with
    | '@'::setName => validateSetName setName
    | _ =>
      match splitOnce '/' (stripOperator atom) with
      | some (category,package) => validateQualified category package
      | none =>
        if stripOperator atom ≠ atom then .error (.invalidFormat
          "version operators require a qualified category/package atom")
        else validatePackageName (stripOperator atom)

def validateAtom (atom : String) : Except AtomValidationError Unit := validateChars atom.toList

/-- What an atom may look like. -/
inductive AtomForm : List Char → Prop where
  | set {name : List Char} (nonempty : name ≠ []) (chars : name.all nameChar) :
      AtomForm ('@'::name)
  | qualified {operator category package : List Char}
      (known : operator = [] ∨ operator ∈ versionOperators) (hc : category ≠ [])
      (categoryChars : category.all nameChar) (hp : package ≠ [])
      (packageChars : package.all packageChar) :
      AtomForm (operator++(category ++ '/'::package))
  | plain {package : List Char} (nonempty : package ≠ [])
      (chars : package.all packageChar) : AtomForm package

variable {c : Char} {cs : List Char}

theorem packageChar_of_nameChar (h : nameChar c) : packageChar c := by
  unfold nameChar at h
  unfold packageChar
  simp only [Bool.or_eq_true,beq_iff_eq] at h ⊢
  tauto

variable {front package atom : List Char}

theorem splitOnce_some {back : List Char} (h : splitOnce c cs = some (front,back)) :
    cs = front++c::back := by
  induction cs generalizing front with
  | nil => cases h
  | cons x cs ih =>
    unfold splitOnce at h
    by_cases hx : x = c
    · rw [if_pos hx] at h
      cases h
      rw [hx]
      rfl
    · rw [if_neg hx] at h
      obtain ⟨⟨front',back'⟩,hs,he⟩ := Option.map_eq_some_iff.mp h
      cases he
      rw [ih hs]
      rfl

theorem splitOnce_append (back : List Char) (h : c ∉ front) :
    splitOnce c (front++c::back) = some (front,back) := by
  induction front with
  | nil => simp [splitOnce]
  | cons x front ih =>
    simp only [List.mem_cons,not_or] at h
    have hx : ¬ x = c := fun he => h.1 he.symm
    simp [splitOnce,hx,ih h.2]

theorem splitOnce_none (h : c ∉ cs) : splitOnce c cs = none := by
  induction cs with
  | nil => rfl
  | cons x cs ih =>
    simp only [List.mem_cons,not_or] at h
    have hx : ¬ x = c := fun he => h.1 he.symm
    simp [splitOnce,hx,ih h.2]

theorem validatePackageName_ok :
    validatePackageName package = .ok () ↔ package ≠ [] ∧ package.all packageChar := by
  unfold validatePackageName
  split_ifs with hp hc <;> simp_all

theorem validateSetName_ok {setName : List Char} :
    validateSetName setName = .ok () ↔ setName ≠ [] ∧ setName.all nameChar := by
  unfold validateSetName
  split_ifs with hp hc <;> simp_all

theorem validateQualified_ok {category : List Char}
    (h : validateQualified category package = .ok ()) :
    category ≠ [] ∧ category.all nameChar ∧ package ≠ [] ∧ package.all packageChar := by
  unfold validateQualified at h
  split_ifs at h with hs hc hn hp
  exact ⟨hc,by simpa using hn,hp,(validatePackageName_ok.mp h).2⟩

theorem stripOperator_eq (atom : List Char) :
    ∃ operator, (operator = [] ∨ operator ∈ versionOperators) ∧
      atom = operator++stripOperator atom := by
  unfold stripOperator
  cases hf : versionOperators.findSome? fun o => o.isPrefixOf? atom with
  | none => exact ⟨[],.inl rfl,rfl⟩
  | some rest =>
    obtain ⟨o,ho,hr⟩ := List.exists_of_findSome?_eq_some hf
    exact ⟨o,.inr ho,(List.isPrefixOf?_eq_some_iff_append_eq.mp hr).symm⟩

theorem atomForm_of_ok (h : validateChars atom = .ok ()) : AtomForm atom := by
  unfold validateChars at h
  by_cases he : atom = []
  · rw [if_pos he] at h
    cases h
  rw [if_neg he] at h
  by_cases hd : atom.any shellChars.contains
  · rw [if_pos hd] at h
    cases h
  rw [if_neg hd] at h
  split at h
  · next setName =>
    obtain ⟨hn,hc⟩ := validateSetName_ok.mp h
    exact .set hn hc
  · obtain ⟨operator,hknown,heq⟩ := stripOperator_eq atom
    split at h
    · next category package hs =>
      obtain ⟨hc,hcc,hp,hpc⟩ := validateQualified_ok h
      rw [heq,splitOnce_some hs]
      exact .qualified hknown hc hcc hp hpc
    · by_cases hstrip : stripOperator atom ≠ atom
      · rw [if_pos hstrip] at h
        cases h
      · rw [if_neg hstrip,not_not.mp hstrip] at h
        obtain ⟨hp,hpc⟩ := validatePackageName_ok.mp h
        exact .plain hp hpc

/-- The characters that end a name: shell characters, operators, `@` and `/`. -/
theorem packageChar_ne {d : Char} (hd : d ∈ shellChars++['@','/','=','<','>','~'])
    (h : packageChar c) : c ≠ d := by
  rintro rfl
  have hall : (shellChars++['@','/','=','<','>','~']).all (fun d => !packageChar d) := by
    decide
  have hnot := List.all_eq_true.mp hall c hd
  simp [h] at hnot

theorem not_shell_of_all (h : cs.all packageChar) : cs.any shellChars.contains = false := by
  rw [List.any_eq_false]
  intro c hc hs
  have hmem : c ∈ shellChars := List.contains_iff_mem.mp hs
  exact packageChar_ne (List.mem_append_left _ hmem) (List.all_eq_true.mp h c hc) rfl

theorem not_slash_of_all (h : cs.all packageChar) : '/' ∉ cs := by
  intro hm
  exact packageChar_ne (by decide) (List.all_eq_true.mp h '/' hm) rfl

theorem all_packageChar_of_nameChar (h : cs.all nameChar) : cs.all packageChar :=
  List.all_eq_true.mpr fun c hc => packageChar_of_nameChar (List.all_eq_true.mp h c hc)

theorem stripOperator_append {operator : List Char} (rest : List Char)
    (known : operator = [] ∨ operator ∈ versionOperators) (hc : packageChar c) :
    stripOperator (operator++c::rest) = c::rest := by
  have heq : c ≠ '=' := packageChar_ne (by decide) hc
  have hlt : c ≠ '<' := packageChar_ne (by decide) hc
  have hgt : c ≠ '>' := packageChar_ne (by decide) hc
  have htilde : c ≠ '~' := packageChar_ne (by decide) hc
  have hops : operator ∈ []::versionOperators := by simpa using known
  simp only [versionOperators,List.mem_cons,List.not_mem_nil,or_false] at hops
  rcases hops with rfl | rfl | rfl | rfl | rfl | rfl | rfl <;>
    simp [stripOperator,versionOperators,List.isPrefixOf?,heq.symm,hlt.symm,hgt.symm,htilde.symm]

theorem ok_of_atomForm (h : AtomForm atom) : validateChars atom = .ok () := by
  cases h with
  | @set name hn hc =>
    have hshell := not_shell_of_all (all_packageChar_of_nameChar hc)
    have hat : shellChars.contains '@' = false := by decide
    have hclean : ¬ ('@'::name).any shellChars.contains := by
      rw [List.any_cons,hat,hshell]
      decide
    unfold validateChars
    rw [if_neg (by simp),if_neg hclean]
    exact validateSetName_ok.mpr ⟨hn,hc⟩
  | @qualified operator category package known hc hcc hp hpc =>
    have hcat := all_packageChar_of_nameChar hcc
    have hsplit : splitOnce '/' (category ++ '/'::package) = some (category,package) :=
      splitOnce_append package (not_slash_of_all hcat)
    have hq : validateQualified category package = .ok () := by
      have hslash : ¬ package.contains '/' := by
        simpa using not_slash_of_all hpc
      unfold validateQualified
      rw [if_neg hslash,if_neg hc,if_neg (by simp [hcc]),if_neg hp]
      exact validatePackageName_ok.mpr ⟨hp,hpc⟩
    have hclean : ¬ (operator++(category ++ '/'::package)).any shellChars.contains := by
      have hop : operator.any shellChars.contains = false := by
        have hall : ([]::versionOperators).all (fun o => !o.any shellChars.contains) := by
          decide
        have hmem : operator ∈ []::versionOperators := by simpa using known
        simpa using List.all_eq_true.mp hall operator hmem
      have hslash : shellChars.contains '/' = false := by decide
      rw [List.any_append,List.any_append,List.any_cons,hop,not_shell_of_all hcat,hslash,
        not_shell_of_all hpc]
      decide
    cases category with
    | nil => exact absurd rfl hc
    | cons c category =>
      have hfirst : packageChar c := List.all_eq_true.mp hcat c (by simp)
      have hstrip := stripOperator_append (category ++ '/'::package) known hfirst
      have hstart : ∀ setName, operator++(c::category ++ '/'::package) ≠ '@'::setName := by
        intro setName he
        have hops : operator ∈ []::versionOperators := by simpa using known
        simp only [versionOperators,List.mem_cons,List.not_mem_nil,or_false] at hops
        rcases hops with rfl | rfl | rfl | rfl | rfl | rfl | rfl <;>
          simp only [List.nil_append,List.cons_append,List.cons.injEq] at he
        · exact packageChar_ne (by decide) hfirst he.1
        all_goals exact absurd he.1 (by decide)
      unfold validateChars
      rw [if_neg (by simp),if_neg hclean]
      split
      · next setName he => exact absurd he (hstart setName)
      · rw [List.cons_append,hstrip,← List.cons_append,hsplit]
        exact hq
  | plain hp hpc =>
    cases atom with
    | nil => exact absurd rfl hp
    | cons c rest =>
      have hfirst : packageChar c := List.all_eq_true.mp hpc c (by simp)
      have hstrip : stripOperator (c::rest) = c::rest :=
        stripOperator_append rest (.inl rfl) hfirst
      have hshell := not_shell_of_all hpc
      unfold validateChars
      rw [if_neg (by simp),if_neg (by simp only [hshell]; decide)]
      split
      · next setName he =>
        have hat : c = '@' := (List.cons.inj he).1
        exact absurd hat (packageChar_ne (by decide) hfirst)
      · rw [hstrip,splitOnce_none (not_slash_of_all hpc)]
        simpa using validatePackageName_ok.mpr ⟨hp,hpc⟩

theorem validateAtom_ok (atom : String) : validateAtom atom = .ok () ↔ AtomForm atom.toList :=
  ⟨atomForm_of_ok,ok_of_atomForm⟩

end Remerge.AtomValidation
