import Remerge.BinpkgRepo

/-!
# Which scanned packages a requested atom matches

The server cuts a version off both the scanned file's name and the atom. From an
atom with a version it cuts just that; from an atom without one it may cut a part
of the package's or the category's name.
-/

set_option autoImplicit false

namespace Remerge.PackageMatching
open RustText FileNames PackageNames BinpkgRepo

section
variable {c n : List Char}

theorem slash_not_mem_category (h : isCategory c) : '/' ∉ c := by
  intro hm
  simp only [isCategory,Bool.and_eq_true,List.all_eq_true] at h
  exact absurd (h.1.2 '/' hm) (by decide)

theorem slash_not_mem_name (h : isPackageName n) : '/' ∉ n := by
  intro hm
  simp only [isPackageName,Bool.and_eq_true,List.all_eq_true] at h
  exact absurd (h.1.1.2 '/' hm) (by decide)

theorem category_cons (h : isCategory c) :
    ∃ d ds, c = d::ds ∧ operatorChars.contains d = false := by
  simp only [isCategory,Bool.and_eq_true,List.all_eq_true,decide_eq_true_eq] at h
  cases c with
  | nil => exact absurd rfl h.1.1
  | cons d ds =>
    refine ⟨d,ds,rfl,?_⟩
    have hd := h.1.2 d (by simp)
    rw [← Bool.not_eq_true]
    intro hop
    have hno : (operatorChars.all fun o => !categoryChar o) := by decide
    have hother := List.all_eq_true.mp hno d (by simpa using hop)
    simp [hd] at hother

theorem slash_inj {a b u v : List Char} (ha : '/' ∉ a) (hb : '/' ∉ b) :
    a++ '/'::u = b++ '/'::v ↔ a = b ∧ u = v := by
  rw [append_cons_eq_iff]
  constructor
  · rintro (h | ⟨x,rfl,-⟩ | ⟨x,rfl,-⟩)
    · exact h
    · simp at hb
    · simp at ha
  · exact .inl

theorem cutVersion_version {v : List Char} (h : isVersion v) (front : List Char) :
    cutVersion (front++ '-'::v) = some front := by
  obtain ⟨d,ds,rfl,hd⟩ := isVersion_cons h
  exact cutVersion_append front hd (cutVersion_eq_none_iff.mpr (noHyphenDigit_of_isVersion h))

theorem noHyphenDigit_slash : NoHyphenDigit (c++ '/'::n) ↔ NoHyphenDigit c ∧ NoHyphenDigit n := by
  constructor
  · intro h
    refine ⟨fun front back d hc => ?_,fun front back d hn => ?_⟩
    · exact h front (back++ '/'::n) d (by simp [hc])
    · exact h (c++ '/'::front) back d (by simp [hn])
  · rintro ⟨hc,hn⟩ front back d he
    rcases List.append_eq_append_iff.mp he with ⟨x,-,hx⟩ | ⟨x,hfront,hx⟩
    · cases x with
      | nil => simp at hx
      | cons e x => exact hn x back d (List.cons.inj hx).2
    · match x with
      | [] => simp at hx
      | [e] =>
        rw [(List.cons.inj (List.cons.inj hx).2).1]
        decide
      | e::e'::x =>
        simp only [List.cons_append,List.cons.injEq] at hx
        rw [hx.2.1]
        exact hc front x e' (by rw [hfront,hx.1])

def Extends (name' name : List Char) : Prop :=
  ∃ d rest, name' = name++ '-'::d::rest ∧ d.isDigit ∧ NoHyphenDigit (d::rest)

theorem not_extends_self (name : List Char) : ¬Extends name name := by
  rintro ⟨d,rest,h,-⟩
  have hlen := congrArg List.length h
  simp at hlen

theorem cutVersion_atom {c' n' front : List Char} (hc : '/' ∉ c) (hc' : '/' ∉ c')
    (h : cutVersion (c'++ '/'::n') = some front) : front = c++ '/'::n ↔ c = c' ∧ Extends n' n := by
  constructor
  · rintro rfl
    obtain ⟨d,rest,he,hd,hrest⟩ := cutVersion_eq_some_iff.mp h
    rw [List.append_assoc,List.cons_append] at he
    obtain ⟨rfl,hn⟩ := (slash_inj hc' hc).mp he
    exact ⟨rfl,d,rest,hn,hd,hrest⟩
  · rintro ⟨rfl,d,rest,rfl,hd,hrest⟩
    have hcut := cutVersion_append (c++ '/'::n) hd (cutVersion_eq_none_iff.mpr hrest)
    rw [List.append_assoc,List.cons_append,h] at hcut
    exact Option.some.inj hcut

end

variable {c v : String} {ext : List Char}

theorem trimOperators_category (h : isCategory c.toList) (rest : String) :
    trimOperators (c++rest) = c++rest := by
  obtain ⟨d,ds,hc,hd⟩ := category_cons h
  rw [trimOperators,String.toList_append,hc,List.cons_append,List.dropWhile_cons,
    if_neg (by simpa using hd),← List.cons_append,← hc,← String.toList_append,
    String.ofList_toList]

def versionOperators : List String := ["<","<=","=","~",">=",">"]

theorem trimOperators_operator {op : String} (hop : op ∈ versionOperators)
    (h : isCategory c.toList) (rest : String) : trimOperators (op++(c++rest)) = c++rest := by
  have hall : ∀ o ∈ versionOperators, o.toList.all (operatorChars.contains ·) := by
    decide
  have hdrop : (op++(c++rest)).toList.dropWhile (operatorChars.contains ·) =
      (c++rest).toList.dropWhile (operatorChars.contains ·) := by
    rw [String.toList_append,List.dropWhile_append_of_pos]
    intro a ha
    exact List.all_eq_true.mp (hall op hop) a ha
  rw [trimOperators,hdrop]
  exact trimOperators_category h rest

theorem extractPackageBase_version (h : isVersion v.toList) (front : String) :
    extractPackageBase (front++"-"++v) = front := by
  have htext : (front++"-"++v).toList = front.toList++ '-'::v.toList := by simp
  rw [extractPackageBase,htext,cutVersion_version h]
  simp

theorem stripSuffix_append (suffix front : List Char) :
    stripSuffix suffix (front++suffix) = some front := by
  have hsuffix : suffix.isSuffixOf (front++suffix) := by
    rw [List.isSuffixOf_iff_suffix]
    exact List.suffix_append front suffix
  rw [stripSuffix,if_pos hsuffix]
  simp

theorem stripSuffix_tbz2 (front : List Char) :
    stripSuffix gpkgSuffix (front++tbz2Suffix) = none := by
  rw [stripSuffix,if_neg]
  rw [List.isSuffixOf_iff_suffix]
  rintro ⟨x,hx⟩
  have hlast := congrArg List.getLast? hx
  simp [gpkgSuffix,tbz2Suffix] at hlast

def packageSuffixes : List (List Char) := [gpkgSuffix,tbz2Suffix]

theorem nameWithoutExt_append (h : ext ∈ packageSuffixes) (front : List Char) :
    nameWithoutExt (front++ext) = front := by
  rcases List.mem_cons.mp h with rfl | h
  · simp [nameWithoutExt,stripSuffix_append]
  · rw [List.mem_singleton.mp h,nameWithoutExt,stripSuffix_tbz2,stripSuffix_append]
    rfl

theorem cpvOf_file {category file : FileName} {n : String} (hext : ext ∈ packageSuffixes)
    (hfile : file.text.toList = (n++"-"++v).toList++ext) :
    cpvOf (some category) file = category.text++"/"++n++"-"++v := by
  simp only [cpvOf,hfile,nameWithoutExt_append hext,String.ofList_toList,String.append_assoc]

theorem slash_text_inj {a b u : String} (ha : '/' ∉ a.toList) (hb : '/' ∉ b.toList) :
    a++"/"++u = b++"/"++v ↔ a = b ∧ u = v := by
  have htext : ∀ x y : String, (x++"/"++y).toList = x.toList++ '/'::y.toList := by simp
  rw [← String.toList_inj,htext,htext,slash_inj ha hb,String.toList_inj,String.toList_inj]

/-- Nothing of the requested name looks like a version, or the scanned package is
neither the requested one nor the one with the rest of the name. -/
def Recognisable (category name category' name' : String) : Prop :=
  (NoHyphenDigit category'.toList ∧ NoHyphenDigit name'.toList) ∨
    ¬(category = category' ∧ (name = name' ∨ Extends name'.toList name.toList))

theorem and_iff_and_iff {a b e : Prop} (h : b → ¬e) : (a ∧ e ↔ a ∧ b) ↔ ¬(a ∧ (b ∨ e)) := by
  tauto

variable {category file : FileName} {name version : String} {ext : List Char}

theorem matchesAtom_plain {category' name' : String} (hc : '/' ∉ category.text.toList)
    (hc' : isCategory category'.toList) (hv : isVersion version.toList)
    (hext : ext ∈ packageSuffixes)
    (hfile : file.text.toList = (name++"-"++version).toList++ext) :
    ((matchesAtom (cpvOf (some category) file) (category'++"/"++name') ↔
        category.text = category' ∧ name = name') ↔
      Recognisable category.text name category' name') := by
  have hbase : extractPackageBase (cpvOf (some category) file) = category.text++"/"++name := by
    rw [cpvOf_file hext hfile]
    exact extractPackageBase_version hv _
  have hslash := slash_not_mem_category hc'
  have htext : (category'++"/"++name').toList = category'.toList++ '/'::name'.toList := by simp
  rw [matchesAtom,beq_iff_eq,hbase,String.append_assoc,trimOperators_category hc',
    ← String.append_assoc]
  cases hcut : cutVersion (category'.toList++ '/'::name'.toList) with
  | none =>
    have hplain := noHyphenDigit_slash.mp (cutVersion_eq_none_iff.mp hcut)
    rw [extractPackageBase,htext,hcut,Option.getD_none,← htext,String.ofList_toList,
      slash_text_inj hslash hc]
    refine iff_of_true ?_ (.inl hplain)
    exact ⟨fun h => ⟨h.1.symm,h.2.symm⟩,fun h => ⟨h.1.symm,h.2.symm⟩⟩
  | some front =>
    have hnot : ¬(NoHyphenDigit category'.toList ∧ NoHyphenDigit name'.toList) := by
      rw [← noHyphenDigit_slash,← cutVersion_eq_none_iff,hcut]
      simp
    have hfront : extractPackageBase (category'++"/"++name') = category.text++"/"++name ↔
        category.text = category' ∧ Extends name'.toList name.toList := by
      have hatom := cutVersion_atom (n := name.toList) hc hslash hcut
      rw [String.toList_inj] at hatom
      rw [extractPackageBase,htext,hcut,Option.getD_some,← String.toList_inj,String.toList_ofList]
      simpa using hatom
    rw [hfront,Recognisable,or_iff_right hnot]
    refine and_iff_and_iff ?_
    rintro rfl
    exact not_extends_self _

theorem matchesAtom_versioned {category' name' version' op : String}
    (hc : '/' ∉ category.text.toList) (hc' : isCategory category'.toList)
    (hv : isVersion version.toList) (hv' : isVersion version'.toList)
    (hop : op ∈ versionOperators) (hext : ext ∈ packageSuffixes)
    (hfile : file.text.toList = (name++"-"++version).toList++ext) :
    matchesAtom (cpvOf (some category) file) (op++(category'++"/"++name'++"-"++version')) ↔
      category.text = category' ∧ name = name' := by
  have hbase : extractPackageBase (cpvOf (some category) file) = category.text++"/"++name := by
    rw [cpvOf_file hext hfile]
    exact extractPackageBase_version hv _
  have hatom : extractPackageBase (trimOperators
      (op++(category'++"/"++name'++"-"++version'))) = category'++"/"++name' := by
    have hassoc : category'++"/"++name'++"-"++version' =
        category'++("/"++name'++"-"++version') := by simp only [String.append_assoc]
    rw [hassoc,trimOperators_operator hop hc',← hassoc]
    exact extractPackageBase_version hv' _
  rw [matchesAtom,beq_iff_eq,hbase,hatom,slash_text_inj (slash_not_mem_category hc') hc]
  exact ⟨fun h => ⟨h.1.symm,h.2.symm⟩,fun h => ⟨h.1.symm,h.2.symm⟩⟩

/-- A scanned package is matched to an atom without a version exactly when it
should be, if and only if it is recognisable; with a version it always is. -/
theorem requested_packages_recognised_iff (category file : FileName)
    (name version category' name' version' op : String) (ext : List Char)
    (hext : ext ∈ packageSuffixes)
    (hfile : file.text.toList = (name++"-"++version).toList++ext)
    (hv : isVersion version.toList) (hc' : isCategory category'.toList)
    (hv' : isVersion version'.toList) (hop : op ∈ versionOperators) :
    ((matchesAtom (cpvOf (some category) file) (category'++"/"++name') ↔
        category.text = category' ∧ name = name') ↔
      Recognisable category.text name category' name') ∧
    (matchesAtom (cpvOf (some category) file)
        (op++(category'++"/"++name'++"-"++version')) ↔
      category.text = category' ∧ name = name') :=
  ⟨matchesAtom_plain category.text_ne.1 hc' hv hext hfile,
    matchesAtom_versioned category.text_ne.1 hc' hv hv' hop hext hfile⟩

def devLibs : FileName := ⟨"dev-libs",by decide⟩

def opensslFile : FileName := ⟨"openssl-3.0.13-r2.gpkg.tar",by decide⟩

theorem openssl_recognised :
    matchesAtom (cpvOf (some devLibs) opensslFile) "dev-libs/openssl" = true ∧
      matchesAtom (cpvOf (some devLibs) opensslFile) ">=dev-libs/openssl-1.1_rc2" = true := by
  have h := requested_packages_recognised_iff devLibs opensslFile "openssl" "3.0.13-r2" "dev-libs"
    "openssl" "1.1_rc2" ">=" gpkgSuffix (by decide) (by decide) (by decide)
    (by decide) (by decide) (by decide)
  have hplain : NoHyphenDigit "dev-libs".toList ∧ NoHyphenDigit "openssl".toList := by
    rw [← cutVersion_eq_none_iff,← cutVersion_eq_none_iff]
    decide
  exact ⟨(h.1.mpr (.inl hplain)).mpr ⟨rfl,rfl⟩,h.2.mpr ⟨rfl,rfl⟩⟩

def mediaFonts : FileName := ⟨"media-fonts",by decide⟩

def adobeFile : FileName := ⟨"font-adobe-100dpi-1.0.3.gpkg.tar",by decide⟩

def otherAdobeFile : FileName := ⟨"font-adobe-1.0.3.gpkg.tar",by decide⟩

/-- The resolution in the name of a font package is taken for its version: the
package is not found, and one of another name is. -/
theorem font_package_not_recognised :
    isCategory "media-fonts".toList ∧ isPackageName "font-adobe-100dpi".toList ∧
      isPackageName "font-adobe".toList ∧ isVersion "1.0.3".toList ∧
      matchesAtom (cpvOf (some mediaFonts) adobeFile) "media-fonts/font-adobe-100dpi" = false ∧
      matchesAtom (cpvOf (some mediaFonts) otherAdobeFile) "media-fonts/font-adobe-100dpi" =
        true := by
  decide

end Remerge.PackageMatching
