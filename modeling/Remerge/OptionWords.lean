import Remerge.SubmittedAtoms
import Remerge.MakeConfWriter

/-!
# Options whose value is a word of its own

Two filters go through a list of words one word at a time: the worker takes the
job and load options out of the client's `MAKEOPTS`, and the client takes the
atoms out of the arguments of `emerge`. Both lists come of a grammar in which
the value of an option may be the next word, and a filter that does not know
the options leaves such a value where it stands.
-/

set_option autoImplicit false

namespace Remerge.OptionWords
open RustText MakeConfWriter EmergePolicy SubmittedAtoms

section
variable {α β : Type*} {l : List α} {f g : α → List β}

theorem length_flatMap_le (h : ∀ a ∈ l, (g a).length ≤ (f a).length) :
    (l.flatMap g).length ≤ (l.flatMap f).length := by
  induction l with
  | nil => exact le_rfl
  | cons a l ih =>
    obtain ⟨ha,hl⟩ := List.forall_mem_cons.mp h
    simpa using Nat.add_le_add ha (ih hl)

theorem flatMap_eq_iff (h : ∀ a ∈ l, (g a).length ≤ (f a).length) :
    l.flatMap f = l.flatMap g ↔ ∀ a ∈ l, f a = g a := by
  refine ⟨fun heq => ?_,List.flatMap_congr⟩
  induction l with
  | nil => simp
  | cons a l ih =>
    obtain ⟨ha,hl⟩ := List.forall_mem_cons.mp h
    rw [List.flatMap_cons,List.flatMap_cons] at heq
    -- no part of the left side is shorter, so that none can be longer
    have hlen := congrArg List.length heq
    have hrest := length_flatMap_le hl
    rw [List.length_append,List.length_append] at hlen
    obtain ⟨hhead,htail⟩ := List.append_inj heq (by omega)
    exact List.forall_mem_cons.mpr ⟨hhead,ih hl htail⟩

/-- A filter leaves of each part what is meant to be kept if it leaves it of the whole. -/
theorem filter_flatMap_eq_iff (p : β → Bool)
    (h : ∀ a ∈ l, ((g a).filter p).length ≤ ((f a).filter p).length) :
    (l.flatMap f).filter p = l.flatMap g ↔ ∀ a ∈ l, (f a).filter p = g a := by
  rw [List.filter_flatMap]
  refine ⟨fun heq a ha => ?_,List.flatMap_congr⟩
  have hpass : ∀ a ∈ l, (g a).filter p = g a := by
    intro a ha
    refine List.filter_eq_self.mpr fun b hb => ?_
    have hmem : b ∈ l.flatMap g := List.mem_flatMap_of_mem ha hb
    rw [← heq] at hmem
    obtain ⟨a',-,hb'⟩ := List.mem_flatMap.mp hmem
    exact (List.mem_filter.mp hb').2
  rw [← List.flatMap_congr hpass] at heq
  exact ((flatMap_eq_iff h).mp heq a ha).trans (hpass a ha)

end

/-- The word that GNU make takes for a job or load option. Other flags may stand
before the letter, as in `-kj4`. -/
inductive ParallelWord where
  | short (flags : String) (letter : Char) (value : String)
  | long (name : String) (value : Option String)

def ParallelWord.text : ParallelWord → String
  | .short flags letter value => "-"++flags++letter.toString++value
  | .long name value => name++(value.map ("="++·)).getD ""

def ParallelWord.kept : ParallelWord → List String
  | .short flags _ _ => if flags = "" then [] else ["-"++flags]
  | .long _ _ => []

/-- The argument of an option may be the next word. -/
inductive MakeOption where
  | parallel (word : ParallelWord) (next : Option String)
  | other (word : String) (arguments : List String)

def MakeOption.words : MakeOption → List String
  | .parallel word next => word.text::next.toList
  | .other word arguments => word::arguments

def MakeOption.kept : MakeOption → List String
  | .parallel word _ => word.kept
  | .other word arguments => word::arguments

def abbreviations (least : ℕ) (name : String) : List String :=
  (name.toList.inits.drop least).map String.ofList

/-- A long option may be cut short as far as no other option starts like it. -/
def parallelNames : List String :=
  "--jobs"::abbreviations 3 "--load-average"++abbreviations 5 "--max-load"

/-- The letters whose argument is the rest of the word. -/
def argumentLetters : List Char := ['C','E','I','O','W','f','o']

def argumentNames : List String :=
  ["directory","file","makefile","include-dir","old-file","assume-old","what-if","new-file",
    "assume-new","eval","jobserver-auth","jobserver-style","sync-mutex"]

def readsParallel (word : String) : Bool := match word.toList with
  | '-':: '-'::name => parallelNames.contains (String.ofList ('-':: '-'::name.takeWhile (· ≠ '=')))
  | '-'::letters => (letters.takeWhile (· ∉ argumentLetters)).any (['j','l'].contains ·)
  | _ => false

def takesNextWord (word : String) : Bool := match word.toList with
  | '-':: '-'::name => name ≠ [] && argumentNames.any (name.isPrefixOf ·.toList)
  | '-'::letters => match letters.dropWhile (· ∉ argumentLetters) with
    | [letter] => letter ≠ 'O'
    | _ => false
  | _ => false

def ParallelWord.Valid : ParallelWord → Prop
  | .short flags letter _ => letter ∈ ['j','l'] ∧
      ∀ c ∈ flags.toList, c ∉ '-':: 'j':: 'l'::argumentLetters
  | .long name _ => name ∈ parallelNames

/-- The option with this word ends there, and make takes the next word for its
value if it is a number of jobs or a load. -/
def ParallelWord.takes (next : String) : ParallelWord → Bool
  | .short _ 'j' "" | .long "--jobs" none =>
    next.toList.head?.any Char.isDigit && next.toList.all Char.isDigit
  | .short _ _ "" | .long _ none => next.toList.head?.any fun c => c.isDigit || c == '.'
  | _ => false

def MakeOption.Valid : MakeOption → Prop
  | .parallel word next => word.Valid ∧ ∀ value ∈ next, word.takes value
  | .other word arguments => readsParallel word = false ∧
      (word = "--" ∨ arguments.length = if takesNextWord word then 1 else 0)

def MakeOption.EndsBefore : MakeOption → MakeOption → Prop
  | .parallel word none, next => ∀ value ∈ next.words.head?, word.takes value = false
  | .parallel _ _, _ => True
  | .other word _, _ => word ≠ "--"

/-- The options are those make reads from their words. -/
structure MakeSyntax (options : List MakeOption) : Prop where
  valid : ∀ option ∈ options, option.Valid
  separate : options.IsChain MakeOption.EndsBefore

def serverOptions (jobs load : Option String) : List String :=
  (jobs.map ("-j"++·)).toList++(load.map ("-l"++·)).toList

/-- The filter sees a job or load option in a word that starts with one of the
four names it knows, and takes every such word for one. -/
def MakeOption.Recognised : MakeOption → Prop
  | .parallel word next => isParallelism word.text ∧ next = none
  | .other word arguments => ∀ w ∈ word::arguments, isParallelism w = false

def isKept (word : String) : Bool := !isParallelism word

variable {option : MakeOption} {word : ParallelWord}

theorem isParallelism_cons {text : String} {c : Char} {rest : List Char}
    (h : text.toList = '-'::c::rest) (hc : c ∉ ['-','j','l']) : isParallelism text = false := by
  simp only [List.mem_cons,List.not_mem_nil,or_false,not_or] at hc
  simp [isParallelism,startsWith,h,List.isPrefixOf,beq_eq_false_iff_ne.mpr (Ne.symm hc.1),
    beq_eq_false_iff_ne.mpr (Ne.symm hc.2.1),beq_eq_false_iff_ne.mpr (Ne.symm hc.2.2)]

theorem isParallelism_of_head {text : String} (h : text.toList.head? ≠ some '-') :
    isParallelism text = false := by
  cases ht : text.toList with
  | nil => simp [isParallelism,startsWith,ht]
  | cons c rest =>
    have hc : ('-' == c) = false := by
      rw [beq_eq_false_iff_ne]
      rintro rfl
      simp [ht] at h
    simp [isParallelism,startsWith,ht,List.isPrefixOf,hc]

theorem isParallelism_taken {value : String} (h : word.takes value) :
    isParallelism value = false := by
  refine isParallelism_of_head fun hv => ?_
  unfold ParallelWord.takes at h
  split at h <;> simp [hv] at h

/-- The filter that drops a word drops nothing else with it. -/
theorem kept_of_isParallelism (h : word.Valid) (hp : isParallelism word.text) : word.kept = [] := by
  cases word with
  | long name value => rfl
  | short flags letter value =>
    cases hf : flags.toList with
    | nil => simp [ParallelWord.kept,String.toList_eq_nil_iff.mp hf]
    | cons c rest =>
      have hc := h.2 c (by simp [hf])
      have htext : (ParallelWord.short flags letter value).text.toList =
          '-'::c::(rest++letter::value.toList) := by simp [ParallelWord.text,hf]
      rw [isParallelism_cons htext fun hm => hc (by simp at hm ⊢; tauto)] at hp
      cases hp

theorem text_not_mem_kept (word : ParallelWord) : word.text ∉ word.kept := by
  cases word with
  | long name value => exact List.not_mem_nil
  | short flags letter value =>
    rw [ParallelWord.kept,ParallelWord.text]
    split
    · exact List.not_mem_nil
    · rw [List.mem_singleton]
      intro he
      have hlen := congrArg (fun s : String => s.toList.length) he
      simp at hlen

theorem filter_words_iff (h : option.Valid) :
    option.words.filter isKept = option.kept ↔ option.Recognised := by
  cases option with
  | parallel word next =>
    have hnext : next.toList.filter isKept = next.toList := by
      refine List.filter_eq_self.mpr fun value hv => ?_
      simp [isKept,isParallelism_taken (h.2 value (Option.mem_toList.mp hv))]
    rw [MakeOption.words,MakeOption.kept,MakeOption.Recognised,List.filter_cons,hnext]
    cases hp : isParallelism word.text with
    | true => cases next <;> simp [isKept,hp,kept_of_isParallelism h.1 hp]
    | false =>
      refine iff_of_false (fun he => text_not_mem_kept word ?_) (by simp)
      rw [← he]
      simp [isKept,hp]
  | other word arguments =>
    rw [MakeOption.words,MakeOption.kept,List.filter_eq_self]
    simp [isKept,MakeOption.Recognised]

theorem length_kept_le (h : option.Valid) :
    (option.kept.filter isKept).length ≤ (option.words.filter isKept).length := by
  cases option with
  | parallel word next =>
    rw [MakeOption.words,MakeOption.kept,List.filter_cons]
    cases hp : isParallelism word.text with
    | true => simp [kept_of_isParallelism h.1 hp]
    | false =>
      have hone : word.kept.length ≤ 1 := by
        cases word with
        | long name value => exact Nat.zero_le 1
        | short flags letter value =>
          rw [ParallelWord.kept]
          split <;> simp
      have hle := List.length_filter_le isKept word.kept
      simp only [isKept,hp,Bool.not_false,if_true,List.length_cons]
      omega
  | other word arguments => exact le_rfl

theorem isWord_kept (h : ∀ word ∈ option.words, IsWord word.toList) :
    ∀ word ∈ option.kept, IsWord word.toList := by
  cases option with
  | other word arguments => exact h
  | parallel word next =>
    have htext := h _ List.mem_cons_self
    cases word with
    | long name value => exact fun word hword => nomatch hword
    | short flags letter value =>
      intro word hword
      simp only [MakeOption.kept,ParallelWord.kept] at hword
      split at hword
      · cases hword
      · obtain rfl := List.mem_singleton.mp hword
        refine ⟨by simp,fun c hc => htext.2 c ?_⟩
        simp only [ParallelWord.text,String.toList_append,List.mem_append] at hc ⊢
        exact .inl (.inl hc)

theorem joinWords_append_inj {xs ys : List String} (hx : ∀ w ∈ xs, IsWord w.toList)
    (hy : ∀ w ∈ ys, IsWord w.toList) (rest : List String) :
    joinWords (xs++rest) = joinWords (ys++rest) ↔ xs = ys := by
  refine ⟨fun heq => ?_,fun heq => congrArg (fun ws => joinWords (ws++rest)) heq⟩
  have hsplit := congrArg splitWhitespace heq
  rw [splitWhitespace_joinWords_eq,splitWhitespace_joinWords_eq,List.flatMap_append,
    List.flatMap_append] at hsplit
  have hcancel := List.append_cancel_right hsplit
  rwa [← splitWhitespace_joinWords_eq,← splitWhitespace_joinWords_eq,splitWhitespace_joinWords xs hx,
    splitWhitespace_joinWords ys hy] at hcancel

/-- The client's job and load options are replaced exactly if the filter knows
every option. -/
theorem overrides_replace_iff (options : List MakeOption) (makeopts : String)
    (jobs load : Option String) (hmake : MakeSyntax options)
    (hwords : splitWhitespace makeopts = options.flatMap MakeOption.words)
    (hset : jobs ≠ none ∨ load ≠ none) :
    buildMakeoptsInner makeopts jobs load =
        joinWords (options.flatMap MakeOption.kept++serverOptions jobs load) ↔
      ∀ option ∈ options, option.Recognised := by
  have hsome : ¬ (jobs = none ∧ load = none) := fun hn => hset.elim (· hn.1) (· hn.2)
  have hbuilt : buildMakeoptsInner makeopts jobs load = joinWords
      ((options.flatMap MakeOption.words).filter isKept++serverOptions jobs load) := by
    rw [buildMakeoptsInner,if_neg hsome,hwords,List.append_assoc]
    rfl
  have hisWord : ∀ option ∈ options, ∀ word ∈ option.words, IsWord word.toList := by
    intro option ho word hword
    apply isWord_of_mem_splitWhitespace (s := makeopts)
    rw [hwords]
    exact List.mem_flatMap_of_mem ho hword
  rw [hbuilt,joinWords_append_inj,filter_flatMap_eq_iff isKept fun option ho =>
    length_kept_le (hmake.valid option ho)]
  · exact forall₂_congr fun option ho => filter_words_iff (hmake.valid option ho)
  · intro word hword
    obtain ⟨option,ho,hmem⟩ := List.mem_flatMap.mp (List.mem_filter.mp hword).1
    exact hisWord option ho word hmem
  · intro word hword
    obtain ⟨option,ho,hmem⟩ := List.mem_flatMap.mp hword
    exact isWord_kept (hisWord option ho) word hmem

theorem long_options_replaced :
    buildMakeoptsInner "-j -k --load-average=2" (some "8") none = "-k -j8" := by
  have hk : isParallelism "-k" = false := by decide
  have hj : (ParallelWord.short "" 'j' "").takes "-k" = false := by decide
  have hmake : MakeSyntax [.parallel (.short "" 'j' "") none,.other "-k" [],
      .parallel (.long "--load-average" (some "2")) none] := by
    refine ⟨?_,by simp [MakeOption.EndsBefore,MakeOption.words,hj]⟩
    simp only [List.forall_mem_cons,MakeOption.Valid,List.not_mem_nil,false_implies,implies_true,
      Option.mem_def,reduceCtorEq,and_true]
    exact ⟨⟨by decide,nofun⟩,by decide,List.mem_of_elem_eq_true (by decide)⟩
  refine ((overrides_replace_iff _ _ (some "8") none hmake (by decide) (.inl (by decide))).mpr
    ?_).trans (by decide)
  simp [MakeOption.Recognised,hk]
  decide

/-- The number of jobs is left behind as a target of make. -/
theorem detached_jobs_left :
    let options : List MakeOption := [.parallel (.short "" 'j' "") (some "4")]
    MakeSyntax options ∧ splitWhitespace "-j 4" = options.flatMap MakeOption.words ∧
      buildMakeoptsInner "-j 4" (some "8") none = "4 -j8" ∧
      joinWords (options.flatMap MakeOption.kept++serverOptions (some "8") none) = "-j8" := by
  refine ⟨⟨?_,.singleton _⟩,by decide⟩
  intro option ho
  obtain rfl := List.mem_singleton.mp ho
  exact ⟨⟨by decide,nofun⟩,by decide⟩

inductive EmergeArg where
  | switch (text : String)
  | attached (option value : String)
  | detached (option value : String)
  | target (text : String)

def EmergeArg.words : EmergeArg → List String
  | .switch text => [text]
  | .attached option value => [option++"="++value]
  | .detached option value => [option,value]
  | .target text => [text]

def EmergeArg.targets : EmergeArg → List String
  | .target text => [text]
  | _ => []

def EmergeArg.WellFormed : EmergeArg → Prop
  | .switch text => isOption text
  | .attached option _ => isOption option
  | .detached option _ => isOption option
  | .target text => isOption text = false

def EmergeArg.ValueHidden : EmergeArg → Prop
  | .detached _ value => isOption value
  | _ => True

def EmergeArg.attach : EmergeArg → EmergeArg
  | .detached option value => .attached option value
  | arg => arg

def commandLine (args : List EmergeArg) : List String := args.flatMap EmergeArg.words

theorem isOption_append {option : String} (h : isOption option) (rest : String) :
    isOption (option++rest) := by
  rw [isOption,beq_iff_eq] at h ⊢
  obtain ⟨tail,ht⟩ := List.head?_eq_some_iff.mp h
  simp [String.toList_append,ht]

variable {arg : EmergeArg}

theorem extract_words_iff (h : arg.WellFormed) :
    extractPackageAtoms arg.words = arg.targets ↔ arg.ValueHidden := by
  cases arg with
  | switch text =>
    have ho : isOption text := h
    simp [extractPackageAtoms,EmergeArg.words,EmergeArg.targets,EmergeArg.ValueHidden,ho]
  | attached option value =>
    have ho := isOption_append (isOption_append h "=") value
    simp [extractPackageAtoms,EmergeArg.words,EmergeArg.targets,EmergeArg.ValueHidden,ho]
  | detached option value =>
    have ho : isOption option := h
    simp [extractPackageAtoms,EmergeArg.words,EmergeArg.targets,EmergeArg.ValueHidden,ho]
  | target text =>
    have ht : isOption text = false := h
    simp [extractPackageAtoms,EmergeArg.words,EmergeArg.targets,EmergeArg.ValueHidden,ht]

theorem length_targets_le (arg : EmergeArg) :
    (extractPackageAtoms arg.targets).length ≤ (extractPackageAtoms arg.words).length := by
  cases arg with
  | target text => exact le_rfl
  | _ => exact Nat.zero_le _

variable {args : List EmergeArg}

theorem extract_commandLine_iff (h : ∀ arg ∈ args, arg.WellFormed) :
    extractPackageAtoms (commandLine args) = args.flatMap EmergeArg.targets ↔
      ∀ arg ∈ args, arg.ValueHidden := by
  rw [extractPackageAtoms,commandLine,filter_flatMap_eq_iff _ fun arg _ => length_targets_le arg]
  exact forall₂_congr fun arg ha => extract_words_iff (h arg ha)

theorem attach_spec (h : arg.WellFormed) :
    arg.attach.WellFormed ∧ arg.attach.ValueHidden ∧ arg.attach.targets = arg.targets := by
  cases arg with
  | _ => exact ⟨h,trivial,rfl⟩

theorem extract_attached (h : ∀ arg ∈ args, arg.WellFormed) :
    extractPackageAtoms (commandLine (args.map EmergeArg.attach)) =
      args.flatMap EmergeArg.targets := by
  rw [(extract_commandLine_iff (List.forall_mem_map.mpr fun arg ha =>
    (attach_spec (h arg ha)).1)).mpr (List.forall_mem_map.mpr fun arg ha =>
      (attach_spec (h arg ha)).2.1),List.flatMap_map]
  exact List.flatMap_congr fun arg ha => (attach_spec (h arg ha)).2.2

/-- What is submitted depends on the arguments through the atoms taken out of them. -/
theorem submits_of_extract {cli cli' : Cli} {files : ClientFiles} {atoms : List String}
    (h : extractPackageAtoms cli.emergeArgs = extractPackageAtoms cli'.emergeArgs)
    (hforce : cli.force = cli'.force) (hdry : cli.dryRun = cli'.dryRun) :
    run cli files = .submits atoms cli.emergeArgs ↔
      run cli' files = .submits atoms cli'.emergeArgs := by
  have hexpanded : expandedAtoms cli files = expandedAtoms cli' files := by
    rw [expandedAtoms,expandedAtoms,h]
  have hwanted : wantedAtoms cli files = wantedAtoms cli' files := by
    rw [wantedAtoms,wantedAtoms,hexpanded,hforce]
  rw [run_eq_submits,run_eq_submits,h,hexpanded,hwanted,hdry]
  simp

/-- The atoms are the targets, and both spellings give one workorder, exactly if
each option hides its value. -/
theorem atoms_are_targets_iff (args : List EmergeArg) (h : ∀ arg ∈ args, arg.WellFormed) :
    (extractPackageAtoms (commandLine args) = args.flatMap EmergeArg.targets ∧
      ∀ (force dryRun : Bool) (files : ClientFiles) (atoms : List String),
        run ⟨commandLine args,force,dryRun⟩ files = .submits atoms (commandLine args) ↔
          run ⟨commandLine (args.map EmergeArg.attach),force,dryRun⟩ files =
            .submits atoms (commandLine (args.map EmergeArg.attach))) ↔
      ∀ arg ∈ args, arg.ValueHidden := by
  rw [← extract_commandLine_iff h]
  refine ⟨And.left,fun hextract => ⟨hextract,fun force dryRun files atoms => ?_⟩⟩
  exact submits_of_extract (hextract.trans (extract_attached h).symm) rfl rfl

theorem attached_jobs_hidden :
    extractPackageAtoms ["--jobs=4","app-misc/jq"] = ["app-misc/jq"] := by
  have hjobs : isOption "--jobs" = true := by decide
  have hjq : isOption "app-misc/jq" = false := by decide
  exact ((atoms_are_targets_iff [.attached "--jobs" "4",.target "app-misc/jq"]
    (by simp [EmergeArg.WellFormed,hjobs,hjq])).mpr (by simp [EmergeArg.ValueHidden])).1

/-- The number of jobs is taken for a package, and the workorder asks for it. -/
theorem detached_jobs_ordered :
    let args : List EmergeArg := [.detached "--jobs" "4",.target "app-misc/jq"]
    let files : ClientFiles := ⟨none,none,fun _ => none⟩
    (∀ arg ∈ args, arg.WellFormed) ∧
      run ⟨commandLine args,true,false⟩ files =
        .submits ["4","app-misc/jq"] ["--jobs","4","app-misc/jq"] ∧
      run ⟨commandLine (args.map EmergeArg.attach),true,false⟩ files =
        .submits ["app-misc/jq"] ["--jobs=4","app-misc/jq"] := by
  refine ⟨?_,by decide,by decide⟩
  have hjobs : isOption "--jobs" = true := by decide
  have hjq : isOption "app-misc/jq" = false := by decide
  simp [EmergeArg.WellFormed,hjobs,hjq]

end Remerge.OptionWords
