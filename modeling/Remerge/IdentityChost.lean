import Remerge.MakeConfReader

/-!
# The CHOST of a submission

A submission carries a CHOST twice: in its system identity, which selects the
worker image, and in its make.conf, which the worker writes. The first is taken
from etc/portage/make.conf alone, the second from `portageq` and both files.
-/

set_option autoImplicit false

namespace Remerge.IdentityChost
open SnapshotTypes SnapshotRuntime MakeConfReader

variable (sys : ClientSystem)

/-- A CHOST that etc/portage/make.conf gives. -/
def preferredChost : Option String := (fileVar sys.preferred "CHOST").bind nonEmpty

/-- `detect_chost` of the reader: an unreadable make.conf counts as none. -/
def detectIdentityChost : Except Failure String :=
  match preferredChost sys with
  | some chost => .ok chost
  | none => (resolveNativeFlags sys).map (·.chost)

/-- A CHOST that `portageq` answers for the whole configuration. -/
def answeredChost : Option String :=
  ((initialPortageq sys).bind (·["CHOST"]?)).filter (· ≠ "")

/-- The value is the one in etc/portage/make.conf or, without one there, what
`portageq`, the compiler and the machine tell. -/
def IsOwn (value : String) : Prop :=
  (∀ chost, preferredChost sys = some chost → chost = value) ∧
    (preferredChost sys = none → detectChost sys = .ok value)

/-- The sources that only the make.conf of a submission takes into account do
not contradict the others. -/
structure Agree : Prop where
  answered : ∀ chost, answeredChost sys = some chost → IsOwn sys chost
  legacy : answeredChost sys = none → ∀ chost, fileVar sys.legacy "CHOST" = some chost →
    chost ≠ "" → IsOwn sys chost
  emptied : answeredChost sys = none → fileVar sys.legacy "CHOST" = some "" →
    ∀ chost, preferredChost sys = some chost → detectChost sys = .ok chost

variable {sys} {resolved : ResolvedFlags}

theorem detectIdentityChost_eq (h : resolveNativeFlags sys = .ok resolved) :
    detectIdentityChost sys = .ok ((preferredChost sys).getD resolved.chost) := by
  unfold detectIdentityChost
  cases preferredChost sys with
  | some chost => rfl
  | none =>
    rw [h]
    rfl

theorem isOwn_iff (h : resolveNativeFlags sys = .ok resolved) (value : String) :
    IsOwn sys value ↔ (preferredChost sys).getD resolved.chost = value := by
  unfold IsOwn
  rw [(resolveNativeFlags_ok h).1]
  cases preferredChost sys with
  | some chost => simp
  | none => simp

theorem chost_eq {m : MakeConf} {vars : BTreeMap String} (hv : readMakeConfVars sys = .ok vars)
    (hm : ReadFrom sys vars resolved m) :
    m.chost = (answeredChost sys).getD
      ((nonEmpty (((fileVar sys.legacy "CHOST").or (fileVar sys.preferred "CHOST")).getD
        "")).getD resolved.chost) := by
  rw [hm.chost,getEffective,getVar,getElem?_readMakeConfVars hv]
  change (nonEmpty ((answeredChost sys).getD _)).getD _ = _
  cases ha : answeredChost sys with
  | none => rfl
  | some chost =>
    have hne : chost ≠ "" := by simpa using (Option.filter_eq_some_iff.mp ha).2
    simp [nonEmpty,hne]

theorem nonEmpty_getD (o : Option String) : nonEmpty (o.getD "") = o.bind nonEmpty := by
  cases o with
  | none => rfl
  | some value => rfl

theorem agree_of_answered {chost : String} (ha : answeredChost sys = some chost) :
    Agree sys ↔ IsOwn sys chost := by
  constructor
  · exact fun h => h.answered chost ha
  · intro h
    refine ⟨fun c hc => ?_,fun hn => ?_,fun hn => ?_⟩
    · rw [ha,Option.some.injEq] at hc
      rwa [← hc]
    · simp [ha] at hn
    · simp [ha] at hn

theorem agree_of_legacy {chost : String} (ha : answeredChost sys = none)
    (hl : fileVar sys.legacy "CHOST" = some chost) (hne : chost ≠ "") :
    Agree sys ↔ IsOwn sys chost := by
  constructor
  · exact fun h => h.legacy ha chost hl hne
  · intro h
    refine ⟨fun c hc => ?_,fun _ c hc _ => ?_,fun _ hc => ?_⟩
    · simp [ha] at hc
    · rw [hl,Option.some.injEq] at hc
      rwa [← hc]
    · rw [hl,Option.some.injEq] at hc
      exact absurd hc hne

theorem agree_of_emptied (ha : answeredChost sys = none)
    (hl : fileVar sys.legacy "CHOST" = some "") :
    Agree sys ↔ ∀ chost, preferredChost sys = some chost → detectChost sys = .ok chost := by
  constructor
  · exact fun h => h.emptied ha hl
  · intro h
    refine ⟨fun c hc => ?_,fun _ c hc hne => ?_,fun _ _ => h⟩
    · simp [ha] at hc
    · rw [hl,Option.some.injEq] at hc
      exact absurd hc.symm hne

theorem agree_of_silent (ha : answeredChost sys = none) (hl : fileVar sys.legacy "CHOST" = none) :
    Agree sys := by
  refine ⟨fun c hc => ?_,fun _ c hc => ?_,fun _ hc => ?_⟩
  · simp [ha] at hc
  · simp [hl] at hc
  · simp [hl] at hc

/-- The two CHOSTs of a submission are the same exactly when their sources agree. -/
theorem one_chost_iff (sys : ClientSystem) (m : MakeConf) (h : readMakeConf sys = .ok m) :
    detectIdentityChost sys = .ok m.chost ↔ Agree sys := by
  obtain ⟨vars,resolved,hv,hr,hm⟩ := readMakeConf_ok h
  have hchost := chost_eq hv hm
  have hown := isOwn_iff hr
  rw [detectIdentityChost_eq hr,Except.ok.injEq]
  cases ha : answeredChost sys with
  | some chost =>
    rw [ha,Option.getD_some] at hchost
    rw [hchost,← hown,agree_of_answered ha]
  | none =>
    rw [ha,Option.getD_none] at hchost
    cases hl : fileVar sys.legacy "CHOST" with
    | none =>
      rw [hl,Option.none_or,nonEmpty_getD] at hchost
      rw [hchost]
      exact iff_of_true rfl (agree_of_silent ha hl)
    | some value =>
      rw [hl,Option.some_or,Option.getD_some] at hchost
      by_cases hvalue : value = ""
      · subst hvalue
        change m.chost = resolved.chost at hchost
        rw [hchost,agree_of_emptied ha hl,(resolveNativeFlags_ok hr).1]
        cases preferredChost sys with
        | none => simp
        | some chost =>
          rw [Option.getD_some]
          exact ⟨fun hc c hs => by rw [← Option.some.inj hs,hc],fun hc =>
            (Except.ok.inj (hc chost rfl)).symm⟩
      · rw [nonEmpty,if_neg hvalue,Option.getD_some] at hchost
        rw [hchost,← hown,agree_of_legacy ha hl hvalue]

def quietClient : ClientSystem where
  root := "/"
  preferred := some (.ok "CFLAGS=\"-O2\"\n")
  legacy := none
  portageq := fun _ => none
  resolveMarchNative := none
  gccTargetHelp := none
  gccDumpmachine := some "x86_64-pc-linux-gnu\n"
  cpuid2cpuflags := none
  uname := .ok "x86_64\n"

theorem quiet_client_one_chost : ∃ m, readMakeConf quietClient = .ok m ∧
    detectIdentityChost quietClient = .ok m.chost ∧ m.chost = "x86_64-pc-linux-gnu" := by
  obtain ⟨m,hr,hm⟩ := exists_of_readsTo quietClient (fun m => m.chost == "x86_64-pc-linux-gnu")
    (by decide)
  have hsilent : Agree quietClient := agree_of_silent (by decide) (by decide)
  exact ⟨m,hr,(one_chost_iff quietClient m hr).mpr hsilent,by simpa using hm⟩

def movedClient : ClientSystem :=
  { quietClient with
    root := "/mnt/gentoo"
    preferred := some (.ok "CHOST=\"aarch64-unknown-linux-gnu\"\n")
    legacy := some (.ok "CHOST=\"x86_64-pc-linux-gnu\"\n") }

/-- The image is made for one CHOST and the packages are built for another. -/
theorem moved_client_two_chosts : ∃ m, readMakeConf movedClient = .ok m ∧
    m.chost = "x86_64-pc-linux-gnu" ∧
    detectIdentityChost movedClient = .ok "aarch64-unknown-linux-gnu" := by
  obtain ⟨m,hr,hm⟩ := exists_of_readsTo movedClient (fun m => m.chost == "x86_64-pc-linux-gnu")
    (by decide)
  have hid : preferredChost movedClient = some "aarch64-unknown-linux-gnu" := by decide
  refine ⟨m,hr,by simpa using hm,?_⟩
  rw [detectIdentityChost,hid]

end Remerge.IdentityChost
