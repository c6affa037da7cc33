import Mathlib.Data.List.Induction
import Remerge.ConfigAuthority

/-!
# The registry after any sequence of calls

The calls that write the registry, one after another on an empty one. The
hashes it holds for a client are those of the last main update it has
accepted, whatever followers and active markers came in between, and whether
it accepts the next update is decided by the marker and, for a follower, by
these hashes.
-/

set_option autoImplicit false

namespace Remerge.RegistryHistory
open SnapshotTypes ServerState ConfigAuthority

variable {now : Time} {c : ClientId} {ch sh : String}

inductive RegistryCall where
  | update (now : Time) (c : ClientId) (role : ClientRole) (configHash systemHash : String)
  | setActive (c : ClientId) (id : WorkorderId)
  | clearActive (c : ClientId)

def perform (clients : Table ClientId ClientState) : RegistryCall → Table ClientId ClientState
  | .update now c role ch sh =>
    match updateClient now c role ch sh clients with
    | .ok (_,clients') => clients'
    | .error _ => clients
  | .setActive c id => setActiveWorkorder c id clients
  | .clearActive c => clearActiveWorkorder c clients

def registryAfter (calls : List RegistryCall) : Table ClientId ClientState :=
  calls.foldl perform ∅

def activeIn (clients : Table ClientId ClientState) (c : ClientId) : Option WorkorderId :=
  (clients.lookup c).bind (·.activeWorkorder)

def Accepts (calls : List RegistryCall) (now : Time) (c : ClientId) (role : ClientRole)
    (ch sh : String) : Prop :=
  ∃ r, updateClient now c role ch sh (registryAfter calls) = .ok r

/-- The hashes of the last main update of a client that was accepted. -/
inductive LastMain (c : ClientId) : List RegistryCall → String × String → Prop where
  | here {calls : List RegistryCall} {now : Time} {ch sh : String}
      (accepted : Accepts calls now c .main ch sh) :
      LastMain c (calls++[.update now c .main ch sh]) (ch,sh)
  | later {calls : List RegistryCall} {call : RegistryCall} {hashes : String × String}
      (before : LastMain c calls hashes)
      (other : ∀ now ch sh, call = .update now c .main ch sh → ¬Accepts calls now c .main ch sh) :
      LastMain c (calls++[call]) hashes

section
variable {clients : Table ClientId ClientState}

theorem updateClient_active {id : WorkorderId} (h : activeIn clients c = some id)
    (role : ClientRole) : updateClient now c role ch sh clients = .error (.activeWorkorder id) := by
  obtain ⟨existing,hl,ha⟩ := Option.bind_eq_some_iff.mp h
  unfold updateClient
  simp only [hl,ha]

theorem updateClient_main (h : activeIn clients c = none) (now : Time) (ch sh : String) :
    ∃ diff, updateClient now c .main ch sh clients =
      .ok (diff,clients.insert c ⟨c,ch,sh,now,none⟩) := by
  unfold updateClient
  cases hl : clients.lookup c with
  | none => exact ⟨_,rfl⟩
  | some existing =>
    have ha : existing.activeWorkorder = none := by simpa [activeIn,hl] using h
    simp only [ha]
    exact ⟨_,rfl⟩

theorem updateClient_follower (h : activeIn clients c = none) :
    (∃ r, updateClient now c .follower ch sh clients = .ok r) ↔
      hashesIn clients c = some (ch,sh) := by
  unfold updateClient
  cases hl : clients.lookup c with
  | none => simp [hashesIn,hl]
  | some existing =>
    have ha : existing.activeWorkorder = none := by simpa [activeIn,hl] using h
    simp only [ha]
    by_cases hsame : existing.configHash = ch ∧ existing.systemHash = sh
    · simp [hashesIn,hl,hsame.1,hsame.2]
    · have hdiff : (existing.configHash != ch || existing.systemHash != sh) := by
        simpa [or_iff_not_imp_left] using hsame
      simp [hashesIn,hl,hdiff,hsame]

end

section
variable {calls : List RegistryCall}

theorem registryAfter_snoc (calls : List RegistryCall) (call : RegistryCall) :
    registryAfter (calls++[call]) = perform (registryAfter calls) call := by
  simp [registryAfter]

theorem accepts_main_iff :
    Accepts calls now c .main ch sh ↔ activeIn (registryAfter calls) c = none := by
  constructor
  · rintro ⟨r,hr⟩
    by_contra hactive
    obtain ⟨id,hid⟩ := Option.ne_none_iff_exists'.mp hactive
    rw [updateClient_active hid] at hr
    cases hr
  · intro h
    obtain ⟨diff,hdiff⟩ := updateClient_main h now ch sh
    exact ⟨_,hdiff⟩

theorem accepts_follower_iff :
    Accepts calls now c .follower ch sh ↔ hashesIn (registryAfter calls) c = some (ch,sh) ∧
      activeIn (registryAfter calls) c = none := by
  by_cases hactive : activeIn (registryAfter calls) c = none
  · rw [Accepts,updateClient_follower hactive,and_iff_left hactive]
  · obtain ⟨id,hid⟩ := Option.ne_none_iff_exists'.mp hactive
    simp [Accepts,updateClient_active hid,hid]

theorem perform_refused {role : ClientRole} (h : ¬Accepts calls now c role ch sh) :
    registryAfter (calls++[.update now c role ch sh]) = registryAfter calls := by
  rw [registryAfter_snoc,perform]
  cases hr : updateClient now c role ch sh (registryAfter calls) with
  | ok r => exact absurd ⟨r,hr⟩ h
  | error e => rfl

theorem hashesIn_other {call : RegistryCall}
    (h : ∀ now ch sh, call = .update now c .main ch sh → ¬Accepts calls now c .main ch sh) :
    hashesIn (registryAfter (calls++[call])) c = hashesIn (registryAfter calls) c := by
  rw [registryAfter_snoc]
  cases call with
  | setActive x id | clearActive x => exact hashesIn_modify _ fun _ => ⟨rfl,rfl⟩
  | update now x role ch sh =>
    rw [perform]
    cases hr : updateClient now x role ch sh (registryAfter calls) with
    | error e => rfl
    | ok r =>
      by_contra hne
      obtain ⟨rfl,rfl⟩ := updateClient_changes hr hne
      exact h now ch sh rfl ⟨r,hr⟩

theorem hashesIn_accepted (h : Accepts calls now c .main ch sh) :
    hashesIn (registryAfter (calls++[.update now c .main ch sh])) c = some (ch,sh) := by
  obtain ⟨diff,hdiff⟩ := updateClient_main (accepts_main_iff.mp h) now ch sh
  rw [registryAfter_snoc,perform,hdiff]
  simp [hashesIn]

theorem hashesIn_iff_lastMain (hashes : String × String) :
    hashesIn (registryAfter calls) c = some hashes ↔ LastMain c calls hashes := by
  constructor
  · intro h
    induction calls using List.reverseRecOn generalizing hashes with
    | nil => cases h
    | append_singleton calls call ih =>
      by_cases hmain : ∃ now ch sh, call = .update now c .main ch sh ∧
          Accepts calls now c .main ch sh
      · obtain ⟨now,ch,sh,rfl,ha⟩ := hmain
        rw [hashesIn_accepted ha] at h
        cases h
        exact .here ha
      · have hother : ∀ now ch sh, call = .update now c .main ch sh →
            ¬Accepts calls now c .main ch sh := fun now ch sh e ha => hmain ⟨now,ch,sh,e,ha⟩
        rw [hashesIn_other hother] at h
        exact .later (ih hashes h) hother
  · intro h
    induction h with
    | here ha => exact hashesIn_accepted ha
    | later _ hother ih => rw [hashesIn_other hother,ih]

end

theorem registry_follows_last_main (calls : List RegistryCall) (c : ClientId) :
    (∀ hashes, hashesIn (registryAfter calls) c = some hashes ↔ LastMain c calls hashes) ∧
      ∀ now ch sh,
        (Accepts calls now c .main ch sh ↔ activeIn (registryAfter calls) c = none) ∧
        (Accepts calls now c .follower ch sh ↔ hashesIn (registryAfter calls) c = some (ch,sh) ∧
          activeIn (registryAfter calls) c = none) ∧
        ∀ role, ¬Accepts calls now c role ch sh →
          registryAfter (calls++[.update now c role ch sh]) = registryAfter calls := by
  refine ⟨hashesIn_iff_lastMain,fun now ch sh => ⟨accepts_main_iff,accepts_follower_iff,?_⟩⟩
  intro role h
  exact perform_refused h

/-- A follower that comes before its main client is refused. -/
theorem early_follower_unregistered :
    registryAfter [.update 0 "laptop" .follower "config" "system"] = ∅ :=
  ((registry_follows_last_main [] "laptop").2 0 "config" "system").2.2 .follower
    (by rintro ⟨r,hr⟩; cases hr)

end Remerge.RegistryHistory
