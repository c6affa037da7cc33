import Mathlib.Data.Set.Operations
import Remerge.LockQueues

/-!
# The locks of the server

The handlers and background tasks, reduced to the locks they take and give back
and the branches in between. A guard that is a temporary of one statement is taken
and given back at once. All nested acquisitions follow one order of the locks.
-/

set_option autoImplicit false

namespace Remerge.ServerLocks
open StepProgram LockQueues

inductive ServerLock where
  | submissionLock | workorders | results | progressTxs | rawOutputTxs | stdinTxs | containerIds
  | clients | imageLastUsed | stagedWorkorderReferences
  deriving DecidableEq

abbrev ServerProg (α : Type) : Type := LockProg ServerLock α

/-- The order in which a pass of the eviction takes its six guards. -/
def evictWorkorders : ServerProg Unit :=
  guarding .workorders .write (guarding .results .write (guarding .progressTxs .write
    (guarding .rawOutputTxs .write (guarding .stdinTxs .write (writing .containerIds)))))

def createProgressChannel : ServerProg Unit := do
  writing .rawOutputTxs
  writing .progressTxs

def removeWorkorderChannels : ServerProg Unit := do
  writing .progressTxs
  writing .rawOutputTxs
  writing .stdinTxs

def admitWorkorder : ServerProg Bool := do
  if ← choose then
    reading .workorders
    if ← choose then return false
  writing .clients
  if ← choose then return false
  createProgressChannel
  writing .workorders
  writing .clients
  return true

def submitWorkorder : ServerProg Unit := do
  if ← choose then return
  if ← guarding .submissionLock .write admitWorkorder then
    reading .workorders
    reading .clients

/-- The guard on the workorders is kept while the result is looked up. -/
def getWorkorder : ServerProg Unit := guarding .workorders .read do
  if ← choose then return
  if ← choose then return
  reading .results

/-- The container is stopped under the guard on the container ids. -/
def cancelWorkorder : ServerProg Unit := do
  if ← choose then
    if ← guarding .workorders .read choose then return
  if ← guarding .workorders .write choose then
    reading .progressTxs
    writing .clients
    if ← choose then reading .containerIds

def wsProgress : ServerProg Unit := do
  reading .progressTxs
  if ← choose then reading .rawOutputTxs

def claimWorkorder : ServerProg Unit := do
  reading .workorders
  if ← choose then
    if ← guarding .workorders .write choose then reading .progressTxs

def setWorkorderStatus : ServerProg Unit := do
  if ← guarding .workorders .write choose then reading .workorders

def cleanupWorkorderRuntime : ServerProg Unit := do
  writing .containerIds
  writing .stagedWorkorderReferences
  removeWorkorderChannels
  writing .clients

def concludeWorkorder : ServerProg Unit := do
  setWorkorderStatus
  writing .results
  cleanupWorkorderRuntime

def processWorkorder : ServerProg Unit := do
  reading .progressTxs
  if ← choose then return
  if ← choose then return ← concludeWorkorder
  writing .imageLastUsed
  setWorkorderStatus
  if ← choose then return ← concludeWorkorder
  writing .stagedWorkorderReferences
  if ← choose then return ← concludeWorkorder
  writing .containerIds
  reading .rawOutputTxs
  if ← choose then return
  writing .stdinTxs
  writing .rawOutputTxs
  reading .progressTxs
  concludeWorkorder

def saveState : ServerProg Unit := do
  reading .results
  reading .workorders
  reading .clients

/-- One turn of the image reaper: the look at all images, or the removal of one. -/
def reapImages : ServerProg Unit := do
  if ← choose then reading .imageLastUsed else writing .imageLastUsed

/-- What runs concurrently. Loops that hold nothing between their turns are started
once for each turn. -/
inductive LockUser where
  | serverInfo | submit | listWorkorders | getWorkorder | cancel | listClients | getClient
  | wsProgress | wsInput | claim | process | snapshotCleanup | saver | eviction | imageReaper

def LockUser.body : LockUser → ServerProg Unit
  | .serverInfo => reading .workorders
  | .submit => submitWorkorder
  | .listWorkorders => reading .workorders
  | .getWorkorder => ServerLocks.getWorkorder
  | .cancel => cancelWorkorder
  | .listClients => reading .clients
  | .getClient => reading .clients
  | .wsProgress => ServerLocks.wsProgress
  | .wsInput => reading .stdinTxs
  | .claim => claimWorkorder
  | .process => processWorkorder
  | .snapshotCleanup => reading .stagedWorkorderReferences
  | .saver => saveState
  | .eviction => evictWorkorders
  | .imageReaper => reapImages

def lockRank : ServerLock → ℕ
  | .submissionLock => 0
  | .workorders => 1
  | .results => 2
  | .progressTxs => 3
  | .rawOutputTxs => 4
  | .stdinTxs => 5
  | .containerIds => 6
  | .clients => 7
  | .imageLastUsed => 8
  | .stagedWorkorderReferences => 9

abbrev serverBodies : Set (ServerProg Unit) := Set.range LockUser.body

/-- However many tasks run, none waits for itself through the locks others hold or
have asked for before. -/
theorem no_lock_deadlock (P : LockState ServerLock) (h : LockReached serverBodies P) (i : ℕ) :
    ¬Relation.TransGen (Blocked P) i i := by
  have orderly : Orderly lockRank P := by
    refine orderly_reached ?_ h
    rintro p ⟨user,rfl⟩
    cases user <;> rfl
  exact no_circle orderly i

/-- A request for the server's information waits for an eviction pass. -/
theorem information_waits_for_eviction : ∃ P : LockState ServerLock,
    LockReached serverBodies P ∧ Blocked P 1 0 ∧ ¬Relation.TransGen (Blocked P) 0 0 := by
  have started : LockReached serverBodies _ := .step (.step .boot
    (.start (i := 0) ⟨.eviction,rfl⟩ rfl)) (.start (i := 1) ⟨.serverInfo,rfl⟩ rfl)
  have granted := (started.step (.request (i := 0) (l := .workorders) (m := .write) rfl
    List.not_mem_nil)).step (.grant (i := 0) (l := .workorders) rfl rfl ?_)
  · have waiting := granted.step (.request (i := 1) (l := .workorders) (m := .read) rfl
      List.not_mem_nil)
    refine ⟨_,waiting,⟨.workorders,⟨?_,_,_,_,rfl⟩,.inl ⟨_,.write,rfl,?_⟩⟩,
      no_lock_deadlock _ waiting 0⟩
    · exact List.mem_singleton_self 1
    · exact List.mem_singleton_self _
  · intro j t m' ht hm
    rcases j with _ | _ | j <;> cases ht <;> cases hm

/-- However many tasks run, every wait for a lock leads, through those who hold it or
asked for it before, to a task that waits for nobody. -/
theorem lock_waits_end (P : LockState ServerLock) (h : LockReached serverBodies P) (i : ℕ) :
    ∃ j, Relation.ReflTransGen (Blocked P) i j ∧ ∀ k, ¬Blocked P j k := by
  by_cases waits : ∃ l, Awaits P i l
  · obtain ⟨l,hl⟩ := waits
    have orderly : Orderly lockRank P := by
      refine orderly_reached ?_ h
      rintro p ⟨user,rfl⟩
      cases user <;> rfl
    have bound : ∀ l, lockRank l ≤ 9 := fun l => by cases l <;> decide
    exact waiting_ends orderly bound i l hl
  · refine ⟨i,.refl,?_⟩
    rintro _ ⟨l,hl,-⟩
    exact waits ⟨l,hl⟩

/-- Two passes of the eviction: the second waits for the first to ask and be served. -/
theorem second_eviction_waits : ∃ P : LockState ServerLock, LockReached serverBodies P ∧
    Blocked P 1 0 ∧ ∃ j, Relation.ReflTransGen (Blocked P) 1 j ∧ ∀ k, ¬Blocked P j k := by
  have started : LockReached serverBodies _ := .step (.step .boot
    (.start (i := 0) ⟨.eviction,rfl⟩ rfl)) (.start (i := 1) ⟨.eviction,rfl⟩ rfl)
  have asked := (started.step (.request (i := 0) (l := .workorders) (m := .write) rfl
    List.not_mem_nil)).step (.request (i := 1) (l := .workorders) (m := .write) rfl (by decide))
  refine ⟨_,asked,⟨.workorders,⟨?_,_,_,_,rfl⟩,.inr ⟨⟨?_,_,_,_,rfl⟩,?_⟩⟩,lock_waits_end _ asked 1⟩
  all_goals decide

end Remerge.ServerLocks
