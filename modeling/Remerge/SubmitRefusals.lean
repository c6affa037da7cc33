import Remerge.ConfigAuthority
import Remerge.ServerDataFlow

/-!
# Refused submissions

Until the registry has taken its update, a submission adds to the snapshot store or
renews entries of it, draws an identifier and takes the submission lock, and does
nothing else to the server. One that is refused never gets further, whatever other
tasks do between its steps, and gives the lock back. A second submission is decided
as if the refused one had not been there, as long as the store gives it the same
answers. It may not: what the refused one has sent inline is in the store for everyone.
-/

set_option autoImplicit false

namespace Remerge.SubmitRefusals
open StepProgram Interleaving SnapshotTypes SnapshotStore SnapshotRuntime SnapshotCleanup
open SnapshotUse ServerState ServerOps ServerTasks ClientAuth WorkorderApi ConfigAuthority

def statusCode : SubmitReply → ℕ
  | .rejected rejection => rejection.statusCode
  | .decided (.badRequest _) => 400
  | .decided (.capacityReached _) => 503
  | .decided (.conflict _) => 409
  | .decided (.accepted _) => 200

def Accepted (reply : SubmitReply) : Prop := ∃ id, reply = .decided (.accepted id)

variable {env : Codecs} {config : ServerConfig} {α : Type}

/-- An operation of a task, in the state that the others have left by then. -/
structure Turn where
  operation : ServerOp
  oracle : ServerOracle
  before : Server
  after : Server

/-- The turns in which a program gets to its end, with anything in between. -/
inductive Takes (env : Codecs) (config : ServerConfig) : List Turn → ServerProg α → α → Prop where
  | ret (a : α) : Takes env config [] (.ret a) a
  | step {o : ServerOp} {w : ServerOracle} {s s' : Server} {r : ServerRes o}
      {next : ServerRes o → ServerProg α} {turns : List Turn} {a : α}
      (hs : serverSem env config o w s = some (s',r))
      (rest : Takes env config turns (next r) a) :
      Takes env config (⟨o,w,s,s'⟩::turns) (.step o next) a

/-- What an operation on the submission lock leaves it as. -/
def lockMove : ServerOp → Option Bool
  | .lockSubmission => some true
  | .unlockSubmission => some false
  | _ => none

def lockMoves (turns : List Turn) : List Bool := turns.filterMap fun t => lockMove t.operation

/-- The two states differ at most in the snapshot store, in the identifiers that
were drawn and in the submission lock. -/
def Spared (s s' : Server) : Prop :=
  ∃ store issued lock, s' = { s with store := store, issued := issued, submissionLock := lock }

section

def harmless : ServerOp → Bool
  | .newId | .lockSubmission | .unlockSubmission | .countActive | .updateClient _ _ _ _ => true
  | .store o => o.deletes.isNone
  | _ => false

/-- Whether the registry has taken the update, and the moves of the lock so far. -/
def untilUpdated : Monitor ServerOp ServerRes (Bool × List Bool) where
  allows := fun q o => q.1 = false → harmless o
  next := fun q o r => (updateNext q.1 o r,q.2++(lockMove o).toList)

def GivesBack (moves : List Bool) : Prop := moves = [] ∨ moves = [true,false]

variable {q : Bool} {moves : List Bool} {final : Bool × List Bool → α → Prop}

theorem conforms_harmless {o : ServerOp} {f : ServerRes o → ServerProg α}
    (ho : harmless o) (hu : isUpdate o = false)
    (hf : ∀ r, Conforms untilUpdated final (q,moves++(lockMove o).toList) (f r)) :
    Conforms untilUpdated final (q,moves) (op o >>= f) := by
  refine ⟨fun _ => ho,fun r => ?_⟩
  have hr := hf r
  rw [← updateNext_other q r hu] at hr
  exact hr

theorem updateNext_true {o : ServerOp} (r : ServerRes o) : updateNext true o r := by
  cases o with
  | updateClient _ _ _ _ => cases r <;> rfl
  | _ => rfl

theorem conforms_updated (p : ServerProg α) (moves : List Bool) :
    Conforms untilUpdated (fun q _ => q.1 = false → GivesBack q.2) (true,moves) p := by
  induction p generalizing moves with
  | ret a => exact nofun
  | step o next ih =>
    refine ⟨nofun,fun r => ?_⟩
    have hr := ih r (moves++(lockMove o).toList)
    rw [← updateNext_true r] at hr
    exact hr

theorem conforms_submitWorkorder (req : SubmitRequest) :
    Conforms untilUpdated (fun q _ => q.1 = false → GivesBack q.2) (false,[])
      (submitWorkorder config req) := by
  have normalising : Conforms untilUpdated (fun q _ => q = (false,[])) (false,[])
      (onStore (normalizePortageConfigSnapshots req.portageConfig)) := by
    have calls : ∀ {γ : Type} {kept : List Key → γ → Prop} (p : Prog StoreOp StoreRes γ) seen,
        Conforms foundMonitor kept seen p →
        Conforms untilUpdated (fun q _ => q = (false,[])) (false,[])
          (interpret (fun o => op (.store o)) p) := by
      intro γ kept p
      induction p with
      | ret a => exact fun _ _ => rfl
      | step o next ih =>
        intro seen hc
        have ho : o.deletes = none := hc.1
        exact conforms_harmless (by simp [harmless,ho]) rfl fun r => ih r _ (hc.2 r)
    exact calls _ [] finds_normalize
  have capacity : Conforms untilUpdated (fun q _ => q = (false,[true])) (false,[true])
      (atCapacity config) := by
    unfold atCapacity
    split
    · exact conforms_harmless rfl rfl fun _ => rfl
    · rfl
  refine conforms_bind normalising fun q normalized hq => ?_
  subst hq
  cases normalized with
  | error failure => exact fun _ => .inl rfl
  | ok normalized =>
    refine conforms_harmless rfl rfl fun named => conforms_harmless rfl rfl fun _ =>
      conforms_bind capacity fun q full hq => ?_
    subst hq
    cases full with
    | true => exact conforms_harmless rfl rfl fun _ _ => .inr rfl
    | false =>
      refine ⟨fun _ => rfl,fun r => ?_⟩
      cases r with
      | error e => exact conforms_harmless rfl rfl fun _ _ => .inr rfl
      | ok diff => exact conforms_updated _ _

/-- The turn keeps every entry of the store, and leaves the submission lock alone unless
it is a turn of the lock. -/
structure Harmless (t : Turn) : Prop where
  spared : Spared t.before t.after
  entries : ∀ key, Keeps t.before.store t.after.store key
  lock : t.after.submissionLock = (lockMove t.operation).getD t.before.submissionLock

theorem harmless_of_sem {o : ServerOp} {w : ServerOracle} {s s' : Server} {r : ServerRes o}
    (hs : serverSem env config o w s = some (s',r)) (ho : harmless o)
    (hu : updateNext false o r = false) : Harmless ⟨o,w,s,s'⟩ := by
  cases o with
  | newId | lockSubmission | unlockSubmission | countActive =>
    obtain rfl := effect_of_sem env config hs
    exact ⟨⟨_,_,_,rfl⟩,fun _ => keeps_self _,rfl⟩
  | updateClient c role ch sh =>
    simp only [serverSem] at hs
    split at hs
    · cases hs
      cases hu
    · cases hs
      exact ⟨⟨_,_,_,rfl⟩,fun _ => keeps_self _,rfl⟩
  | store o =>
    obtain ⟨⟨store,r'⟩,hstore,he⟩ := Option.map_eq_some_iff.mp hs
    cases he
    have kept : o.deletes = none := by simpa [harmless] using ho
    exact ⟨⟨_,_,_,rfl⟩,fun key => keeps_storeSem o _ hstore (by simp [kept]),rfl⟩
  | _ => cases ho

theorem harmless_of_refused {turns : List Turn} {p : ServerProg α} {a : α} {k : TaskKind}
    {accepted : α → Prop} (ht : Takes env config turns p a)
    (hc : Conforms (registering.monitor k) (fun updated a => updated ↔ accepted a) q p)
    (hh : Conforms untilUpdated (fun q _ => q.1 = false → GivesBack q.2) (q,moves) p)
    (hr : ¬ accepted a) :
    q = false ∧ (∀ t ∈ turns, Harmless t) ∧ GivesBack (moves++lockMoves turns) := by
  induction ht generalizing q moves with
  | ret a =>
    have hq : q = false := Bool.eq_false_iff.mpr fun h => hr (hc.mp h)
    exact ⟨hq,fun _ h => (List.not_mem_nil h).elim,by simpa [lockMoves] using hh hq⟩
  | @step o w s s' r next turns a hs rest ih =>
    -- An update that was taken would still be on record at the end.
    obtain ⟨hu,hrest,hback⟩ := ih (hc.2 _) (hh.2 _) hr
    have hq : q = false := by
      cases q with
      | false => rfl
      | true => exact (updateNext_true _).symm.trans hu
    subst hq
    refine ⟨rfl,List.forall_mem_cons.mpr ⟨harmless_of_sem hs (hh.1 rfl) hu,hrest⟩,?_⟩
    have hmoves : lockMoves (⟨o,w,s,s'⟩::turns) = (lockMove o).toList++lockMoves turns := by
      rw [lockMoves,List.filterMap_cons]
      cases lockMove o <;> rfl
    rw [hmoves,← List.append_assoc]
    exact hback

end

/-- Two turns of the same program in states that a refused submission tells
apart, with the same answer where the operation is a call into the store. -/
structure Alike (env : Codecs) (t t' : Turn) : Prop where
  oracle : t.oracle = t'.oracle
  spared : Spared t.before t'.before
  answer : ∀ o, t.operation = .store o →
    (storeSem env o t.oracle.toStore t.before.store).map Prod.snd =
      (storeSem env o t.oracle.toStore t'.before.store).map Prod.snd

variable {o : ServerOp} {w : ServerOracle} {s s' t t' : Server} {r r' : ServerRes o}
  {p : ServerProg α} {a : α}

theorem spared_of_sem (hs : serverSem env config o w s = some (s',r))
    (ht : serverSem env config o w t = some (t',r')) (h : Spared s t) : Spared s' t' := by
  obtain ⟨store,issued,lock,rfl⟩ := h
  rw [effect_of_sem env config hs,effect_of_sem env config ht]
  cases o with
  | evict =>
    simp only [effect]
    split <;> exact ⟨_,_,_,rfl⟩
  | _ => exact ⟨_,_,_,rfl⟩

theorem answer_eq
    (hs : serverSem env config o w s = some (s',r)) (ht : serverSem env config o w t = some (t',r'))
    (h : Spared s t)
    (hstore : ∀ c, o = .store c → (storeSem env c w.toStore s.store).map Prod.snd =
      (storeSem env c w.toStore t.store).map Prod.snd) : r = r' := by
  obtain ⟨store,issued,lock,rfl⟩ := h
  cases o with
  | newId | lockSubmission | acquirePermit | waitContainer _ =>
    simp only [serverSem,Option.ite_none_left_eq_some] at hs ht
    cases hs.2
    cases ht.2
    rfl
  | insertContainerId _ _ | removeContainerId _ | insertWorkorder _ | claim _ | setStatus _ _
  | cancel _ =>
    simp only [serverSem,exclusive,Option.ite_none_right_eq_some] at hs ht
    cases hs.2
    cases ht.2
    rfl
  | store c =>
    have hc := hstore c rfl
    obtain ⟨a,ha,he⟩ := Option.map_eq_some_iff.mp hs
    obtain ⟨b,hb,he'⟩ := Option.map_eq_some_iff.mp ht
    cases he
    cases he'
    rw [ha] at hc
    dsimp only at hb hc
    rw [hb] at hc
    exact Option.some.inj hc
  | updateClient _ _ _ _ | readContainerId _ | findPending =>
    simp only [serverSem] at hs ht
    grind
  | evict =>
    simp only [serverSem,Option.ite_none_right_eq_some] at hs ht
    have hs := hs.2
    have ht := ht.2
    cases hh : hoursBefore w.time config.retentionHours with
    | none | some cutoff =>
      rw [hh] at hs ht
      cases hs
      cases ht
      rfl
  | _ =>
    cases hs
    cases ht
    rfl

theorem decided_alike {turns turns' : List Turn} {a' : α} (h : Takes env config turns p a)
    (h' : Takes env config turns' p a') (ha : List.Forall₂ (Alike env) turns turns') :
    a = a' ∧ List.Forall₂ (fun t t' => Spared t.after t'.after) turns turns' := by
  induction h generalizing turns' with
  | ret a =>
    cases h'
    exact ⟨rfl,.nil⟩
  | step hs rest ih =>
    cases h' with
    | step hs' rest' =>
      cases ha with
      | cons first others =>
        obtain ⟨hw,spared,answer⟩ := first
        dsimp only at hw spared answer
        subst hw
        have hr := answer_eq hs hs' spared answer
        subst hr
        obtain ⟨he,hall⟩ := ih rest' others
        exact ⟨he,.cons (spared_of_sem hs hs' spared) hall⟩

/-- A refused submission keeps what is in the snapshot store, draws an identifier and
takes the submission lock and gives it back. A submission in a server that
differs by such traces gets the same reply if the store gives it the same answers. -/
theorem refusals_spare_others (env : Codecs) (config : ServerConfig) (text : UnicodeText)
    (registry : CertRegistry) :
    (∀ headers body traceId turns reply,
      Takes env config turns (submitHandler text registry config headers body traceId) reply →
      statusCode reply ∈ [400,401,403,409,503] →
      (∀ t ∈ turns, Harmless t) ∧ GivesBack (lockMoves turns)) ∧
    ∀ headers body traceId turns turns' reply reply',
      Takes env config turns (submitHandler text registry config headers body traceId) reply →
      Takes env config turns' (submitHandler text registry config headers body traceId) reply' →
      List.Forall₂ (Alike env) turns turns' →
      reply = reply' ∧ List.Forall₂ (fun t t' => Spared t.after t'.after) turns turns' := by
  refine ⟨?_,fun _ _ _ _ _ _ _ => decided_alike⟩
  intro headers body traceId turns reply ht hcode
  unfold submitHandler at ht
  cases hb : checkSubmit text registry headers body traceId with
  | error rejection =>
    rw [hb] at ht
    cases ht
    exact ⟨fun _ h => (List.not_mem_nil h).elim,.inl rfl⟩
  | ok req =>
    rw [hb] at ht
    have refused : ¬ Accepted reply := by
      rintro ⟨id,rfl⟩
      simp [statusCode] at hcode
    refine (harmless_of_refused ht (conforms_bind (accepted_iff_updated config req) ?_)
      (conforms_bind (conforms_submitWorkorder req) fun _ _ h => h) refused).2
    intro updated outcome h
    exact h.trans (by simp [Accepted])

theorem takes_of_runs (h : Runs (serverSem env config) p s s' a) :
    ∃ turns, Takes env config turns p a := by
  induction h with
  | ret s a => exact ⟨[],.ret a⟩
  | step hs _ ih =>
    obtain ⟨turns,ht⟩ := ih
    exact ⟨_,.step hs ht⟩

def sampleBody (client : ClientId) (role : ClientRole) (portageConfig : PortageConfig) :
    SubmitBody :=
  ⟨client,role,[],[],portageConfig,"","",""⟩

def sampleSubmit (body : SubmitBody) : ServerProg SubmitReply :=
  submitHandler asciiText ⟨.none,defaultCertHeader,∅⟩ .default [] body none

def answered (id : Uuid) (body : SubmitBody) (s : Server) : Option (Server × ℕ) :=
  (runWith (serverSem plainCodecs .default) (List.replicate 20 { uuid := id })
    (sampleSubmit body) s).map fun r => (r.1,statusCode r.2)

def startedServer : Server := boot .default 0 ∅ ⟨none,none,none⟩ []

def sendsBlob : SubmitBody :=
  sampleBody "follower" .follower
    { PortageConfig.default with distfileSnapshots := {("a",[97])} }

def namesBlob : SubmitBody :=
  sampleBody "main" .main
    { PortageConfig.default with distfileSnapshotRefs := {("a",plainCodecs.sha256 [97])} }

theorem follower_refused_harmlessly :
    ∃ turns reply, Takes plainCodecs .default turns (sampleSubmit sendsBlob) reply ∧
      statusCode reply = 409 ∧ (∀ t ∈ turns, Harmless t) ∧ GivesBack (lockMoves turns) ∧
      ∀ reply', Takes plainCodecs .default turns (sampleSubmit sendsBlob) reply' →
        reply = reply' := by
  have code : (answered "2" sendsBlob startedServer).map Prod.snd = some 409 := by decide
  simp only [answered,Option.map_map,Option.map_eq_some_iff] at code
  obtain ⟨⟨s,reply⟩,run,code⟩ := code
  replace code : statusCode reply = 409 := code
  obtain ⟨turns,ht⟩ := takes_of_runs (runs_of_runWith _ _ _ _ _ run)
  have spare := refusals_spare_others plainCodecs .default asciiText
    ⟨.none,defaultCertHeader,∅⟩
  obtain ⟨harmless,back⟩ := spare.1 [] sendsBlob none turns reply ht (by simp [code])
  refine ⟨turns,reply,ht,code,harmless,back,?_⟩
  intro reply' ht'
  have same : List.Forall₂ (Alike plainCodecs) turns turns :=
    List.forall₂_same.mpr fun t _ => ⟨rfl,⟨_,_,_,rfl⟩,fun _ _ => rfl⟩
  exact (spare.2 [] sendsBlob none turns turns reply reply' ht ht' same).1

/-- A follower without a main client is refused, and its blob stays: the main
client that names this blob is admitted and would have been refused without. -/
theorem refused_blob_admits_another :
    (answered "1" namesBlob startedServer).map Prod.snd = some 400 ∧
      (answered "2" sendsBlob startedServer).map Prod.snd = some 409 ∧
      ((answered "2" sendsBlob startedServer).bind fun r =>
        (answered "1" namesBlob r.1).map Prod.snd) = some 200 := by
  decide

end Remerge.SubmitRefusals
