import Gravel.Lib.Run
import Gravel.Model.Scheduler

namespace Gravel.Proofs.Scheduler
open List Option

variable {h h' : SchedHost} {io : SafepointIo} {sp : Safepoint}

structure FullDone (io : SafepointIo) (h h' : SchedHost) (sp : Safepoint) : Prop where
  waiters : completeWaiters h.db.currentEpoch h.sched.lastCheckpointMs h.responses
    h.sched.fullWaiters = some h'.responses
  sched : h'.sched = { h.sched with
    lastFullGeneration := h.db.currentEpoch
    lastFullTimeMs := h.sched.lastCheckpointMs
    deltaChainLength := 0
    totalFullCheckpoints := h.sched.totalFullCheckpoints + 1
    fullPending := false
    fullWaiters := none }
  bins : h'.db.bins = h.db.bins
  epoch : h'.db.currentEpoch = h.db.currentEpoch
  rc : sp.rc = .ok
  dumps : sp.dumps = h.db.bins.map (fun b => ⟨b.dim,b.generation,ckptDumpFull (io.dump b.dim)⟩)
  purged : sp.purged = (purgeBins io h.db.currentEpoch h.db.dir h.db.bins).2

theorem fullCheckpoint_done (hfull : fullCheckpoint io h = some (h',sp)) : FullDone io h h' sp := by
  obtain ⟨responses,hw,hfull⟩ := bind_eq_some_iff.mp hfull
  cases hfull
  exact ⟨hw,rfl,rfl,rfl,rfl,rfl,rfl⟩

theorem fullCheckpoint_some {responses : List CkptFullResponse}
    (hw : completeWaiters h.db.currentEpoch h.sched.lastCheckpointMs h.responses
      h.sched.fullWaiters = some responses) : ∃ h' sp, fullCheckpoint io h = some (h',sp) := by
  unfold fullCheckpoint
  simp only [hw]
  exact ⟨_,_,rfl⟩

/-- A forced checkpoint is a delta checkpoint, followed by a full one if one is pending. -/
theorem force_cases (hforce : ckptSchedulerForceCheckpoint io h = some (h',sp)) :
    (h.sched.fullPending = false ∧ h' = deltaCheckpoint io h ∧ sp = ⟨.ok,[],[]⟩) ∨
      (h.sched.fullPending = true ∧ FullDone io (deltaCheckpoint io h) h' sp) := by
  unfold ckptSchedulerForceCheckpoint at hforce
  dsimp only at hforce
  split at hforce
  · rename_i hp
    exact .inr ⟨hp,fullCheckpoint_done hforce⟩
  · rename_i hp
    cases hforce
    exact .inl ⟨Bool.eq_false_of_not_eq_true hp,rfl,rfl⟩

/-- A tick flushes, and checkpoints when that is due; the flush touches two fields only. -/
theorem tick_cases {flushRc : Status} {now : UInt64}
    (htick : ckptSchedulerTick flushRc io h now = some (h',sp)) :
    ∃ sched, (sched = h.sched ∨ sched = tickFlush flushRc h.sched now) ∧
      (h' = { h with sched := sched } ∨
        ∃ h1, ckptSchedulerForceCheckpoint io { h with sched := sched } = some (h1,sp) ∧
          h' = { h1 with sched := { h1.sched with lastCheckpointMs := now } }) := by
  have hlate : ∀ sched, tickCheckpoint io { h with sched := sched } now = some (h',sp) →
      (h' = { h with sched := sched } ∨
        ∃ h1, ckptSchedulerForceCheckpoint io { h with sched := sched } = some (h1,sp) ∧
          h' = { h1 with sched := { h1.sched with lastCheckpointMs := now } }) := by
    intro sched hck
    unfold tickCheckpoint at hck
    split at hck
    · obtain ⟨⟨h1,sp1⟩,hforce,hck⟩ := bind_eq_some_iff.mp hck
      cases hck
      exact .inr ⟨h1,hforce,rfl⟩
    · cases hck
      exact .inl rfl
  unfold ckptSchedulerTick at htick
  split at htick
  · dsimp only at htick
    split at htick
    · cases htick
      exact ⟨_,.inr rfl,.inl rfl⟩
    · exact ⟨_,.inr rfl,hlate _ htick⟩
  · exact ⟨_,.inl rfl,hlate _ htick⟩

theorem request_cases {r : Nat} (hreq : ckptSchedulerRequestFull h r = some h') :
    r < h.responses.length ∧
      ((withinCooldown h.sched = true ∧ h' = { h with
          responses := h.responses.set r ⟨true,h.sched.lastFullGeneration,
            h.sched.lastFullGeneration,h.sched.lastFullTimeMs,none⟩ }) ∨
        (withinCooldown h.sched = false ∧ h' = { h with
          responses := h.responses.set r ⟨false,0,0,0,h.sched.fullWaiters⟩
          sched := { h.sched with fullWaiters := some r, fullPending := true } })) := by
  unfold ckptSchedulerRequestFull at hreq
  split_ifs at hreq with hlt hcool
  · cases hreq
    exact ⟨hlt,.inl ⟨hcool,rfl⟩⟩
  · cases hreq
    exact ⟨hlt,.inr ⟨by simpa using hcool,rfl⟩⟩

section Cooldown

/-- A full checkpoint that was completed in a tick: the time of the tick, the id it gave out and
the time of the checkpoint before it, 0 if there was none. -/
structure FullMoment where
  time : UInt64
  id : Nat
  before : UInt64
deriving DecidableEq

structure TickHistory where
  latest : UInt64
  lastCkpt : UInt64
  full : Option FullMoment

def TickHistory.tick (t : TickHistory) (now : UInt64) (h h' : SchedHost) : TickHistory where
  latest := now
  lastCkpt := if h'.sched.totalCheckpoints = h.sched.totalCheckpoints then t.lastCkpt else now
  full := if h'.sched.totalFullCheckpoints = h.sched.totalFullCheckpoints then t.full
    else some ⟨now,h'.db.currentEpoch,t.lastCkpt⟩

inductive TickCall where
  | tick (flushRc : Status) (io : SafepointIo) (nowMs : UInt64)
  | requestFull (response : Nat)

def tickStep (s : SchedHost × TickHistory) : TickCall → Option (SchedHost × TickHistory)
  | .tick flushRc io now =>
    if s.2.latest ≤ now then do
      let (h,_) ← ckptSchedulerTick flushRc io s.1 now
      return (h,s.2.tick now s.1 h)
    else none
  | .requestFull r => do
    let h ← ckptSchedulerRequestFull s.1 r
    return (h,s.2)

def freshHost (db : CkptStore) (config : Option CkptConfig) (responses : List CkptFullResponse) :
    SchedHost × TickHistory :=
  (⟨ckptSchedulerInit db config,db,responses⟩,⟨0,0,none⟩)

/-- The times of the scheduler are those of the ticks, except that the time of a full checkpoint is
that of the checkpoint before it. -/
structure Clocked (cooldown : UInt32) (s : SchedHost × TickHistory) : Prop where
  cooldown : s.1.sched.fullCooldownMs = cooldown
  ckpt : s.1.sched.lastCheckpointMs = s.2.lastCkpt
  full : ∀ m, s.2.full = some m →
    s.1.sched.lastFullTimeMs = m.before ∧ s.1.sched.lastFullGeneration = m.id

variable {cooldown : UInt32} {t t' : TickHistory}

theorem freshHost_clocked (db : CkptStore) (config : Option CkptConfig)
    (responses : List CkptFullResponse) :
    Clocked (config.getD ckptConfigDefault).fullCooldownMs (freshHost db config responses) := by
  refine ⟨rfl,rfl,?_⟩
  intro m hm
  cases hm

theorem Clocked.request {r : Nat} (hc : Clocked cooldown (h,t))
    (hreq : ckptSchedulerRequestFull h r = some h') : Clocked cooldown (h',t) := by
  rcases (request_cases hreq).2 with ⟨_,rfl⟩ | ⟨_,rfl⟩
  · exact ⟨hc.cooldown,hc.ckpt,hc.full⟩
  · exact ⟨hc.cooldown,hc.ckpt,hc.full⟩

/-- A tick that makes a full checkpoint notes the time before it; the others keep what was noted. -/
theorem Clocked.tick {flushRc : Status} {now : UInt64} (hc : Clocked cooldown (h,t))
    (htick : ckptSchedulerTick flushRc io h now = some (h',sp)) :
    Clocked cooldown (h',t.tick now h h') := by
  obtain ⟨sched,hsched,hcases⟩ := tick_cases htick
  have hflush : sched.fullCooldownMs = h.sched.fullCooldownMs ∧
      sched.lastCheckpointMs = h.sched.lastCheckpointMs ∧
      sched.lastFullTimeMs = h.sched.lastFullTimeMs ∧
      sched.lastFullGeneration = h.sched.lastFullGeneration ∧
      sched.totalCheckpoints = h.sched.totalCheckpoints ∧
      sched.totalFullCheckpoints = h.sched.totalFullCheckpoints := by
    rcases hsched with rfl | rfl <;> exact ⟨rfl,rfl,rfl,rfl,rfl,rfl⟩
  obtain ⟨hcool,hck,htime,hgen,htotal,hfulls⟩ := hflush
  rcases hcases with rfl | ⟨h1,hforce,rfl⟩
  · refine ⟨hcool.trans hc.cooldown,?_,?_⟩
    · simp only [TickHistory.tick,htotal,if_true]
      exact hck.trans hc.ckpt
    · simp only [TickHistory.tick,hfulls,if_true]
      intro m hm
      obtain ⟨hbefore,hid⟩ := hc.full m hm
      exact ⟨htime.trans hbefore,hgen.trans hid⟩
  · rcases force_cases hforce with ⟨_,rfl,_⟩ | ⟨_,hdone⟩
    · refine ⟨hcool.trans hc.cooldown,?_,?_⟩
      · simp [TickHistory.tick,deltaCheckpoint,htotal]
      · simp only [TickHistory.tick,deltaCheckpoint,hfulls,if_true]
        intro m hm
        obtain ⟨hbefore,hid⟩ := hc.full m hm
        exact ⟨htime.trans hbefore,hgen.trans hid⟩
    · refine ⟨?_,?_,?_⟩
      · simp only [hdone.sched]
        exact hcool.trans hc.cooldown
      · simp [TickHistory.tick,hdone.sched,deltaCheckpoint,htotal]
      · simp only [TickHistory.tick,hdone.sched,deltaCheckpoint,hfulls]
        intro m hm
        rw [if_neg (by omega)] at hm
        cases hm
        exact ⟨hck.trans hc.ckpt,hdone.epoch.symm⟩

theorem tickStep_clocked (s : SchedHost × TickHistory) (call : TickCall)
    (s' : SchedHost × TickHistory) (hc : Clocked cooldown s) (hstep : tickStep s call = some s') :
    Clocked cooldown s' := by
  cases call with
  | tick flushRc io now =>
    simp only [tickStep] at hstep
    split_ifs at hstep
    obtain ⟨⟨h1,sp⟩,htick,hstep⟩ := bind_eq_some_iff.mp hstep
    cases hstep
    exact hc.tick htick
  | requestFull r =>
    obtain ⟨h1,hreq,hstep⟩ := bind_eq_some_iff.mp hstep
    cases hstep
    exact hc.request hreq

/-- While the latest full checkpoint is recent, a request is answered at once with its id, and the
scheduler stays as it is. -/
def AnsweredByRecent (s : SchedHost × TickHistory) (r : Nat) : Prop :=
  ∀ m, s.2.full = some m → s.2.latest - m.time < s.1.sched.fullCooldownMs.toUInt64 →
    ∃ h' x, ckptSchedulerRequestFull s.1 r = some h' ∧ h'.sched = s.1.sched ∧
      h'.responses[r]? = some x ∧ x.completed = true ∧ x.checkpointId = m.id

/-- The scheduler counts from the checkpoint before the full one to the latest checkpoint, and
never answers from a full checkpoint that was the first checkpoint. -/
theorem answered_by_recent_iff (db : CkptStore) (config : Option CkptConfig)
    (responses : List CkptFullResponse)
    (hcool : 0 < (config.getD ckptConfigDefault).fullCooldownMs) (calls : List TickCall)
    (s : SchedHost × TickHistory) (hrun : Run.run tickStep (freshHost db config responses) calls = some s)
    (r : Nat) (hr : r < s.1.responses.length) :
    AnsweredByRecent s r ↔
      ∀ m, s.2.full = some m →
        s.2.latest - m.time < (config.getD ckptConfigDefault).fullCooldownMs.toUInt64 →
        0 < m.before ∧
          s.2.lastCkpt - m.before < (config.getD ckptConfigDefault).fullCooldownMs.toUInt64 := by
  have hc : Clocked (config.getD ckptConfigDefault).fullCooldownMs s :=
    Run.run_keeps tickStep_clocked calls _ s (freshHost_clocked db config responses) hrun
  obtain ⟨h,t⟩ := s
  have hck : h.sched.lastCheckpointMs = t.lastCkpt := hc.ckpt
  have hcd : h.sched.fullCooldownMs = (config.getD ckptConfigDefault).fullCooldownMs := hc.cooldown
  simp only [AnsweredByRecent,hcd]
  refine forall_congr' fun m => forall_congr' fun hm => forall_congr' fun _ => ?_
  obtain ⟨hbefore,hid⟩ : h.sched.lastFullTimeMs = m.before ∧ h.sched.lastFullGeneration = m.id :=
    hc.full m hm
  have hlt : r < h.responses.length := hr
  have hwithin : withinCooldown h.sched = true ↔
      0 < m.before ∧ t.lastCkpt - m.before < (config.getD ckptConfigDefault).fullCooldownMs.toUInt64 := by
    simp only [withinCooldown,hbefore,hck,hcd,hcool,Bool.and_eq_true,decide_eq_true_eq,and_true]
  rw [← hwithin]
  constructor
  · rintro ⟨h',x,hreq,_,hx,hdone,_⟩
    rcases (request_cases hreq).2 with ⟨hin,_⟩ | ⟨_,rfl⟩
    · exact hin
    · rw [getElem?_set_self hlt] at hx
      cases hx
      cases hdone
  · intro hin
    refine ⟨{ h with responses := h.responses.set r ⟨true,h.sched.lastFullGeneration,
        h.sched.lastFullGeneration,h.sched.lastFullTimeMs,none⟩ },_,?_,rfl,
      getElem?_set_self hlt,rfl,hid⟩
    rw [ckptSchedulerRequestFull,if_pos hlt,if_pos hin]

def goodIo : SafepointIo where
  deltaOpens := fun _ => true
  metaWrites := fun _ => true
  dump := fun _ => ⟨true,some 0,fun _ => ⟨none,none⟩⟩
  ckptDirOpens := fun _ => true
  unlinks := fun _ => true

def oneBinStore : CkptStore := storeOpen [4] (fun _ => true) ⟨fun _ => none,[]⟩

def blankResponses : List CkptFullResponse := List.replicate 2 ⟨false,0,0,0,none⟩

def patientRun : List TickCall := [.tick .ok goodIo 60000,.requestFull 0,.tick .ok goodIo 120000]

def patientHost : SchedHost × TickHistory :=
  (Run.run tickStep (freshHost oneBinStore (some ⟨1000,60,300000⟩) blankResponses) patientRun).get
    (by decide +kernel)

theorem patient_request_answered :
    patientHost.2.full = some ⟨120000,2,60000⟩ ∧ AnsweredByRecent patientHost 1 := by
  have hfull : patientHost.2.full = some ⟨120000,2,60000⟩ := by decide +kernel
  refine ⟨hfull,(answered_by_recent_iff oneBinStore (some ⟨1000,60,300000⟩) blankResponses
    (by decide) patientRun patientHost (some_get _).symm 1 (by decide +kernel)).mpr ?_⟩
  intro m hm _
  cases hfull.symm.trans hm
  decide +kernel

def eagerHost : SchedHost × TickHistory :=
  (Run.run tickStep (freshHost oneBinStore none blankResponses)
    [.requestFull 0,.tick .ok goodIo 60000]).get (by decide +kernel)

theorem eager_request_waits :
    eagerHost.2.full = some ⟨60000,1,0⟩ ∧ eagerHost.2.latest = 60000 ∧
      ¬ AnsweredByRecent eagerHost 1 := by
  have hfull : eagerHost.2.full = some ⟨60000,1,0⟩ := by decide +kernel
  have hwaits : (ckptSchedulerRequestFull eagerHost.1 1).bind (fun h => h.responses[1]?) =
      some ⟨false,0,0,0,none⟩ := by decide +kernel
  refine ⟨hfull,by decide +kernel,?_⟩
  intro hanswer
  obtain ⟨h',x,hreq,_,hx,hdone,_⟩ := hanswer _ hfull (by decide +kernel)
  rw [hreq,bind_some,hx] at hwaits
  cases hwaits
  cases hdone

end Cooldown

end Gravel.Proofs.Scheduler
