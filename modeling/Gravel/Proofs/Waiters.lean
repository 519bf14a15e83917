import Gravel.Proofs.Scheduler

namespace Gravel.Proofs.Waiters
open Scheduler List Option

def stillWaiting (h : SchedHost) (l : List Nat) : List Nat :=
  l.filter (fun r => h.responses[r]?.map CkptFullResponse.completed = some false)

def waitingAfter (h : SchedHost) (pending : List Nat) : HostCall → List Nat
  | .reopen _ _ _ => []
  | .requestFull r => stillWaiting h (r :: pending)
  | _ => stillWaiting h pending

/-- A call together with the responses that wait; none of them is handed in a second time. -/
def waiterStep (s : SchedHost × List Nat) (call : HostCall) : Option (SchedHost × List Nat) :=
  match call with
  | .requestFull r => if r ∈ s.2 then none else next
  | _ => next
where
  next : Option (SchedHost × List Nat) := do
    let h ← hostStep s.1 call
    return (h,waitingAfter h s.2 call)

section Steps

variable {h h' : SchedHost} {pending : List Nat} {io : SafepointIo} {sp : Safepoint}

def Uncompleted (h : SchedHost) (r : Nat) : Prop :=
  ∃ x, h.responses[r]? = some x ∧ x.completed = false

/-- The list of the scheduler holds exactly the waiting responses, and the flag says whether
there are any. -/
structure ListsWaiting (s : SchedHost × List Nat) : Prop where
  path : Chain.Path CkptFullResponse.next s.1.responses s.1.sched.fullWaiters s.2
  uncompleted : ∀ r ∈ s.2, Uncompleted s.1 r
  flag : s.1.sched.fullPending = true ↔ s.2 ≠ []

theorem stillWaiting_all (hall : ∀ r ∈ pending, Uncompleted h r) : stillWaiting h pending = pending := by
  apply filter_eq_self.mpr
  intro r hr
  obtain ⟨x,hx,hopen⟩ := hall r hr
  simp [hx,hopen]

theorem stillWaiting_none (hall : ∀ r ∈ pending, ∃ x, h.responses[r]? = some x ∧ x.completed = true) :
    stillWaiting h pending = [] := by
  apply filter_eq_nil_iff.mpr
  intro r hr
  obtain ⟨x,hx,hdone⟩ := hall r hr
  simp [hx,hdone]

theorem openHost_waiting (dims : List Nat) (config : Option CkptConfig) (metaReads : Nat → Bool)
    (dir : CkptDir) (responses : List CkptFullResponse) :
    ListsWaiting (openHost dims config metaReads dir responses,[]) := by
  refine ⟨.nil,?_,?_⟩
  · intro r hr
    cases hr
  · simp [openHost,ckptSchedulerInit]

theorem ListsWaiting.same (hw : ListsWaiting (h,pending)) (hresp : h'.responses = h.responses)
    (hhead : h'.sched.fullWaiters = h.sched.fullWaiters)
    (hflag : h'.sched.fullPending = h.sched.fullPending) : ListsWaiting (h',stillWaiting h' pending) := by
  have hopen : ∀ r ∈ pending, Uncompleted h' r := by
    intro r hr
    obtain ⟨x,hx,hdone⟩ := hw.uncompleted r hr
    exact ⟨x,by rw [hresp]; exact hx,hdone⟩
  rw [stillWaiting_all hopen]
  refine ⟨?_,hopen,?_⟩
  · rw [hresp,hhead]
    exact hw.path
  · rw [hflag]
    exact hw.flag

theorem ListsWaiting.request {r : Nat} (hw : ListsWaiting (h,pending)) (hr : r ∉ pending)
    (hreq : ckptSchedulerRequestFull h r = some h') :
    ListsWaiting (h',stillWaiting h' (r :: pending)) := by
  obtain ⟨hlt,hcases⟩ := request_cases hreq
  have hother : ∀ y, ∀ q ∈ pending, (h.responses.set r y)[q]? = h.responses[q]? := by
    intro y q hq
    have hne : r ≠ q := by
      rintro rfl
      exact hr hq
    exact getElem?_set_ne hne
  rcases hcases with ⟨_,rfl⟩ | ⟨_,rfl⟩
  · have hdone : stillWaiting { h with
        responses := h.responses.set r ⟨true,h.sched.lastFullGeneration,h.sched.lastFullGeneration,
          h.sched.lastFullTimeMs,none⟩ } (r :: pending) = pending := by
      unfold stillWaiting
      rw [filter_cons_of_neg (by simp [hlt])]
      refine stillWaiting_all fun q hq => ?_
      obtain ⟨x,hx,hopen⟩ := hw.uncompleted q hq
      exact ⟨x,by simp only [hother _ q hq]; exact hx,hopen⟩
    rw [hdone]
    refine ⟨hw.path.set hr _,?_,hw.flag⟩
    intro q hq
    obtain ⟨x,hx,hopen⟩ := hw.uncompleted q hq
    exact ⟨x,by simp only [hother _ q hq]; exact hx,hopen⟩
  · have hopen : ∀ q ∈ r :: pending, Uncompleted { h with
        responses := h.responses.set r ⟨false,0,0,0,h.sched.fullWaiters⟩
        sched := { h.sched with fullWaiters := some r, fullPending := true } } q := by
      intro q hq
      rcases mem_cons.mp hq with rfl | hq
      · exact ⟨_,getElem?_set_self hlt,rfl⟩
      · obtain ⟨x,hx,hopen⟩ := hw.uncompleted q hq
        exact ⟨x,by simp only [hother _ q hq]; exact hx,hopen⟩
    rw [stillWaiting_all hopen]
    exact ⟨hw.path.push hr hlt rfl,hopen,by simp⟩

theorem ListsWaiting.complete (hw : ListsWaiting (h,pending)) (id : Nat) (time : UInt64) :
    ∃ responses, completeWaiters id time h.responses h.sched.fullWaiters = some responses ∧
      ∀ r ∈ pending, ∃ x, responses[r]? = some x ∧ x.completed = true ∧ x.checkpointId = id := by
  obtain ⟨responses,hwalk,_,hcells⟩ := hw.path.walk (completeResponse id time)
    (fun _ => rfl) hw.path.length_le
  refine ⟨responses,hwalk,?_⟩
  intro r hr
  obtain ⟨x,hx,_⟩ := hw.uncompleted r hr
  refine ⟨completeResponse id time x,?_,rfl,rfl⟩
  have hx' : h.responses[r]? = some x := hx
  rw [hcells r,if_pos hr,hx',map_some]

theorem deltaCheckpoint_waiting (io : SafepointIo) (hw : ListsWaiting (h,pending)) :
    ListsWaiting (deltaCheckpoint io h,pending) :=
  ⟨hw.path,hw.uncompleted,hw.flag⟩

structure Forced (io : SafepointIo) (h : SchedHost) (pending : List Nat) (h' : SchedHost)
    (sp : Safepoint) : Prop where
  rc : sp.rc = .ok
  completed : ∀ r ∈ pending, ∃ x, h'.responses[r]? = some x ∧ x.completed = true ∧
    x.checkpointId = h.db.currentEpoch + 1
  dumps : sp.dumps = if pending = [] then [] else h.db.bins.map (fun b =>
    ⟨b.dim,b.generation + 1,ckptDumpFull (io.dump b.dim)⟩)
  waiting : ListsWaiting (h',stillWaiting h' pending)

theorem ListsWaiting.forced (hw : ListsWaiting (h,pending))
    (hforce : ckptSchedulerForceCheckpoint io h = some (h',sp)) : Forced io h pending h' sp := by
  rcases force_cases hforce with ⟨hflag,rfl,rfl⟩ | ⟨hflag,hdone⟩
  · have hnil : pending = [] := by
      by_contra hne
      rw [hw.flag.mpr hne] at hflag
      cases hflag
    subst hnil
    refine ⟨rfl,?_,by rw [if_pos rfl],hw.same rfl rfl rfl⟩
    intro r hr
    cases hr
  · have hne : pending ≠ [] := hw.flag.mp hflag
    obtain ⟨responses,hwalk,hall⟩ := (deltaCheckpoint_waiting io hw).complete
      (deltaCheckpoint io h).db.currentEpoch (deltaCheckpoint io h).sched.lastCheckpointMs
    cases hwalk.symm.trans hdone.waiters
    refine ⟨hdone.rc,hall,?_,?_⟩
    · rw [if_neg hne,hdone.dumps]
      simp only [deltaCheckpoint,storeCheckpoint,List.map_map]
      rfl
    · have hnone : stillWaiting h' pending = [] := by
        refine stillWaiting_none fun r hr => ?_
        obtain ⟨x,hx,hdone,_⟩ := hall r hr
        exact ⟨x,hx,hdone⟩
      rw [hnone]
      refine ⟨?_,?_,?_⟩
      · simp only [hdone.sched]
        exact .nil
      · intro r hr
        cases hr
      · simp [hdone.sched]

theorem ListsWaiting.force (hw : ListsWaiting (h,pending)) (io : SafepointIo) :
    ∃ h' sp, ckptSchedulerForceCheckpoint io h = some (h',sp) := by
  unfold ckptSchedulerForceCheckpoint
  dsimp only
  split
  · obtain ⟨responses,hwalk,_⟩ := (deltaCheckpoint_waiting io hw).complete
      (deltaCheckpoint io h).db.currentEpoch (deltaCheckpoint io h).sched.lastCheckpointMs
    exact fullCheckpoint_some hwalk
  · exact ⟨_,_,rfl⟩

theorem ListsWaiting.tick {flushRc : Status} {now : UInt64} (hw : ListsWaiting (h,pending))
    (htick : ckptSchedulerTick flushRc io h now = some (h',sp)) :
    ListsWaiting (h',stillWaiting h' pending) := by
  obtain ⟨sched,hsched,hcases⟩ := tick_cases htick
  have hflush : sched.fullWaiters = h.sched.fullWaiters ∧
      sched.fullPending = h.sched.fullPending := by
    rcases hsched with rfl | rfl <;> exact ⟨rfl,rfl⟩
  have hw' : ListsWaiting ({ h with sched := sched },pending) := by
    refine ⟨?_,hw.uncompleted,?_⟩
    · simp only [hflush.1]
      exact hw.path
    · simp only [hflush.2]
      exact hw.flag
  rcases hcases with rfl | ⟨h1,hforce,rfl⟩
  · exact hw'.same rfl rfl rfl
  · have hdone := (hw'.forced hforce).waiting
    exact ⟨hdone.path,hdone.uncompleted,hdone.flag⟩

theorem waiterStep_waiting (s : SchedHost × List Nat) (call : HostCall) (s' : SchedHost × List Nat)
    (hw : ListsWaiting s) (hstep : waiterStep s call = some s') : ListsWaiting s' := by
  obtain ⟨h,pending⟩ := s
  cases call with
  | reopen dims config metaReads =>
    cases hstep
    exact openHost_waiting dims config metaReads _ _
  | createBin dim =>
    cases hstep
    exact hw.same rfl rfl rfl
  | checkpoint deltaOpens =>
    cases hstep
    exact hw.same rfl rfl rfl
  | requestFull r =>
    simp only [waiterStep] at hstep
    split_ifs at hstep with hr
    obtain ⟨h1,hreq,hstep⟩ := bind_eq_some_iff.mp hstep
    cases hstep
    exact hw.request hr hreq
  | forceCheckpoint io =>
    obtain ⟨h1,hreq,hstep⟩ := bind_eq_some_iff.mp hstep
    obtain ⟨⟨h2,sp⟩,hforce,rfl⟩ := map_eq_some_iff.mp hreq
    cases hstep
    exact (hw.forced hforce).waiting
  | tick flushRc io now =>
    obtain ⟨h1,hreq,hstep⟩ := bind_eq_some_iff.mp hstep
    obtain ⟨⟨h2,sp⟩,htick,rfl⟩ := map_eq_some_iff.mp hreq
    cases hstep
    exact hw.tick htick

end Steps

/-- A forced checkpoint returns, and completes the responses that wait with one id, which is the
generation of the full dump of every bin. -/
def ServesWaiters (s : SchedHost × List Nat) (io : SafepointIo) : Prop :=
  ∃ h' sp, ckptSchedulerForceCheckpoint io s.1 = some (h',sp) ∧ sp.rc = .ok ∧
    ∃ id, (∀ r ∈ s.2, ∃ x, h'.responses[r]? = some x ∧ x.completed = true ∧ x.checkpointId = id) ∧
      (s.2 ≠ [] → sp.dumps.map FullDump.dim = s.1.db.bins.map BinGen.dim) ∧
      ∀ d ∈ sp.dumps, d.generation = id

theorem ListsWaiting.serves_iff {s : SchedHost × List Nat} (hw : ListsWaiting s) (io : SafepointIo) :
    ServesWaiters s io ↔ s.2 = [] ∨ ∀ b ∈ s.1.db.bins, b.generation = s.1.db.currentEpoch := by
  obtain ⟨h,pending⟩ := s
  constructor
  · rintro ⟨h',sp,hforce,_,id,hall,_,hdumps⟩
    have hforced := hw.forced hforce
    by_cases hne : pending = []
    · exact .inl hne
    · refine .inr fun b hb => ?_
      obtain ⟨r,hr⟩ := exists_mem_of_ne_nil pending hne
      obtain ⟨x,hx,_,hid⟩ := hall r hr
      obtain ⟨y,hy,_,hepoch⟩ := hforced.completed r hr
      cases hx.symm.trans hy
      have hgen : b.generation + 1 = id := by
        refine hdumps ⟨b.dim,b.generation + 1,ckptDumpFull (io.dump b.dim)⟩ ?_
        rw [hforced.dumps,if_neg hne]
        exact List.mem_map.mpr ⟨b,hb,rfl⟩
      show b.generation = h.db.currentEpoch
      omega
  · intro hcond
    obtain ⟨h',sp,hforce⟩ := hw.force io
    have hforced := hw.forced hforce
    refine ⟨h',sp,hforce,hforced.rc,h.db.currentEpoch + 1,hforced.completed,?_,?_⟩
    · intro hne
      rw [hforced.dumps,if_neg hne,List.map_map]
      rfl
    · intro d hd
      rw [hforced.dumps] at hd
      split_ifs at hd with hnil
      · cases hd
      · obtain ⟨b,hb,rfl⟩ := List.mem_map.mp hd
        rcases hcond with hnil' | hgen
        · exact absurd hnil' hnil
        · exact congrArg (· + 1) (hgen b hb)

/-- The waiters are served exactly as long as the generation of each bin is the epoch of the
store. The epoch starts at 0 with every open, the generations are restored. -/
theorem serves_waiters_iff (dims : List Nat) (config : Option CkptConfig) (metaReads : Nat → Bool)
    (dir : CkptDir) (responses : List CkptFullResponse) (calls : List HostCall)
    (s : SchedHost × List Nat)
    (hrun : Run.run waiterStep (openHost dims config metaReads dir responses,[]) calls = some s)
    (io : SafepointIo) :
    ServesWaiters s io ↔ s.2 = [] ∨ ∀ b ∈ s.1.db.bins, b.generation = s.1.db.currentEpoch := by
  have hw : ListsWaiting s := Run.run_keeps waiterStep_waiting calls _ s
    (openHost_waiting dims config metaReads dir responses) hrun
  exact hw.serves_iff io

def newHost : SchedHost × List Nat :=
  (openHost [4] none (fun _ => true) ⟨fun _ => none,[]⟩ blankResponses,[])

def twoWaiters : SchedHost × List Nat :=
  (Run.run waiterStep newHost [.requestFull 0,.forceCheckpoint goodIo,.requestFull 0,
    .requestFull 1]).get (by decide +kernel)

theorem two_waiters_served : twoWaiters.2 = [1,0] ∧ ServesWaiters twoWaiters goodIo :=
  ⟨by decide +kernel,(serves_waiters_iff [4] none (fun _ => true) ⟨fun _ => none,[]⟩ blankResponses _
    twoWaiters (some_get _).symm goodIo).mpr (.inr (by decide +kernel))⟩

def reopenedHost : SchedHost × List Nat :=
  (Run.run waiterStep newHost [.forceCheckpoint goodIo,.reopen [4] none (fun _ => true),
    .requestFull 0]).get (by decide +kernel)

/-- The client is told 1 and the dump is named 2. -/
theorem reopened_waiter_misled : reopenedHost.2 = [0] ∧
    ((ckptSchedulerForceCheckpoint goodIo reopenedHost.1).map (fun a =>
      (a.1.responses[0]?.map CkptFullResponse.checkpointId,a.2.dumps.map FullDump.generation)) =
        some (some 1,[2])) ∧ ¬ ServesWaiters reopenedHost goodIo := by
  have hpending : reopenedHost.2 = [0] := by decide +kernel
  have hw : ListsWaiting reopenedHost := Run.run_keeps waiterStep_waiting _ newHost reopenedHost
    (openHost_waiting _ _ _ _ _) (some_get _).symm
  refine ⟨hpending,by decide +kernel,?_⟩
  intro hserves
  rcases (hw.serves_iff goodIo).mp hserves with hnil | hgen
  · rw [hpending] at hnil
    cases hnil
  · revert hgen
    decide +kernel

end Gravel.Proofs.Waiters
