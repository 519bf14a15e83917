import Gravel.Model.IoRing
import Gravel.Proofs.Slots

namespace Gravel.Proofs.RingAccounting
open List Option

def outstanding (ctx : UringIoCtx) : Nat := ctx.sq.length + ctx.inFlight.length + ctx.cq.length

def Accounted (ctx : UringIoCtx) : Prop := ctx.pending = outstanding ctx

def taskRequests : IoTask → Nat
  | .write _ => 1
  | .fsync _ => 1
  | .fsyncs => uringMaxFds
  | .drain | .wait | .waitCqe | .poll | .pollReap => 0

def requestLimit : Nat := 65535 * maxFlushBatch + uringMaxFds

structure RingInv (s : IoRing) : Prop where
  accounted : Accounted s.ctx
  fits : outstanding s.ctx + (s.todo.map taskRequests).sum ≤ requestLimit
  fds : s.ctx.fsyncFds.length ≤ uringMaxFds

section Ctx

variable {ctx : UringIoCtx}

theorem outstanding_submit : outstanding (ioUringSubmit ctx) = outstanding ctx := by
  simp only [outstanding,ioUringSubmit,length_append,length_nil]
  omega

theorem outstanding_prep (r : IoRequest) :
    outstanding (prepRequest ctx r) = outstanding ctx + 1 := by
  simp only [outstanding,prepRequest,length_append,length_singleton]
  omega

theorem outstanding_reap : outstanding (reapCqes ctx) = ctx.sq.length + ctx.inFlight.length := by
  simp [outstanding,reapCqes]

theorem trackFd_counts (ctx : UringIoCtx) (fd : Nat) : outstanding (uringIoTrackFd ctx fd) = outstanding ctx ∧
    (uringIoTrackFd ctx fd).pending = ctx.pending := by
  unfold uringIoTrackFd
  split_ifs <;> exact ⟨rfl,rfl⟩

theorem trackFd_fds (fd : Nat) (h : ctx.fsyncFds.length ≤ uringMaxFds) :
    (uringIoTrackFd ctx fd).fsyncFds.length ≤ uringMaxFds := by
  unfold uringIoTrackFd
  split_ifs with _ hroom
  · exact h
  · simp only [length_append,length_singleton]
    omega
  · exact h

theorem limit_lt : requestLimit < 2 ^ 32 := by decide

theorem Accounted.submit (h : Accounted ctx) : Accounted (ioUringSubmit ctx) := by
  rw [Accounted,outstanding_submit]
  exact h

theorem Accounted.prep (h : Accounted ctx) (hroom : outstanding ctx + 1 ≤ requestLimit)
    (r : IoRequest) : Accounted (prepRequest ctx r) := by
  have hlt := limit_lt
  have hp : ctx.pending = outstanding ctx := h
  rw [Accounted,outstanding_prep]
  simp only [prepRequest]
  rw [hp,Nat.mod_eq_of_lt (by omega)]

theorem Accounted.reap (h : Accounted ctx) (hroom : outstanding ctx ≤ requestLimit) :
    Accounted (reapCqes ctx) := by
  have hlt := limit_lt
  have hp : ctx.pending = outstanding ctx := h
  rw [Accounted,outstanding_reap]
  simp only [reapCqes]
  rw [hp]
  unfold outstanding at hroom ⊢
  rw [Nat.mod_eq_of_lt (by omega : ctx.cq.length < 2 ^ 32)]
  omega

end Ctx

/-- The counter is right after the step, and "done" is reported only when nothing is outstanding. -/
def Honest (_ : IoRing) (_ : IoEvent) (s' : IoRing) : Prop :=
  Accounted s'.ctx ∧ (s'.report = .done → outstanding s'.ctx = 0)

def Submits : IoEvent → Prop
  | .flush db => db.bins ≠ []
  | .flushSubmit db => db.bins ≠ []
  | .flushPoll | .advance | .complete _ _ => False

/-- A flush starts only when nothing is outstanding, and a poll returns with fewer than `2 ^ 31`
requests on their way. -/
def Exclusive (s : IoRing) (ev : IoEvent) (_ : IoRing) : Prop :=
  (Submits ev → outstanding s.ctx = 0) ∧
  (ev = .advance → s.todo.head? = some .pollReap →
    s.ctx.sq.length + s.ctx.inFlight.length < 2 ^ 31)

def FewBins : IoEvent → Prop
  | .flush db => db.bins.length < 2 ^ 16
  | .flushSubmit db => db.bins.length < 2 ^ 16
  | .flushPoll | .advance | .complete _ _ => True

section Queue

theorem queuePages_length {wb : WriteBuffer} {i : Nat} (pages : List Nat) :
    ∀ queue, queuePages wb i pages = some queue → queue.length ≤ pages.length := by
  induction pages with
  | nil =>
    intro queue h
    cases h
    exact Nat.le_refl _
  | cons pg rest ih =>
    intro queue h
    obtain ⟨buf,_,h⟩ := bind_eq_some_iff.mp h
    obtain ⟨q,hq,h⟩ := bind_eq_some_iff.mp h
    cases h
    have := ih q hq
    cases buf <;> simp <;> omega

theorem submitWritePhase_length {s s' : DimBin} {i : Nat} {queue : List QueuedWrite}
    (h : submitWritePhase s i = some (s',queue)) : queue.length ≤ maxFlushBatch := by
  unfold submitWritePhase at h
  split_ifs at h
  · cases h
    exact Nat.zero_le _
  · obtain ⟨q,hq,h⟩ := bind_eq_some_iff.mp h
    cases h
    have hlen := queuePages_length _ _ hq
    have hpages : (dimbinFlushPages maxFlushBatch s.writeBuf).length ≤ maxFlushBatch := by
      rw [dimbinFlushPages,length_insertionSort]
      exact length_take_le _ _
    omega

theorem submitWrites_length (bins : List DimBin) : ∀ (i : Nat) bins' queue,
    submitWrites i bins = some (bins',queue) → queue.length ≤ bins.length * maxFlushBatch := by
  induction bins with
  | nil =>
    intro i bins' queue h
    cases h
    exact Nat.zero_le _
  | cons s rest ih =>
    intro i bins' queue h
    obtain ⟨⟨s',q⟩,hq,h⟩ := bind_eq_some_iff.mp h
    obtain ⟨⟨rest',qs⟩,hqs,h⟩ := bind_eq_some_iff.mp h
    cases h
    have h1 := submitWritePhase_length hq
    have h2 := ih _ _ _ hqs
    rw [length_append,length_cons,Nat.succ_mul]
    omega

end Queue

section Steps

variable {s s' : IoRing}

theorem sum_single {α : Type} {f : α → IoTask} (h : ∀ a, taskRequests (f a) = 1) (l : List α) :
    ((l.map f).map taskRequests).sum = l.length := by
  induction l with
  | nil => rfl
  | cons a rest ih =>
    simp only [map_cons,sum_cons,length_cons,ih,h]
    omega

theorem callRing_step {bins : List DimBin} {last : List IoTask} (hbins : bins.length < 2 ^ 16)
    (hlast : (last.map taskRequests).sum = 0) (h : callRing s bins last = some s') :
    (Accounted s'.ctx ↔ outstanding s.ctx = 0) ∧ s'.report = .silent ∧
      (outstanding s.ctx = 0 → RingInv s') := by
  obtain ⟨⟨bins',queue⟩,hq,h⟩ := bind_eq_some_iff.mp h
  cases h
  have hlen := submitWrites_length bins 0 bins' queue hq
  have hout : outstanding (uringIoReset s.ctx) = outstanding s.ctx := rfl
  refine ⟨?_,rfl,fun hzero => ⟨?_,?_,Nat.zero_le _⟩⟩
  · rw [Accounted,hout]
    exact eq_comm
  · rw [Accounted,hout,hzero]
    rfl
  · simp only [map_append,map_cons,sum_append,sum_cons,sum_single (f := .write) (fun _ => rfl),hlast,hout,
      hzero,taskRequests,requestLimit,maxFlushBatch] at hlen ⊢
    omega

theorem advanceIo_step (hinv : RingInv s) (h : advanceIo s = some s') :
    Accounted s'.ctx ∧ RingInv s' ∧ ((s'.report = .done → outstanding s'.ctx = 0) ↔
      (s.todo.head? = some .pollReap → s.ctx.sq.length + s.ctx.inFlight.length < 2 ^ 31)) := by
  obtain ⟨ctx,todo,report⟩ := s
  obtain ⟨hacc,hfits,hfds⟩ := hinv
  simp only at hacc hfits hfds
  have hroom : outstanding ctx ≤ requestLimit := by omega
  cases todo with
  | nil => cases h
  | cons task rest =>
    simp only [map_cons,sum_cons] at hfits
    -- a step that keeps the requests and reports nothing
    have hquiet : ∀ {ctx' : UringIoCtx} {todo' : List IoTask}, Accounted ctx' →
        outstanding ctx' + (todo'.map taskRequests).sum ≤ requestLimit →
        ctx'.fsyncFds.length ≤ uringMaxFds → task ≠ .pollReap →
        Accounted ctx' ∧ RingInv ⟨ctx',todo',.silent⟩ ∧
        ((IoReport.silent = .done → outstanding ctx' = 0) ↔
          (some task = some IoTask.pollReap → ctx.sq.length + ctx.inFlight.length < 2 ^ 31)) := by
      intro ctx' todo' ha hf hl hne
      refine ⟨ha,⟨ha,hf,hl⟩,?_⟩
      constructor
      · intro _ he
        exact absurd (Option.some.inj he) hne
      · intro _ he
        cases he
    cases task with
    | write w =>
      simp only [advanceIo] at h
      split_ifs at h
      · cases h
        obtain ⟨hout,hpend⟩ := trackFd_counts (prepRequest ctx (.write w)) w.binIdx
        simp only [taskRequests] at hfits
        refine hquiet ?_ ?_ (trackFd_fds _ hfds) (by simp)
        · rw [Accounted,hout,hpend]
          exact hacc.prep (by omega) _
        · rw [hout,outstanding_prep]
          omega
      · cases h
        refine hquiet hacc.submit ?_ hfds (by simp)
        rw [outstanding_submit]
        simp only [map_cons,sum_cons,taskRequests] at hfits ⊢
        omega
    | fsync fd =>
      simp only [advanceIo] at h
      split_ifs at h
      · cases h
        simp only [taskRequests] at hfits
        refine hquiet (hacc.prep (by omega) _) ?_ hfds (by simp)
        rw [outstanding_prep]
        omega
      · cases h
        refine hquiet hacc.submit ?_ hfds (by simp)
        rw [outstanding_submit]
        simp only [map_cons,sum_cons,taskRequests] at hfits ⊢
        omega
    | fsyncs =>
      simp only [advanceIo] at h
      cases h
      refine hquiet hacc ?_ hfds (by simp)
      simp only [map_append,sum_append,sum_single (f := .fsync) (fun _ => rfl),taskRequests] at hfits ⊢
      omega
    | drain =>
      simp only [advanceIo] at h
      split_ifs at h
      cases h
      refine hquiet (hacc.reap hroom) ?_ hfds (by simp)
      rw [outstanding_reap]
      unfold outstanding at hfits
      simp only [taskRequests] at hfits
      omega
    | wait | poll =>
      simp only [advanceIo] at h
      split_ifs at h with hzero
      · cases h
        refine ⟨hacc,⟨hacc,by simp only; omega,hfds⟩,fun _ he => by simp at he,fun _ _ => ?_⟩
        exact hacc.symm.trans hzero
      · cases h
        refine hquiet hacc.submit ?_ hfds (by simp)
        rw [outstanding_submit]
        simpa [taskRequests] using hfits
    | waitCqe =>
      simp only [advanceIo] at h
      split_ifs at h with hzero
      · cases h
        have hout : outstanding ctx = 0 := hacc.symm.trans hzero
        have ha : Accounted { ctx with pending := 0 } := hout.symm
        refine ⟨ha,⟨ha,?_,hfds⟩,fun _ he => by simp at he,fun _ _ => hout⟩
        simpa [taskRequests,outstanding] using hfits
      · cases h
        refine hquiet (hacc.reap hroom) ?_ hfds (by simp)
        rw [outstanding_reap]
        unfold outstanding at hfits
        simp only [map_cons,sum_cons,taskRequests] at hfits ⊢
        omega
    | pollReap =>
      simp only [advanceIo] at h
      cases h
      have ha := hacc.reap hroom
      have hp : (reapCqes ctx).pending = ctx.sq.length + ctx.inFlight.length :=
        ha.trans outstanding_reap
      refine ⟨ha,⟨ha,?_,hfds⟩,?_⟩
      · simp only [outstanding_reap,taskRequests] at hfits ⊢
        unfold outstanding at hfits
        omega
      · rw [outstanding_reap]
        simp only [hp]
        split_ifs with hc
        · simp only [false_implies,true_iff]
          exact fun _ => hc.2
        · simp only [forall_const,head?_cons]
          omega

theorem complete_step {request : Nat} {failed : Bool} (hinv : RingInv s)
    (h : stepIo s (.complete request failed) = some s') : Accounted s'.ctx ∧ RingInv s' ∧
      s'.report = .silent := by
  obtain ⟨r,hr,h⟩ := bind_eq_some_iff.mp h
  cases h
  have hlt := (List.getElem?_eq_some_iff.mp hr).1
  have hout : outstanding { s.ctx with
      inFlight := s.ctx.inFlight.eraseIdx request
      cq := s.ctx.cq ++ [(r,failed)] } = outstanding s.ctx := by
    simp only [outstanding,length_eraseIdx_of_lt hlt,length_append,length_singleton]
    omega
  have ha := hinv.accounted.trans hout.symm
  exact ⟨ha,⟨ha,by rw [hout]; exact hinv.fits,hinv.fds⟩,rfl⟩

theorem stepIo_spec (s : IoRing) (ev : IoEvent) (s' : IoRing) (hinv : RingInv s)
    (hbins : FewBins ev) (h : stepIo s ev = some s') :
    (Honest s ev s' ↔ Exclusive s ev s') ∧ (Exclusive s ev s' → RingInv s') := by
  have hcall : ∀ {bins : List DimBin} {last : List IoTask}, bins.length < 2 ^ 16 →
      (last.map taskRequests).sum = 0 → callRing s bins last = some s' → Submits ev →
      ev ≠ .advance → (Honest s ev s' ↔ Exclusive s ev s') ∧ (Exclusive s ev s' → RingInv s') := by
    intro bins last hlen hlast hc hsub hne
    obtain ⟨hiff,hreport,hkeep⟩ := callRing_step hlen hlast hc
    refine ⟨?_,fun hex => hkeep (hex.1 hsub)⟩
    unfold Honest Exclusive
    rw [hiff,hreport]
    simp [hsub,hne]
  have hidle : s'.ctx = s.ctx → RingInv s' → s'.report = .silent → ¬ Submits ev → ev ≠ .advance →
      (Honest s ev s' ↔ Exclusive s ev s') ∧ (Exclusive s ev s' → RingInv s') := by
    intro hctx hinv' hreport hsub hne
    refine ⟨?_,fun _ => hinv'⟩
    unfold Honest Exclusive
    rw [hctx,hreport]
    simp [hsub,hne,hinv.accounted]
  cases ev with
  | flush db | flushSubmit db =>
    simp only [stepIo] at h
    split_ifs at h with htodo hnone
    · cases h
      exact hidle rfl ⟨hinv.accounted,hinv.fits,hinv.fds⟩ rfl (by simp [Submits,hnone]) (by simp)
    · exact hcall (by rw [length_map]; exact hbins) rfl h hnone (by simp)
  | flushPoll =>
    simp only [stepIo] at h
    split_ifs at h with htodo
    cases h
    refine hidle rfl ⟨hinv.accounted,?_,hinv.fds⟩ rfl (by simp [Submits]) (by simp)
    have := hinv.fits
    simp only [map_cons,map_nil,sum_cons,sum_nil,taskRequests]
    omega
  | advance =>
    obtain ⟨ha,hinv',hiff⟩ := advanceIo_step hinv h
    refine ⟨?_,fun _ => hinv'⟩
    unfold Honest Exclusive
    rw [hiff]
    simp [Submits,ha]
  | complete request failed =>
    obtain ⟨ha,hinv',hreport⟩ := complete_step hinv h
    refine ⟨?_,fun _ => hinv'⟩
    unfold Honest Exclusive
    rw [hreport]
    simp [Submits,ha]

end Steps

/-- On every run of the ring, with completions at any time and in any order, the counter is exact
and "done" is true at every step, exactly when no flush starts while a request is outstanding and
no poll returns with `2 ^ 31` requests on their way. -/
theorem ring_accounting (events : List IoEvent) (hbins : ∀ ev ∈ events, FewBins ev) :
    Run.Along stepIo Honest freshRing events ↔ Run.Along stepIo Exclusive freshRing events :=
  Run.along_iff stepIo_spec events freshRing ⟨rfl,by decide,by decide⟩ hbins

instance : ∀ ev, Decidable (Submits ev)
  | .flush db => inferInstanceAs (Decidable (db.bins ≠ []))
  | .flushSubmit db => inferInstanceAs (Decidable (db.bins ≠ []))
  | .flushPoll | .advance | .complete _ _ => isFalse id

instance : ∀ ev, Decidable (FewBins ev)
  | .flush db => inferInstanceAs (Decidable (db.bins.length < 2 ^ 16))
  | .flushSubmit db => inferInstanceAs (Decidable (db.bins.length < 2 ^ 16))
  | .flushPoll | .advance | .complete _ _ => isTrue trivial

instance (s : IoRing) (ev : IoEvent) (s' : IoRing) : Decidable (Honest s ev s') :=
  inferInstanceAs (Decidable (s'.ctx.pending = outstanding s'.ctx ∧ (_ → _)))

def decidableAdvance : ∀ ev, Decidable (ev = IoEvent.advance)
  | .advance => isTrue rfl
  | .flush _ | .flushSubmit _ | .flushPoll | .complete _ _ => isFalse (by simp)

instance (s : IoRing) (ev : IoEvent) (s' : IoRing) : Decidable (Exclusive s ev s') :=
  have := decidableAdvance ev
  inferInstanceAs (Decidable ((_ → _) ∧ (_ → _ → _)))

def politeRun : List IoEvent :=
  [.flushSubmit Slots.onePageStore,.advance,.advance,.advance,.flushPoll,.advance,.complete 0 false,
    .advance,.complete 0 false,.flushPoll,.advance,.advance,.flush Slots.onePageStore,.advance]

theorem politeRun_accounted : (Run.run stepIo freshRing politeRun).isSome ∧
    Run.Along stepIo Honest freshRing politeRun :=
  ⟨by decide +kernel,(ring_accounting politeRun (by decide +kernel)).mpr (by decide +kernel)⟩

def overlappingRun : List IoEvent :=
  [.flushSubmit Slots.onePageStore,.advance,.advance,.advance,
    .flushSubmit Slots.onePageStore,.advance,.advance,.advance,
    .flushPoll,.advance,.complete 0 false,.complete 0 false,.complete 0 false,.advance]

/-- The second submission resets the counter: it wraps below zero, and the poll reports "done"
with a request in flight. -/
theorem overlapping_flushes_miscount : ∃ s, Run.run stepIo freshRing overlappingRun = some s ∧
    s.ctx.pending = 2 ^ 32 - 1 ∧ outstanding s.ctx = 1 ∧ s.report = .done ∧
    ¬ Run.Along stepIo Honest freshRing overlappingRun := by
  refine ⟨(Run.run stepIo freshRing overlappingRun).get (by decide +kernel),
    (some_get _).symm,by decide +kernel,by decide +kernel,by decide +kernel,?_⟩
  decide +kernel

end Gravel.Proofs.RingAccounting
