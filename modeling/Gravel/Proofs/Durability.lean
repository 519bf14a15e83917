import Gravel.Lib.Run
import Gravel.Model.Durability

namespace Gravel.Proofs.Durability
open List Option Function

/-- Every write to the files of the bin has been followed by a successful `fdatasync`. -/
def Durable (bin : SyncBin) : Prop := bin.keysUnsynced = false ∧ bin.dataUnsynced = false

def AllDurable (st : SyncStore) : Prop := ∀ (i : Nat) bin, st.bins[i]? = some bin → Durable bin

def Promise (op : SyncOp) (st : SyncStore) (rc : Option Status) : Prop :=
  match op with
  | .dimbinFlush i _ _ => rc = some .ok → ∀ bin, st.bins[i]? = some bin → Durable bin
  | .flush _ => rc = some .ok → AllDurable st
  | .poll => rc = some .ok → AllDurable st
  | _ => True

/-- What `dimbin_flush` needs: without dirty pages it syncs nothing, and with a ring it does not
sync the key file. -/
def BinFits (backend : IoBackend) (io : IoOutcome) (binIdx : Nat) (bin : SyncBin) : Prop :=
  (bin.pages = 0 → bin.keyCount = 0 ∧ Durable bin) ∧
    (bin.pages ≠ 0 → backend ≠ .direct → bin.keyCount = 0 ∧ bin.keysUnsynced = false ∧
      (backend = .ring → 0 < io.queued) ∧ (backend = .inline → io.dataSync binIdx = true))

/-- What a flush of the store needs: a bin without dirty pages has no older write to sync, and a
bin with dirty pages is one of those that are synced. -/
def FlushFits (st : SyncStore) (io : IoOutcome) : Prop :=
  ∀ (i : Nat) bin, st.bins[i]? = some bin →
    if bin.pages = 0 then bin.dataUnsynced = false
    else i ∈ syncedBins st.backend io st.bins ∧
      (st.backend = .inline → io.dataSync i = true)

/-- What a step needs. Nothing is written while an asynchronous flush is in flight. -/
def StepFits (st : SyncStore) : SyncOp → Prop
  | .writeKeys _ => st.async = none
  | .writeData _ => st.async = none
  | .evict _ _ _ => st.async = none
  | .dimbinFlush i backend io => st.async = none ∧
      ∀ bin, st.bins[i]? = some bin → BinFits backend io i bin
  | .flush io => st.async = none ∧ FlushFits st io
  | .submit io => st.async = none ∧ FlushFits st io
  | .poll => st.async ≠ none ∨ st.bins = []
  | _ => True

section Bins

variable {backend : IoBackend} {io : IoOutcome} {bin : SyncBin} {i : Nat}

theorem flushKeys_pages (bin : SyncBin) : bin.flushKeys.pages = bin.pages := by
  rw [SyncBin.flushKeys]
  split_ifs <;> rfl

theorem flushKeys_data (bin : SyncBin) : bin.flushKeys.dataUnsynced = bin.dataUnsynced := by
  rw [SyncBin.flushKeys]
  split_ifs <;> rfl

theorem flushKeys_keys (bin : SyncBin) :
    bin.flushKeys.keysUnsynced = false ↔ bin.keyCount = 0 ∧ bin.keysUnsynced = false := by
  rw [SyncBin.flushKeys]
  split_ifs with h
  · simp [h]
  · simp [h]

theorem flush_durable_iff (hok : (bin.flush backend true io i).2 = .ok) :
    Durable (bin.flush backend true io i).1 ↔ BinFits backend io i bin := by
  by_cases hpages : bin.pages = 0
  · rw [SyncBin.flush,if_pos (by rw [flushKeys_pages]; exact hpages)]
    simp only [Durable,BinFits,flushKeys_keys,flushKeys_data,hpages,and_assoc,forall_const,
      ne_eq,not_true,IsEmpty.forall_iff,and_true]
  · rw [SyncBin.flush,if_neg (by rw [flushKeys_pages]; exact hpages)] at hok ⊢
    simp only [Bool.true_eq_false,if_false] at hok ⊢
    -- the status is OK only if no write of the flush failed
    have hall : io.pagesWritten = true := by
      by_contra hw
      cases backend with
      | ring => split_ifs at hok
      | inline => split_ifs at hok
      | direct => simp [hw] at hok
    have htracks : io.tracks i = true := by simp [IoOutcome.tracks,hall]
    have hissues : io.issues i = true := by simp [IoOutcome.issues,htracks]
    cases backend with
    | ring =>
      by_cases hq : 0 < io.queued
      · simp only [htracks,hq,decide_true,Bool.and_self,if_true] at hok ⊢
        have hsync : io.dataSync i = true := by
          by_contra hs
          simp [hs] at hok
        simp [Durable,BinFits,SyncBin.clean,hsync,flushKeys_keys,hpages,hq]
      · simp [Durable,BinFits,SyncBin.clean,hq,hpages,hissues]
    | inline =>
      simp [Durable,BinFits,SyncBin.clean,flushKeys_keys,and_assoc,hpages,htracks,hissues]
    | direct =>
      simp only at hok ⊢
      have hsync : (io.keySync i && io.dataSync i) = true := by
        by_contra hs
        simp [hs] at hok
      rw [Bool.and_eq_true] at hsync
      simp [Durable,BinFits,SyncBin.clean,hsync.1,hsync.2,hpages]

end Bins

theorem both_ok {a b : Status} : a.both b = .ok ↔ a = .ok ∧ b = .ok := by
  rw [Status.both]
  split_ifs with h
  · simp [h]
  · simp [h]

section Phases

variable {backend : IoBackend} {io : IoOutcome} {bins : List SyncBin} {bin : SyncBin} {i : Nat}

theorem mem_dirtyBins : i ∈ dirtyBins bins ↔ ∃ bin, bins[i]? = some bin ∧ bin.pages ≠ 0 := by
  rw [dirtyBins,mem_filter,mem_range,Option.any_eq_true]
  constructor
  · rintro ⟨_,bin,hbin,hp⟩
    exact ⟨bin,hbin,of_decide_eq_true hp⟩
  · rintro ⟨bin,hbin,hp⟩
    exact ⟨(List.getElem?_eq_some_iff.mp hbin).1,bin,hbin,decide_eq_true hp⟩

theorem dirtyBins_congr {bins' : List SyncBin}
    (h : bins'.map SyncBin.pages = bins.map SyncBin.pages) : dirtyBins bins' = dirtyBins bins := by
  have hlen : bins'.length = bins.length := by simpa using congrArg List.length h
  rw [dirtyBins,dirtyBins,hlen]
  refine filter_congr (fun i _ => ?_)
  have hi := congrArg (fun l : List Nat => l[i]?.any (· ≠ 0)) h
  simpa only [getElem?_map,Option.any_map,comp_def] using hi

theorem syncedBins_dirty (h : i ∈ syncedBins backend io bins) : i ∈ dirtyBins bins := by
  rw [syncedBins.eq_def] at h
  cases backend with
  | ring => exact (mem_filter.mp (mem_of_mem_take (mem_of_mem_take h))).1
  | inline => exact (mem_filter.mp (mem_of_mem_take h)).1
  | direct => exact h

def wrote (io : IoOutcome) (i : Nat) (bin : SyncBin) : SyncBin where
  keyCount := bin.flushKeys.keyCount
  pages := bin.pages
  keysUnsynced := bin.flushKeys.keysUnsynced && !io.keySync i
  dataUnsynced := bin.dataUnsynced || (bin.pages ≠ 0 && io.issues i)

theorem phases_getElem? (io : IoOutcome) (bins : List SyncBin) (i : Nat) :
    (writePhase io (keyPhase io bins))[i]? = bins[i]?.map (wrote io i) := by
  rw [writePhase,keyPhase,getElem?_mapIdx,getElem?_mapIdx,Option.map_map]
  refine congrArg (fun f => bins[i]?.map f) (funext fun bin => ?_)
  simp only [comp_apply,wrote,flushKeys_pages,flushKeys_data]
  split_ifs with hp
  · simp [hp]
  · simp [hp]

theorem phases_pages (io : IoOutcome) (bins : List SyncBin) :
    (writePhase io (keyPhase io bins)).map SyncBin.pages = bins.map SyncBin.pages := by
  refine ext_getElem? (fun i => ?_)
  rw [getElem?_map,phases_getElem?,getElem?_map,Option.map_map]
  rfl

theorem syncedBins_phases (backend : IoBackend) (io : IoOutcome) (bins : List SyncBin) :
    syncedBins backend io (writePhase io (keyPhase io bins)) = syncedBins backend io bins := by
  have hdirty := dirtyBins_congr (phases_pages io bins)
  rw [syncedBins.eq_def,syncedBins.eq_def,trackedBins,trackedBins,hdirty]

theorem keySync_of_ok (h : keyStatus io bins = .ok) (hbin : bins[i]? = some bin) :
    io.keySync i = true := by
  rw [keyStatus] at h
  split_ifs at h with hall
  exact List.all_eq_true.mp hall i (mem_range.mpr (List.getElem?_eq_some_iff.mp hbin).1)

theorem dataSync_of_ok {listed : List Nat} (h : syncStatus backend io listed = .ok)
    (hb : backend ≠ .inline) (hi : i ∈ listed) : io.dataSync i = true := by
  rw [syncStatus] at h
  split_ifs at h with hall
  exact List.all_eq_true.mp (hall.resolve_left hb) i hi

def settled (io : IoOutcome) (listed : List Nat) (i : Nat) (bin : SyncBin) : SyncBin :=
  if i ∈ listed then
    { wrote io i bin with dataUnsynced := (wrote io i bin).dataUnsynced && !io.dataSync i }
  else wrote io i bin

theorem syncBins_getElem? (io : IoOutcome) (listed : List Nat) (bins : List SyncBin) (i : Nat) :
    (syncBins io listed (writePhase io (keyPhase io bins)))[i]? =
      bins[i]?.map (settled io listed i) := by
  rw [syncBins,getElem?_mapIdx,phases_getElem?,Option.map_map]
  rfl

theorem written_of_ok
    (h : (if dirtyBins bins = [] ∨ io.pagesWritten = true then Status.ok else .errIo) = .ok)
    (hbin : bins[i]? = some bin) (hp : bin.pages ≠ 0) : io.issues i = true := by
  split_ifs at h with hw
  rcases hw with hnil | hall
  · have hmem := mem_dirtyBins.mpr ⟨bin,hbin,hp⟩
    rw [hnil] at hmem
    cases hmem
  · simp [IoOutcome.issues,IoOutcome.tracks,hall]

theorem settled_durable_iff {listed : List Nat} (hlisted : i ∈ listed → bin.pages ≠ 0)
    (hwritten : bin.pages ≠ 0 → io.issues i = true) (hkey : io.keySync i = true) (hstatus : syncStatus backend io listed = .ok) :
    Durable (settled io listed i bin) ↔ if bin.pages = 0 then bin.dataUnsynced = false
      else i ∈ listed ∧ (backend = .inline → io.dataSync i = true) := by
  by_cases hmem : i ∈ listed
  · have hp := hlisted hmem
    rw [settled,if_pos hmem,if_neg hp]
    by_cases hinline : backend = .inline
    · simp [Durable,wrote,hp,hmem,hinline,hkey,hwritten hp]
    · simp [Durable,wrote,hp,hmem,hinline,hkey,dataSync_of_ok hstatus hinline hmem]
  · rw [settled,if_neg hmem]
    by_cases hp : bin.pages = 0
    · simp [Durable,wrote,hp,hkey]
    · simp [Durable,wrote,hp,hmem,hwritten hp]

theorem synced_pages (hbin : bins[i]? = some bin) (hi : i ∈ syncedBins backend io bins) :
    bin.pages ≠ 0 := by
  obtain ⟨b,hb,hp⟩ := mem_dirtyBins.mp (syncedBins_dirty hi)
  cases hbin.symm.trans hb
  exact hp

end Phases

section Store

variable {st st' : SyncStore} {io : IoOutcome}

theorem allDurable_nil (h : st.bins = []) : AllDurable st := by
  intro i bin hbin
  rw [h] at hbin
  cases hbin

/-- A flush of the store that returns `GRAVELDB_OK` has made everything durable just if it was
called in a state where it syncs every file that needs it. -/
theorem flush_all_durable_iff (h : st.flush io = some (st',.ok)) :
    AllDurable st' ↔ FlushFits st io := by
  rw [SyncStore.flush] at h
  split_ifs at h with hnil hring
  · cases h
    refine iff_of_true (allDurable_nil hnil) (fun i bin hbin => ?_)
    rw [hnil] at hbin
    cases hbin
  · obtain ⟨hst,hrc⟩ := Prod.mk.inj (Option.some.inj h)
    obtain ⟨hkeys,hstatus⟩ := both_ok.mp hrc
    rw [syncedBins_phases] at hstatus hst
    rw [dirtyBins_congr (phases_pages io st.bins)] at hkeys
    have hbins : ∀ i : Nat, st'.bins[i]? = st.bins[i]?.map (fun bin =>
        (settled io (syncedBins st.backend io st.bins) i bin).clean) := by
      intro i
      rw [← hst,getElem?_map,syncBins_getElem?,Option.map_map]
      rfl
    have hiff : ∀ (i : Nat) bin, st.bins[i]? = some bin →
        (Durable (settled io (syncedBins st.backend io st.bins) i bin).clean ↔ _) :=
      fun i bin hbin => settled_durable_iff (synced_pages hbin)
        (written_of_ok (both_ok.mp hkeys).2 hbin) (keySync_of_ok (both_ok.mp hkeys).1 hbin) hstatus
    constructor
    · intro hall i bin hbin
      exact (hiff i bin hbin).mp (hall i _ (by rw [hbins,hbin,map_some]))
    · intro hfits i bin' hbin'
      rw [hbins] at hbin'
      obtain ⟨bin,hbin,rfl⟩ := map_eq_some_iff.mp hbin'
      exact (hiff i bin hbin).mpr (hfits i bin hbin)

/-- While an asynchronous flush without an error so far is in flight, what is not yet durable is
waiting in the ring, or the ring has reported an error. -/
def AsyncInv (st : SyncStore) : Prop :=
  st.async = some .ok → ∀ (i : Nat) bin, st.bins[i]? = some bin → bin.keysUnsynced = false ∧
    (bin.dataUnsynced = true →
      st.backend = .ring ∧ (i ∈ st.outstanding ∨ st.ringErrors = true))

theorem submit_inv (h : st.submit io = some st') (hfits : FlushFits st io) : AsyncInv st' := by
  rw [SyncStore.submit] at h
  split_ifs at h with hnil hring hback
  · cases h
    intro hok
    cases hok
  · cases h
    intro hok i bin' hbin'
    obtain ⟨hkeys,_⟩ := both_ok.mp (Option.some.inj hok)
    simp only at hbin'
    rw [phases_getElem?] at hbin'
    obtain ⟨bin,hbin,rfl⟩ := map_eq_some_iff.mp hbin'
    refine ⟨by simp [wrote,keySync_of_ok hkeys hbin],fun hdata => ⟨hback,.inl ?_⟩⟩
    simp only
    rw [syncedBins_phases]
    have hf := hfits i bin hbin
    split_ifs at hf with hp
    · simp [wrote,hp,hf] at hdata
    · exact hf.1
  · cases h
    intro hok i bin' hbin'
    obtain ⟨hrc,hstatus⟩ := both_ok.mp (Option.some.inj hok)
    simp only at hbin'
    rw [syncBins_getElem?] at hbin'
    rw [syncedBins_phases] at hstatus hbin'
    rw [dirtyBins_congr (phases_pages io st.bins)] at hrc
    obtain ⟨bin,hbin,rfl⟩ := map_eq_some_iff.mp hbin'
    have hd := (settled_durable_iff (synced_pages hbin) (written_of_ok (both_ok.mp hrc).2 hbin)
      (keySync_of_ok (both_ok.mp hrc).1 hbin) hstatus).mpr (hfits i bin hbin)
    exact ⟨hd.1,fun hdata => by rw [hd.2] at hdata; cases hdata⟩

theorem complete_inv (h : AsyncInv st) (ok : Bool) : AsyncInv (st.complete ok) := by
  rw [SyncStore.complete.eq_def]
  cases hout : st.outstanding with
  | nil => exact h
  | cons j rest =>
    intro hok i bin' hbin'
    simp only at hbin' ⊢
    cases ok with
    | false =>
      obtain ⟨hkeys,hdata⟩ := h hok i bin' hbin'
      exact ⟨hkeys,fun hd => ⟨(hdata hd).1,.inr (by simp)⟩⟩
    | true =>
      rw [if_pos rfl,getElem?_modify] at hbin'
      obtain ⟨bin,hbin,rfl⟩ := map_eq_some_iff.mp hbin'
      obtain ⟨hkeys,hdata⟩ := h hok i bin hbin
      split_ifs with hij
      · exact ⟨hkeys,fun hd => by cases hd⟩
      · refine ⟨hkeys,fun hd => ⟨(hdata hd).1,?_⟩⟩
        rcases (hdata hd).2 with hm | he
        · rw [hout] at hm
          exact .inl ((mem_cons.mp hm).resolve_left (fun he => hij he.symm))
        · exact .inr (by simp [he])

theorem poll_durable (h : AsyncInv st) (hfits : st.async ≠ none ∨ st.bins = [])
    (hok : st.poll.2 = .ok) : AllDurable st.poll.1 := by
  rw [SyncStore.poll.eq_def] at hok ⊢
  cases hasync : st.async with
  | none =>
    exact allDurable_nil (hfits.resolve_left (fun hne => hne hasync))
  | some rc =>
    simp only [hasync] at hok ⊢
    split_ifs at hok ⊢ with hwait herr
    · intro i bin' hbin'
      simp only [getElem?_map] at hbin'
      obtain ⟨bin,hbin,rfl⟩ := map_eq_some_iff.mp hbin'
      obtain ⟨hkeys,hdata⟩ := h (hasync.trans (congrArg some hok)) i bin hbin
      refine ⟨hkeys,?_⟩
      rcases Bool.eq_false_or_eq_true bin.dataUnsynced with hd | hd
      · obtain ⟨hring,hm | he⟩ := hdata hd
        · exact absurd ⟨hring,ne_nil_of_mem hm⟩ hwait
        · exact absurd ⟨hring,he⟩ herr
      · exact hd

end Store

def AllFit (st : SyncStore) (ops : List SyncOp) : Prop :=
  Run.Ready (Run.quiet applySync) StepFits st ops

/-- Whatever an operation of the run returns, its promise is kept. -/
def AllKept (st : SyncStore) (ops : List SyncOp) : Prop :=
  Run.Ready (Run.quiet applySync)
    (fun st op => ∀ st' rc, applySync st op = some (st',rc) → Promise op st' rc) st ops

section Runs

variable {st st' : SyncStore} {rc : Option Status} {op : SyncOp}

theorem AsyncInv.modify (h : AsyncInv st) (i : Nat) {f : SyncBin → SyncBin}
    (hf : ∀ bin, (f bin).keysUnsynced = bin.keysUnsynced ∧
      (f bin).dataUnsynced = bin.dataUnsynced) : AsyncInv (st.modify i f) := by
  intro hok j bin' hbin'
  rw [SyncStore.modify,getElem?_modify] at hbin'
  obtain ⟨bin,hbin,rfl⟩ := map_eq_some_iff.mp hbin'
  have hj := h hok j bin hbin
  split_ifs
  · rw [(hf bin).1,(hf bin).2]
    exact hj
  · exact hj

theorem AsyncInv.idle (h : st.async = none) : AsyncInv st := by
  intro hok
  rw [h] at hok
  cases hok

/-- For the two flushes that finish before they return, the condition is exact. -/
theorem promise_iff (h : applySync st op = some (st',some .ok)) :
    match op with
    | .dimbinFlush i backend io => Promise op st' (some .ok) ↔
        ∀ bin, st.bins[i]? = some bin → BinFits backend io i bin
    | .flush io => Promise op st' (some .ok) ↔ FlushFits st io
    | _ => True := by
  cases op with
  | dimbinFlush i backend io =>
    obtain ⟨hst,hrc⟩ := Prod.mk.inj (Option.some.inj h)
    obtain ⟨bin,hbin,hok⟩ := map_eq_some_iff.mp hrc
    have hbin' : st'.bins[i]? = some (bin.flush backend true io i).1 := by
      rw [← hst,SyncStore.modify,getElem?_modify,hbin]
      simp
    simp only [Promise,hbin,hbin',Option.some.injEq,forall_eq',forall_const]
    exact flush_durable_iff hok
  | flush io =>
    obtain ⟨⟨st1,rc⟩,hflush,hpair⟩ := map_eq_some_iff.mp h
    obtain ⟨rfl,hrc⟩ := Prod.mk.inj hpair
    cases hrc
    simp only [Promise,forall_const]
    exact flush_all_durable_iff hflush
  | bufferKey _ | bufferPage _ | writeKeys _ | writeData _ | evict _ _ _ | submit _
  | complete _ | poll => trivial

theorem step_kept (hinv : AsyncInv st) (hfits : StepFits st op)
    (h : applySync st op = some (st',rc)) : Promise op st' rc ∧ AsyncInv st' := by
  cases op with
  | bufferKey i =>
    cases h
    exact ⟨trivial,hinv.modify i (fun _ => ⟨rfl,rfl⟩)⟩
  | bufferPage i =>
    cases h
    exact ⟨trivial,hinv.modify i (fun _ => ⟨rfl,rfl⟩)⟩
  | writeKeys i =>
    cases h
    exact ⟨trivial,.idle hfits⟩
  | writeData i =>
    cases h
    exact ⟨trivial,.idle hfits⟩
  | evict i backend io =>
    cases h
    exact ⟨trivial,.idle hfits⟩
  | dimbinFlush i backend io =>
    refine ⟨?_,?_⟩
    · rintro rfl
      exact (promise_iff h).mpr hfits.2 rfl
    · cases h
      exact .idle hfits.1
  | flush io =>
    refine ⟨?_,?_⟩
    · rintro rfl
      exact (promise_iff h).mpr hfits.2 rfl
    · obtain ⟨⟨st1,rc1⟩,hflush,hpair⟩ := map_eq_some_iff.mp h
      cases hpair
      rw [SyncStore.flush] at hflush
      split_ifs at hflush
      · cases hflush
        exact .idle hfits.1
      · cases hflush
        exact .idle hfits.1
  | submit io =>
    obtain ⟨st1,hsubmit,hpair⟩ := map_eq_some_iff.mp h
    cases hpair
    exact ⟨trivial,submit_inv hsubmit hfits.2⟩
  | complete ok =>
    cases h
    exact ⟨trivial,complete_inv hinv ok⟩
  | poll =>
    cases h
    refine ⟨fun hok => poll_durable hinv hfits (Option.some.inj hok),?_⟩
    rw [SyncStore.poll.eq_def]
    split
    · exact hinv
    · split_ifs
      · exact hinv
      · exact .idle rfl
      · exact .idle rfl

theorem run_kept (ops : List SyncOp) (hinv : AsyncInv st) (hfits : AllFit st ops) :
    AllKept st ops := by
  refine Run.ready_mono (fun st op hinv hfits => ⟨fun st' rc happly => ?_,fun st' hst' => ?_⟩) ops st
    hinv hfits
  · exact (step_kept hinv hfits happly).1
  · obtain ⟨⟨st1,rc⟩,happly,rfl⟩ := map_eq_some_iff.mp hst'
    exact (step_kept hinv hfits happly).2

end Runs

def allFine : IoOutcome := ⟨true,fun _ => true,fun _ => true,64,fun _ => true,fun _ => true⟩

/-- The state after a run and the last status that one of its operations returned. -/
def runSync (st : SyncStore) (ops : List SyncOp) : Option (SyncStore × Option Status) :=
  (Run.replies applySync st ops).map (fun r => (r.1,r.2.getLast?.join))

/-- A page write that is cut short. -/
def cutShort : IoOutcome := { allFine with pagesWritten := false, someWritten := fun _ => false }

end Gravel.Proofs.Durability
