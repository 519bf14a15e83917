import Gravel.Model.Session
import Gravel.Proofs.BinFrames
import Gravel.Proofs.StoreSteps

namespace Gravel.Proofs.FlushFrames
open File BinFrames StoreSteps List Option

/-- All that the steps of a flush do to a store: they churn its bins, one by one. -/
structure Flushed (db db' : GravelDB) : Prop where
  frame : db' = { db with bins := db'.bins }
  length : db'.bins.length = db.bins.length
  bins : ∀ (i : Nat) s', db'.bins[i]? = some s' → ∃ s, db.bins[i]? = some s ∧ Churn s s'

section Steps

variable {db db' db'' : GravelDB} {bins : List DimBin} {f : DimBin → Option DimBin}
  {queue : List QueuedWrite} {flush : Option AsyncFlush}

theorem Flushed.refl (db : GravelDB) : Flushed db db := ⟨rfl,rfl,fun _ s hs => ⟨s,hs,.refl s⟩⟩

theorem Flushed.trans (h : Flushed db db') (h' : Flushed db' db'') : Flushed db db'' := by
  refine ⟨?_,h'.length.trans h.length,?_⟩
  · rw [h'.frame,h.frame]
  · intro i s'' hs''
    obtain ⟨s',hs',hc'⟩ := h'.bins i s'' hs''
    obtain ⟨s,hs,hc⟩ := h.bins i s' hs'
    exact ⟨s,hs,hc.trans hc'⟩

theorem Flushed.each (hf : forBins f db.bins = some bins)
    (hchurn : ∀ {s s'}, f s = some s' → Churn s s') : Flushed db { db with bins := bins } := by
  refine ⟨rfl,forBins_length hf,?_⟩
  intro i s' hs'
  obtain ⟨s,hs,hstep⟩ := forBins_get hf hs'
  exact ⟨s,hs,hchurn hstep⟩

theorem Flushed.map {f : DimBin → DimBin} (hchurn : ∀ s, Churn s (f s)) :
    Flushed db { db with bins := db.bins.map f } := by
  refine ⟨rfl,length_map _,?_⟩
  intro i s' hs'
  rw [getElem?_map,map_eq_some_iff] at hs'
  obtain ⟨s,hs,rfl⟩ := hs'
  exact ⟨s,hs,hchurn s⟩

theorem flush_flushed (h : graveldbFlush db = some db') : Flushed db db' := by
  obtain ⟨bins1,hwrite,h⟩ := bind_eq_some_iff.mp h
  obtain ⟨bins2,hclean,h⟩ := bind_eq_some_iff.mp h
  cases h
  have hkeys : Flushed db { db with bins := db.bins.map flushKeyPhase } := .map flushKeyPhase_churn
  exact (hkeys.trans (.each hwrite flushWritePhase_churn)).trans
    (.each hclean flushCleanPhase_churn)

theorem submitKeyPhase_churn (s : DimBin) : Churn s (submitKeyPhase s) := by
  unfold submitKeyPhase
  split_ifs
  · exact .refl s
  · exact flushKeys_churn s

theorem submitWritePhase_churn {s s' : DimBin} {i : Nat}
    (h : submitWritePhase s i = some (s',queue)) : Churn s s' := by
  rw [submitWritePhase] at h
  split_ifs at h
  · cases h
    exact .refl s
  · obtain ⟨queue',_,h⟩ := bind_eq_some_iff.mp h
    cases h
    exact ⟨rfl,.inl ⟨rfl,rfl⟩,Nat.le_refl _,.of_eq rfl⟩

theorem submitWrites_bins {bins' : List DimBin} {n : Nat}
    (h : submitWrites n bins = some (bins',queue)) :
    bins'.length = bins.length ∧
      ∀ (i : Nat) s', bins'[i]? = some s' → ∃ s, bins[i]? = some s ∧ Churn s s' := by
  induction bins generalizing n bins' queue with
  | nil =>
    cases h
    exact ⟨rfl,fun i s' hs' => by cases hs'⟩
  | cons s rest ih =>
    obtain ⟨⟨s1,queue1⟩,hs,h⟩ := bind_eq_some_iff.mp h
    obtain ⟨⟨rest',queues⟩,hrest,h⟩ := bind_eq_some_iff.mp h
    cases h
    obtain ⟨hlen,hbins⟩ := ih hrest
    refine ⟨by rw [length_cons,length_cons,hlen],?_⟩
    intro i s' hs'
    cases i with
    | zero =>
      cases hs'
      exact ⟨s,rfl,submitWritePhase_churn hs⟩
    | succ i => exact hbins i s' hs'

theorem submit_flushed {useUring : Bool}
    (h : graveldbFlushSubmit useUring db = some (db',flush)) : Flushed db db' := by
  have hkeys : Flushed db { db with bins := db.bins.map submitKeyPhase } :=
    .map submitKeyPhase_churn
  rw [graveldbFlushSubmit] at h
  split_ifs at h
  · cases h
    exact .refl db
  · obtain ⟨⟨bins,queue⟩,hwrites,h⟩ := bind_eq_some_iff.mp h
    cases h
    obtain ⟨hlen,hbins⟩ := submitWrites_bins hwrites
    exact hkeys.trans ⟨rfl,hlen,hbins⟩
  · obtain ⟨bins,hwrite,h⟩ := bind_eq_some_iff.mp h
    cases h
    exact hkeys.trans (.each hwrite flushWritePhase_churn)

/-- A queued write that the kernel completes touches the file of one bin. -/
theorem landWrite_flushed {w : QueuedWrite} (h : landWrite db w = some db') : Flushed db db' := by
  obtain ⟨s,hs,h⟩ := bind_eq_some_iff.mp h
  obtain ⟨bytes,_,h⟩ := bind_eq_some_iff.mp h
  cases h
  exact ⟨rfl,length_set,forall_modifyBin
    ⟨s,hs,rfl,.inl ⟨rfl,rfl⟩,size_le_write,.of_eq rfl⟩ fun i s' _ hs' => ⟨s',hs',.refl s'⟩⟩

theorem poll_flushed {flush' : Option AsyncFlush} {rc : Status}
    (h : graveldbFlushPoll db flush = some (db',flush',rc)) : Flushed db db' := by
  unfold graveldbFlushPoll at h
  cases flush with
  | none =>
    cases h
    exact .refl db
  | some f =>
    simp only at h
    split_ifs at h
    · obtain ⟨bins,hclean,h⟩ := bind_eq_some_iff.mp h
      cases h
      exact .each hclean flushCleanPhase_churn
    · cases h
      exact .refl db

end Steps

def IsFlush : StoreOp → Prop
  | .flush => True
  | .flushSubmit _ => True
  | .land _ _ => True
  | .flushPoll _ => True
  | _ => False

/-- Whatever part of a flush an operation is, it only moves pages and keys. -/
theorem isFlush_flushed {s s' : Session} {op : StoreOp} (hop : IsFlush op)
    (h : stepSession s op = some s') : Flushed s.db s'.db := by
  obtain ⟨⟨s1,answer⟩,happly,rfl⟩ := map_eq_some_iff.mp h
  cases op with
  | flush =>
    obtain ⟨db,hflush,happly⟩ := bind_eq_some_iff.mp happly
    cases happly
    exact flush_flushed hflush
  | flushSubmit useUring =>
    obtain ⟨⟨db,f⟩,hsubmit,happly⟩ := bind_eq_some_iff.mp happly
    cases happly
    exact submit_flushed hsubmit
  | land flush write =>
    obtain ⟨s2,hland,happly⟩ := bind_eq_some_iff.mp happly
    cases happly
    unfold landQueued at hland
    split at hland
    · split at hland
      · obtain ⟨db,hwrite,hland⟩ := bind_eq_some_iff.mp hland
        cases hland
        exact landWrite_flushed hwrite
      · cases hland
        exact .refl _
    · cases hland
      exact .refl _
  | flushPoll flush =>
    obtain ⟨⟨db,f,rc⟩,hpoll,happly⟩ := bind_eq_some_iff.mp happly
    cases happly
    exact poll_flushed hpoll
  | put items => exact hop.elim
  | delete featIds => exact hop.elim
  | get junk reqs => exact hop.elim
  | checkpoint => exact hop.elim
  | checkpointStep budget => exact hop.elim

end Gravel.Proofs.FlushFrames
