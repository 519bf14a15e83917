import Gravel.Proofs.Slots
import Mathlib.Algebra.Order.BigOperators.Group.List

namespace Gravel.Proofs.CheckpointProtocol
open Relation BinRun BinFrames StoreSteps ClientSteps FlushFrames List Option

section Bins

variable {s s' : DimBin}

theorem nodePages_length {m m' : Nat} (h : m ≤ m') :
    ∀ depth base n, (nodePages m depth base n).length ≤ (nodePages m' depth base n).length := by
  intro depth
  induction depth with
  | zero =>
    intro base n
    simp only [nodePages]
    refine List.Sublist.length_le (monotone_filter_right _ ?_)
    intro p hp
    simp only [decide_eq_true_eq] at hp ⊢
    omega
  | succ depth ih =>
    intro base n
    simp only [nodePages,length_flatMap]
    refine sum_le_sum fun i _ => ?_
    split_ifs
    · exact Nat.le_refl _
    · exact ih _ _

theorem frozenPages_length (h : FrozenKept s s') :
    (frozenPages s).length ≤ (frozenPages s').length := by
  simp only [frozenPages,ckptPages,treePages,h.ckpt,length_take,length_flatMap]
  have hsum := sum_le_sum (l := s.dirty.ckpt.segments)
    (fun seg _ => nodePages_length h.capacity s.dirty.ckpt.depth
      (seg.segmentId * s.dirty.ckpt.segmentSpan) seg.root)
  omega

end Bins

def frozenCount (s : DimBin) : Nat := (frozenPages s).length

def frozenTotal (db : GravelDB) : Nat := (db.bins.map frozenCount).sum

structure Undisturbed (db db' : GravelDB) : Prop where
  progress : db'.ckptProgress = db.ckptProgress
  bins : ∀ (i : Nat) s, db.bins[i]? = some s → ∃ s', db'.bins[i]? = some s' ∧ FrozenKept s s'

section Foreground

variable {db db' : GravelDB}

theorem Undisturbed.of_evolve (h : Evolve db db') : Undisturbed db db' := by
  refine ⟨h.progress,fun i s hs => ?_⟩
  obtain ⟨s',hs',hsteps⟩ := h.bins i s hs
  exact ⟨s',hs',(clientSteps_frame hsteps).frozen⟩

theorem Undisturbed.of_flushed (h : Flushed db db') : Undisturbed db db' := by
  refine ⟨by rw [h.frame],fun i s hs => ?_⟩
  have hlt : i < db'.bins.length := by
    rw [h.length]
    exact (List.getElem?_eq_some_iff.mp hs).1
  obtain ⟨s0,hs0,hchurn⟩ := h.bins i db'.bins[i] (getElem?_eq_getElem hlt)
  rw [hs] at hs0
  cases hs0
  exact ⟨db'.bins[i],getElem?_eq_getElem hlt,hchurn.frozen⟩

end Foreground

def Foreground : StoreOp → Prop
  | .checkpoint => False
  | .checkpointStep _ => False
  | _ => True

theorem foreground_undisturbed {s s' : Session} {op : StoreOp} (hop : Foreground op)
    (h : stepSession s op = some s') : Undisturbed s.db s'.db := by
  obtain ⟨⟨s1,answer⟩,happly,hs'⟩ := map_eq_some_iff.mp h
  cases hs'
  cases op with
  | put items =>
    obtain ⟨⟨db,rc⟩,hput,happly⟩ := bind_eq_some_iff.mp happly
    cases happly
    exact .of_evolve (graveldbBatchPut_evolve hput)
  | delete featIds =>
    obtain ⟨db,hdel,happly⟩ := bind_eq_some_iff.mp happly
    cases happly
    exact .of_evolve (graveldbBatchDelete_evolve hdel)
  | get junk reqs =>
    obtain ⟨⟨db,results⟩,hget,happly⟩ := bind_eq_some_iff.mp happly
    cases happly
    exact .of_evolve (graveldbBatchGet_evolve hget)
  | flush => exact .of_flushed (isFlush_flushed (show IsFlush (.flush) from trivial) h)
  | flushSubmit useUring =>
    exact .of_flushed (isFlush_flushed (show IsFlush (.flushSubmit useUring) from trivial) h)
  | land flush write => exact .of_flushed (isFlush_flushed (show IsFlush (.land flush write) from trivial) h)
  | flushPoll flush => exact .of_flushed (isFlush_flushed (show IsFlush (.flushPoll flush) from trivial) h)
  | checkpoint => exact hop.elim
  | checkpointStep budget => exact hop.elim

def pagesDone (p : CkptProgress) (s : DimBin) : Nat :=
  frozenCount s - p.dump.elim (frozenCount s) (fun d => d.pending.length)

/-- The steps that a checkpoint in progress has taken at most: one for each bin that has begun, then
one for each bin and each page that was dumped, and two to go on. -/
def stepsTaken (db : GravelDB) : Nat :=
  let p := db.ckptProgress
  match p.phase with
  | .idle => 0
  | .flushing => p.currentBin
  | .dumping => db.bins.length + 1 + ((db.bins.take p.currentBin).map (fun s => frozenCount s + 1)).sum +
      (db.bins[p.currentBin]?).elim 0 (pagesDone p)
  | .finishing => 2 * db.bins.length + frozenTotal db + 2

structure Cursors (db : GravelDB) : Prop where
  bin : db.ckptProgress.phase = .flushing ∨ db.ckptProgress.phase = .dumping →
    db.ckptProgress.currentBin ≤ db.bins.length
  fresh : db.ckptProgress.phase = .flushing → db.ckptProgress.dump = none
  pages : db.ckptProgress.phase = .dumping → ∀ d, db.ckptProgress.dump = some d →
    ∃ s, db.bins[db.ckptProgress.currentBin]? = some s ∧ d.pending.length ≤ frozenCount s

section Sums

variable {α : Type} {w : α → Nat}

theorem sum_take_le {l l' : List α} (h : ∀ (i : Nat) a, l[i]? = some a → ∃ b, l'[i]? = some b ∧ w a ≤ w b)
    (k : Nat) : ((l.take k).map w).sum ≤ ((l'.take k).map w).sum := by
  induction l generalizing l' k with
  | nil => simp
  | cons a rest ih =>
    obtain ⟨b,hb,hab⟩ := h 0 a rfl
    cases l' with
    | nil => cases hb
    | cons b' rest' =>
      cases hb
      cases k with
      | zero => exact Nat.le_refl _
      | succ k =>
        have hstep : ∀ (i : Nat) a, rest[i]? = some a → ∃ b, rest'[i]? = some b ∧ w a ≤ w b :=
          fun i x hx => h (i + 1) x hx
        have hrest := ih hstep k
        simp only [take_succ_cons,map_cons,sum_cons]
        omega

theorem length_le_of_pointwise {l l' : List α} (h : ∀ (i : Nat) a, l[i]? = some a → ∃ b, l'[i]? = some b) :
    l.length ≤ l'.length := by
  refine Nat.le_of_not_lt fun hlt => ?_
  obtain ⟨b,hb⟩ := h l'.length l[l'.length] (getElem?_eq_getElem hlt)
  rw [getElem?_eq_none (Nat.le_refl _)] at hb
  cases hb

theorem sum_succ (l : List α) : (l.map (fun a => w a + 1)).sum = (l.map w).sum + l.length := by
  induction l with
  | nil => rfl
  | cons a rest ih =>
    simp only [map_cons,sum_cons,length_cons,ih]
    omega

end Sums

section Steps

variable {db db' : GravelDB} {budget : UInt32}

theorem Undisturbed.length (h : Undisturbed db db') : db.bins.length ≤ db'.bins.length := by
  refine length_le_of_pointwise fun i s hs => ?_
  obtain ⟨s',hs',_⟩ := h.bins i s hs
  exact ⟨s',hs'⟩

theorem Undisturbed.counts (h : Undisturbed db db') (i : Nat) (s : DimBin)
    (hs : db.bins[i]? = some s) : ∃ s', db'.bins[i]? = some s' ∧ frozenCount s ≤ frozenCount s' := by
  obtain ⟨s',hs',hk⟩ := h.bins i s hs
  exact ⟨s',hs',frozenPages_length hk⟩

theorem Undisturbed.total (h : Undisturbed db db') : frozenTotal db ≤ frozenTotal db' := by
  have hsum := sum_take_le h.counts db'.bins.length
  rwa [take_of_length_le h.length,take_length] at hsum

theorem Undisturbed.cursors (h : Undisturbed db db') (hc : Cursors db) : Cursors db' := by
  have hlen := h.length
  refine ⟨?_,?_,?_⟩
  · rw [h.progress]
    exact fun hp => Nat.le_trans (hc.bin hp) hlen
  · rw [h.progress]
    exact hc.fresh
  · rw [h.progress]
    intro hp d hd
    obtain ⟨s,hs,hle⟩ := hc.pages hp d hd
    obtain ⟨s',hs',hcount⟩ := h.counts _ s hs
    exact ⟨s',hs',Nat.le_trans hle hcount⟩

theorem Undisturbed.stepsTaken (h : Undisturbed db db') : stepsTaken db ≤ stepsTaken db' := by
  have hlen := h.length
  have htotal := h.total
  unfold CheckpointProtocol.stepsTaken
  simp only [h.progress]
  cases db.ckptProgress.phase with
  | idle => exact Nat.le_refl _
  | flushing => exact Nat.le_refl _
  | dumping =>
    have hsum := sum_take_le (w := fun s => frozenCount s + 1) (fun i s hs => by
      obtain ⟨s',hs',hcount⟩ := h.counts i s hs
      exact ⟨s',hs',Nat.succ_le_succ hcount⟩) db.ckptProgress.currentBin
    have hlast : (db.bins[db.ckptProgress.currentBin]?).elim 0 (pagesDone db.ckptProgress) ≤
        (db'.bins[db.ckptProgress.currentBin]?).elim 0 (pagesDone db.ckptProgress) := by
      cases hs : db.bins[db.ckptProgress.currentBin]? with
      | none => exact Nat.zero_le _
      | some s =>
        obtain ⟨s',hs',hcount⟩ := h.counts _ s hs
        rw [hs']
        simp only [elim_some,pagesDone]
        cases db.ckptProgress.dump with
        | none => simp
        | some d =>
          simp only [elim_some]
          omega
    simp only
    omega
  | finishing =>
    simp only
    omega

theorem stepFlushing_cursors {p : CkptProgress} (hp : p.phase = .flushing) (hd : p.dump = none)
    (hbin : p.currentBin ≤ db.bins.length) (h : stepFlushing db p = some db') :
    Cursors db' ∧ p.currentBin + 1 ≤ stepsTaken db' := by
  unfold stepFlushing at h
  split at h
  · rename_i hnone
    cases h
    refine ⟨⟨?_,?_,?_⟩,?_⟩
    · exact fun _ => Nat.zero_le _
    · rintro ⟨⟩
    · intro _ d hd'
      rw [hd] at hd'
      cases hd'
    · simp only [CheckpointProtocol.stepsTaken]
      omega
  · rename_i s hs
    obtain ⟨s',_,h⟩ := bind_eq_some_iff.mp h
    cases h
    have hlt := (List.getElem?_eq_some_iff.mp hs).1
    refine ⟨⟨?_,?_,?_⟩,?_⟩
    · intro _
      simp only [modifyBin,length_set]
      omega
    · exact fun _ => hd
    · intro hdump
      simp only [modifyBin,hp] at hdump
      cases hdump
    · simp only [CheckpointProtocol.stepsTaken,modifyBin,hp]
      exact Nat.le_refl _

theorem stepBudget_pos (budget : UInt32) : 0 < stepBudget budget := by
  unfold stepBudget
  split_ifs with h
  · decide
  · exact Nat.pos_of_ne_zero fun hz => h (UInt32.toNat_inj.mp hz)

theorem dumpPages_length (s : DimBin) : ∀ fuel left file pending,
    (dumpPages s fuel left file pending).2.length ≤ pending.length := by
  intro fuel
  induction fuel with
  | zero => exact fun _ _ _ => Nat.le_refl _
  | succ fuel ih =>
    intro left file pending
    cases pending with
    | nil => exact Nat.le_refl _
    | cons pg rest =>
      simp only [dumpPages]
      split_ifs
      · exact Nat.le_refl _
      · exact Nat.le_trans (ih _ _ _) (by rw [length_drop]; omega)
      · exact Nat.le_trans (ih _ _ _) (by rw [length_drop]; omega)

theorem dumpStep_length (s : DimBin) (budget : UInt32) (d : DeltaDump) (hd : d.pending ≠ []) :
    (dumpStep s budget d).pending.length < d.pending.length := by
  obtain ⟨pg,rest,heq⟩ := exists_cons_of_ne_nil hd
  have hpos := stepBudget_pos budget
  simp only [dumpStep,heq,length_cons,dumpPages]
  rw [if_neg (by omega)]
  refine Nat.lt_of_le_of_lt (dumpPages_length _ _ _ _ _) ?_
  rw [length_drop,length_cons]
  split_ifs <;> omega

theorem stepDumping_cursors {s : DimBin} (hp : db.ckptProgress.phase = .dumping)
    (hs : db.bins[db.ckptProgress.currentBin]? = some s) (hc : Cursors db) :
    Cursors (stepDumping db budget s) ∧
      stepsTaken db + 1 ≤ stepsTaken (stepDumping db budget s) := by
  have hlt := (List.getElem?_eq_some_iff.mp hs).1
  obtain ⟨d,hd⟩ : ∃ d, d = db.ckptProgress.dump.getD (openDump s) := ⟨_,rfl⟩
  have hle : d.pending.length ≤ frozenCount s := by
    rw [hd]
    cases hdump : db.ckptProgress.dump with
    | none => exact Nat.le_refl _
    | some d' =>
      obtain ⟨s',hs',hle⟩ := hc.pages hp d' hdump
      rw [hs] at hs'
      cases hs'
      exact hle
  have hdone : pagesDone db.ckptProgress s = frozenCount s - d.pending.length := by
    rw [pagesDone,hd]
    cases db.ckptProgress.dump with
    | none => rfl
    | some d' => rfl
  have htaken : stepsTaken db = db.bins.length + 1 +
      ((db.bins.take db.ckptProgress.currentBin).map (fun s => frozenCount s + 1)).sum +
      (frozenCount s - d.pending.length) := by
    simp only [CheckpointProtocol.stepsTaken,hp,hs,elim_some,hdone]
  unfold stepDumping
  simp only [← hd]
  split_ifs with hempty
  · refine ⟨⟨?_,?_,?_⟩,?_⟩
    · exact fun _ => hlt
    · simp only [hp]
      rintro ⟨⟩
    · rintro _ d' ⟨⟩
    · rw [htaken]
      simp only [CheckpointProtocol.stepsTaken,hp]
      rw [take_add_one,hs]
      simp only [toList_some,map_append,map_cons,map_nil,sum_append,
        sum_cons,sum_nil]
      omega
  · have hne : d.pending ≠ [] := by
      intro hnil
      refine hempty ?_
      have hlen : (dumpPages s d.pending.length (stepBudget budget) d.file d.pending).2.length ≤ 0 :=
        (dumpPages_length s _ _ _ _).trans (by rw [hnil]; exact Nat.le_refl _)
      exact length_eq_zero_iff.mp (Nat.le_zero.mp hlen)
    have hless := dumpStep_length s budget d hne
    refine ⟨⟨?_,?_,?_⟩,?_⟩
    · exact fun _ => Nat.le_of_lt hlt
    · simp only [hp]
      rintro ⟨⟩
    · rintro _ d' ⟨⟩
      exact ⟨s,hs,by omega⟩
    · rw [htaken]
      simp only [CheckpointProtocol.stepsTaken,hp,hs,elim_some,pagesDone]
      omega

theorem stepsTaken_le (hc : Cursors db) : stepsTaken db ≤ 2 * db.bins.length + frozenTotal db + 2 := by
  cases hp : db.ckptProgress.phase with
  | idle =>
    simp only [CheckpointProtocol.stepsTaken,hp]
    exact Nat.zero_le _
  | flushing =>
    have hbin := hc.bin (.inl hp)
    simp only [CheckpointProtocol.stepsTaken,hp]
    omega
  | dumping =>
    have hsplit : frozenTotal db + db.bins.length =
        ((db.bins.take db.ckptProgress.currentBin).map (fun s => frozenCount s + 1)).sum +
          ((db.bins.drop db.ckptProgress.currentBin).map (fun s => frozenCount s + 1)).sum := by
      rw [← sum_append,← map_append,take_append_drop,sum_succ]
      rfl
    have hlast : (db.bins[db.ckptProgress.currentBin]?).elim 0 (pagesDone db.ckptProgress) ≤
        ((db.bins.drop db.ckptProgress.currentBin).map (fun s => frozenCount s + 1)).sum := by
      cases hs : db.bins[db.ckptProgress.currentBin]? with
      | none => exact Nat.zero_le _
      | some s =>
        have hmem : s ∈ db.bins.drop db.ckptProgress.currentBin := by
          rw [mem_iff_getElem?]
          exact ⟨0,by rw [getElem?_drop,Nat.add_zero,hs]⟩
        have hle := single_le_sum (fun _ _ => Nat.zero_le _) _
          (List.mem_map_of_mem hmem (f := fun s => frozenCount s + 1))
        simp only [elim_some,pagesDone]
        omega
    simp only [CheckpointProtocol.stepsTaken,hp]
    omega
  | finishing =>
    simp only [CheckpointProtocol.stepsTaken,hp]
    exact Nat.le_refl _

theorem cursors_idle (h : db.ckptProgress.phase = .idle) : Cursors db := by
  constructor <;> simp [h]

theorem step_cursors (hc : Cursors db) (h : graveldbCheckpointStep db budget = some db') :
    db'.ckptProgress.phase = .idle ∨ (Cursors db' ∧ stepsTaken db + 1 ≤ stepsTaken db') := by
  unfold graveldbCheckpointStep at h
  cases hphase : db.ckptProgress.phase with
  | idle =>
    simp only [hphase] at h
    refine .inr ((stepFlushing_cursors rfl rfl (Nat.zero_le _) h).imp_right fun htaken => ?_)
    rwa [CheckpointProtocol.stepsTaken,hphase]
  | flushing =>
    simp only [hphase] at h
    refine .inr ((stepFlushing_cursors hphase (hc.fresh hphase) (hc.bin (.inl hphase)) h).imp_right
      fun htaken => ?_)
    rwa [CheckpointProtocol.stepsTaken,hphase]
  | dumping =>
    simp only [hphase] at h
    split at h
    · rename_i hnone
      cases h
      have hlen := List.getElem?_eq_none_iff.mp hnone
      refine .inr ⟨⟨?_,?_,?_⟩,?_⟩
      · rintro (⟨⟨⟩⟩ | ⟨⟨⟩⟩)
      · rintro ⟨⟩
      · rintro ⟨⟩
      · have hsum := sum_succ (w := frozenCount) db.bins
        simp only [CheckpointProtocol.stepsTaken,hphase,hnone,elim_none,
          take_of_length_le hlen,frozenTotal]
        omega
    · rename_i s hs
      cases h
      exact .inr (stepDumping_cursors hphase hs hc)
  | finishing =>
    simp only [hphase] at h
    obtain ⟨bins,_,h⟩ := bind_eq_some_iff.mp h
    cases h
    exact .inl rfl

end Steps

def isStep : StoreOp → Bool
  | .checkpointStep _ => true
  | _ => false

def stepCalls (ops : List StoreOp) : Nat := ops.countP isStep

def Returned (s : Session) (ops : List StoreOp) : Prop :=
  ∃ before after s1, ops = before ++ after ∧ 0 < stepCalls before ∧
    Run.run stepSession s before = some s1 ∧ graveldbCheckpointInProgress s1.db = false

section Runs

variable {s s1 s' : Session} {op : StoreOp} {ops : List StoreOp}

theorem inProgress_eq_false {db : GravelDB} :
    graveldbCheckpointInProgress db = false ↔ db.ckptProgress.phase = .idle := by
  simp [graveldbCheckpointInProgress]

theorem Returned.cons (hstep : stepSession s op = some s1) (h : Returned s1 ops) :
    Returned s (op :: ops) := by
  obtain ⟨before,after,s2,rfl,hcalls,hrun,hidle⟩ := h
  refine ⟨op :: before,after,s2,rfl,?_,?_,hidle⟩
  · rw [stepCalls,countP_cons]
    exact Nat.lt_of_lt_of_le hcalls (Nat.le_add_right _ _)
  · rw [Run.run,hstep]
    exact hrun

theorem returned_now (hop : isStep op = true) (hstep : stepSession s op = some s1)
    (hidle : s1.db.ckptProgress.phase = .idle) : Returned s (op :: ops) := by
  refine ⟨[op],ops,s1,rfl,by simp [stepCalls,hop],?_,inProgress_eq_false.mpr hidle⟩
  simp [Run.run,hstep]

theorem stepCalls_step (hop : isStep op = true) : stepCalls (op :: ops) = stepCalls ops + 1 := by
  rw [stepCalls,countP_cons_of_pos hop]
  rfl

theorem stepCalls_foreground (hop : Foreground op) : stepCalls (op :: ops) = stepCalls ops := by
  rw [stepCalls,countP_cons_of_neg]
  · rfl
  · cases op <;> simp [isStep]
    exact hop.elim

theorem isStep_eq (hop : isStep op = true) (h : stepSession s op = some s') :
    ∃ budget, graveldbCheckpointStep s.db budget = some s'.db := by
  cases op <;> simp only [isStep,Bool.false_eq_true] at hop
  case checkpointStep budget =>
    obtain ⟨⟨s1,answer⟩,happly,rfl⟩ := map_eq_some_iff.mp h
    obtain ⟨db,hck,happly⟩ := bind_eq_some_iff.mp happly
    cases happly
    exact ⟨budget,hck⟩

/-- Until the checkpoint returns, every call of the step function counts. -/
theorem run_cursors (ops : List StoreOp) : ∀ s s' : Session, Cursors s.db →
    (∀ op ∈ ops, Foreground op ∨ isStep op = true) → Run.run stepSession s ops = some s' →
    Returned s ops ∨ Cursors s'.db ∧ stepsTaken s.db + stepCalls ops ≤ stepsTaken s'.db := by
  induction ops with
  | nil =>
    intro s s' hc _ hrun
    cases hrun
    exact .inr ⟨hc,Nat.le_refl _⟩
  | cons op ops ih =>
    intro s s' hc hops hrun
    obtain ⟨s1,hstep,hrun⟩ := bind_eq_some_iff.mp hrun
    have hrest := fun x hx => hops x (mem_cons_of_mem op hx)
    rcases hops op mem_cons_self with hop | hop
    · have hu := foreground_undisturbed hop hstep
      refine (ih s1 s' (hu.cursors hc) hrest hrun).imp (.cons hstep) ?_
      rintro ⟨hc',hle⟩
      have hmono := hu.stepsTaken
      rw [stepCalls_foreground hop]
      exact ⟨hc',by omega⟩
    · obtain ⟨budget,hck⟩ := isStep_eq hop hstep
      rcases step_cursors hc hck with hidle | ⟨hc1,htaken⟩
      · exact .inl (returned_now hop hstep hidle)
      · refine (ih s1 s' hc1 hrest hrun).imp (.cons hstep) ?_
        rintro ⟨hc',hle⟩
        rw [stepCalls_step hop]
        exact ⟨hc',by omega⟩

end Runs

theorem stepFlushing_phase {db db' : GravelDB} {p : CkptProgress} (hp : p.phase = .flushing)
    (h : stepFlushing db p = some db') : db'.ckptProgress.phase ≠ .idle := by
  unfold stepFlushing at h
  split at h
  · cases h
    exact fun hc => by cases hc
  · obtain ⟨s',_,h⟩ := bind_eq_some_iff.mp h
    cases h
    simp only [modifyBin,hp]
    exact fun hc => by cases hc

theorem step_idle_iff {db db' : GravelDB} {budget : UInt32}
    (h : graveldbCheckpointStep db budget = some db') :
    db'.ckptProgress.phase = .idle ↔ db.ckptProgress.phase = .finishing := by
  unfold graveldbCheckpointStep at h
  cases hphase : db.ckptProgress.phase with
  | idle =>
    simp only [hphase] at h
    exact ⟨fun hidle => absurd hidle (stepFlushing_phase rfl h),fun hc => by cases hc⟩
  | flushing =>
    simp only [hphase] at h
    exact ⟨fun hidle => absurd hidle (stepFlushing_phase hphase h),fun hc => by cases hc⟩
  | dumping =>
    simp only [hphase] at h
    split at h
    · cases h
      constructor <;> intro hc <;> cases hc
    · cases h
      unfold stepDumping
      simp only
      split_ifs
      · simp only [hphase]
        constructor <;> intro hc <;> cases hc
      · simp only [hphase]
        constructor <;> intro hc <;> cases hc
  | finishing =>
    simp only [hphase] at h
    obtain ⟨bins,_,h⟩ := bind_eq_some_iff.mp h
    cases h
    exact ⟨fun _ => rfl,fun _ => rfl⟩

def Truthful (rc : Status) (db : GravelDB) : Prop :=
  (rc = .again ↔ graveldbCheckpointInProgress db = true) ∧
    (rc = .ok ↔ graveldbCheckpointInProgress db = false)

/-- A step that is not the last one reports that the checkpoint is done; the last one is right. From
an idle store on, a checkpoint ends after two steps for each bin, one for each frozen page and three
more, whatever the client does between them. -/
theorem checkpoint_step_protocol (s s' : Session) (ops : List StoreOp)
    (hidle : graveldbCheckpointInProgress s.db = false)
    (hops : ∀ op ∈ ops, Foreground op ∨ isStep op = true)
    (hrun : Run.run stepSession s ops = some s') :
    (∀ budget db rc, checkpointStepStatus s'.db budget = some (db,rc) →
      (Truthful rc db ↔ s'.db.ckptProgress.phase = .finishing)) ∧
    (Returned s ops ∨ stepCalls ops ≤ 2 * s'.db.bins.length + frozenTotal s'.db + 2) := by
  constructor
  swap
  · refine (run_cursors ops s s' (cursors_idle (inProgress_eq_false.mp hidle)) hops hrun).imp_right ?_
    rintro ⟨hc,hle⟩
    have hbound := stepsTaken_le hc
    omega
  intro budget db rc hstep
  obtain ⟨db',hck,hstep⟩ := bind_eq_some_iff.mp hstep
  cases hstep
  rw [← step_idle_iff hck,← inProgress_eq_false]
  simp [Truthful]

def dirtyRun : List StoreOp := .put [Slots.vectorOf 1] :: List.replicate 6 (.checkpointStep 0)

/-- One bin with a dirty page: six steps end the checkpoint. -/
theorem dirty_page_returns : Returned ⟨Slots.smallStore,[]⟩ dirtyRun := by
  have hrun : ((Run.run stepSession ⟨Slots.smallStore,[]⟩ dirtyRun).map (fun s =>
      (s.db.bins.length,frozenTotal s.db))) = some (1,0) := by decide +kernel
  obtain ⟨s',hs',hsize⟩ := map_eq_some_iff.mp hrun
  obtain ⟨hbins,hfrozen⟩ := Prod.mk.inj hsize
  refine (checkpoint_step_protocol ⟨Slots.smallStore,[]⟩ s' dirtyRun (by decide +kernel) ?_
    hs').2.resolve_right ?_
  · intro op hop
    rcases mem_cons.mp hop with rfl | hop
    · exact .inl trivial
    · rw [eq_of_mem_replicate hop]
      exact .inr rfl
  · rw [hbins,hfrozen]
    decide

/-- The first step of a checkpoint returns `GRAVELDB_OK`, and the checkpoint is in progress. -/
theorem first_step_reports_done :
    ((checkpointStepStatus Slots.smallStore 0).map (fun r => (r.2,graveldbCheckpointInProgress r.1))) =
      some (.ok,true) := by
  decide +kernel

end Gravel.Proofs.CheckpointProtocol
