import Gravel.Proofs.OverlayMap

namespace Gravel.Proofs.OverlayRuns
open Rehash OverlayMap List Option Function

def vectorBytes (dim : Nat) (data : Nat → UInt8) : List UInt8 := (List.range (dim * 4)).map data

inductive OverlayOp where
  | put (entryId : Nat) (data : Nat → UInt8)
  | get (entryId : Nat)
  | contains (entryId : Nat)

def OverlayOp.entry : OverlayOp → Nat
  | .put e _ => e
  | .get e => e
  | .contains e => e

def OverlayOp.written : OverlayOp → Option Nat
  | .put e _ => some e
  | .get _ => none
  | .contains _ => none

inductive OverlayAnswer where
  | status (rc : Status)
  | vector (v : Option (List UInt8))
  | found (b : Bool)
deriving DecidableEq

section Runs

variable (dim : Nat)

def applyOp (ob : OverlayBuffer) : OverlayOp → Option (OverlayBuffer × OverlayAnswer)
  | .put e data => (overlayPut true ob e data dim).map (fun r => (r.1,.status r.2))
  | .get e => (overlayGet ob e).map (fun r => (r.1,.vector (r.2.map (vectorBytes dim))))
  | .contains e => (overlayContains ob e).map (fun r => (r.1,.found r.2))

def runOps (ob : OverlayBuffer) : List OverlayOp → Option (OverlayBuffer × List OverlayAnswer) :=
  Run.replies (applyOp dim) ob

abbrev Vectors := Nat → Option (List UInt8)

def specOp (m : Vectors) : OverlayOp → Vectors × OverlayAnswer
  | .put e data => (update m e (some (vectorBytes dim data)),.status .ok)
  | .get e => (m,.vector (m e))
  | .contains e => (m,.found (m e).isSome)

def specRun (m : Vectors) : List OverlayOp → Vectors × List OverlayAnswer :=
  Run.specReplies (specOp dim) m

def CapacityBelow (ob : OverlayBuffer) (ops : List OverlayOp) : Prop :=
  Run.Always (Run.quiet (applyOp dim)) (fun ob => ob.table.capacity < 2 ^ 29) ob ops

instance decidableCapacityBelow (ob : OverlayBuffer) (ops : List OverlayOp) :
    Decidable (CapacityBelow dim ob ops) :=
  inferInstanceAs (Decidable (Run.Always ..))

def EntriesVisible (ob : OverlayBuffer) (ops : List OverlayOp) : Prop :=
  Run.Ready (Run.quiet (applyOp dim)) (fun ob op => ¬ Hidden overlayLayout ob.table op.entry) ob ops

instance decidableEntriesVisible (ob : OverlayBuffer) (ops : List OverlayOp) :
    Decidable (EntriesVisible dim ob ops) :=
  inferInstanceAs (Decidable (Run.Ready ..))

end Runs

variable {dim e : Nat} {ob : OverlayBuffer} {m : Vectors}

def Follows (dim : Nat) (ob : OverlayBuffer) (m : Vectors) : Prop :=
  ∃ v, OverlayRep ob v ∧ ∀ e, m e = (v e).map (vectorBytes dim)

theorem vectorBytes_copy (data old : Nat → UInt8) :
    vectorBytes dim (overlayCopy dim data old) = vectorBytes dim data := by
  apply map_congr_left
  intro i hi
  simp [overlayCopy,mem_range.mp hi]

theorem Follows.put (h : Follows dim ob m) (he : e < overlayEmpty) (hcap : ob.table.capacity < 2 ^ 29)
    (hvis : ¬ Hidden overlayLayout ob.table e) (data : Nat → UInt8) :
    ∃ ob', overlayPut true ob e data dim = some (ob',.ok) ∧
      Follows dim ob' (update m e (some (vectorBytes dim data))) := by
  obtain ⟨v,hrep,hm⟩ := h
  obtain ⟨t,n,hput,hrep',_⟩ := put_rep hrep (Nat.ne_of_lt he) hcap hvis data dim
  refine ⟨_,hput,_,hrep',fun x => ?_⟩
  by_cases hx : x = e
  · subst hx
    rw [update_self,update_self,map_some,vectorBytes_copy]
  · rw [update_of_ne hx,update_of_ne hx,hm x]

/-- A lookup finds what the map says exactly when the entry is not hidden. -/
theorem Follows.get_iff (h : Follows dim ob m) (e : Nat) :
    ∃ t r, overlayGet ob e = some ({ ob with table := t },r) ∧
      overlayContains ob e = some ({ ob with table := t },r.isSome) ∧
      Follows dim { ob with table := t } m ∧
      (r.map (vectorBytes dim) = m e ↔ ¬ Hidden overlayLayout ob.table e) ∧
      (r.isSome = (m e).isSome ↔ ¬ Hidden overlayLayout ob.table e) := by
  obtain ⟨v,hrep,hm⟩ := h
  obtain ⟨t,r,hget,hst,hvis,hhid⟩ := get_spec hrep.valid hrep.represents e
  refine ⟨t,r.map OverlaySlot.data,by simp [overlayGet,overlayFind_eq hrep.valid,hget],
    by simp [overlayContains,overlayFind_eq hrep.valid,hget],
    ⟨v,⟨hst.valid,hrep.represents.stored hst.stored⟩,hm⟩,?_⟩
  rw [hm e]
  by_cases hh : Hidden overlayLayout ob.table e
  · obtain ⟨hr,hne⟩ := hhid hh
    obtain ⟨d,hd⟩ := ne_none_iff_exists'.mp (show v e ≠ none by simpa [slotsOf] using hne)
    simp [hr,hd,hh]
  · rw [hvis hh]
    cases hv : v e <;> simp [slotsOf,hv,hh]

theorem applyOp_follows (h : Follows dim ob m) {op : OverlayOp} (he : op.entry < overlayEmpty)
    (hcap : ob.table.capacity < 2 ^ 29) (hvis : ¬ Hidden overlayLayout ob.table op.entry) :
    ∃ ob', applyOp dim ob op = some (ob',(specOp dim m op).2) ∧
      Follows dim ob' (specOp dim m op).1 := by
  cases op with
  | put e data =>
    obtain ⟨ob',hput,h'⟩ := h.put (e := e) he hcap hvis data
    exact ⟨ob',by simp [applyOp,hput,specOp],h'⟩
  | get e =>
    obtain ⟨t,r,hget,_,h',hiff,_⟩ := h.get_iff e
    exact ⟨_,by simp [applyOp,hget,specOp,hiff.mpr hvis],h'⟩
  | contains e =>
    obtain ⟨t,r,_,hcontains,h',_,hiff⟩ := h.get_iff e
    exact ⟨_,by simp [applyOp,hcontains,specOp,hiff.mpr hvis],h'⟩

theorem specRun_isSome (ops : List OverlayOp) : ∀ m : Vectors,
    ((Run.specReplies (specOp dim) m ops).1 e).isSome ↔ (m e).isSome ∨ e ∈ ops.filterMap OverlayOp.written := by
  induction ops with
  | nil => simp [Run.specReplies]
  | cons op ops ih =>
    intro m
    simp only [Run.specReplies,ih]
    cases op with
    | put x data =>
      by_cases hx : e = x
      · subst hx
        simp [specOp,OverlayOp.written]
      · simp [specOp,OverlayOp.written,hx]
    | get x => simp [specOp,OverlayOp.written]
    | contains x => simp [specOp,OverlayOp.written]

/-- The replay at the end of the checkpoint lists every vector of the map once. -/
theorem Follows.replay (h : Follows dim ob m) :
    ((replayEntries ob).map EmbWriteEntry.entryId).Nodup ∧
      (∀ e bs, (∃ w ∈ replayEntries ob, w.entryId = e ∧ vectorBytes dim w.data = bs) ↔
        m e = some bs) ∧
      ob.table.count = (replayEntries ob).length := by
  obtain ⟨v,hrep,hm⟩ := h
  have heq := replayEntries_eq hrep
  have hcount := length_replaySlots hrep.valid
  rw [heq]
  refine ⟨?_,fun e bs => ?_,by rw [length_map,hcount]⟩
  · rw [List.map_map]
    exact nodup_replaySlots hrep
  · rw [hm e]
    constructor
    · rintro ⟨w,hw,rfl,rfl⟩
      obtain ⟨o,ho,rfl⟩ := List.mem_map.mp hw
      simp only [(mem_replaySlots hrep).mp ho,map_some]
    · intro hbs
      obtain ⟨d,hd,rfl⟩ := map_eq_some_iff.mp hbs
      exact ⟨⟨e,d⟩,List.mem_map.mpr ⟨⟨e,d⟩,(mem_replaySlots hrep).mpr hd,rfl⟩,rfl,rfl⟩

theorem Follows.count (h : Follows dim ob m) {written : List Nat}
    (hw : ∀ e, (m e).isSome ↔ e ∈ written) : ob.table.count = written.toFinset.card := by
  obtain ⟨hnd,hmem,hcount⟩ := h.replay
  have hset : ((replayEntries ob).map EmbWriteEntry.entryId).toFinset = written.toFinset := by
    ext e
    rw [List.mem_toFinset,List.mem_toFinset,← hw,isSome_iff_exists,List.mem_map]
    constructor
    · rintro ⟨w,hin,rfl⟩
      exact ⟨_,(hmem _ _).mp ⟨w,hin,rfl,rfl⟩⟩
    · rintro ⟨bs,hbs⟩
      obtain ⟨w,hin,he,_⟩ := (hmem e bs).mpr hbs
      exact ⟨w,hin,he⟩
  rw [← hset,toFinset_card_of_nodup hnd,length_map,hcount]

/-- As long as no operation asks for an entry that the migration hides at that moment, the overlay
is the finite map of its history, its counter counts the entries and its replay lists each of them
once; and in every state so reached, a lookup is right exactly for the entries that are not hidden. -/
theorem overlay_refines_map (dim : Nat) (ops : List OverlayOp)
    (hids : ∀ op ∈ ops, op.entry < 2 ^ 32 - 1) (hcap : CapacityBelow dim overlayInit ops)
    (hvis : EntriesVisible dim overlayInit ops) :
    ∃ ob, runOps dim overlayInit ops = some (ob,(specRun dim (fun _ => none) ops).2) ∧
      ob.table.count = (ops.filterMap OverlayOp.written).toFinset.card ∧
      ((replayEntries ob).map EmbWriteEntry.entryId).Nodup ∧
      (∀ e bs, (∃ w ∈ replayEntries ob, w.entryId = e ∧ vectorBytes dim w.data = bs) ↔
        (specRun dim (fun _ => none) ops).1 e = some bs) ∧
      ∀ e, ((overlayGet ob e).map (fun r => r.2.map (vectorBytes dim)) =
          some ((specRun dim (fun _ => none) ops).1 e) ↔ ¬ Hidden overlayLayout ob.table e) ∧
        ((overlayContains ob e).map Prod.snd =
          some ((specRun dim (fun _ => none) ops).1 e).isSome ↔ ¬ Hidden overlayLayout ob.table e) := by
  have hinit : Follows dim overlayInit (fun _ => none) := ⟨_,init_rep,fun _ => rfl⟩
  obtain ⟨ob,hrun,h⟩ := Run.replies_simulate (applyOp dim) (specOp dim) (R := Follows dim)
    (V := fun ob op => ¬ Hidden overlayLayout ob.table op.entry)
    (fun _ _ _ h hid hcap hvis => applyOp_follows h hid hcap hvis) ops overlayInit _ hinit hids hcap
    hvis
  obtain ⟨hnd,hmem,_⟩ := h.replay
  refine ⟨ob,hrun,h.count fun e => ?_,hnd,hmem,fun e => ?_⟩
  · rw [specRun_isSome]
    simp
  · obtain ⟨t,r,hget,hcontains,_,hvec,hsome⟩ := h.get_iff e
    rw [hget,hcontains,map_some,map_some,Option.some.injEq,Option.some.injEq]
    exact ⟨hvec,hsome⟩

/-- The 181st entry makes the table grow, and the lookups run while it migrates. -/
def growingRun : List OverlayOp :=
  (List.range 181).map (fun i => .put i (fun _ => 1)) ++
    [.put 7 (fun _ => 3),.get 7,.get 180,.contains 500]

theorem growingRun_refines_map :
    ∃ ob, runOps 2 overlayInit growingRun = some (ob,(specRun 2 (fun _ => none) growingRun).2) ∧
      ob.table.count = (growingRun.filterMap OverlayOp.written).toFinset.card ∧
      ((replayEntries ob).map EmbWriteEntry.entryId).Nodup ∧
      (∀ e bs, (∃ w ∈ replayEntries ob, w.entryId = e ∧ vectorBytes 2 w.data = bs) ↔
        (specRun 2 (fun _ => none) growingRun).1 e = some bs) ∧
      ∀ e, ((overlayGet ob e).map (fun r => r.2.map (vectorBytes 2)) =
          some ((specRun 2 (fun _ => none) growingRun).1 e) ↔ ¬ Hidden overlayLayout ob.table e) ∧
        ((overlayContains ob e).map Prod.snd =
          some ((specRun 2 (fun _ => none) growingRun).1 e).isSome ↔
            ¬ Hidden overlayLayout ob.table e) :=
  overlay_refines_map 2 growingRun (by decide +kernel) (by decide +kernel) (by decide +kernel)

def hidingRun : List OverlayOp :=
  (List.range 181).map (fun i => .put (1000 + i) (fun _ => 1)) ++ [.contains 1116]

theorem hidingRun_loses_entry :
    (∀ op ∈ hidingRun, op.entry < 2 ^ 32 - 1) ∧ CapacityBelow 1 overlayInit hidingRun ∧
      (runOps 1 overlayInit hidingRun).map Prod.snd ≠ some (specRun 1 (fun _ => none) hidingRun).2 :=
  ⟨by decide +kernel,by decide +kernel,by decide +kernel⟩

end Gravel.Proofs.OverlayRuns
