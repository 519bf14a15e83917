import Gravel.Proofs.Registry
import Mathlib.Data.Finset.Dedup

namespace Gravel.Proofs.RegistryMap
open Registry List Function

variable {β : Type}

inductive RegOp (β : Type) where
  | put (dim : Int) (bin : β)
  | find (dim : Int)

namespace RegOp

def dim : RegOp β → Int
  | put dim _ => dim
  | find dim => dim

def putDim : RegOp β → Option Int
  | put dim _ => some dim
  | find _ => none

end RegOp

/-- One call and what it returns; `none` is the `-1` of the source. -/
def regStep (r : BinRegistry β) : RegOp β → Option (BinRegistry β × Option Nat)
  | .put dim bin => (binRegistryPut r dim bin).map (fun p => (p.1,some p.2))
  | .find dim => some (r,dimRegistryFind r.reg dim)

def regRun (r : BinRegistry β) : List (RegOp β) → Option (BinRegistry β × List (Option Nat))
  | [] => some (r,[])
  | op :: ops => do
    let (r,answer) ← regStep r op
    let (r,answers) ← regRun r ops
    return (r,answer :: answers)

section Table

variable {known : List (Int × β)} {d : Int} {b : β} {j : Nat}

def position (known : List (Int × β)) (d : Int) : Option Nat :=
  known.findIdx? (fun x => x.1 = d)

/-- What the registry stands for: the dims in the order in which they were first put, each with
the bin of that put. -/
def tableStep (known : List (Int × β)) : RegOp β → List (Int × β) × Option Nat
  | .put d b =>
    match position known d with
    | some i => (known,some i)
    | none => (known ++ [(d,b)],some known.length)
  | .find d => (known,position known d)

def tableRun (known : List (Int × β)) : List (RegOp β) → List (Int × β) × List (Option Nat)
  | [] => (known,[])
  | op :: ops =>
    let (known,answer) := tableStep known op
    let (known,answers) := tableRun known ops
    (known,answer :: answers)

theorem position_none : position known d = none ↔ d ∉ known.map Prod.fst := by
  unfold position
  rw [findIdx?_eq_none_iff,List.mem_map]
  constructor
  · rintro h ⟨x,hx,rfl⟩
    exact absurd (h x hx) (by simp)
  · intro h x hx
    have hne : x.1 ≠ d := fun hd => h ⟨x,hx,hd⟩
    simpa using hne

theorem position_some (hnd : (known.map Prod.fst).Nodup) :
    position known d = some j ↔ (known.map Prod.fst)[j]? = some d := by
  unfold position
  rw [findIdx?_eq_some_iff_getElem]
  constructor
  · rintro ⟨hj,hd,_⟩
    rw [getElem?_map,getElem?_eq_getElem hj,Option.map_some]
    exact congrArg some (by simpa using hd)
  · intro h
    obtain ⟨hj,hd⟩ := List.getElem?_eq_some_iff.mp h
    rw [length_map] at hj
    rw [getElem_map] at hd
    refine ⟨hj,by simpa using hd,fun k hk => ?_⟩
    have hkj : known[k].1 ≠ known[j].1 := by
      intro heq
      have hj' : j < (known.map Prod.fst).length := by
        rw [length_map]
        exact hj
      have hkeys : (known.map Prod.fst)[k] = (known.map Prod.fst)[j] := by
        rw [getElem_map,getElem_map]
        exact heq
      have hidx := hnd.getElem_inj_iff.mp hkeys
      omega
    rw [hd] at hkj
    simpa using hkj

theorem nodup_step (hnd : (known.map Prod.fst).Nodup) (op : RegOp β) :
    ((tableStep known op).1.map Prod.fst).Nodup := by
  cases op with
  | find d => exact hnd
  | put d b =>
    rw [tableStep]
    cases hp : position known d with
    | some i => exact hnd
    | none =>
      rw [map_append,nodup_append]
      refine ⟨hnd,by simp,?_⟩
      rintro x hx y hy rfl
      obtain rfl : x = d := by simpa using hy
      exact position_none.mp hp hx

theorem mem_step (op : RegOp β) :
    d ∈ (tableStep known op).1.map Prod.fst ↔ d ∈ known.map Prod.fst ∨ op.putDim = some d := by
  cases op with
  | find d' => simp [tableStep,RegOp.putDim]
  | put d' b =>
    rw [tableStep]
    cases hp : position known d' with
    | none =>
      rw [map_append,mem_append]
      simp [RegOp.putDim,eq_comm]
    | some i =>
      have hin : d' ∈ known.map Prod.fst := by
        by_contra hout
        rw [position_none.mpr hout] at hp
        cases hp
      constructor
      · exact Or.inl
      · rintro (h | h)
        · exact h
        · cases h
          exact hin

theorem length_step (op : RegOp β) : known.length ≤ (tableStep known op).1.length := by
  cases op with
  | find d => exact Nat.le_refl _
  | put d b =>
    rw [tableStep]
    cases position known d with
    | some i => exact Nat.le_refl _
    | none => simp

theorem tableRun_dims (ops : List (RegOp β)) : ∀ (known : List (Int × β)),
    (known.map Prod.fst).Nodup → ((tableRun known ops).1.map Prod.fst).Nodup ∧
      ∀ d, d ∈ (tableRun known ops).1.map Prod.fst ↔
        d ∈ known.map Prod.fst ∨ d ∈ ops.filterMap RegOp.putDim := by
  induction ops with
  | nil =>
    intro known hnd
    exact ⟨hnd,fun d => by simp [tableRun]⟩
  | cons op ops ih =>
    intro known hnd
    obtain ⟨hnd',hmem⟩ := ih _ (nodup_step hnd op)
    refine ⟨hnd',fun d => (hmem d).trans ?_⟩
    rw [mem_step,or_assoc,mem_filterMap,mem_filterMap,exists_mem_cons_iff]

theorem tableRun_length (ops : List (RegOp β)) : ∀ (known : List (Int × β)),
    known.length ≤ (tableRun known ops).1.length := by
  induction ops with
  | nil => exact fun known => Nat.le_refl _
  | cons op ops ih => exact fun known => Nat.le_trans (length_step op) (ih _)

theorem tableRun_card (ops : List (RegOp β)) :
    (tableRun [] ops).1.length = (ops.filterMap RegOp.putDim).toFinset.card := by
  obtain ⟨hnd,hmem⟩ := tableRun_dims ops [] nodup_nil
  rw [← length_map Prod.fst,← toFinset_card_of_nodup hnd]
  congr 1
  ext d
  rw [List.mem_toFinset,List.mem_toFinset,hmem]
  simp

end Table

def Doubled (cap : Nat) : Prop := ∃ k ≤ 12, cap = 8 * 2 ^ k

theorem Doubled.double {cap count : Nat} (h : Doubled cap) (hle : cap ≤ count)
    (hcount : count < 24576) : Doubled (cap * 2) ∧ cap * 2 % 2 ^ 16 = cap * 2 ∧ 16 ≤ cap * 2 := by
  obtain ⟨k,hk,rfl⟩ := h
  have hpos : 1 ≤ 2 ^ k := Nat.one_le_two_pow
  refine ⟨⟨k + 1,?_,by rw [Nat.pow_succ]; omega⟩,Nat.mod_eq_of_lt (by omega),by omega⟩
  rcases Nat.lt_or_eq_of_le hk with hlt | rfl
  · exact hlt
  · omega

theorem entriesGrow_spec {capacity count : Nat} (h : Doubled capacity) (hle : count ≤ capacity)
    (hcount : count < 24576) :
    Doubled (entriesGrow capacity count) ∧ count < entriesGrow capacity count := by
  unfold entriesGrow
  by_cases hfull : capacity ≤ count
  · obtain ⟨hd,hmod,hmin⟩ := h.double hfull hcount
    rw [if_pos hfull,hmod]
    exact ⟨hd,by omega⟩
  · rw [if_neg hfull]
    exact ⟨h,by omega⟩

theorem binsGrow_eq {capacity count : Nat} (h : Doubled capacity) (hcount : count < 24576) :
    binsGrow capacity count = entriesGrow capacity count := by
  unfold binsGrow entriesGrow
  split_ifs with hfull
  · obtain ⟨_,hmod,hmin⟩ := h.double hfull hcount
    rw [hmod]
    exact if_neg (Nat.not_lt.mpr hmin)
  · rfl

structure HoldsTable (r : BinRegistry β) (known : List (Int × β)) : Prop where
  registers : Registers r.reg (known.map Prod.fst)
  bins : ∀ j, r.bins j = known[j]?.map Prod.snd
  capacity : Doubled r.capacity
  binsFit : known.length ≤ r.capacity
  entriesCap : Doubled r.entriesCap
  entriesFit : known.length ≤ r.entriesCap

section Runs

variable {r : BinRegistry β} {known : List (Int × β)} {d : Int} {b : β}

theorem holdsTable_init : HoldsTable (binRegistryInit : BinRegistry β) [] :=
  ⟨registers_init,fun _ => rfl,⟨0,by decide,rfl⟩,Nat.zero_le _,⟨0,by decide,rfl⟩,Nat.zero_le _⟩

theorem HoldsTable.find (h : HoldsTable r known) (hd : d ≠ 0) :
    dimRegistryFind r.reg d = position known d := by
  apply Option.ext
  intro j
  rw [h.registers.find hd,position_some h.registers.listed.distinct]

theorem HoldsTable.put_known (h : HoldsTable r known) (hd : d ≠ 0) {i : Nat}
    (hp : position known d = some i) (b : β) : binRegistryPut r d b = some (r,i) := by
  unfold binRegistryPut
  rw [h.find hd,hp]

theorem HoldsTable.put_new (h : HoldsTable r known) (hd : d ≠ 0) (hp : position known d = none)
    (hcount : known.length < 24576) (b : β) :
    ∃ r', binRegistryPut r d b = some (r',known.length) ∧ HoldsTable r' (known ++ [(d,b)]) := by
  have hlen : r.reg.count = known.length := by
    have := h.registers.listed.length
    rw [length_map] at this
    exact this
  obtain ⟨hcap,hbins⟩ := entriesGrow_spec h.capacity h.binsFit hcount
  rw [← binsGrow_eq h.capacity hcount] at hcap hbins
  obtain ⟨hecap,hentries⟩ := entriesGrow_spec h.entriesCap h.entriesFit hcount
  obtain ⟨reg,hput,hreg⟩ := h.registers.put hd (position_none.mp hp)
    (by rw [length_map]; exact hcount)
  have hroom : ¬ (binsGrow r.capacity known.length ≤ known.length ∨
      entriesGrow r.entriesCap known.length ≤ known.length) := by omega
  obtain ⟨entriesCap,hec⟩ : ∃ n, n = if r.reg.mode = .linear ∧ reg.mode = .sorted
    then max (entriesGrow r.entriesCap known.length) dimRegThresholdSorted
    else entriesGrow r.entriesCap known.length := ⟨_,rfl⟩
  have hec' : Doubled entriesCap ∧ entriesGrow r.entriesCap known.length ≤ entriesCap := by
    rw [hec]
    split_ifs
    · refine ⟨?_,Nat.le_max_left _ _⟩
      rcases Nat.le_total (entriesGrow r.entriesCap known.length) dimRegThresholdSorted with hle | hle
      · rw [Nat.max_eq_right hle]
        exact ⟨3,by decide,rfl⟩
      · rw [Nat.max_eq_left hle]
        exact hecap
    · exact ⟨hecap,Nat.le_refl _⟩
  refine ⟨{ reg, bins := update r.bins known.length (some b)
            capacity := binsGrow r.capacity known.length, entriesCap },?_,?_⟩
  · unfold binRegistryPut
    rw [h.find hd,hp]
    simp only [hlen,if_neg hroom,hput,Option.bind_eq_bind,Option.bind_some,Option.pure_def,← hec]
  · refine ⟨by rw [map_append]; exact hreg,?_,hcap,?_,hec'.1,?_⟩
    · intro j
      by_cases hj : j = known.length
      · subst hj
        simp
      · simp only [update_of_ne hj,h.bins]
        rcases Nat.lt_or_gt_of_ne hj with hlt | hgt
        · rw [getElem?_append_left hlt]
        · rw [getElem?_eq_none (by omega),getElem?_eq_none (by simp; omega)]
    · simp only [length_append,length_singleton]
      omega
    · have := hec'.2
      simp only [length_append,length_singleton]
      omega

theorem HoldsTable.step (h : HoldsTable r known) (op : RegOp β) (hd : op.dim ≠ 0)
    (hcount : (tableStep known op).1.length ≤ 24576) :
    ∃ r', regStep r op = some (r',(tableStep known op).2) ∧
      HoldsTable r' (tableStep known op).1 := by
  cases op with
  | find d =>
    have hd : d ≠ 0 := hd
    exact ⟨r,by rw [regStep,h.find hd]; rfl,h⟩
  | put d b =>
    have hd : d ≠ 0 := hd
    rw [tableStep] at hcount ⊢
    cases hp : position known d with
    | some i => exact ⟨r,by rw [regStep,h.put_known hd hp]; rfl,h⟩
    | none =>
      rw [hp] at hcount
      simp only [length_append,length_singleton] at hcount
      obtain ⟨r',hput,h'⟩ := h.put_new hd hp (by omega) b
      exact ⟨r',by rw [regStep,hput]; rfl,h'⟩

theorem HoldsTable.run (ops : List (RegOp β)) : ∀ {r : BinRegistry β} {known : List (Int × β)},
    HoldsTable r known → (∀ op ∈ ops, op.dim ≠ 0) → (tableRun known ops).1.length ≤ 24576 →
    ∃ r', regRun r ops = some (r',(tableRun known ops).2) ∧
      HoldsTable r' (tableRun known ops).1 := by
  induction ops with
  | nil =>
    intro r known h _ _
    exact ⟨r,rfl,h⟩
  | cons op ops ih =>
    intro r known h hdims hcount
    obtain ⟨r1,hstep,h1⟩ := h.step op (hdims op (mem_cons_self ..))
      (Nat.le_trans (tableRun_length ops _) hcount)
    obtain ⟨r',hrun,h'⟩ := ih h1 (fun op' hop => hdims op' (mem_cons_of_mem _ hop)) hcount
    refine ⟨r',?_,h'⟩
    rw [regRun,hstep,Option.bind_eq_bind,Option.bind_some]
    simp only [hrun,Option.bind_eq_bind,Option.bind_some,Option.pure_def]
    rfl

/-- The registry is one map through all its modes: the calls return what the table of first
puts says, and that table is what the registry holds. -/
theorem registry_refines_table (ops : List (RegOp β)) (hdims : ∀ op ∈ ops, op.dim ≠ 0)
    (hcount : (ops.filterMap RegOp.putDim).toFinset.card ≤ 24576) :
    ∃ r, regRun binRegistryInit ops = some (r,(tableRun [] ops).2) ∧
      (∀ j d b, (tableRun [] ops).1[j]? = some (d,b) →
        dimRegistryFind r.reg d = some j ∧ r.bins j = some b ∧
          ∀ bin, binRegistryPut r d bin = some (r,j)) ∧
      ∀ d ≠ 0, d ∉ ops.filterMap RegOp.putDim → dimRegistryFind r.reg d = none := by
  obtain ⟨hnd,hmem⟩ := tableRun_dims ops [] nodup_nil
  obtain ⟨r,hrun,h⟩ := holdsTable_init.run ops hdims (by rw [tableRun_card]; exact hcount)
  refine ⟨r,hrun,?_,?_⟩
  · intro j d b hj
    have hd : d ≠ 0 := by
      apply h.registers.listed.nonzero
      exact List.mem_map.mpr ⟨(d,b),mem_of_getElem? hj,rfl⟩
    have hpos : position (tableRun [] ops).1 d = some j := by
      rw [position_some hnd,getElem?_map,hj]
      rfl
    refine ⟨by rw [h.find hd,hpos],by rw [h.bins,hj]; rfl,h.put_known hd hpos⟩
  · intro d hd hnot
    rw [h.find hd,position_none,hmem]
    simpa using hnot

/-- Puts that lead through all modes, a negative dim, a dim put twice, and one that is not there. -/
def longRun : List (RegOp Nat) :=
  (List.range 70).map (fun i => .put (i + 1) i) ++ [.put (-3) 90,.put 8 91,.find (-3),.find 71]

theorem long_run_refines_table :
    ∃ r, regRun binRegistryInit longRun =
        some (r,(List.range 71).map some ++ [some 7,some 70,none]) ∧ r.bins 7 = some 7 := by
  obtain ⟨r,hrun,htable,_⟩ := registry_refines_table longRun (by decide +kernel) (by decide +kernel)
  have hanswers : (tableRun [] longRun).2 = (List.range 71).map some ++ [some 7,some 70,none] := by
    decide +kernel
  rw [hanswers] at hrun
  exact ⟨r,hrun,(htable 7 8 7 (by decide +kernel)).2.1⟩

end Runs

end Gravel.Proofs.RegistryMap
