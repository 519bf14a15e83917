import Gravel.Model.DimRegistry
import Mathlib.Data.List.Perm.Subperm
import Mathlib.Tactic.NormNum

namespace Gravel.Proofs.Registry
open LinearProbe BinarySearch List Option Function

def dimAt (slots : Nat → DimRegEntry) (i : Nat) : Option Int :=
  if slots i = ⟨0,0⟩ then none else some (slots i).dim

def dimHome (cap : Nat) (dim : Int) : Nat := dimHash dim &&& (cap - 1)

structure HashRep (cap : Nat) (slots : Nat → DimRegEntry) (l : List DimRegEntry) : Prop where
  probed : Probed cap (dimHome cap) (dimAt slots)
  counted : occupied cap (dimAt slots) = l.length
  holds : ∀ e, e ≠ ⟨0,0⟩ → ((∃ i < cap, slots i = e) ↔ e ∈ l)

section Slots

variable {cap i : Nat} {dim : Int} {slots : Nat → DimRegEntry} {e : DimRegEntry} {l l' : List DimRegEntry}

theorem dimAt_eq_none : dimAt slots i = none ↔ slots i = ⟨0,0⟩ := by
  simp [dimAt]

theorem dimAt_eq_some : dimAt slots i = some dim ↔ slots i ≠ ⟨0,0⟩ ∧ (slots i).dim = dim := by
  unfold dimAt
  split_ifs with h <;> simp [h]

theorem ne_blank (h : e.dim ≠ 0) : e ≠ ⟨0,0⟩ := by
  rintro rfl
  exact h rfl

theorem home_lt (hc : cap.isPowerOfTwo) : dimHome cap dim < cap := by
  rw [dimHome,and_mask hc]
  exact Nat.mod_lt _ (pow_two_pos hc)

theorem hashRep_empty : HashRep cap (fun _ => ⟨0,0⟩) [] := by
  have hT : dimAt (fun _ => ⟨0,0⟩) = fun _ => none := by
    funext i
    simp [dimAt]
  refine ⟨by rw [hT]; exact probed_empty,by rw [hT]; exact occupied_empty,?_⟩
  intro e he
  simp [Ne.symm he]

theorem HashRep.absent (h : HashRep cap slots l) (ha : dim ∉ l.map DimRegEntry.dim) :
    ∀ j < cap, dimAt slots j ≠ some dim := by
  intro j hj hs
  obtain ⟨hne,hd⟩ := dimAt_eq_some.mp hs
  exact ha (hd ▸ List.mem_map_of_mem ((h.holds _ hne).mp ⟨j,hj,rfl⟩))

theorem hashInsert_rep (hc : cap.isPowerOfTwo) (h : HashRep cap slots l) (he : e.dim ≠ 0)
    (ha : e.dim ∉ l.map DimRegEntry.dim) (hroom : l.length < cap) :
    HashRep cap (hashInsert cap slots e) (e :: l) := by
  have habs := h.absent ha
  have hhome : dimHome cap e.dim < cap := home_lt hc
  have hstop : probe (fun i => slots i = ⟨0,0⟩) (cap - 1) cap (dimHome cap e.dim) =
      probe (stopFor (dimAt slots) e.dim) (cap - 1) cap (dimHome cap e.dim) := by
    apply probe_congr hc hhome
    intro j hj
    have := habs j hj
    simp [stopFor,this,dimAt_eq_none]
  obtain ⟨j,hj,hempty⟩ := exists_empty (by rw [h.counted]; exact hroom)
  obtain ⟨i,hi⟩ := probe_total (stopFor (dimAt slots) e.dim) hc hhome hj (by simp [stopFor,hempty])
  obtain ⟨hic,hreach,hnone⟩ := search_absent hc hhome habs hi
  have hins : hashInsert cap slots e = update slots i e := by
    unfold hashInsert
    rw [show dimHash e.dim &&& (cap - 1) = dimHome cap e.dim from rfl,hstop,hi]
  have hself : dimAt (update slots i e) i = some e.dim := by
    rw [dimAt_eq_some,update_self]
    exact ⟨ne_blank he,rfl⟩
  have hother : ∀ j < cap, j ≠ i → dimAt (update slots i e) j = dimAt slots j := by
    intro j _ hji
    simp only [dimAt,update_of_ne hji]
  rw [hins]
  refine ⟨h.probed.insert (pow_two_pos hc) hic hnone habs hreach hself hother,?_,?_⟩
  · rw [occupied_fill hic hnone (by rw [hself]; rfl) hother,h.counted,length_cons]
  · intro x hx
    rw [mem_cons,← h.holds x hx]
    constructor
    · rintro ⟨j,hj,rfl⟩
      by_cases hji : j = i
      · subst hji
        exact .inl (update_self ..)
      · rw [update_of_ne hji]
        exact .inr ⟨j,hj,rfl⟩
    · rintro (rfl | ⟨j,hj,rfl⟩)
      · exact ⟨i,hic,update_self ..⟩
      · have hji : j ≠ i := by
          rintro rfl
          exact hx (dimAt_eq_none.mp hnone)
        exact ⟨j,hj,update_of_ne hji ..⟩

theorem HashRep.congr (h : HashRep cap slots l) (hl : l'.length = l.length)
    (hm : ∀ e, e ∈ l' ↔ e ∈ l) : HashRep cap slots l' :=
  ⟨h.probed,h.counted.trans hl.symm,fun e he => (h.holds e he).trans (hm e).symm⟩

theorem foldl_hashInsert (hc : cap.isPowerOfTwo) (hpos : ∀ e ∈ l', e.dim ≠ 0)
    (hnd : ((l' ++ l).map DimRegEntry.dim).Nodup) (hroom : (l' ++ l).length ≤ cap)
    (h : HashRep cap slots l) : HashRep cap (l'.foldl (hashInsert cap) slots) (l' ++ l) := by
  induction l' generalizing slots l with
  | nil => exact h
  | cons e l' ih =>
    have hperm : (l' ++ e :: l).Perm (e :: l' ++ l) := perm_middle
    have hnd' := (hperm.map DimRegEntry.dim).nodup_iff.mpr hnd
    have hsub : ((e :: l).map DimRegEntry.dim).Nodup :=
      hnd'.sublist ((sublist_append_right _ _).map _)
    have hins := hashInsert_rep hc h (hpos e mem_cons_self) (nodup_cons.mp hsub).1
      (by simp only [length_append,length_cons] at hroom; omega)
    have := ih (fun x hx => hpos x (mem_cons_of_mem _ hx)) hnd'
      (by rw [hperm.length_eq]; exact hroom) hins
    exact this.congr hperm.length_eq.symm (fun x => hperm.mem_iff.symm)

def liveDims (cap : Nat) (slots : Nat → DimRegEntry) : List DimRegEntry :=
  ((List.range cap).map slots).filter (fun e => e ≠ ⟨0,0⟩)

def slotDim (e : DimRegEntry) : Option Int := if e = ⟨0,0⟩ then none else some e.dim

theorem HashRep.live (h : HashRep cap slots l) (hpos : ∀ e ∈ l, e.dim ≠ 0) :
    (liveDims cap slots).length = l.length ∧ (∀ e, e ∈ liveDims cap slots ↔ e ∈ l) ∧
      ((liveDims cap slots).map DimRegEntry.dim).Nodup := by
  have hlive : liveDims cap slots = LinearProbe.live slotDim cap slots := by
    unfold liveDims LinearProbe.live
    congr 1
    funext e
    by_cases he : e = ⟨0,0⟩ <;> simp [slotDim,he]
  refine ⟨?_,?_,?_⟩
  · rw [hlive,length_live,← h.counted]
    rfl
  · intro e
    rw [hlive,mem_live]
    constructor
    · rintro ⟨hs,hm⟩
      have hne : e ≠ ⟨0,0⟩ := by
        rintro rfl
        cases hs
      exact (h.holds e hne).mp hm
    · intro hm
      have hne := ne_blank (hpos e hm)
      exact ⟨by simp [slotDim,hne],(h.holds e hne).mpr hm⟩
  · have hnd := nodup_live slotDim h.probed.unique
    rw [← hlive] at hnd
    have hmap : (liveDims cap slots).map slotDim =
        ((liveDims cap slots).map DimRegEntry.dim).map some := by
      rw [List.map_map]
      apply map_congr_left
      intro e he
      have hne : e ≠ ⟨0,0⟩ := by simpa using (mem_filter.mp he).2
      simp [slotDim,hne]
    rw [hmap] at hnd
    exact List.Nodup.of_map _ hnd

theorem hashFind_rep {reg : DimRegistry} (hc : reg.hashCap.isPowerOfTwo)
    (h : HashRep reg.hashCap reg.slots l) (hroom : l.length < reg.hashCap) (b : Nat)
    (hnd : (l.map DimRegEntry.dim).Nodup) (hd : dim ≠ 0) :
    hashFind reg dim = some b ↔ ⟨dim,b⟩ ∈ l := by
  have hhome : dimHome reg.hashCap dim < reg.hashCap := home_lt hc
  have hstop : (fun i => reg.slots i = ⟨0,0⟩ || (reg.slots i).dim = dim) =
      stopFor (dimAt reg.slots) dim := by
    funext i
    by_cases hi : reg.slots i = ⟨0,0⟩ <;> simp [stopFor,dimAt,hi]
  have hblank : (⟨dim,b⟩ : DimRegEntry) ≠ ⟨0,0⟩ := ne_blank hd
  unfold hashFind
  rw [show dimHash dim &&& (reg.hashCap - 1) = dimHome reg.hashCap dim from rfl,hstop]
  by_cases hm : dim ∈ l.map DimRegEntry.dim
  · obtain ⟨e,he,rfl⟩ := List.mem_map.mp hm
    obtain ⟨i,hi,hie⟩ := (h.holds e (ne_blank hd)).mpr he
    have hk : dimAt reg.slots i = some e.dim := by
      rw [dimAt_eq_some,hie]
      exact ⟨ne_blank hd,rfl⟩
    rw [search_present hc hhome h.probed hi hk]
    simp only [hie,if_neg (ne_blank hd),Option.some.injEq]
    constructor
    · rintro rfl
      exact he
    · intro he'
      exact congrArg DimRegEntry.binIdx (inj_on_of_nodup_map hnd he he' rfl)
  · obtain ⟨j,hj,hempty⟩ := exists_empty (by rw [h.counted]; exact hroom)
    obtain ⟨i,hi⟩ := probe_total (stopFor (dimAt reg.slots) dim) hc hhome hj
      (by simp [stopFor,hempty])
    obtain ⟨_,_,hnone⟩ := search_absent hc hhome (h.absent hm) hi
    rw [hi]
    simp only [if_pos (dimAt_eq_none.mp hnone)]
    constructor
    · intro hn
      cases hn
    · intro he
      exact absurd (List.mem_map_of_mem he) hm

end Slots

/-- The entries are those of the dims `dims`, each with its position in the list. -/
structure Listed (l : List DimRegEntry) (dims : List Int) : Prop where
  distinct : dims.Nodup
  nonzero : ∀ d ∈ dims, d ≠ 0
  length : l.length = dims.length
  entries : ∀ e, e ∈ l ↔ dims[e.binIdx]? = some e.dim

structure Registers (reg : DimRegistry) (dims : List Int) : Prop where
  listed : Listed reg.entries dims
  linear : reg.mode = .linear → dims.length ≤ dimRegThresholdLinear
  sorted : reg.mode = .sorted → dims.length ≤ dimRegThresholdSorted ∧
    (reg.entries.map DimRegEntry.dim).Pairwise (· < ·)
  hash : reg.mode = .hash → reg.hashCap.isPowerOfTwo ∧ 128 ≤ reg.hashCap ∧ reg.hashCap ≤ 2 ^ 15 ∧
    dims.length * 4 ≤ reg.hashCap * 3 ∧ HashRep reg.hashCap reg.slots reg.entries

section Entries

variable {l l' : List DimRegEntry} {dims : List Int} {dim : Int}

theorem Listed.dims_perm (h : Listed l dims) : (l.map DimRegEntry.dim).Perm dims := by
  have hsub : dims ⊆ l.map DimRegEntry.dim := by
    intro d hd
    obtain ⟨i,hi⟩ := mem_iff_getElem?.mp hd
    exact List.mem_map.mpr ⟨⟨d,i⟩,(h.entries _).mpr hi,rfl⟩
  refine ((h.distinct.subperm hsub).perm_of_length_le ?_).symm
  rw [length_map,h.length]

theorem Listed.nodup (h : Listed l dims) : (l.map DimRegEntry.dim).Nodup :=
  h.dims_perm.nodup_iff.mpr h.distinct

theorem Listed.pos (h : Listed l dims) : ∀ e ∈ l, e.dim ≠ 0 := by
  intro e he
  exact h.nonzero _ (mem_of_getElem? ((h.entries e).mp he))

theorem Listed.perm (h : Listed l dims) (hp : l'.Perm l) : Listed l' dims :=
  ⟨h.distinct,h.nonzero,hp.length_eq.trans h.length,fun e => hp.mem_iff.trans (h.entries e)⟩

theorem Listed.snoc (h : Listed l dims) (hd : dim ≠ 0) (hnew : dim ∉ dims)
    : Listed (l ++ [⟨dim,dims.length⟩]) (dims ++ [dim]) := by
  refine ⟨?_,?_,by simp [h.length],?_⟩
  · rw [nodup_append]
    refine ⟨h.distinct,by simp,?_⟩
    rintro a ha b hb rfl
    rw [mem_singleton.mp hb] at ha
    exact hnew ha
  · intro d hm
    rcases mem_append.mp hm with hm | hm
    · exact h.nonzero d hm
    · rw [mem_singleton.mp hm]
      exact hd
  · intro e
    rw [mem_append,mem_singleton,h.entries]
    obtain ⟨d,i⟩ := e
    simp only [DimRegEntry.mk.injEq]
    rcases Nat.lt_trichotomy i dims.length with hi | hi | hi
    · rw [getElem?_append_left hi]
      constructor
      · rintro (h | ⟨_,rfl⟩)
        · exact h
        · omega
      · exact .inl
    · subst hi
      simp [eq_comm]
    · rw [getElem?_eq_none (by omega),getElem?_eq_none (by simp; omega)]
      simp
      omega

theorem Listed.sorted_lt (h : Listed l dims) (hs : l.Pairwise (fun a b => a.dim ≤ b.dim)) :
    (l.map DimRegEntry.dim).Pairwise (· < ·) := by
  have hle : (l.map DimRegEntry.dim).Pairwise (· ≤ ·) := pairwise_map.mpr hs
  exact (hle.and h.nodup).imp (fun h => lt_of_le_of_ne h.1 h.2)

end Entries

section Registry

variable {reg reg' : DimRegistry} {dims : List Int} {dim : Int} {b : Nat}

theorem registers_init : Registers dimRegistryInit [] := by
  refine ⟨⟨nodup_nil,by simp,rfl,by simp [dimRegistryInit]⟩,?_,?_,?_⟩
  · intro _
    exact Nat.zero_le _
  · intro h
    cases h
  · intro h
    cases h

theorem linearFind_mem (hnd : (reg.entries.map DimRegEntry.dim).Nodup) :
    linearFind reg dim = some b ↔ ⟨dim,b⟩ ∈ reg.entries := by
  unfold linearFind
  rw [map_eq_some_iff]
  constructor
  · rintro ⟨e,hf,rfl⟩
    have hd : e.dim = dim := by simpa using find?_some hf
    rw [← hd]
    exact mem_of_find?_eq_some hf
  · intro hm
    cases hf : reg.entries.find? (fun e => e.dim = dim) with
    | none => exact absurd (find?_eq_none.mp hf _ hm) (by simp)
    | some e =>
      have hd : e.dim = dim := by simpa using find?_some hf
      exact ⟨e,rfl,congrArg DimRegEntry.binIdx
        (inj_on_of_nodup_map hnd (mem_of_find?_eq_some hf) hm hd)⟩

theorem sortedFind_mem (hs : (reg.entries.map DimRegEntry.dim).Pairwise (· < ·)) :
    sortedFind reg dim = some b ↔ ⟨dim,b⟩ ∈ reg.entries := by
  have hnd : (reg.entries.map DimRegEntry.dim).Nodup := hs.imp (fun h => ne_of_lt h)
  unfold sortedFind
  rcases search_sorted (fun i => (reg.entries.getD i ⟨0,0⟩).dim) hs
    (fun i hi => by rw [getD_eq_getElem _ _ hi]) dim with
    ⟨i,a,hsplit,hi,ha,hb⟩ | ⟨i,_,hlo,hhi,hb⟩
  · have hmem : a ∈ reg.entries := by
      rw [hsplit]
      exact mem_append_right _ mem_cons_self
    have hat : reg.entries.getD i ⟨0,0⟩ = a := by
      have hlen : (reg.entries.take i).length = i := by
        rw [length_take]
        omega
      rw [hsplit,getD_append_right _ _ _ _ (by omega),hlen,Nat.sub_self]
      rfl
    rw [hb]
    simp only [hat,Option.some.injEq]
    constructor
    · rintro rfl
      rw [← ha]
      exact hmem
    · intro hm
      exact congrArg DimRegEntry.binIdx (inj_on_of_nodup_map hnd hmem hm ha)
  · rw [hb]
    simp only [reduceCtorEq,false_iff]
    intro hm
    rw [← take_append_drop i reg.entries] at hm
    rcases mem_append.mp hm with hm | hm
    · exact lt_irrefl _ (hlo _ hm)
    · exact lt_irrefl _ (hhi _ hm)

theorem Registers.room (h : Registers reg dims) (hm : reg.mode = .hash) :
    reg.entries.length < reg.hashCap := by
  obtain ⟨_,hcap,_,hload,_⟩ := h.hash hm
  rw [h.listed.length]
  omega

theorem Registers.find (h : Registers reg dims) (hd : dim ≠ 0) :
    dimRegistryFind reg dim = some b ↔ dims[b]? = some dim := by
  have hentries := h.listed.entries ⟨dim,b⟩
  simp only at hentries
  rw [← hentries]
  unfold dimRegistryFind
  cases hm : reg.mode with
  | linear => exact linearFind_mem h.listed.nodup
  | sorted => exact sortedFind_mem (h.sorted hm).2
  | hash =>
    obtain ⟨hc,_,_,_,hrep⟩ := h.hash hm
    exact hashFind_rep hc hrep (h.room hm) b h.listed.nodup hd

theorem Registers.find_none (h : Registers reg dims) (hd : dim ≠ 0) :
    dimRegistryFind reg dim = none ↔ dim ∉ dims := by
  constructor
  · intro hn hm
    obtain ⟨i,hi⟩ := mem_iff_getElem?.mp hm
    rw [(h.find hd).mpr hi] at hn
    cases hn
  · intro hm
    cases hf : dimRegistryFind reg dim with
    | none => rfl
    | some b => exact absurd (mem_of_getElem? ((h.find hd).mp hf)) hm

instance : IsTrans DimRegEntry (fun a b => a.dim ≤ b.dim) := ⟨fun _ _ _ => le_trans⟩

instance : Std.Total (fun a b : DimRegEntry => a.dim ≤ b.dim) := ⟨fun _ _ => le_total _ _⟩

theorem upgradeToSorted_rep (h : Listed reg.entries dims)
    (hlen : dims.length ≤ dimRegThresholdSorted) : Registers (upgradeToSorted reg) dims := by
  have hperm := h.perm (perm_insertionSort (fun a b => a.dim ≤ b.dim) reg.entries)
  refine ⟨hperm,?_,?_,?_⟩
  · intro hm
    cases hm
  · intro _
    exact ⟨hlen,hperm.sorted_lt (pairwise_insertionSort _ _)⟩
  · intro hm
    cases hm

theorem upgradeToHash_rep (h : Listed reg.entries dims)
    (hlen : dims.length = dimRegThresholdSorted + 1) : Registers (upgradeToHash reg) dims := by
  have hcap : (upgradeToHash reg).hashCap = 512 := by
    simp only [upgradeToHash,DimRegistry.count,h.length,hlen]
    decide
  have hlen' : dims.length = 65 := hlen
  refine ⟨h,?_,?_,?_⟩
  · intro hm
    cases hm
  · intro hm
    cases hm
  · intro _
    rw [hcap]
    refine ⟨⟨9,rfl⟩,by omega,by omega,by omega,?_⟩
    have hfold : HashRep 512 (reg.entries.foldl (hashInsert 512) (fun _ => ⟨0,0⟩))
        (reg.entries ++ []) :=
      foldl_hashInsert ⟨9,rfl⟩ h.pos (by simpa using h.nodup)
        (by rw [append_nil,h.length]; omega) hashRep_empty
    rw [append_nil] at hfold
    have hslots : (upgradeToHash reg).slots =
        reg.entries.foldl (hashInsert (upgradeToHash reg).hashCap) (fun _ => ⟨0,0⟩) := rfl
    rw [hslots,hcap]
    exact hfold

theorem hashGrow_rep (h : Registers reg dims) (hm : reg.mode = .hash)
    (hgrow : reg.hashCap * 3 < (reg.count + 1) * 4) (hcount : dims.length < 24576) :
    ∃ reg', hashGrow reg = some reg' ∧ Registers reg' dims ∧ reg'.mode = .hash ∧
      (dims.length + 1) * 4 ≤ reg'.hashCap * 3 := by
  obtain ⟨⟨k,hk⟩,hmin,hmax,hload,hrep⟩ := h.hash hm
  have hlen : reg.count = dims.length := h.listed.length
  rw [hlen] at hgrow
  have hlt : reg.hashCap < 2 ^ 15 := by omega
  have hk15 : k < 15 := by
    rw [hk] at hlt
    exact (Nat.pow_lt_pow_iff_right (by decide)).mp hlt
  have hle : reg.hashCap ≤ 2 ^ 14 := by
    rw [hk]
    exact Nat.pow_le_pow_right (by decide) (by omega)
  have hcap : reg.hashCap * 2 % 2 ^ 16 = reg.hashCap * 2 := Nat.mod_eq_of_lt (by omega)
  have hpow : (reg.hashCap * 2).isPowerOfTwo := ⟨k + 1,by rw [hk,Nat.pow_succ]⟩
  obtain ⟨hllen,hlmem,hlnd⟩ := hrep.live h.listed.pos
  have hfold : HashRep (reg.hashCap * 2) ((liveDims reg.hashCap reg.slots).foldl
      (hashInsert (reg.hashCap * 2)) (fun _ => ⟨0,0⟩)) (liveDims reg.hashCap reg.slots ++ []) :=
    foldl_hashInsert hpow (fun e he => h.listed.pos e ((hlmem e).mp he)) (by simpa using hlnd)
      (by rw [append_nil,hllen,h.listed.length]; omega) hashRep_empty
  rw [append_nil] at hfold
  have heq : hashGrow reg = some { reg with
      slots := (liveDims reg.hashCap reg.slots).foldl (hashInsert (reg.hashCap * 2))
        (fun _ => ⟨0,0⟩)
      hashCap := reg.hashCap * 2 } := by
    simp only [hashGrow,hcap,if_neg (show ¬ reg.hashCap * 2 = 0 by omega)]
    rfl
  refine ⟨_,heq,⟨h.listed,?_,?_,?_⟩,hm,?_⟩
  · simp only [hm,reduceCtorEq,false_implies]
  · simp only [hm,reduceCtorEq,false_implies]
  · intro _
    exact ⟨hpow,by simp only; omega,by simp only; omega,by simp only; omega,
      hfold.congr hllen.symm (fun e => (hlmem e).symm)⟩
  · simp only
    omega

theorem hashPut_rep (h : Registers reg dims) (hm : reg.mode = .hash) (hd : dim ≠ 0) (hnew : dim ∉ dims)
    (hload : (dims.length + 1) * 4 ≤ reg.hashCap * 3) :
    Registers { reg with
      slots := hashInsert reg.hashCap reg.slots ⟨dim,dims.length⟩
      entries := reg.entries ++ [⟨dim,dims.length⟩] } (dims ++ [dim]) := by
  obtain ⟨hc,hmin,hmax,_,hrep⟩ := h.hash hm
  refine ⟨h.listed.snoc hd hnew,?_,?_,?_⟩
  · simp only [hm,reduceCtorEq,false_implies]
  · simp only [hm,reduceCtorEq,false_implies]
  · intro _
    have habs : dim ∉ reg.entries.map DimRegEntry.dim := fun hx =>
      hnew (h.listed.dims_perm.mem_iff.mp hx)
    have hins := hashInsert_rep (e := ⟨dim,dims.length⟩) hc hrep hd habs (h.room hm)
    refine ⟨hc,hmin,hmax,by simpa using hload,hins.congr (by simp) ?_⟩
    intro e
    simp [or_comm]

theorem Registers.put (h : Registers reg dims) (hd : dim ≠ 0) (hnew : dim ∉ dims)
    (hcount : dims.length < 24576) :
    ∃ reg', dimRegistryPut reg dim = some (reg',dims.length) ∧ Registers reg' (dims ++ [dim]) := by
  have hlen : reg.count = dims.length := h.listed.length
  have hsnoc := h.listed.snoc hd hnew
  unfold dimRegistryPut
  rw [(h.find_none hd).mpr hnew]
  cases hm : reg.mode with
  | linear =>
    refine ⟨_,by simp only [hlen,Option.pure_def]; rfl,?_⟩
    split_ifs with hover
    · refine upgradeToSorted_rep hsnoc ?_
      have := h.linear hm
      simp only [length_append,length_singleton]
      unfold dimRegThresholdLinear at this
      unfold dimRegThresholdSorted
      omega
    · refine ⟨hsnoc,?_,?_,?_⟩
      · intro _
        rw [← hsnoc.length]
        exact Nat.not_lt.mp hover
      · simp only [reduceCtorEq,false_implies]
      · simp only [reduceCtorEq,false_implies]
  | sorted =>
    obtain ⟨hle,hsort⟩ := h.sorted hm
    refine ⟨_,by simp only [hlen,Option.pure_def]; rfl,?_⟩
    have hperm : (reg.entries.orderedInsert (fun a b => a.dim ≤ b.dim) ⟨dim,dims.length⟩).Perm
        (reg.entries ++ [⟨dim,dims.length⟩]) :=
      (perm_orderedInsert _ _ _).trans (perm_append_singleton _ _).symm
    have hlisted := hsnoc.perm hperm
    split_ifs with hover
    · refine upgradeToHash_rep hlisted ?_
      have hlen' := hlisted.length
      simp only [DimRegistry.count] at hover
      simp only [length_append,length_singleton] at hlen' ⊢
      omega
    · refine ⟨hlisted,?_,?_,?_⟩
      · simp only [reduceCtorEq,false_implies]
      · intro _
        refine ⟨by rw [← hlisted.length]; exact Nat.not_lt.mp hover,hlisted.sorted_lt ?_⟩
        refine List.Pairwise.orderedInsert _ _ ?_
        exact (pairwise_map.mp hsort).imp le_of_lt
      · simp only [reduceCtorEq,false_implies]
  | hash =>
    by_cases hgrow : reg.hashCap * 3 < (reg.count + 1) * 4
    · obtain ⟨reg1,hg,hrep,hm1,hload⟩ := hashGrow_rep h hm hgrow hcount
      rw [hlen] at hgrow
      refine ⟨_,by simp only [hm,hlen,if_pos hgrow,hg,bind_eq_bind,bind_some,
        Option.pure_def]; rfl,?_⟩
      exact hashPut_rep hrep hm1 hd hnew hload
    · rw [hlen] at hgrow
      refine ⟨_,by simp only [hlen,if_neg hgrow,Option.pure_def]; rfl,?_⟩
      exact hashPut_rep h hm hd hnew (by omega)

end Registry

def RegRep (reg : DimRegistry) (dims : List Nat) : Prop := Registers reg (dims.map Nat.cast)

section Positive

variable {reg : DimRegistry} {dims : List Nat} {dim b : Nat}

theorem regRep_init : RegRep dimRegistryInit [] := registers_init

theorem RegRep.find (h : RegRep reg dims) (hd : 0 < dim) :
    dimRegistryFind reg dim = some b ↔ dims[b]? = some dim := by
  rw [Registers.find h (by omega),getElem?_map]
  cases dims[b]? <;> simp

theorem RegRep.distinct (h : RegRep reg dims) : dims.Nodup := h.listed.distinct.of_map _

theorem mem_casts : (dim : Int) ∈ dims.map Nat.cast ↔ dim ∈ dims := by
  simp

theorem RegRep.find_none (h : RegRep reg dims) (hd : 0 < dim) :
    dimRegistryFind reg dim = none ↔ dim ∉ dims := by
  rw [Registers.find_none h (by omega),mem_casts]

theorem RegRep.put (h : RegRep reg dims) (hd : 0 < dim) (hnew : dim ∉ dims)
    (hcount : dims.length < 24576) :
    ∃ reg', dimRegistryPut reg dim = some (reg',dims.length) ∧ RegRep reg' (dims ++ [dim]) := by
  have hne : (dim : Int) ≠ 0 := by omega
  obtain ⟨reg',hput,hreg⟩ := Registers.put h hne
    (fun hmem => hnew (mem_casts.mp hmem)) (by rw [length_map]; exact hcount)
  rw [length_map] at hput
  refine ⟨reg',hput,?_⟩
  unfold RegRep
  rw [map_append]
  exact hreg

end Positive

end Gravel.Proofs.Registry
