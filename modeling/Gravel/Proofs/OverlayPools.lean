import Gravel.Lib.Run
import Gravel.Model.Slab
import Mathlib.Data.List.Perm.Basic

namespace Gravel.Proofs.OverlayPools
open List Option Function

def Carves (objSize : Nat) : Prop := 0 < slabPageSize / objSize

def shapes (alloc : SlabAllocator) : List (Nat × Nat) :=
  alloc.pools.map (fun p => (p.addr,p.objSize))

structure AllocInv (alloc : SlabAllocator) : Prop where
  nodup : ((shapes alloc).map Prod.fst).Nodup
  below : ∀ x ∈ shapes alloc, x.1 < alloc.nextAddr
  carved : ∀ p ∈ alloc.pools, 0 < p.freeCount → Carves p.objSize

def Serves (alloc : SlabAllocator) (addr dim : Nat) : Prop :=
  ∃ p ∈ alloc.pools, p.addr = addr ∧ dim * 4 ≤ p.objSize ∧ (slabPoolAlloc p).2 = true

section Pools

variable {alloc : SlabAllocator} {pool : SlabPool} {addr dim : Nat}

theorem slabPoolAlloc_objSize (pool : SlabPool) :
    (slabPoolAlloc pool).1.addr = pool.addr ∧ (slabPoolAlloc pool).1.objSize = pool.objSize := by
  unfold slabPoolAlloc slabPoolGrow
  dsimp only
  split_ifs <;> exact ⟨rfl,rfl⟩

theorem slabPoolAlloc_succeeds (hc : 0 < pool.freeCount → Carves pool.objSize) :
    (slabPoolAlloc pool).2 = true ↔ Carves pool.objSize := by
  by_cases hfree : 0 < pool.freeCount
  · simp [slabPoolAlloc,hfree,hc hfree]
  · have hzero : pool.freeCount = 0 := by omega
    simp only [slabPoolAlloc,slabPoolGrow,hzero,Nat.lt_irrefl,if_false,Nat.zero_add]
    by_cases hcarves : 0 < slabPageSize / pool.objSize
    · simp [hcarves,Carves]
    · simp [hcarves,Carves]

theorem slabPoolAlloc_carved (hc : 0 < pool.freeCount → Carves pool.objSize)
    (hfree : 0 < (slabPoolAlloc pool).1.freeCount) : Carves pool.objSize := by
  by_contra hcarves
  have hzero : pool.freeCount = 0 := Nat.eq_zero_of_not_pos (fun h => hcarves (hc h))
  have hpage : slabPageSize / pool.objSize = 0 := Nat.eq_zero_of_not_pos hcarves
  simp [slabPoolAlloc,slabPoolGrow,hzero,hpage] at hfree

theorem serves_iff (h : AllocInv alloc) :
    Serves alloc addr dim ↔ ∃ x ∈ shapes alloc, x.1 = addr ∧ dim * 4 ≤ x.2 ∧ Carves x.2 := by
  constructor
  · rintro ⟨p,hp,haddr,hle,hok⟩
    exact ⟨_,List.mem_map_of_mem hp,haddr,hle,(slabPoolAlloc_succeeds (h.carved p hp)).mp hok⟩
  · rintro ⟨x,hx,haddr,hle,hok⟩
    obtain ⟨p,hp,rfl⟩ := List.mem_map.mp hx
    exact ⟨p,hp,haddr,hle,(slabPoolAlloc_succeeds (h.carved p hp)).mpr hok⟩

theorem shapes_allocFrom (alloc : SlabAllocator) (addr : Nat) :
    shapes (allocFrom alloc addr) = shapes alloc := by
  rw [shapes,shapes,allocFrom,List.map_map]
  refine map_congr_left (fun p _ => ?_)
  simp only [comp_apply]
  split_ifs
  · rw [(slabPoolAlloc_objSize p).1,(slabPoolAlloc_objSize p).2]
  · rfl

theorem AllocInv.allocFrom (h : AllocInv alloc) : AllocInv (allocFrom alloc addr) := by
  refine ⟨by rw [shapes_allocFrom]; exact h.nodup,by rw [shapes_allocFrom]; exact h.below,?_⟩
  intro p hp hfree
  obtain ⟨q,hq,rfl⟩ := List.mem_map.mp hp
  split_ifs at hfree ⊢
  · rw [(slabPoolAlloc_objSize q).2]
    exact slabPoolAlloc_carved (h.carved q hq) hfree
  · exact h.carved q hq hfree

theorem AllocInv.create (h : AllocInv alloc) (size alignment : Nat) :
    AllocInv (slabPoolCreate alloc size alignment).1 := by
  rw [slabPoolCreate]
  split_ifs
  · exact h
  · refine ⟨?_,?_,?_⟩
    · simp only [shapes,map_append,map_cons,map_nil]
      refine nodup_append.mpr ⟨h.nodup,nodup_singleton _,?_⟩
      rintro a ha b hb rfl
      obtain ⟨x,hx,rfl⟩ := List.mem_map.mp ha
      have hlt := h.below x hx
      rw [mem_singleton.mp hb] at hlt
      exact absurd hlt (Nat.lt_irrefl _)
    · intro x hx
      simp only [shapes,map_append,map_cons,map_nil,mem_append] at hx
      rcases hx with hx | hx
      · exact Nat.lt_succ_of_lt (h.below x hx)
      · rw [mem_singleton.mp hx]
        exact Nat.lt_succ_self _
    · intro p hp hfree
      rcases mem_append.mp hp with hp | hp
      · exact h.carved p hp hfree
      · rw [mem_singleton.mp hp] at hfree ⊢
        have hcarved : 0 < 0 + slabPageSize / (newPool alloc.nextAddr size alignment).objSize := hfree
        rwa [Nat.zero_add] at hcarved

theorem shapes_create (alloc : SlabAllocator) (size alignment : Nat) :
    ∃ new, shapes (slabPoolCreate alloc size alignment).1 = shapes alloc ++ new := by
  rw [slabPoolCreate]
  split_ifs
  · exact ⟨[],(append_nil _).symm⟩
  · exact ⟨_,map_append⟩

theorem nextAddr_create (alloc : SlabAllocator) (size alignment : Nat) :
    alloc.nextAddr ≤ (slabPoolCreate alloc size alignment).1.nextAddr := by
  rw [slabPoolCreate]
  split_ifs
  · exact Nat.le_refl _
  · exact Nat.le_succ _

theorem swapRemove_perm {α : Type} {pools : List α} {i : Nat} (hi : i < pools.length) :
    (swapRemove pools i).Perm (pools.eraseIdx i) := by
  obtain ⟨front,last,rfl⟩ : ∃ front last, pools = front ++ [last] :=
    ⟨_,_,(dropLast_append_getLast (ne_nil_of_length_pos (by omega))).symm⟩
  rw [swapRemove,getLast?_concat]
  simp only
  rw [length_append,length_singleton] at hi
  by_cases hlast : i = front.length
  · rw [hlast,set_append_right _ _ (Nat.le_refl _),eraseIdx_append_of_length_le
      (Nat.le_refl _),Nat.sub_self]
    simp
  · rw [set_append_left _ _ (by omega),dropLast_concat,
      eraseIdx_append_of_lt_length (by omega)]
    exact (set_perm_cons_eraseIdx (by omega) last).trans
      (perm_append_singleton last _).symm

theorem destroy_cases (alloc : SlabAllocator) (addr : Nat) :
    (slabPoolDestroy alloc addr = alloc ∧ ∀ p ∈ alloc.pools, p.addr ≠ addr) ∨
    ∃ before p after, alloc.pools = before ++ p :: after ∧ p.addr = addr ∧
      (slabPoolDestroy alloc addr).pools.Perm (before ++ after) ∧
      (slabPoolDestroy alloc addr).nextAddr = alloc.nextAddr := by
  rw [slabPoolDestroy]
  cases hidx : alloc.pools.findIdx? (fun p => p.addr = addr) with
  | none =>
    left
    exact ⟨rfl,fun p hp he => by simpa [he] using findIdx?_eq_none_iff.mp hidx p hp⟩
  | some i =>
    right
    obtain ⟨hi,hp,_⟩ := findIdx?_eq_some_iff_getElem.mp hidx
    refine ⟨alloc.pools.take i,alloc.pools[i],alloc.pools.drop (i + 1),?_,of_decide_eq_true hp,?_,
      rfl⟩
    · rw [getElem_cons_drop,take_append_drop]
    · rw [← eraseIdx_eq_take_drop_succ]
      exact swapRemove_perm hi

theorem mem_shapes_destroy (h : AllocInv alloc) {x : Nat × Nat} :
    x ∈ shapes (slabPoolDestroy alloc addr) ↔ x ∈ shapes alloc ∧ x.1 ≠ addr := by
  rcases destroy_cases alloc addr with ⟨heq,hne⟩ | ⟨before,p,after,hsplit,haddr,hperm,_⟩
  · rw [heq]
    refine ⟨fun hx => ⟨hx,?_⟩,And.left⟩
    obtain ⟨p,hp,rfl⟩ := List.mem_map.mp hx
    exact hne p hp
  · subst haddr
    have hnd := h.nodup
    have hmem := (hperm.map (fun p => (p.addr,p.objSize))).mem_iff (a := x)
    rw [shapes,List.map_map,hsplit,map_append,map_cons,nodup_middle,
      nodup_cons] at hnd
    rw [shapes,hmem,shapes,hsplit]
    simp only [map_append,map_cons,mem_append,mem_cons]
    constructor
    · intro hx
      refine ⟨hx.imp_right .inr,fun he => hnd.1 ?_⟩
      rw [← mem_append,← map_append] at hx
      obtain ⟨q,hq,rfl⟩ := List.mem_map.mp hx
      rw [← map_append]
      exact List.mem_map.mpr ⟨q,hq,he⟩
    · rintro ⟨hx | hx | hx,hne⟩
      · exact .inl hx
      · exact absurd (by rw [hx]) hne
      · exact .inr hx

theorem AllocInv.destroy (h : AllocInv alloc) : AllocInv (slabPoolDestroy alloc addr) := by
  rcases destroy_cases alloc addr with ⟨heq,_⟩ | ⟨before,p,after,hsplit,_,hperm,hnext⟩
  · rw [heq]
    exact h
  · refine ⟨?_,?_,?_⟩
    · have hnd := h.nodup
      rw [shapes,hsplit] at hnd
      rw [shapes,List.map_map,(hperm.map _).nodup_iff]
      rw [List.map_map,map_append,map_cons,nodup_middle,nodup_cons] at hnd
      rw [map_append]
      exact hnd.2
    · intro x hx
      rw [hnext]
      exact h.below x ((mem_shapes_destroy h).mp hx).1
    · intro q hq
      refine h.carved q ?_
      rw [hsplit]
      rcases mem_append.mp (hperm.mem_iff.mp hq) with hq | hq
      · exact mem_append_left _ hq
      · exact mem_append_right _ (mem_cons_of_mem _ hq)

theorem nextAddr_destroy (alloc : SlabAllocator) (addr : Nat) :
    (slabPoolDestroy alloc addr).nextAddr = alloc.nextAddr := by
  rcases destroy_cases alloc addr with ⟨heq,_⟩ | ⟨_,_,_,_,_,_,hnext⟩
  · rw [heq]
  · exact hnext

theorem slabAllocAligned_spec (h : AllocInv alloc) (size alignment : Nat) :
    AllocInv (slabAllocAligned alloc size alignment) ∧
      alloc.nextAddr ≤ (slabAllocAligned alloc size alignment).nextAddr ∧
      ∃ new, shapes (slabAllocAligned alloc size alignment) = shapes alloc ++ new := by
  rw [slabAllocAligned]
  split
  · exact ⟨h.allocFrom,Nat.le_refl _,[],by rw [shapes_allocFrom,append_nil]⟩
  · split_ifs
    · have hinv := h.create size alignment
      have hnext := nextAddr_create alloc size alignment
      obtain ⟨new,hnew⟩ := shapes_create alloc size alignment
      generalize slabPoolCreate alloc size alignment = r at hinv hnext hnew
      obtain ⟨alloc',_ | addr⟩ := r
      · exact ⟨hinv,hnext,new,hnew⟩
      · exact ⟨hinv.allocFrom,hnext,new,by rw [shapes_allocFrom]; exact hnew⟩
    · exact ⟨h,Nat.le_refl _,[],(append_nil _).symm⟩

theorem newPool_objSize (addr dim : Nat) :
    dim * 4 ≤ (newPool addr (dim * 4) slabDefaultAlignment).objSize ∧
      (Carves (newPool addr (dim * 4) slabDefaultAlignment).objSize ↔ dim * 4 ≤ slabPageSize) := by
  have hsize : (newPool addr (dim * 4) slabDefaultAlignment).objSize =
      ((if dim * 4 < 32 then 32 else dim * 4) + 15) / 16 * 16 := rfl
  rw [hsize,Carves,Nat.div_pos_iff,slabPageSize]
  split_ifs <;> omega

end Pools

structure Usable (alloc : SlabAllocator) (bin : OverlayBin) : Prop where
  slots : bin.overlay.slots = true
  mask : bin.overlay.capacity = bin.overlay.mask + 1
  power : ∃ k, bin.overlay.capacity = 2 ^ k
  pool : ∃ addr, bin.overlay.dataPool = some addr ∧ Serves alloc addr bin.dim

def AllUsable (h : OverlayHost) : Prop :=
  ∀ bin ∈ h.bins, bin.inCheckpoint = true → Usable h.allocator bin

structure HostInv (h : OverlayHost) : Prop where
  alloc : AllocInv h.allocator
  owned : ∀ bin ∈ h.bins, ∀ addr, bin.overlay.dataPool = some addr → addr < h.allocator.nextAddr
  apart : ∀ (i j : Nat) (bin bin' : OverlayBin) (addr : Nat), h.bins[i]? = some bin → h.bins[j]? = some bin' →
    bin.overlay.dataPool = some addr → bin'.overlay.dataPool = some addr → i = j

/-- What a step needs: a free place among the pools and a vector that fits a slab page for each
bin that enters checkpoint mode, and a capacity of 32 bits for each overlay that grows. -/
def StepFits (h : OverlayHost) : HostOp → Prop
  | .checkpointBegin i => ∀ bin, h.bins[i]? = some bin →
      h.allocator.pools.length < slabMaxPools ∧ bin.dim * 4 ≤ slabPageSize
  | .overlayGrow i => ∀ bin, h.bins[i]? = some bin → bin.inCheckpoint = true →
      bin.overlay.capacity * 2 < 2 ^ 32
  | _ => True

section Hosts

variable {h : OverlayHost} {alloc alloc' : SlabAllocator} {bin : OverlayBin} {i : Nat}

theorem Usable.kept (ha : AllocInv alloc) (ha' : AllocInv alloc')
    (hkept : ∀ x ∈ shapes alloc, bin.overlay.dataPool = some x.1 → x ∈ shapes alloc')
    (hu : Usable alloc bin) : Usable alloc' bin := by
  obtain ⟨addr,hpool,hserves⟩ := hu.pool
  obtain ⟨x,hx,rfl,hle,hcarves⟩ := (serves_iff ha).mp hserves
  exact ⟨hu.slots,hu.mask,hu.power,_,hpool,
    (serves_iff ha').mpr ⟨x,hkept x hx hpool,rfl,hle,hcarves⟩⟩

theorem HostInv.pools (hi : HostInv h) (ha : AllocInv alloc)
    (hnext : h.allocator.nextAddr ≤ alloc.nextAddr) : HostInv { h with allocator := alloc } :=
  ⟨ha,fun b hb addr hp => Nat.lt_of_lt_of_le (hi.owned b hb addr hp) hnext,hi.apart⟩

theorem AllUsable.pools (hi : HostInv h) (hu : AllUsable h) (ha : AllocInv alloc)
    (hnew : ∃ new, shapes alloc = shapes h.allocator ++ new) :
    AllUsable { h with allocator := alloc } := by
  obtain ⟨new,hnew⟩ := hnew
  intro b hb hck
  refine (hu b hb hck).kept hi.alloc ha (fun x hx _ => ?_)
  rw [hnew]
  exact mem_append_left _ hx

theorem HostInv.set {bin' : OverlayBin} (hi : HostInv h) (hbin : h.bins[i]? = some bin)
    (ha : AllocInv alloc) (hnext : h.allocator.nextAddr ≤ alloc.nextAddr)
    (hpool : ∀ addr, bin'.overlay.dataPool = some addr → bin.overlay.dataPool = some addr ∨
      addr = h.allocator.nextAddr ∧ addr < alloc.nextAddr) : HostInv ⟨alloc,h.bins.set i bin'⟩ := by
  -- A pool of the changed bin is not the pool of another one.
  have hother : ∀ j b addr, h.bins[j]? = some b → b.overlay.dataPool = some addr →
      bin'.overlay.dataPool = some addr → i = j := by
    intro j b addr hb hp hp'
    rcases hpool addr hp' with hp' | ⟨rfl,_⟩
    · exact hi.apart i j bin b addr hbin hb hp' hp
    · exact absurd (hi.owned b (mem_of_getElem? hb) _ hp) (Nat.lt_irrefl _)
  refine ⟨ha,?_,?_⟩
  · intro b hb addr hp
    rcases mem_or_eq_of_mem_set hb with hb | rfl
    · exact Nat.lt_of_lt_of_le (hi.owned b hb addr hp) hnext
    · rcases hpool addr hp with hp | ⟨_,hlt⟩
      · exact Nat.lt_of_lt_of_le (hi.owned bin (mem_of_getElem? hbin) addr hp) hnext
      · exact hlt
  · intro j k b b' addr hb hb' hp hp'
    simp only [getElem?_set] at hb hb'
    split_ifs at hb hb' with hij hlen hik hik
    · exact hij.symm.trans hik
    · cases hb
      exact hij.symm.trans (hother k b' addr hb' hp' hp)
    · cases hb'
      exact (hother j b addr hb hp hp').symm.trans hik
    · exact hi.apart j k b b' addr hb hb' hp hp'

theorem allUsable_set {bin' : OverlayBin} (hi : HostInv h) (hu : AllUsable h)
    (hbin : h.bins[i]? = some bin) (ha : AllocInv alloc)
    (hkept : ∀ x ∈ shapes h.allocator, bin.overlay.dataPool ≠ some x.1 → x ∈ shapes alloc) :
    AllUsable ⟨alloc,h.bins.set i bin'⟩ ↔
      (bin'.inCheckpoint = true → Usable alloc bin') := by
  have hlen : i < h.bins.length := (List.getElem?_eq_some_iff.mp hbin).1
  constructor
  · intro hall
    exact hall bin' (mem_set hlen bin')
  · intro hnew b hb hck
    obtain ⟨j,hj⟩ := mem_iff_getElem?.mp hb
    simp only [getElem?_set] at hj
    split_ifs at hj with hij
    · cases hj
      exact hnew hck
    · refine (hu b (mem_of_getElem? hj) hck).kept hi.alloc ha (fun x hx hp => hkept x hx ?_)
      exact fun hp' => hij (hi.apart i j bin b x.1 hbin hj hp' hp)

theorem begin_usable (hi : HostInv h) (hu : AllUsable h) (hbin : h.bins[i]? = some bin) :
    HostInv (hostBegin h i bin) ∧ (AllUsable (hostBegin h i bin) ↔
      h.allocator.pools.length < slabMaxPools ∧ bin.dim * 4 ≤ slabPageSize) := by
  have hinv := hi.alloc.create (bin.dim * 4) slabDefaultAlignment
  have hnext := nextAddr_create h.allocator (bin.dim * 4) slabDefaultAlignment
  obtain ⟨new,hnew⟩ := shapes_create h.allocator (bin.dim * 4) slabDefaultAlignment
  have hkept : ∀ x ∈ shapes h.allocator, bin.overlay.dataPool ≠ some x.1 →
      x ∈ shapes (slabPoolCreate h.allocator (bin.dim * 4) slabDefaultAlignment).1 := by
    intro x hx _
    rw [hnew]
    exact mem_append_left _ hx
  by_cases hroom : h.allocator.pools.length < slabMaxPools
  · have hcreate : slabPoolCreate h.allocator (bin.dim * 4) slabDefaultAlignment =
        (⟨h.allocator.pools ++ [newPool h.allocator.nextAddr (bin.dim * 4) slabDefaultAlignment],
          h.allocator.nextAddr + 1⟩,some h.allocator.nextAddr) := if_neg (Nat.not_le.mpr hroom)
    have hshapes : shapes (slabPoolCreate h.allocator (bin.dim * 4) slabDefaultAlignment).1 =
        shapes h.allocator ++ [(h.allocator.nextAddr,
          (newPool h.allocator.nextAddr (bin.dim * 4) slabDefaultAlignment).objSize)] := by
      rw [hcreate]
      exact map_append
    rw [hcreate] at hinv hnext hkept hshapes
    rw [hostBegin,overlayAllocate,hcreate]
    refine ⟨hi.set hbin hinv hnext ?_,(allUsable_set hi hu hbin hinv hkept).trans ?_⟩
    · rintro addr hp
      cases hp
      exact .inr ⟨rfl,Nat.lt_succ_self _⟩
    · obtain ⟨hle,hcarves⟩ := newPool_objSize h.allocator.nextAddr bin.dim
      constructor
      · intro hus
        obtain ⟨addr,hp,hserves⟩ := (hus rfl).pool
        cases hp
        obtain ⟨x,hx,haddr,_,hok⟩ := (serves_iff hinv).mp hserves
        refine ⟨hroom,hcarves.mp ?_⟩
        rw [hshapes] at hx
        rcases mem_append.mp hx with hx | hx
        · exact absurd (hi.alloc.below x hx) (by rw [haddr]; exact Nat.lt_irrefl _)
        · rw [mem_singleton.mp hx] at hok
          exact hok
      · rintro ⟨_,hdim⟩ _
        refine ⟨rfl,rfl,⟨8,rfl⟩,_,rfl,(serves_iff hinv).mpr ⟨(_,_),?_,rfl,hle,hcarves.mpr hdim⟩⟩
        rw [hshapes]
        exact mem_append_right _ (mem_singleton_self _)
  · have hcreate : slabPoolCreate h.allocator (bin.dim * 4) slabDefaultAlignment =
        (h.allocator,none) := if_pos (Nat.not_lt.mp hroom)
    rw [hcreate] at hinv hnext hkept
    rw [hostBegin,overlayAllocate,hcreate]
    refine ⟨hi.set hbin hinv hnext (fun addr hp => by cases hp),
      (allUsable_set hi hu hbin hinv hkept).trans ⟨fun hus => ?_,fun hc => absurd hc.1 hroom⟩⟩
    cases (hus rfl).slots

theorem end_usable (hi : HostInv h) (hu : AllUsable h) (hbin : h.bins[i]? = some bin) :
    HostInv (hostEnd h i bin) ∧ AllUsable (hostEnd h i bin) := by
  obtain ⟨alloc,halloc⟩ : ∃ alloc, alloc = overlayRelease h.allocator bin.overlay := ⟨_,rfl⟩
  have hspec : AllocInv alloc ∧ alloc.nextAddr = h.allocator.nextAddr ∧
      ∀ x ∈ shapes h.allocator, bin.overlay.dataPool ≠ some x.1 → x ∈ shapes alloc := by
    rw [halloc,overlayRelease]
    cases bin.overlay.dataPool with
    | none => exact ⟨hi.alloc,rfl,fun x hx _ => hx⟩
    | some addr =>
      refine ⟨hi.alloc.destroy,nextAddr_destroy _ _,fun x hx hne => ?_⟩
      exact (mem_shapes_destroy hi.alloc).mpr ⟨hx,fun he => hne (by rw [he])⟩
  obtain ⟨ha,hnext,hkept⟩ := hspec
  rw [hostEnd,← halloc]
  exact ⟨hi.set hbin ha (Nat.le_of_eq hnext.symm) (fun addr hp => by cases hp),
    (allUsable_set hi hu hbin ha hkept).mpr (fun hck => by cases hck)⟩

theorem grow_usable (hi : HostInv h) (hu : AllUsable h) (hbin : h.bins[i]? = some bin)
    (hck : bin.inCheckpoint = true) :
    HostInv { h with bins := h.bins.set i { bin with overlay := overlayBeginGrow bin.overlay } } ∧
    (AllUsable { h with
        bins := h.bins.set i { bin with overlay := overlayBeginGrow bin.overlay } } ↔
      bin.overlay.capacity * 2 < 2 ^ 32) := by
  have hus := hu bin (mem_of_getElem? hbin) hck
  refine ⟨hi.set hbin hi.alloc (Nat.le_refl _) (fun addr hp => .inl hp),
    (allUsable_set hi hu hbin hi.alloc (fun x hx _ => hx)).trans ?_⟩
  obtain ⟨k,hk⟩ := hus.power
  constructor
  · intro hnew
    obtain ⟨k',hk'⟩ := (hnew hck).power
    by_contra hge
    have hpow : 2 ^ 32 ∣ bin.overlay.capacity * 2 := by
      rw [hk,← Nat.pow_succ]
      refine Nat.pow_dvd_pow 2 ((Nat.pow_le_pow_iff_right (a := 2) (by decide)).mp ?_)
      have hdouble : 2 ^ k.succ = bin.overlay.capacity * 2 := by rw [Nat.pow_succ,← hk]
      omega
    have hzero : bin.overlay.capacity * 2 % 2 ^ 32 = 2 ^ k' := hk'
    rw [Nat.mod_eq_zero_of_dvd hpow] at hzero
    exact absurd hzero (Nat.ne_of_lt (Nat.pow_pos (by decide)))
  · intro hlt _
    have hcap : (overlayBeginGrow bin.overlay).capacity = bin.overlay.capacity * 2 :=
      Nat.mod_eq_of_lt hlt
    have hmask : (overlayBeginGrow bin.overlay).mask = sub32 (bin.overlay.capacity * 2) 1 := by
      rw [← hcap]
      rfl
    have hone := hus.mask
    refine ⟨hus.slots,?_,⟨k + 1,by rw [hcap,hk,Nat.pow_succ]⟩,hus.pool⟩
    rw [hcap,hmask,sub32,if_pos (by omega)]
    omega

/-- After a step every bin in checkpoint mode has a usable overlay just if the step fits. -/
theorem step_usable (hi : HostInv h) (hu : AllUsable h) (op : HostOp) :
    HostInv (applyHost h op) ∧ (AllUsable (applyHost h op) ↔ StepFits h op) := by
  cases op with
  | addBin dim pageSize pos =>
    rw [applyHost]
    refine ⟨⟨hi.alloc,?_,?_⟩,iff_of_true ?_ trivial⟩
    · intro b hb addr hp
      rcases mem_append.mp hb with hb | hb
      · exact hi.owned b hb addr hp
      · rw [mem_singleton.mp hb] at hp
        cases hp
    · intro j k b b' addr hb hb' hp hp'
      simp only [getElem?_append,getElem?_singleton] at hb hb'
      split_ifs at hb hb' with hj hk
      · exact hi.apart j k b b' addr hb hb' hp hp'
      all_goals first | (cases hb; cases hp) | (cases hb'; cases hp')
    · intro b hb hck
      rcases mem_append.mp hb with hb | hb
      · exact hu b hb hck
      · rw [mem_singleton.mp hb] at hck
        cases hck
  | acquirePage i =>
    rw [applyHost]
    cases hbin : h.bins[i]? with
    | none => exact ⟨hi,iff_of_true hu trivial⟩
    | some bin =>
      obtain ⟨ha,hnext,hnew⟩ := slabAllocAligned_spec hi.alloc bin.pageSize 4096
      exact ⟨hi.pools ha hnext,iff_of_true (hu.pools hi ha hnew) trivial⟩
  | checkpointBegin i =>
    rw [applyHost]
    cases hbin : h.bins[i]? with
    | none => exact ⟨hi,iff_of_true hu (fun bin hb => by cases hbin.symm.trans hb)⟩
    | some bin =>
      obtain ⟨hinv,hiff⟩ := begin_usable hi hu hbin
      refine ⟨hinv,hiff.trans ⟨fun hc b hb => ?_,fun hc => hc bin hbin⟩⟩
      cases hbin.symm.trans hb
      exact hc
  | checkpointEnd i =>
    rw [applyHost]
    cases hbin : h.bins[i]? with
    | none => exact ⟨hi,iff_of_true hu trivial⟩
    | some bin =>
      obtain ⟨hinv,hall⟩ := end_usable hi hu hbin
      exact ⟨hinv,iff_of_true hall trivial⟩
  | overlayAlloc i =>
    rw [applyHost]
    split
    · exact ⟨hi.pools hi.alloc.allocFrom (Nat.le_refl _),iff_of_true (hu.pools hi
        hi.alloc.allocFrom ⟨[],by rw [shapes_allocFrom,append_nil]⟩) trivial⟩
    · exact ⟨hi,iff_of_true hu trivial⟩
  | overlayGrow i =>
    rw [applyHost]
    cases hbin : h.bins[i]? with
    | none => exact ⟨hi,iff_of_true hu (fun bin hb => by cases hbin.symm.trans hb)⟩
    | some bin =>
      simp only
      split_ifs with hck
      · obtain ⟨hinv,hiff⟩ := grow_usable hi hu hbin hck
        refine ⟨hinv,hiff.trans ⟨fun hc b hb _ => ?_,fun hc => hc bin hbin hck⟩⟩
        cases hbin.symm.trans hb
        exact hc
      · refine ⟨hi,iff_of_true hu (fun b hb hck' => ?_)⟩
        cases hbin.symm.trans hb
        exact absurd hck' hck

end Hosts

def hostStep (h : OverlayHost) (op : HostOp) : Option OverlayHost := some (applyHost h op)

def AlwaysUsable (h : OverlayHost) (ops : List HostOp) : Prop := Run.Always hostStep AllUsable h ops

def AllFit (h : OverlayHost) (ops : List HostOp) : Prop := Run.Ready hostStep StepFits h ops

/-- Whatever a store does, its bins in checkpoint mode have usable overlays all the time just if
at each `dimbin_checkpoint_begin` one of the 32 pools is left and the vector fits a slab page. -/
theorem overlays_usable_iff (ops : List HostOp) :
    AlwaysUsable hostOpened ops ↔ AllFit hostOpened ops := by
  refine Run.always_iff_ready (fun h op hi hu => step_usable hi hu op) ops hostOpened
    ⟨⟨nodup_nil,?_,?_⟩,?_,?_⟩ ?_
  · exact fun x hx => absurd hx not_mem_nil
  · exact fun p hp => absurd hp not_mem_nil
  · exact fun b hb => absurd hb not_mem_nil
  · exact fun i j b b' addr hb => absurd (mem_of_getElem? hb) not_mem_nil
  · exact fun b hb => absurd hb not_mem_nil

/-- Bins of the dims 1 to 33, each of which enters checkpoint mode. -/
def manyBins : List HostOp :=
  (List.range 33).map (fun i => .addBin (i + 1) 4096 (Nat.succ_pos i)) ++
    (List.range 33).map .checkpointBegin

/-- The last bin is in checkpoint mode and has no table. -/
theorem last_bin_has_no_overlay :
    ¬ AllUsable (runHost hostOpened manyBins) ∧
      (runHost hostOpened manyBins).bins[32]?.map (fun bin =>
        (bin.inCheckpoint,bin.overlay.slots,bin.overlay.capacity)) = some (true,false,0) := by
  have hlast : (runHost hostOpened manyBins).bins[32]?.map (fun bin =>
      (bin.inCheckpoint,bin.overlay.slots,bin.overlay.capacity)) = some (true,false,0) := by
    decide +kernel
  refine ⟨fun hall => ?_,hlast⟩
  obtain ⟨bin,hbin,hfields⟩ := map_eq_some_iff.mp hlast
  simp only [Prod.mk.injEq] at hfields
  have husable := (hall bin (mem_of_getElem? hbin) hfields.1).slots
  rw [hfields.2.1] at husable
  cases husable

end Gravel.Proofs.OverlayPools
