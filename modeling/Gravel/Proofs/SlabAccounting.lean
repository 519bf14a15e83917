import Gravel.Lib.Run
import Gravel.Model.SlabPages
import Gravel.Proofs.OverlayPools
import Gravel.Proofs.SlabObjects
import Mathlib.Algebra.Order.BigOperators.Group.List

namespace Gravel.Proofs.SlabAccounting
open Slab SlabObjects FreeList List Option

def registered (alloc : Allocator) : List Pool := alloc.pools.filterMap id

def Accounted (alloc : Allocator) : Prop :=
  alloc.totalPages = ((registered alloc).map Pool.pageCount).sum ∧
    alloc.totalBytes = alloc.totalPages * slabPageSize

/-- `slab_pool_alloc` does not grow the pool: it has a free object, or the system has no page. -/
def Spared (pool : Pool) (page : Option Page) : Prop := pool.freeHead ≠ 0 ∨ page.isNone

instance (pool : Pool) (page : Option Page) : Decidable (Spared pool page) :=
  inferInstanceAs (Decidable (_ ∨ _))

def Creates (alloc : Allocator) (size alignment : Nat) (memory : Bool) : Prop :=
  (matching alloc size alignment).isNone ∧ alignedSize size alignment ≤ slabPageSize / 4 ∧
    alloc.pools.length < slabMaxPools ∧ memory = true

instance (alloc : Allocator) (size alignment : Nat) (memory : Bool) :
    Decidable (Creates alloc size alignment memory) := inferInstanceAs (Decidable (_ ∧ _))

def Carved (size alignment : Nat) (page : Option Page) : Prop :=
  page.isSome ∧ 0 < slabPageSize / roundSize (max size slabMinObjSize) alignment

instance (size alignment : Nat) (page : Option Page) : Decidable (Carved size alignment page) :=
  inferInstanceAs (Decidable (_ ∧ _))

def Covered (s : AllocatorUse) : AllocatorOp → Prop
  | .alloc addr page => ∀ pool ∈ s.alloc.poolAt addr, Spared pool page
  | .allocAligned size alignment memory page next _ =>
    (∀ pool ∈ matching s.alloc size.toNat alignment.toNat, Spared pool next) ∧
      (Creates s.alloc size.toNat alignment.toNat memory →
        Carved size.toNat alignment.toNat page ∨ next.isNone)
  | .create _ _ _ _ | .destroy _ | .write _ _ => True

instance (s : AllocatorUse) : ∀ op, Decidable (Covered s op)
  | .alloc addr page => inferInstanceAs (Decidable (∀ pool ∈ s.alloc.poolAt addr, Spared pool page))
  | .allocAligned _ _ _ _ _ _ => inferInstanceAs (Decidable (_ ∧ _))
  | .create _ _ _ _ | .destroy _ | .write _ _ => inferInstanceAs (Decidable True)

section Pools

variable {m m' : Memory} {pool pool' : Pool} {page : Option Page} {node : Nat}

theorem pushAll_carve_ne_zero (m : Memory) (size count : Nat) (page : Page) :
    (pushAll m 0 (carve size count page.base)).2 ≠ 0 ↔ 0 < count := by
  cases count with
  | zero => simp [carve,pushAll]
  | succ count =>
    have hlast : carve size (count + 1) page.base =
        carve size count page.base ++ [page.base + count * size] := by
      simp [carve,range_succ]
    have hpos := page.nonnull
    rw [hlast,pushAll_append]
    omega

theorem poolGrow_some {page : Page} (hrun : poolGrow m pool (some page) = some (m',pool')) :
    pool'.addr = pool.addr ∧ pool'.pages = page :: pool.pages ∧
      pool'.pageCount = (pool.pageCount + 1) % 2 ^ 32 ∧
      pool'.freeHead = (pushAll m pool.freeHead
        (carve pool.objSize (pool.pageSize / pool.objSize % 2 ^ 32) page.base)).2 := by
  rw [poolGrow] at hrun
  split_ifs at hrun
  cases hrun
  exact ⟨rfl,rfl,rfl,rfl⟩

theorem poolPop_pages (m : Memory) (pool : Pool) :
    (poolPop m pool).addr = pool.addr ∧ (poolPop m pool).pages = pool.pages ∧
      (poolPop m pool).pageCount = pool.pageCount := by
  unfold poolPop
  exact ⟨rfl,rfl,rfl⟩

theorem poolAlloc_pages (hrun : poolAlloc m pool page = some (m',pool',node)) :
    pool'.addr = pool.addr ∧
      (Spared pool page ∧ pool'.pages = pool.pages ∧ pool'.pageCount = pool.pageCount ∨
        ¬ Spared pool page ∧ pool'.pageCount = (pool.pageCount + 1) % 2 ^ 32) := by
  rw [poolAlloc] at hrun
  split_ifs at hrun with hhead
  · cases hrun
    obtain ⟨haddr,hpages,hcount⟩ := poolPop_pages m pool
    exact ⟨haddr,.inl ⟨.inl hhead,hpages,hcount⟩⟩
  obtain ⟨⟨m1,pool1⟩,hgrow,hrun⟩ := bind_eq_some_iff.mp hrun
  have hpool : pool'.addr = pool1.addr ∧ pool'.pages = pool1.pages ∧
      pool'.pageCount = pool1.pageCount := by
    dsimp only at hrun
    split_ifs at hrun
    · cases hrun
      exact ⟨rfl,rfl,rfl⟩
    · cases hrun
      exact poolPop_pages m' pool1
  rw [hpool.1,hpool.2.1,hpool.2.2]
  cases page with
  | none =>
    cases hgrow
    exact ⟨rfl,.inl ⟨.inr rfl,rfl,rfl⟩⟩
  | some page =>
    obtain ⟨haddr,_,hcount,_⟩ := poolGrow_some hgrow
    exact ⟨haddr,.inr ⟨fun hspared => hspared.elim hhead (by simp),hcount⟩⟩

theorem poolNew_pages {addr size alignment : Nat}
    (hrun : poolNew m addr size alignment page = some (m',pool)) :
    pool.addr = addr ∧ pool.pages = page.toList ∧ pool.pageCount = page.toList.length ∧
      (alignment ≠ 0 → (pool.freeHead ≠ 0 ↔ Carved size alignment page)) := by
  rw [poolNew] at hrun
  cases page with
  | none =>
    cases hrun
    exact ⟨rfl,rfl,rfl,by simp [Carved]⟩
  | some page =>
    obtain ⟨haddr,hpages,hcount,hhead⟩ := poolGrow_some hrun
    refine ⟨haddr,hpages,hcount,fun hne => ?_⟩
    rw [hhead]
    refine (pushAll_carve_ne_zero _ _ _ _).trans ?_
    have hmax : (if size < slabMinObjSize then slabMinObjSize else size) = max size slabMinObjSize := by
      split_ifs <;> omega
    simp only [if_neg hne,hmax,perPage_mod,Carved,isSome_some,true_and]

end Pools

structure Registry (alloc : Allocator) (pools : List Pool) : Prop where
  entries : alloc.pools = pools.map some
  nodup : (pools.map Pool.addr).Nodup
  below : ∀ pool ∈ pools, pool.addr < alloc.nextAddr
  limit : pools.length ≤ slabMaxPools

structure Balanced (alloc : Allocator) (pools : List Pool) : Prop where
  single : ∀ pool ∈ pools, pool.pageCount = pool.pages.length ∧ pool.pages.length ≤ 1
  pages : alloc.totalPages = (pools.map Pool.pageCount).sum
  bytes : alloc.totalBytes = alloc.totalPages * slabPageSize

def Tracks (alloc : Allocator) (pools : List Pool) (P : Prop) (alloc' : Allocator) : Prop :=
  (∃ pools', Registry alloc' pools') ∧
    (Balanced alloc pools → (Accounted alloc' ↔ P) ∧
      (P → ∃ pools', Registry alloc' pools' ∧ Balanced alloc' pools'))

section Registry

variable {m m' : Memory} {alloc alloc' : Allocator} {pools : List Pool} {pool : Pool}
  {page : Option Page} {size alignment addr : Nat} {memory : Bool} {created : Option Pool}

theorem Registry.registered_eq (h : Registry alloc pools) : registered alloc = pools := by
  simp [registered,h.entries]

theorem Registry.accounted (h : Registry alloc pools) (hb : Balanced alloc pools) :
    Accounted alloc := by
  rw [Accounted,h.registered_eq]
  exact ⟨hb.pages,hb.bytes⟩

theorem Registry.mem_find (h : Registry alloc pools) {p : Pool → Bool}
    (hp : (registered alloc).find? p = some pool) : pool ∈ pools := by
  rw [h.registered_eq] at hp
  exact mem_of_find?_eq_some hp

theorem Balanced.totalPages_le (hb : Balanced alloc pools) : alloc.totalPages ≤ pools.length := by
  rw [hb.pages]
  have hle := sum_le_card_nsmul (pools.map Pool.pageCount) 1 (by
    intro n hn
    obtain ⟨pool,hpool,rfl⟩ := List.mem_map.mp hn
    have hsingle := hb.single pool hpool
    omega)
  simpa using hle

theorem Registry.tracks {pools' : List Pool} {P : Prop} (h : Registry alloc' pools')
    (hbal : Balanced alloc pools → Balanced alloc' pools') (hP : P) : Tracks alloc pools P alloc' :=
  ⟨⟨pools',h⟩,fun hb => ⟨⟨fun _ => hP,fun _ => h.accounted (hbal hb)⟩,fun _ => ⟨pools',h,hbal hb⟩⟩⟩

theorem Registry.create (h : Registry alloc pools)
    (hrun : poolCreate m alloc size alignment memory page = some (m',alloc',created)) :
    created = none ∧ alloc' = alloc ∧ ¬ (alloc.pools.length < slabMaxPools ∧ memory = true) ∨
      ∃ pool, created = some pool ∧ Registry alloc' (pools ++ [pool]) ∧
        (alloc.pools.length < slabMaxPools ∧ memory = true) ∧
        poolNew m alloc.nextAddr size alignment page = some (m',pool) ∧
        (Balanced alloc pools → Balanced alloc' (pools ++ [pool])) := by
  rw [poolCreate] at hrun
  split_ifs at hrun with hfull
  · cases hrun
    refine .inl ⟨rfl,rfl,fun hroom => ?_⟩
    rcases hfull with hfull | hmemory
    · omega
    · simp [hmemory] at hroom
  obtain ⟨⟨m1,pool⟩,hnew,hrun⟩ := bind_eq_some_iff.mp hrun
  cases hrun
  have hroom : alloc.pools.length < slabMaxPools ∧ memory = true := by
    simpa [not_or] using hfull
  obtain ⟨haddr,hpages,hcount,_⟩ := poolNew_pages hnew
  refine .inr ⟨pool,rfl,⟨?_,?_,?_,?_⟩,hroom,hnew,fun hb => ?_⟩
  · simp [h.entries]
  · rw [map_append,map_singleton,haddr]
    refine h.nodup.append (nodup_singleton _) ?_
    intro addr hmem hlast
    obtain ⟨q,hq,rfl⟩ := List.mem_map.mp hmem
    have hlt := h.below q hq
    rw [mem_singleton.mp hlast] at hlt
    exact Nat.lt_irrefl _ hlt
  · intro q hq
    rcases mem_append.mp hq with hq | hq
    · exact Nat.lt_succ_of_lt (h.below q hq)
    · rw [mem_singleton.mp hq,haddr]
      exact Nat.lt_succ_self _
  · have hlen := hroom.1
    rw [h.entries,length_map] at hlen
    rw [length_append]
    exact hlen
  · have hle := hb.totalPages_le
    have hlimit := h.limit
    have hone : page.toList.length ≤ 1 := by cases page <;> simp
    have hmax : slabMaxPools = 32 := rfl
    have hsize : slabPageSize = 65536 := rfl
    have hbytes := hb.bytes
    refine ⟨?_,?_,?_⟩
    · intro q hq
      rcases mem_append.mp hq with hq | hq
      · exact hb.single q hq
      · rw [mem_singleton.mp hq,hcount,hpages]
        exact ⟨rfl,hone⟩
    · simp only [map_append,map_singleton,sum_append,sum_singleton,← hb.pages]
      omega
    · dsimp only
      rw [hbytes,hsize]
      omega

theorem Registry.allocated (h : Registry alloc pools) (hp : pool ∈ pools)
    (hrun : allocIn m alloc pool page = some (m',alloc')) :
    Tracks alloc pools (Spared pool page) alloc' := by
  obtain ⟨⟨m1,pool',node⟩,halloc,hrun⟩ := bind_eq_some_iff.mp hrun
  cases hrun
  obtain ⟨haddr,hcases⟩ := poolAlloc_pages halloc
  obtain ⟨pre,post,rfl⟩ := append_of_mem hp
  have hnodup := h.nodup
  rw [map_append,map_cons,nodup_middle,← map_append] at hnodup
  obtain ⟨hother,_⟩ := nodup_cons.mp hnodup
  have hkeep : ∀ q ∈ pre ++ post, (if PointsTo pool.addr (some q) then some pool' else some q) =
      some q := by
    intro q hq
    refine if_neg (fun hpoints => hother ?_)
    rw [← some_inj.mp hpoints]
    exact List.mem_map_of_mem hq
  have hreg : Registry { alloc with pools := alloc.pools.map (fun entry =>
      if PointsTo pool.addr entry then some pool' else entry) } (pre ++ pool' :: post) := by
    refine ⟨?_,?_,?_,?_⟩
    · have hself : (if PointsTo pool.addr (some pool) then some pool' else some pool) = some pool' :=
        if_pos rfl
      simp only [h.entries,map_append,map_cons,List.map_map,hself]
      congr 1
      · exact map_congr_left (fun q hq => hkeep q (mem_append_left _ hq))
      · congr 1
        exact map_congr_left (fun q hq => hkeep q (mem_append_right _ hq))
    · have hsame := h.nodup
      rwa [map_append,map_cons,← haddr,← map_cons,← map_append] at hsame
    · intro q hq
      rcases mem_append.mp hq with hq | hq
      · exact h.below q (mem_append_left _ hq)
      rcases mem_cons.mp hq with rfl | hq
      · rw [haddr]
        exact h.below pool hp
      · exact h.below q (mem_append_right _ (mem_cons_of_mem _ hq))
    · have hlimit := h.limit
      rwa [length_append,length_cons] at hlimit ⊢
  refine ⟨⟨_,hreg⟩,fun hb => ?_⟩
  have hsingle := hb.single pool hp
  have hpages := hb.pages
  simp only [map_append,map_cons,sum_append,sum_cons] at hpages
  rcases hcases with ⟨hspared,hsame,hcount⟩ | ⟨hgrown,hcount⟩
  · have hbal : Balanced { alloc with pools := alloc.pools.map (fun entry =>
        if PointsTo pool.addr entry then some pool' else entry) } (pre ++ pool' :: post) := by
      refine ⟨?_,?_,hb.bytes⟩
      · intro q hq
        rcases mem_append.mp hq with hq | hq
        · exact hb.single q (mem_append_left _ hq)
        rcases mem_cons.mp hq with rfl | hq
        · rwa [hsame,hcount]
        · exact hb.single q (mem_append_right _ (mem_cons_of_mem _ hq))
      · simpa only [map_append,map_cons,sum_append,sum_cons,hcount] using hpages
    exact ⟨⟨fun _ => hspared,fun _ => hreg.accounted hbal⟩,fun _ => ⟨_,hreg,hbal⟩⟩
  · refine ⟨⟨fun hacc => ?_,fun hspared => absurd hspared hgrown⟩,
      fun hspared => absurd hspared hgrown⟩
    -- The page is counted by the pool and not by the allocator.
    have htotal := hacc.1
    rw [hreg.registered_eq] at htotal
    simp only [map_append,map_cons,sum_append,sum_cons,hcount] at htotal
    omega

theorem swapRemove_map {α β : Type} (f : α → β) (l : List α) (i : Nat) :
    swapRemove (l.map f) i = (swapRemove l i).map f := by
  rw [swapRemove,swapRemove,getLast?_map]
  cases l.getLast? with
  | none => rfl
  | some last =>
    simp only [map_some]
    rw [← map_set,map_dropLast]

theorem Registry.find (h : Registry alloc pools) (hp : pool ∈ pools) :
    ∃ i, ∃ hi : i < pools.length, pools[i] = pool ∧
      alloc.pools.findIdx? (fun entry => PointsTo pool.addr entry) = some i := by
  rw [h.entries,findIdx?_map]
  cases hfind : pools.findIdx? ((fun entry => decide (PointsTo pool.addr entry)) ∘ some) with
  | none =>
    have hmissed := findIdx?_eq_none_iff.mp hfind pool hp
    simp [PointsTo] at hmissed
  | some i =>
    obtain ⟨hi,hpoints,_⟩ := findIdx?_eq_some_iff_getElem.mp hfind
    have haddr : pools[i].addr = pool.addr := by simpa [PointsTo] using hpoints
    exact ⟨i,hi,inj_on_of_nodup_map h.nodup (getElem_mem hi) hp haddr,rfl⟩

theorem foldl_subtract {α : Type} {l : List α} {n k : Nat} (hle : l.length * k ≤ n)
    (hlt : n < 2 ^ 64) : l.foldl (fun n _ => (n + 2 ^ 64 - k) % 2 ^ 64) n = n - l.length * k := by
  induction l generalizing n with
  | nil => simp
  | cons _ l ih =>
    rw [length_cons,Nat.succ_mul] at hle ⊢
    have hstep : (n + 2 ^ 64 - k) % 2 ^ 64 = n - k := by omega
    rw [foldl_cons,hstep,ih (by omega) (by omega)]
    omega

theorem Registry.destroyed (h : Registry alloc pools) (hp : pool ∈ pools) :
    ∃ pools', Registry (poolDestroy alloc pool) pools' ∧
      (Balanced alloc pools → Balanced (poolDestroy alloc pool) pools') := by
  obtain ⟨i,hi,hpool,hfound⟩ := h.find hp
  have hrest : pools.Perm (pool :: swapRemove pools i) := by
    rw [← hpool]
    exact (getElem_cons_eraseIdx_perm hi).symm.trans
      ((OverlayPools.swapRemove_perm hi).symm.cons _)
  have hold : ∀ q ∈ swapRemove pools i, q ∈ pools := fun q hq =>
    hrest.symm.subset (mem_cons_of_mem _ hq)
  refine ⟨swapRemove pools i,⟨?_,?_,?_,?_⟩,fun hb => ?_⟩
  · simp only [poolDestroy,hfound]
    rw [h.entries,swapRemove_map]
  · have hnodup := (hrest.map Pool.addr).nodup_iff.mp h.nodup
    exact (nodup_cons.mp hnodup).2
  · intro q hq
    simp only [poolDestroy]
    exact h.below q (hold q hq)
  · have hlen := hrest.length_eq
    have hlimit := h.limit
    rw [length_cons] at hlen
    omega
  · obtain ⟨hcount,hone⟩ := hb.single pool hp
    have hsum := (hrest.map Pool.pageCount).sum_eq
    rw [map_cons,sum_cons,← hb.pages] at hsum
    have hle := hb.totalPages_le
    have hlimit := h.limit
    have hmax : slabMaxPools = 32 := rfl
    have hsize : slabPageSize = 65536 := rfl
    have hbytes := hb.bytes
    have hpages : (poolDestroy alloc pool).totalPages = alloc.totalPages - pool.pages.length * 1 :=
      foldl_subtract (by omega) (by omega)
    have hbytes' : (poolDestroy alloc pool).totalBytes =
        alloc.totalBytes - pool.pages.length * slabPageSize := by
      refine foldl_subtract ?_ ?_ <;> rw [hbytes,hsize] <;> omega
    refine ⟨fun q hq => hb.single q (hold q hq),?_,?_⟩
    · rw [hpages]
      omega
    · rw [hpages,hbytes',hbytes,hsize]
      omega

theorem Registry.tracks_large (h : Registry alloc pools) {P : Prop} (hP : P) (large : Bool) :
    Tracks alloc pools P (allocLarge alloc size large) := by
  have hsame : (allocLarge alloc size large).pools = alloc.pools ∧
      (allocLarge alloc size large).nextAddr = alloc.nextAddr ∧
      (allocLarge alloc size large).totalPages = alloc.totalPages ∧
      (allocLarge alloc size large).totalBytes = alloc.totalBytes := by
    cases large <;> exact ⟨rfl,rfl,rfl,rfl⟩
  obtain ⟨hpools,hnext,hpages,hbytes⟩ := hsame
  have hreg : Registry (allocLarge alloc size large) pools :=
    ⟨hpools.trans h.entries,h.nodup,by rw [hnext]; exact h.below,h.limit⟩
  refine hreg.tracks (fun hb => ⟨hb.single,hpages.trans hb.pages,?_⟩) hP
  rw [hbytes,hpages,hb.bytes]

end Registry

/-- A pool without its pages and its free list, as the overlays of a store know it. -/
def counts (pool : Pool) : SlabPool := ⟨pool.addr,pool.objSize,pool.alignment,pool.freeCount⟩

def forget (alloc : Allocator) : SlabAllocator := ⟨(registered alloc).map counts,alloc.nextAddr⟩

section Counts

variable {m m' : Memory} {alloc alloc' : Allocator} {pools : List Pool} {pool pool' : Pool}
  {page : Page} {size alignment addr node : Nat} {created : Option Pool}

theorem poolGrow_counts (hpage : pool.pageSize = slabPageSize)
    (hfew : pool.freeCount + slabPageSize < 2 ^ 64)
    (hrun : poolGrow m pool (some page) = some (m',pool')) :
    counts pool' = slabPoolGrow (counts pool) := by
  rw [poolGrow] at hrun
  split_ifs at hrun
  cases hrun
  have hle := Nat.div_le_self slabPageSize pool.objSize
  have hcount : (pool.freeCount + slabPageSize / pool.objSize) % 2 ^ 64 =
      pool.freeCount + slabPageSize / pool.objSize := Nat.mod_eq_of_lt (by omega)
  simp only [counts,slabPoolGrow,hpage,perPage_mod,hcount]

theorem poolNew_counts
    (hsize : max size slabMinObjSize + max alignment slabDefaultAlignment ≤ 2 ^ 64)
    (hrun : poolNew m addr size alignment (some page) = some (m',pool)) :
    counts pool = newPool addr size alignment := by
  rw [poolGrow_counts rfl (by simp [slabPageSize]) hrun,newPool]
  have hround : ∀ size' alignment', size' ≤ max size slabMinObjSize →
      alignment' ≤ max alignment slabDefaultAlignment → 0 < alignment' →
      roundSize size' alignment' = slabRound size' alignment' := by
    intro size' alignment' hs ha hpos
    rw [roundSize,slabRound,Nat.mod_eq_of_lt (by omega)]
  have hdefault : 0 < slabDefaultAlignment := by decide
  rw [counts,hround]
  · split_ifs <;> omega
  · split_ifs <;> omega
  · split_ifs <;> omega

theorem Registry.create_forget (h : Registry alloc pools)
    (hsize : max size slabMinObjSize + max alignment slabDefaultAlignment ≤ 2 ^ 64)
    (hrun : poolCreate m alloc size alignment true (some page) = some (m',alloc',created)) :
    slabPoolCreate (forget alloc) size alignment = (forget alloc',created.map Pool.addr) := by
  have hlength : (forget alloc).pools.length = alloc.pools.length := by
    simp [forget,h.registered_eq,h.entries]
  rw [slabPoolCreate,hlength]
  rw [poolCreate] at hrun
  simp only [Bool.true_eq_false,or_false] at hrun
  split_ifs at hrun ⊢
  · cases hrun
    rfl
  · obtain ⟨⟨m1,pool⟩,hnew,hrun⟩ := bind_eq_some_iff.mp hrun
    cases hrun
    simp [forget,registered,← poolNew_counts hsize hnew,(poolNew_pages hnew).1,counts]

theorem Registry.destroy_forget (h : Registry alloc pools) :
    forget (poolDestroy alloc pool) = slabPoolDestroy (forget alloc) pool.addr := by
  have hfind : (forget alloc).pools.findIdx? (fun p => p.addr = pool.addr) =
      alloc.pools.findIdx? (fun entry => PointsTo pool.addr entry) := by
    rw [forget,h.registered_eq,h.entries,findIdx?_map,findIdx?_map]
    congr 1
    funext p
    exact decide_eq_decide.mpr (by simp [counts,PointsTo])
  rw [slabPoolDestroy,hfind,poolDestroy]
  cases alloc.pools.findIdx? (fun entry => PointsTo pool.addr entry) with
  | none => rfl
  | some i => simp [forget,registered,h.entries,swapRemove_map]

theorem poolPop_counts (hpos : 0 < pool.freeCount) (hle : pool.freeCount ≤ 2 ^ 48) :
    counts (poolPop m pool) = { counts pool with freeCount := (counts pool).freeCount - 1 } := by
  have hpop : (pool.freeCount + 2 ^ 64 - 1) % 2 ^ 64 = pool.freeCount - 1 := by omega
  simp only [counts,poolPop,hpop]

/-- In every state that a run of the pool reaches, `slab_pool_alloc` changes the counters as the
overlays of a store see it. -/
theorem poolAlloc_counts {s : PoolUse} {free : List Nat} (h : Divided s free) (hfew : Few s)
    (hrun : poolAlloc s.mem s.pool (some page) = some (m',pool',node)) :
    counts pool' = (slabPoolAlloc (counts s.pool)).1 := by
  obtain ⟨hcount,hle⟩ := h.count hfew
  rw [poolAlloc] at hrun
  unfold slabPoolAlloc
  split_ifs at hrun with hhead
  · cases hrun
    obtain ⟨rest,rfl,_⟩ := h.listed.pop hhead
    have hpos : 0 < s.pool.freeCount := hcount ▸ Nat.succ_pos _
    have hpos' : 0 < (counts s.pool).freeCount := hpos
    simp only [if_pos hpos']
    exact poolPop_counts hpos (hcount ▸ hle)
  · obtain ⟨⟨m1,pool1⟩,hgrow,hrun⟩ := bind_eq_some_iff.mp hrun
    have hempty : s.pool.freeHead = 0 := not_not.mp hhead
    have hnone : s.pool.freeCount = 0 := by
      have hlisted := h.listed
      rw [hempty] at hlisted
      cases hlisted with
      | nil => exact hcount
      | cons nonnull => exact absurd rfl nonnull
    have hnone' : ¬ 0 < (counts s.pool).freeCount := Nat.not_lt.mpr (Nat.le_of_eq hnone)
    have hgrown := poolGrow_counts h.pageSize (by rw [hnone]; decide) hgrow
    simp only [if_neg hnone',← hgrown]
    have hfree : pool1.freeCount = slabPageSize / s.pool.objSize := by
      have hcounts := congrArg SlabPool.freeCount hgrown
      simpa [slabPoolGrow,counts,hnone] using hcounts
    have hper := Nat.div_le_self slabPageSize s.pool.objSize
    have hhead1 : pool1.freeHead ≠ 0 ↔ 0 < pool1.freeCount := by
      rw [(poolGrow_some hgrow).2.2.2,hempty,pushAll_carve_ne_zero,h.pageSize,hfree,perPage_mod]
    dsimp only at hrun
    split_ifs at hrun with hzero
    · cases hrun
      have hnone1 : ¬ 0 < (counts pool').freeCount := fun hpos => hhead1.mpr hpos hzero
      rw [if_neg hnone1]
    · cases hrun
      have hpos : 0 < (counts pool1).freeCount := hhead1.mp hzero
      rw [if_pos hpos]
      exact poolPop_counts hpos (hfree ▸ Nat.le_trans hper (by decide))

theorem Registry.alloc_forget (h : Registry alloc pools) (hp : pool ∈ pools)
    {out free : List Nat} (hdiv : Divided ⟨m,pool,out⟩ free) (hfew : Few ⟨m,pool,out⟩)
    (hrun : allocIn m alloc pool (some page) = some (m',alloc')) :
    forget alloc' = allocFrom (forget alloc) pool.addr := by
  obtain ⟨⟨m1,pool',node⟩,halloc,hrun⟩ := bind_eq_some_iff.mp hrun
  cases hrun
  have hcounts := poolAlloc_counts hdiv hfew halloc
  rw [forget,forget,allocFrom,h.registered_eq]
  simp only [registered,h.entries,List.map_map,filterMap_map]
  congr 1
  rw [map_filterMap,← filterMap_eq_map]
  refine filterMap_congr fun q hq => ?_
  by_cases haddr : q.addr = pool.addr
  · obtain rfl := inj_on_of_nodup_map h.nodup hq hp haddr
    have hself : (counts q).addr = q.addr := rfl
    simp [PointsTo,hself,hcounts]
  · have hother : (counts q).addr ≠ pool.addr := haddr
    simp [PointsTo,haddr,hother]

end Counts

section Steps

variable {s s' : AllocatorUse} {op : AllocatorOp} {pools : List Pool}

theorem aligned_tracks {size alignment : UInt64} {memory large : Bool} {page next : Option Page}
    (h : Registry s.alloc pools)
    (hstep : stepAllocator s (.allocAligned size alignment memory page next large) = some s') :
    Tracks s.alloc pools (Covered s (.allocAligned size alignment memory page next large))
      s'.alloc := by
  obtain ⟨⟨m',alloc'⟩,hrun,hstep⟩ := bind_eq_some_iff.mp hstep
  cases hstep
  have hzero : alignment.toNat ≠ 0 := by
    intro hzero
    rw [allocAligned,if_pos hzero] at hrun
    cases hrun
  rw [allocAligned,if_neg hzero] at hrun
  cases hmatch : matching s.alloc size.toNat alignment.toNat with
  | some pool =>
    rw [hmatch] at hrun
    have hcov : Covered s (.allocAligned size alignment memory page next large) ↔
        Spared pool next := by
      simp [Covered,Creates,hmatch]
    rw [hcov]
    exact h.allocated (h.mem_find hmatch) hrun
  | none =>
    rw [hmatch] at hrun
    dsimp only at hrun
    have hcov : Covered s (.allocAligned size alignment memory page next large) ↔
        (Creates s.alloc size.toNat alignment.toNat memory →
          Carved size.toNat alignment.toNat page ∨ next.isNone) := by
      simp [Covered,hmatch]
    rw [hcov]
    split_ifs at hrun with hsmall
    · obtain ⟨⟨m1,alloc1,created⟩,hcreate,hrun⟩ := bind_eq_some_iff.mp hrun
      rcases h.create hcreate with ⟨rfl,rfl,hfull⟩ | ⟨pool,rfl,hreg,hroom,hnew,hbal⟩
      · cases hrun
        exact h.tracks_large (fun hcreates => absurd hcreates.2.2 hfull) large
      · have hspared : (Creates s.alloc size.toNat alignment.toNat memory →
            Carved size.toNat alignment.toNat page ∨ next.isNone) ↔ Spared pool next := by
          have hcreates : Creates s.alloc size.toNat alignment.toNat memory :=
            ⟨by rw [hmatch]; rfl,hsmall,hroom⟩
          rw [Spared,(poolNew_pages hnew).2.2.2 hzero]
          exact ⟨fun hcarved => hcarved hcreates,fun hcarved _ => hcarved⟩
        obtain ⟨hreg',htracks⟩ := hreg.allocated (mem_append_right _ mem_cons_self) hrun
        rw [hspared]
        exact ⟨hreg',fun hb => htracks (hbal hb)⟩
    · cases hrun
      exact h.tracks_large (fun hcreates => absurd hcreates.2.1 hsmall) large

theorem step_tracks (h : Registry s.alloc pools) (hstep : stepAllocator s op = some s') :
    Tracks s.alloc pools (Covered s op) s'.alloc := by
  cases op with
  | create objSize alignment memory page =>
    obtain ⟨⟨m',alloc',created⟩,hcreate,hstep⟩ := bind_eq_some_iff.mp hstep
    cases hstep
    rcases h.create hcreate with ⟨_,rfl,_⟩ | ⟨pool,_,hreg,_,_,hbal⟩
    · exact h.tracks id trivial
    · exact hreg.tracks hbal trivial
  | alloc addr page =>
    obtain ⟨pool,hpool,hstep⟩ := bind_eq_some_iff.mp hstep
    obtain ⟨⟨m',alloc'⟩,halloc,hstep⟩ := bind_eq_some_iff.mp hstep
    cases hstep
    have hcov : Covered s (.alloc addr page) ↔ Spared pool page := by simp [Covered,hpool]
    rw [hcov]
    exact h.allocated (h.mem_find hpool) halloc
  | allocAligned size alignment memory page next large => exact aligned_tracks h hstep
  | destroy addr =>
    obtain ⟨pool,hpool,hstep⟩ := bind_eq_some_iff.mp hstep
    cases hstep
    obtain ⟨pools',hreg,hbal⟩ := h.destroyed (h.mem_find hpool)
    exact hreg.tracks hbal trivial
  | write addr byte =>
    cases hstep
    exact h.tracks id trivial

theorem registry_step (s : AllocatorUse) (op : AllocatorOp) (s' : AllocatorUse)
    (h : ∃ pools, Registry s.alloc pools) (hstep : stepAllocator s op = some s') :
    ∃ pools, Registry s'.alloc pools := by
  obtain ⟨pools,hreg⟩ := h
  exact (step_tracks hreg hstep).1

theorem accounted_step (s : AllocatorUse) (op : AllocatorOp) (s' : AllocatorUse)
    (h : ∃ pools, Registry s.alloc pools ∧ Balanced s.alloc pools) (_ : True)
    (hstep : stepAllocator s op = some s') :
    (Accounted s'.alloc ↔ Covered s op) ∧
      (Covered s op → ∃ pools, Registry s'.alloc pools ∧ Balanced s'.alloc pools) := by
  obtain ⟨pools,hreg,hb⟩ := h
  exact (step_tracks hreg hstep).2 hb

end Steps

section Teardown

variable {alloc : Allocator} {pools : List Pool}

theorem length_swapRemove {α : Type} (l : List α) (i : Nat) :
    (swapRemove l i).length = l.length - 1 := by
  cases hlast : l.getLast? with
  | none =>
    rw [swapRemove,hlast,getLast?_eq_none_iff.mp hlast]
    rfl
  | some last =>
    simp only [swapRemove,hlast]
    rw [length_dropLast,length_set]

theorem length_poolDestroy {pool : Pool} (hp : some pool ∈ alloc.pools) :
    (poolDestroy alloc pool).pools.length = alloc.pools.length - 1 := by
  cases hfind : alloc.pools.findIdx? (fun entry => PointsTo pool.addr entry) with
  | none =>
    have hmissed := findIdx?_eq_none_iff.mp hfind _ hp
    simp [PointsTo] at hmissed
  | some i =>
    simp only [poolDestroy,hfind]
    exact length_swapRemove alloc.pools i

/-- Each round takes two entries away from those that are left: the pool it destroys, and the one
that takes its place. -/
theorem length_destroyLoop (fuel : Nat) : ∀ (alloc : Allocator) (i : Nat) (freed : List Nat),
    (destroyLoop fuel alloc i freed).2.length ≤ freed.length + (alloc.pools.length - i + 1) / 2 := by
  induction fuel with
  | zero =>
    intro alloc i freed
    exact Nat.le_add_right _ _
  | succ fuel ih =>
    intro alloc i freed
    rw [destroyLoop]
    split_ifs with hi
    · split
      · rename_i pool hpool
        refine (ih _ _ _).trans ?_
        have hlen := length_poolDestroy (mem_of_getElem? (join_eq_some_iff.mp hpool))
        rw [length_append,length_singleton,length_set,hlen]
        omega
      · refine (ih _ _ _).trans ?_
        omega
    · exact Nat.le_add_right _ _

theorem destroy_complete_iff (h : Registry alloc pools) :
    (allocatorDestroy alloc).2.Perm ((registered alloc).map Pool.addr) ↔ alloc.pools.length ≤ 1 := by
  have hlen : alloc.pools.length = pools.length := by rw [h.entries,length_map]
  rw [h.registered_eq]
  constructor
  · intro hperm
    have hcount := hperm.length_eq
    have hle : (allocatorDestroy alloc).2.length ≤ 0 + (alloc.pools.length - 0 + 1) / 2 :=
      length_destroyLoop alloc.pools.length alloc 0 []
    rw [length_map] at hcount
    omega
  · intro hle
    rcases pools with _ | ⟨pool,_ | ⟨_,_⟩⟩
    · simp [allocatorDestroy,h.entries,destroyLoop]
    · simp [allocatorDestroy,h.entries,destroyLoop]
    · simp only [length_cons] at hlen
      omega

end Teardown

/-- In every sequence of calls the totals are those of the registered pools exactly as long as no
pool grows after it was made, and the allocator can be destroyed without leaving a pool behind exactly
when it has one at most. -/
theorem allocator_accounted_iff (m : Memory) (ops : List AllocatorOp) :
    (Run.Along stepAllocator (fun _ _ s' => Accounted s'.alloc) ⟨m,allocatorInit⟩ ops ↔
        Run.Along stepAllocator (fun s op _ => Covered s op) ⟨m,allocatorInit⟩ ops) ∧
      ∀ s, Run.run stepAllocator ⟨m,allocatorInit⟩ ops = some s →
        ((allocatorDestroy s.alloc).2.Perm ((registered s.alloc).map Pool.addr) ↔
          s.alloc.pools.length ≤ 1) := by
  have hinit : Registry allocatorInit [] :=
    ⟨rfl,nodup_nil,forall_mem_nil _,Nat.zero_le _⟩
  refine ⟨?_,fun s hrun => ?_⟩
  · have hbal : Balanced allocatorInit [] := ⟨forall_mem_nil _,rfl,rfl⟩
    exact Run.along_iff accounted_step ops _ ⟨[],hinit,hbal⟩ (fun _ _ => trivial)
  · obtain ⟨pools,hreg⟩ := Run.run_keeps registry_step ops _ s ⟨[],hinit⟩ hrun
    exact destroy_complete_iff hreg

def firstPage : Page := ⟨131072,by decide⟩

def secondPage : Page := ⟨262144,by decide⟩

/-- A pool of four objects and one for a block buffer, of which the first is destroyed again. -/
theorem allocator_accounted_iff_reused :
    Run.Along stepAllocator (fun _ _ s' => Accounted s'.alloc) ⟨fun _ => 0,allocatorInit⟩
        [.create 16384 16 true (some firstPage),.alloc 0 none,
          .allocAligned 4096 4096 true (some secondPage) none true,.alloc 1 none,.destroy 0] ∧
      ∃ s, Run.run stepAllocator ⟨fun _ => 0,allocatorInit⟩ [.create 16384 16 true none] = some s ∧
        (allocatorDestroy s.alloc).2.Perm ((registered s.alloc).map Pool.addr) := by
  refine ⟨(allocator_accounted_iff _ _).1.mpr (by decide +kernel),_,rfl,?_⟩
  exact ((allocator_accounted_iff (fun _ => 0) [.create 16384 16 true none]).2 _ rfl).mpr (by decide)

/-- A pool of one object a page grows with the second object, and its end takes the total below zero.
Of two pools the second is left behind. -/
theorem grown_pool_uncounted :
    (Run.run stepAllocator ⟨fun _ => 0,allocatorInit⟩
        [.create 65536 16 true (some firstPage),.alloc 0 none,.alloc 0 (some secondPage)]).map
          (fun s => (s.alloc.totalPages,((registered s.alloc).map Pool.pageCount).sum)) =
        some (1,2) ∧
      (Run.run stepAllocator ⟨fun _ => 0,allocatorInit⟩
        [.create 65536 16 true (some firstPage),.alloc 0 none,.alloc 0 (some secondPage),
          .destroy 0]).map (fun s => (s.alloc.totalPages,s.alloc.pools.length)) =
        some (2 ^ 64 - 1,0) ∧
      (Run.run stepAllocator ⟨fun _ => 0,allocatorInit⟩
        [.create 16384 16 true (some firstPage),.create 32768 16 true (some secondPage)]).map (fun s =>
          ((allocatorDestroy s.alloc).2,(registered s.alloc).map Pool.addr)) =
        some ([0],[0,1]) := by
  refine ⟨by decide +kernel,by decide +kernel,by decide +kernel⟩

end Gravel.Proofs.SlabAccounting
