import Gravel.Lib.Run
import Gravel.Model.SlabPages

namespace Gravel.Proofs.SlabObjects
open Slab FreeList List Option Function

def objects (pool : Pool) : List Nat :=
  (pool.pages.map Page.base).flatMap (carve pool.objSize (slabPageSize / pool.objSize))

structure SoundWith (s : PoolUse) (free : List Nat) : Prop where
  listed : Listed s.mem s.pool.freeHead free
  nodup : (free ++ s.out).Nodup
  apart : (free ++ s.out).Pairwise (Apart s.pool.objSize)
  inside : ∀ a ∈ free ++ s.out, ∃ page ∈ s.pool.pages, ∃ i,
    a = page.base + i * s.pool.objSize ∧ a + s.pool.objSize ≤ page.base + s.pool.pageSize
  count : s.pool.freeCount = free.length
  total : s.pool.freeCount + s.out.length =
    s.pool.pageCount * (s.pool.pageSize / s.pool.objSize)

def Sound (s : PoolUse) : Prop := ∃ free, SoundWith s free

/-- The objects of all pages are divided up between the free list and the callers; the counters may
have wrapped. -/
structure Divided (s : PoolUse) (free : List Nat) : Prop where
  pageSize : s.pool.pageSize = slabPageSize
  sized : s.pool.objSize = 0 ∧ s.pool.pages = [] ∨ slabMinObjSize ≤ s.pool.objSize
  fits : PagesFit s.pool.pages
  listed : Listed s.mem s.pool.freeHead free
  parts : (free ++ s.out).Perm (objects s.pool)
  freeCount : s.pool.freeCount = free.length % 2 ^ 64
  pageCount : s.pool.pageCount = s.pool.pages.length % 2 ^ 32

section Objects

variable {pool : Pool} {m : Memory} {free new : List Nat} {a : Nat}

theorem mem_objects (h : a ∈ objects pool) : ∃ page ∈ pool.pages, ∃ i,
    a = page.base + i * pool.objSize ∧ page.base ≤ a ∧
      a + pool.objSize ≤ page.base + slabPageSize := by
  obtain ⟨base,hbase,ha⟩ := mem_flatMap.mp h
  obtain ⟨page,hpage,rfl⟩ := List.mem_map.mp hbase
  obtain ⟨i,_,hi⟩ := mem_carve.mp ha
  exact ⟨page,hpage,i,hi,carve_inside (Nat.div_mul_le_self _ _) ha⟩

theorem objects_apart (hfits : PagesFit pool.pages) : (objects pool).Pairwise (Apart pool.objSize) :=
  carved_apart (Nat.div_mul_le_self _ _) hfits.2

theorem perPage_mod (size : Nat) : slabPageSize / size % 2 ^ 32 = slabPageSize / size :=
  Nat.mod_eq_of_lt (Nat.lt_of_le_of_lt (Nat.div_le_self _ _) (by decide))

theorem objects_nil (h : pool.pages = []) : objects pool = [] := by
  rw [objects,h]
  rfl

theorem fits_mono {pages pages' : List Page} (h : PagesFit pages) (hsub : pages'.Subperm pages) :
    PagesFit pages' := by
  refine ⟨fun page hpage => h.1 page (hsub.subset hpage),?_⟩
  obtain ⟨kept,hperm,hsublist⟩ := hsub
  refine ((hperm.map Page.base).pairwise_iff (fun h => h.symm)).mp ?_
  exact h.2.sublist (hsublist.map Page.base)

theorem Apart.mono {size size' a b : Nat} (h : Apart size a b) (hle : size' ≤ size) :
    Apart size' a b := by
  unfold Apart at h ⊢
  omega

theorem listed_pushAll (hfits : PagesFit pool.pages)
    (hsized : pool.objSize = 0 ∧ pool.pages = [] ∨ slabMinObjSize ≤ pool.objSize)
    (h : Listed m pool.freeHead free) (hsub : (new ++ free).Subperm (objects pool)) :
    Listed (pushAll m pool.freeHead new).1 (pushAll m pool.freeHead new).2
      (new.reverse ++ free) := by
  rcases hsized with ⟨_,hnil⟩ | hlarge
  · rw [objects_nil hnil,subperm_nil,append_eq_nil_iff] at hsub
    obtain ⟨rfl,rfl⟩ := hsub
    exact h
  have hsize : 8 ≤ pool.objSize := Nat.le_trans (by decide) hlarge
  refine h.pushAll (fun a ha => ?_) ?_
  · obtain ⟨page,hpage,_,_,hle,hend⟩ := mem_objects (hsub.subset ha)
    have hspace := hfits.1 page hpage
    have hpos := page.nonnull
    omega
  · obtain ⟨l,hperm,hsublist⟩ := hsub
    refine (hperm.pairwise_iff (fun h => h.symm)).mp ?_
    exact ((objects_apart hfits).sublist hsublist).imp (fun h => Apart.mono h hsize)

end Objects

section Divided

variable {s s' : PoolUse} {free : List Nat} {m' : Memory} {pool' : Pool} {page : Option Page}
  {node : Nat}

theorem Divided.length (h : Divided s free) :
    free.length + s.out.length = s.pool.pages.length * (slabPageSize / s.pool.objSize) := by
  have hlen := h.parts.length_eq
  rwa [length_append,objects,length_carved,length_map] at hlen

theorem Divided.apart (h : Divided s free) : (free ++ s.out).Pairwise (Apart s.pool.objSize) :=
  (h.parts.pairwise_iff (fun h => h.symm)).mpr (objects_apart h.fits)

theorem Divided.nodup (h : Divided s free) : (free ++ s.out).Nodup := by
  rcases h.sized with ⟨_,hnil⟩ | hlarge
  · have hnone := h.parts
    rw [objects_nil hnil] at hnone
    rw [hnone.eq_nil]
    exact nodup_nil
  · refine h.apart.imp (fun {a b} hab => ?_)
    rintro rfl
    have hpos : 0 < s.pool.objSize := Nat.lt_of_lt_of_le (by decide) hlarge
    unfold Apart at hab
    omega

theorem Divided.count (h : Divided s free) (hfew : s.pool.pages.length < 2 ^ 32) :
    s.pool.freeCount = free.length ∧ free.length ≤ 2 ^ 48 := by
  have hlen := h.length
  have hle : s.pool.pages.length * (slabPageSize / s.pool.objSize) ≤ 2 ^ 32 * 65536 :=
    Nat.mul_le_mul (Nat.le_of_lt hfew) (Nat.div_le_self _ _)
  rw [h.freeCount]
  exact ⟨Nat.mod_eq_of_lt (by omega),by omega⟩

/-- As long as the page counter does not wrap, the callers can rely on the pool. -/
theorem Divided.sound (h : Divided s free) (hfew : s.pool.pages.length < 2 ^ 32) : Sound s := by
  have hlen := h.length
  have hcount := (h.count hfew).1
  refine ⟨free,h.listed,h.nodup,h.apart,fun a ha => ?_,hcount,?_⟩
  · obtain ⟨page,hpage,i,hi,_,hend⟩ := mem_objects (h.parts.subset ha)
    rw [h.pageSize]
    exact ⟨page,hpage,i,hi,hend⟩
  · rw [hcount,h.pageCount,h.pageSize,Nat.mod_eq_of_lt hfew,hlen]

theorem Divided.perm (h : Divided s free) {out : List Nat} (hperm : s.out.Perm out) :
    Divided { s with out := out } free :=
  { h with parts := (hperm.symm.append_left free).trans h.parts }

theorem Divided.grow (h : Divided s free) (hfits : PagesFit (page.toList ++ s.pool.pages))
    (hrun : poolGrow s.mem s.pool page = some (m',pool')) :
    (∃ free', Divided ⟨m',pool',s.out⟩ free') ∧ pool'.pages = page.toList ++ s.pool.pages := by
  cases page with
  | none =>
    cases hrun
    exact ⟨⟨free,h⟩,rfl⟩
  | some page =>
    rw [poolGrow] at hrun
    split_ifs at hrun with hzero
    have hlarge := h.sized.resolve_left (fun hnone => hzero hnone.1)
    cases hrun
    refine ⟨?_,rfl⟩
    simp only [h.pageSize,perPage_mod]
    refine ⟨(carve s.pool.objSize (slabPageSize / s.pool.objSize) page.base).reverse ++ free,
      rfl,.inr hlarge,hfits,?_,?_,?_,?_⟩
    · refine @listed_pushAll { s.pool with pages := page :: s.pool.pages } _ _ _ hfits (.inr hlarge)
        h.listed ?_
      have hfree : free.Subperm (objects s.pool) :=
        (sublist_append_left free s.out).subperm.trans h.parts.subperm
      exact (subperm_append_left _).mpr hfree
    · rw [append_assoc]
      exact (reverse_perm _).append h.parts
    · simp only [length_append,length_reverse,carve,length_map,length_range,
        h.freeCount]
      omega
    · simp only [length_cons,h.pageCount]
      omega

theorem Divided.pop (h : Divided s free) (hhead : s.pool.freeHead ≠ 0) :
    (∃ rest, Divided ⟨s.mem,poolPop s.mem s.pool,s.pool.freeHead :: s.out⟩ rest) ∧
      (poolPop s.mem s.pool).pages = s.pool.pages := by
  obtain ⟨rest,rfl,hrest⟩ := h.listed.pop hhead
  unfold poolPop
  refine ⟨⟨rest,h.pageSize,h.sized,h.fits,hrest,?_,?_,h.pageCount⟩,rfl⟩
  · have hparts := perm_middle.trans h.parts
    unfold objects at hparts ⊢
    exact hparts
  · have hcount := h.freeCount
    rw [length_cons] at hcount
    show (s.pool.freeCount + 2 ^ 64 - 1) % 2 ^ 64 = _
    omega

theorem Divided.alloc (h : Divided s free) (hfits : PagesFit (page.toList ++ s.pool.pages))
    (hrun : poolAlloc s.mem s.pool page = some (m',pool',node)) :
    (∃ free', Divided ⟨m',pool',if node = 0 then s.out else node :: s.out⟩ free') ∧
      pool'.pages = (if s.pool.freeHead = 0 then page.toList else []) ++ s.pool.pages := by
  rw [poolAlloc] at hrun
  split_ifs at hrun with hhead
  · cases hrun
    rw [if_neg hhead,if_neg hhead]
    exact h.pop hhead
  · obtain ⟨⟨m1,pool1⟩,hgrow,hrun⟩ := bind_eq_some_iff.mp hrun
    obtain ⟨⟨free1,h1⟩,hpages⟩ := h.grow hfits hgrow
    rw [if_pos (not_not.mp hhead),← hpages]
    dsimp only at hrun
    split_ifs at hrun with hhead1
    · cases hrun
      exact ⟨⟨free1,h1⟩,rfl⟩
    · cases hrun
      rw [if_neg hhead1]
      exact h1.pop hhead1

theorem Divided.allocLoop {count : Nat} {m : Memory} {pool : Pool} {pages : List Page}
    {got got' out : List Nat} (h : Divided ⟨m,pool,got ++ out⟩ free)
    (hfits : PagesFit (pages ++ pool.pages))
    (hrun : allocLoop count m pool pages got = some (m',pool',got')) :
    ∃ free', Divided ⟨m',pool',got' ++ out⟩ free' := by
  induction count generalizing m pool pages got free with
  | zero =>
    cases hrun
    exact ⟨free,h⟩
  | succ count ih =>
    obtain ⟨⟨m1,pool1,node⟩,halloc,hrun⟩ := bind_eq_some_iff.mp hrun
    have hhead : PagesFit (pages.head?.toList ++ pool.pages) := by
      refine fits_mono hfits ?_
      cases pages with
      | nil => exact List.Subperm.refl _
      | cons page pages =>
        exact ((sublist_append_right pages pool.pages).cons_cons page).subperm
    obtain ⟨⟨free1,h1⟩,hpages⟩ := h.alloc hhead halloc
    dsimp only at hrun h1 hpages
    -- The pages that are left together with those of the pool are those of before.
    have hleft : ((if pool.freeHead = 0 then pages.tail else pages) ++ pool1.pages).Perm
        (pages ++ pool.pages) := by
      rw [hpages]
      split
      · cases pages with
        | nil => exact List.Perm.refl _
        | cons page pages => exact perm_middle
      · exact List.Perm.refl _
    rcases Nat.eq_zero_or_pos node with hnode | hnode
    · rw [if_pos hnode] at hrun h1
      cases hrun
      exact ⟨free1,h1⟩
    · rw [if_neg (Nat.ne_of_gt hnode)] at hrun h1
      have h2 : Divided ⟨m1,pool1,(got ++ [node]) ++ out⟩ free1 := by
        refine h1.perm ?_
        rw [append_assoc]
        exact perm_middle.symm
      exact ih h2 (fits_mono hfits hleft.subperm) hrun

theorem Divided.pushAll {back : List Nat} (h : Divided s free) (hnodup : back.Nodup)
    (hheld : ∀ ptr ∈ back, ptr ∈ s.out) :
    Listed (pushAll s.mem s.pool.freeHead back).1 (pushAll s.mem s.pool.freeHead back).2
        (back.reverse ++ free) ∧
      ((back.reverse ++ free) ++ s.out.diff back).Perm (objects s.pool) := by
  have hsub : back.Subperm s.out := subperm_of_subset hnodup hheld
  have hback : (back ++ s.out.diff back).Perm s.out :=
    subperm_append_diff_self_of_count_le (subperm_ext_iff.mp hsub)
  have hperm : ((back.reverse ++ free) ++ s.out.diff back).Perm (objects s.pool) := by
    refine List.Perm.trans ?_ ((hback.append_left free).trans h.parts)
    rw [← append_assoc free back]
    exact (((reverse_perm back).append_right free).trans perm_append_comm).append_right _
  refine ⟨listed_pushAll h.fits h.sized h.listed ?_,hperm⟩
  exact (((reverse_perm back).symm.append_right free).subperm.trans
    (sublist_append_left _ _).subperm).trans hperm.subperm

theorem Divided.ne_zero (h : Divided s free) {ptr : Nat} (hptr : ptr ∈ s.out) : ptr ≠ 0 := by
  obtain ⟨page,_,_,_,hle,_⟩ := mem_objects (h.parts.subset (mem_append_right _ hptr))
  have hpos := page.nonnull
  omega

theorem Divided.freeOne (h : Divided s free) {ptr : Nat} (hptr : ptr ∈ s.out)
    (hrun : poolFree s.mem s.pool ptr = (m',pool')) :
    ∃ free', Divided ⟨m',pool',s.out.erase ptr⟩ free' := by
  rw [poolFree,if_neg (h.ne_zero hptr)] at hrun
  cases hrun
  obtain ⟨hlisted,hparts⟩ := h.pushAll (nodup_singleton ptr) (by simpa using hptr)
  refine ⟨ptr :: free,h.pageSize,h.sized,h.fits,hlisted,?_,?_,h.pageCount⟩
  · simp only [reverse_singleton,diff_cons,diff_nil] at hparts
    exact hparts
  · simp only [length_cons,h.freeCount]
    omega

/-- The pointers that `slab_pool_free_bulk` reads are those of the list, and their number is what it
adds to the count. -/
theorem Divided.freeBulk (h : Divided s free) {ptrs : List Nat} {count : Int32}
    (hlegal : s.Legal (.freeBulk ptrs count))
    (hrun : poolFreeBulk s.mem s.pool ptrs count = (m',pool')) :
    ∃ free', Divided ⟨m',pool',s.out.diff (ptrs.take count.toInt.toNat)⟩ free' := by
  obtain ⟨hcount,hlen,hnodup,hheld⟩ := hlegal
  have hall : (ptrs.take count.toInt.toNat).filter (fun ptr => ptr ≠ 0) =
      ptrs.take count.toInt.toNat :=
    filter_eq_self.mpr (fun ptr hptr => by simpa using h.ne_zero (hheld ptr hptr))
  obtain ⟨hlisted,hparts⟩ := h.pushAll hnodup hheld
  rw [poolFreeBulk,hall] at hrun
  cases hrun
  refine ⟨(ptrs.take count.toInt.toNat).reverse ++ free,h.pageSize,h.sized,h.fits,hlisted,hparts,?_,
    h.pageCount⟩
  simp only [length_append,length_reverse,length_take,h.freeCount]
  omega

theorem Divided.write (h : Divided s free) {addr : Nat} {byte : UInt8}
    (hlegal : s.Legal (.write addr byte)) :
    Divided { s with mem := update s.mem addr byte } free := by
  refine { h with listed := h.listed.congr (fun a ha b hle hlt => update_of_ne ?_ _ _) }
  rintro rfl
  have hmem : a ∈ free ++ s.out := mem_append_left _ ha
  obtain ⟨page,hpage,_,_,hbase,hend⟩ := mem_objects (h.parts.subset hmem)
  have hsize : 8 ≤ s.pool.objSize := by
    rcases h.sized with ⟨_,hnil⟩ | hlarge
    · rw [hnil] at hpage
      exact absurd hpage not_mem_nil
    · exact Nat.le_trans (by decide) hlarge
  rcases hlegal with ⟨held,hheld,hstart,hstop⟩ | houtside
  · have hapart := (pairwise_append.mp h.apart).2.2 a ha held hheld
    unfold Apart at hapart
    omega
  · exact houtside page hpage ⟨by omega,by omega⟩

end Divided

/-- The page counter of the pool has not wrapped. -/
def Few (s : PoolUse) : Prop := s.pool.pages.length < 2 ^ 32

instance (s : PoolUse) : Decidable (Few s) := inferInstanceAs (Decidable (_ < _))

theorem divided_step {s s' : PoolUse} {free : List Nat} {op : PoolOp} (h : Divided s free)
    (hstep : stepPool s op = some s') : ∃ free', Divided s' free' := by
  rw [stepPool] at hstep
  split_ifs at hstep with hlegal
  cases op with
  | alloc page =>
    obtain ⟨⟨m',pool',node⟩,halloc,hstep⟩ := bind_eq_some_iff.mp hstep
    cases hstep
    exact (h.alloc hlegal halloc).1
  | free ptr =>
    cases hstep
    exact h.freeOne hlegal rfl
  | allocBulk count pages =>
    obtain ⟨⟨m',pool',got⟩,halloc,hstep⟩ := bind_eq_some_iff.mp hstep
    cases hstep
    rw [poolAllocBulk] at halloc
    split_ifs at halloc
    · cases halloc
      exact ⟨free,h⟩
    · have hnone : Divided ⟨s.mem,s.pool,[] ++ s.out⟩ free := h
      exact hnone.allocLoop hlegal halloc
  | freeBulk ptrs count =>
    cases hstep
    exact h.freeBulk hlegal rfl
  | write addr byte =>
    cases hstep
    exact ⟨free,h.write hlegal⟩

theorem sound_step (s : PoolUse) (op : PoolOp) (s' : PoolUse) (h : ∃ free, Divided s free)
    (_ : True) (hstep : stepPool s op = some s') (hfew : Few s') :
    Sound s' ∧ ∃ free, Divided s' free := by
  obtain ⟨free,h⟩ := h
  obtain ⟨free',h'⟩ := divided_step h hstep
  exact ⟨h'.sound hfew,free',h'⟩

theorem roundSize_sized {size alignment : Nat} (hsize : size < 2 ^ 64) (hpos : 0 < alignment) :
    roundSize size alignment = 0 ∨ size ≤ roundSize size alignment := by
  unfold roundSize
  rcases Nat.lt_or_ge (size + alignment - 1) (2 ^ 64) with hlt | hge
  · right
    rw [Nat.mod_eq_of_lt hlt]
    have hdiv := Nat.div_add_mod (size + alignment - 1) alignment
    have hmod := Nat.mod_lt (size + alignment - 1) hpos
    rw [Nat.mul_comm] at hdiv
    omega
  · left
    have hlt : (size + alignment - 1) % 2 ^ 64 < alignment := by omega
    rw [Nat.div_eq_of_lt hlt,Nat.zero_mul]

theorem divided_new {m m' : Memory} {addr : Nat} {objSize alignment : UInt64} {page : Option Page}
    {pool : Pool} (hfits : PagesFit page.toList)
    (hrun : poolNew m addr objSize.toNat alignment.toNat page = some (m',pool)) :
    (∃ free, Divided ⟨m',pool,[]⟩ free) ∧ pool.pages = page.toList := by
  rw [poolNew] at hrun
  generalize hsize : (if objSize.toNat < slabMinObjSize then slabMinObjSize else objSize.toNat) =
    size at hrun
  generalize halign : (if alignment.toNat = 0 then slabDefaultAlignment else alignment.toNat) =
    align at hrun
  have hmin : slabMinObjSize ≤ size ∧ size < 2 ^ 64 := by
    have hlt := objSize.toNat_lt
    have hval : slabMinObjSize < 2 ^ 64 := by decide
    split_ifs at hsize <;> omega
  have hpos : 0 < align := by
    have hval : 0 < slabDefaultAlignment := by decide
    split_ifs at halign <;> omega
  have hempty : Divided ⟨m,⟨addr,roundSize size align,align,slabPageSize,0,0,[],0⟩,[]⟩ [] := by
    refine ⟨rfl,?_,⟨forall_mem_nil _,List.Pairwise.nil⟩,.nil,.refl _,rfl,rfl⟩
    rcases roundSize_sized hmin.2 hpos with hzero | hle
    · exact .inl ⟨hzero,rfl⟩
    · exact .inr (Nat.le_trans hmin.1 hle)
  have hgrown := hempty.grow (by simpa using hfits) hrun
  rwa [append_nil] at hgrown

/-- From a new pool on, whatever is done with it, its objects are divided up soundly between the free
list and the callers as long as its pages can be counted in 32 bits. -/
theorem objects_never_overlap (m m' : Memory) (addr : Nat) (objSize alignment : UInt64)
    (page : Option Page) (pool : Pool) (hfits : PagesFit page.toList)
    (hnew : poolNew m addr objSize.toNat alignment.toNat page = some (m',pool))
    (ops : List PoolOp) (hfew : Run.Along stepPool (fun _ _ s' => Few s') ⟨m',pool,[]⟩ ops) :
    Sound ⟨m',pool,[]⟩ ∧ Run.Along stepPool (fun _ _ s' => Sound s') ⟨m',pool,[]⟩ ops := by
  obtain ⟨h,hpages⟩ := divided_new hfits hnew
  refine ⟨?_,Run.along_mono sound_step ops _ h (fun _ _ => trivial) hfew⟩
  obtain ⟨free,h⟩ := h
  refine h.sound ?_
  rw [hpages]
  cases page with
  | none => exact (by decide : 0 < 2 ^ 32)
  | some page => exact (by decide : 1 < 2 ^ 32)

def quarterPage : Page := ⟨65536,by decide⟩

def quarterPool : PoolUse :=
  ⟨(pushAll (fun _ => 0) 0 (carve 16384 4 65536)).1,⟨1,16384,16,65536,114688,4,[quarterPage],1⟩,[]⟩

theorem quarterPool_new :
    poolNew (fun _ => 0) 1 (16384 : UInt64).toNat (16 : UInt64).toNat (some quarterPage) =
      some (quarterPool.mem,quarterPool.pool) := rfl

/-- Objects of a quarter page each are taken and freed one by one and in bulk. -/
theorem objects_never_overlap_quarters :
    Sound quarterPool ∧ Run.Along stepPool (fun _ _ s' => Sound s') quarterPool
      [.alloc none,.allocBulk 4 [⟨262144,by decide⟩],.write 114690 7,.free 114688,
        .freeBulk [98304,81920] 2] :=
  objects_never_overlap (fun _ => 0) quarterPool.mem 1 16384 16 (some quarterPage) quarterPool.pool
    (by decide) quarterPool_new _ (by decide +kernel)

end Gravel.Proofs.SlabObjects
