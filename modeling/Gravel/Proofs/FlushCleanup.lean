import Gravel.Proofs.PageMap
import Mathlib.Logic.Basic

namespace Gravel.Proofs.FlushCleanup
open LinearProbe PageMap List Option Function

def OnPath (wb : WriteBuffer) (a b : Nat) : Prop :=
  ∃ i < wb.capacity, ∃ j < wb.capacity, (wb.slots i).pageId = a ∧ (wb.slots j).pageId = b ∧
    gap wb.capacity (pagemapHome wb.capacity b) i < gap wb.capacity (pagemapHome wb.capacity b) j

instance (wb : WriteBuffer) (a b : Nat) : Decidable (OnPath wb a b) :=
  inferInstanceAs (Decidable (∃ i < wb.capacity, ∃ j < wb.capacity, _ ∧ _ ∧ _))

/-- Emptying the slots of `pages` one after the other never cuts the probe path
of a page that is emptied later. -/
def ChainsClear (wb : WriteBuffer) (pages : List Nat) : Prop :=
  pages.Pairwise (fun a b => ¬ OnPath wb a b)

instance (wb : WriteBuffer) (pages : List Nat) : Decidable (ChainsClear wb pages) :=
  inferInstanceAs (Decidable (List.Pairwise _ _))

structure EmptiedBy (orig wb : WriteBuffer) (gone : List Nat) : Prop where
  capacity : wb.capacity = orig.capacity
  slots : ∀ i < orig.capacity,
    wb.slots i = if (orig.slots i).pageId ∈ gone then emptySlot else orig.slots i

section Paths

variable {orig wb : WriteBuffer} {gone : List Nat} {pg j : Nat}

theorem EmptiedBy.stored (he : EmptiedBy orig wb gone) (hj : j < orig.capacity)
    (hpg : (orig.slots j).pageId = pg) (hg : pg ∉ gone) : wb.slots j = orig.slots j := by
  rw [he.slots j hj,if_neg (by rw [hpg]; exact hg)]

theorem EmptiedBy.unique (he : EmptiedBy orig wb gone) (h : Sound orig) (hj : j < orig.capacity)
    (hpg : (orig.slots j).pageId = pg) (hne : pg ≠ pageSlotEmpty) :
    ∀ l < orig.capacity, pageAt wb.slots l = some pg → l = j := by
  intro l hl hlp
  obtain ⟨hlp,_⟩ := pageAt_eq_some.mp hlp
  rw [he.slots l hl] at hlp
  split_ifs at hlp with hm
  · exact absurd hlp.symm hne
  · exact h.unique hj hl (by rw [hpg]; exact hne) (by rw [hlp,hpg])

/-- A page that is still stored can be walked to exactly when no emptied page
was on its probe path. -/
theorem EmptiedBy.reaches_iff (he : EmptiedBy orig wb gone) (h : Sound orig)
    (hj : j < orig.capacity) (hpg : (orig.slots j).pageId = pg) (hne : pg ≠ pageSlotEmpty) :
    Reaches orig.capacity (pagemapHome orig.capacity) (pageAt wb.slots) pg j ↔
      ∀ a ∈ gone, ¬ OnPath orig a pg := by
  have hh : pagemapHome orig.capacity pg < orig.capacity := home_lt h.pow
  constructor
  · intro hr a ha hon
    obtain ⟨i,hi,l,hl,hia,hlp,hlt⟩ := hon
    have hlj : l = j := h.unique hj hl (by rw [hpg]; exact hne) (by rw [hlp,hpg])
    subst hlj
    have := hr _ hlt
    rw [walk_gap hh hi] at this
    apply this
    rw [pageAt_eq_none,he.slots i hi,if_pos (by rw [hia]; exact ha)]
    rfl
  · intro hno d hd hn
    have hdc : d < orig.capacity := Nat.lt_trans hd (gap_lt hh hj)
    have hic := Nat.mod_lt (pagemapHome orig.capacity pg + d) (pow_two_pos h.pow)
    have horig := h.probed.reach j hj pg (by simp [hpg,hne]) d hd
    rw [pageAt_eq_none,he.slots _ hic] at hn
    split_ifs at hn with hm
    · refine hno _ hm ⟨_,hic,j,hj,rfl,hpg,?_⟩
      rw [gap_walk hh hdc]
      exact hd
    · exact horig (by rw [pageAt_eq_none]; exact hn)

end Paths

structure Dropped (orig wb : WriteBuffer) (gone pages : List Nat) (wb' : WriteBuffer)
    (found : List Nat) : Prop where
  sub : found.Sublist pages
  emptied : EmptiedBy orig wb' (gone ++ found)
  bufs : (heldBufs wb' ++ wb'.pagePool).Perm (heldBufs wb ++ wb.pagePool)
  length : (liveSlots wb'.capacity wb'.slots).length + found.length =
    (liveSlots wb.capacity wb.slots).length
  count : wb'.count = wb.count
  maxPages : wb'.maxPages = wb.maxPages
  flushBytes : wb'.flushBytes = wb.flushBytes
  all_iff : found = pages ↔
    ChainsClear orig pages ∧ ∀ a ∈ gone, ∀ b ∈ pages, ¬ OnPath orig a b

section Drop

variable {orig : WriteBuffer} {wb : WriteBuffer} {gone : List Nat} {pg j : Nat}

def dropSlot (wb : WriteBuffer) (j : Nat) : WriteBuffer :=
  { writeBufRecyclePage wb (wb.slots j).data with
    slots := update wb.slots j emptySlot }

theorem dropSlot_emptied (h : Sound orig) (he : EmptiedBy orig wb gone) (hj : j < orig.capacity)
    (hpg : (orig.slots j).pageId = pg) (hne : pg ≠ pageSlotEmpty) :
    EmptiedBy orig (dropSlot wb j) (gone ++ [pg]) := by
  refine ⟨he.capacity,?_⟩
  intro i hi
  by_cases hij : i = j
  · subst hij
    simp [dropSlot,hpg]
  · have hip : (orig.slots i).pageId ≠ pg := by
      intro hip
      exact hij (h.unique hj hi (by rw [hpg]; exact hne) (by rw [hip,hpg]))
    simp [dropSlot,update_of_ne hij,he.slots i hi,hip]

theorem dropSlot_live (hj : j < wb.capacity) (ho : (wb.slots j).pageId ≠ pageSlotEmpty) :
    (liveSlots wb.capacity wb.slots).Perm
      (wb.slots j :: liveSlots (dropSlot wb j).capacity (dropSlot wb j).slots) :=
  liveSlots_clear hj ho

theorem dropSlot_bufs (hj : j < wb.capacity) (ho : (wb.slots j).pageId ≠ pageSlotEmpty) :
    (heldBufs (dropSlot wb j) ++ (dropSlot wb j).pagePool).Perm (heldBufs wb ++ wb.pagePool) := by
  have hp := ((dropSlot_live hj ho).map PageSlot.data).append_right wb.pagePool
  exact (perm_middle.trans hp.symm)

theorem dropPages_spec (h : Sound orig) (pages : List Nat) :
    ∀ (wb : WriteBuffer) (gone : List Nat), EmptiedBy orig wb gone →
      (∀ a ∈ gone ++ pages, a ≠ pageSlotEmpty ∧ ∃ i < orig.capacity, (orig.slots i).pageId = a) →
      (gone ++ pages).Nodup →
      ∃ wb' found, dropPages wb pages = some wb' ∧ Dropped orig wb gone pages wb' found := by
  induction pages with
  | nil =>
    intro wb gone he hin hnd
    exact ⟨wb,[],rfl,.slnil,by simpa using he,.refl _,by simp,rfl,rfl,rfl,by simp [ChainsClear]⟩
  | cons pg rest ih =>
    intro wb gone he hin hnd
    obtain ⟨hne,j,hj,hpg⟩ := hin pg (by simp)
    have hgone : pg ∉ gone := by
      intro hm
      exact disjoint_of_nodup_append hnd hm (by simp)
    have hstored := he.stored hj hpg hgone
    have hpgw : (wb.slots j).pageId = pg := by rw [hstored,hpg]
    have hreach := he.reaches_iff h hj hpg hne
    have huniq := he.unique h hj hpg hne
    have hfind := find_eq_probe wb.slots wb.capacity hne
    rw [he.capacity] at hfind
    by_cases hr : Reaches orig.capacity (pagemapHome orig.capacity) (pageAt wb.slots) pg j
    · -- The page is found: its slot is emptied before the next look-up.
      rw [search_reached h.pow (home_lt h.pow) hj (by simp [hpgw,hne]) hr huniq] at hfind
      obtain ⟨wb',found,hdrop,hd⟩ := ih (dropSlot wb j) (gone ++ [pg])
        (dropSlot_emptied h he hj hpg hne) (by simpa using hin) (by simpa using hnd)
      have hjw : j < wb.capacity := by rw [he.capacity]; exact hj
      have how : (wb.slots j).pageId ≠ pageSlotEmpty := by rw [hpgw]; exact hne
      refine ⟨wb',pg :: found,?_,hd.sub.cons_cons pg,by simpa using hd.emptied,
        hd.bufs.trans (dropSlot_bufs hjw how),?_,hd.count,hd.maxPages,hd.flushBytes,?_⟩
      · simp only [dropPages,he.capacity,hfind,bind_eq_bind,bind_some,hpgw,
          ne_eq,not_true_eq_false,if_false]
        exact hdrop
      · have := (dropSlot_live hjw how).length_eq
        have hl := hd.length
        simp only [length_cons] at this ⊢
        omega
      · rw [List.cons.injEq,eq_self,true_and,hd.all_iff]
        simp only [ChainsClear,pairwise_cons,mem_append,mem_cons,
          not_mem_nil,or_false]
        constructor
        · rintro ⟨hpw,hon⟩
          refine ⟨⟨fun b hb => hon pg (.inr rfl) b hb,hpw⟩,?_⟩
          rintro a ha b (rfl | hb)
          · exact hreach.mp hr a ha
          · exact hon a (.inl ha) b hb
        · rintro ⟨⟨hhead,hpw⟩,hon⟩
          refine ⟨hpw,?_⟩
          rintro a (ha | rfl) b hb
          · exact hon a ha b (.inr hb)
          · exact hhead b hb
    · -- The look-up stops at an emptied slot and the page is skipped.
      obtain ⟨l,hl,hprobe,hlnone⟩ := search_hidden h.pow (home_lt h.pow) huniq hr
      rw [hprobe] at hfind
      obtain ⟨wb',found,hdrop,hd⟩ := ih wb gone he
        (fun a ha => hin a (by
          rcases mem_append.mp ha with ha | ha
          · exact mem_append_left _ ha
          · exact mem_append_right _ (mem_cons_of_mem _ ha)))
        (hnd.sublist (List.Sublist.append_left (sublist_cons_self _ _) _))
      have hlp : (wb.slots l).pageId ≠ pg := by
        rw [pageAt_eq_none.mp hlnone]
        exact hne.symm
      refine ⟨wb',found,?_,hd.sub.cons pg,hd.emptied,hd.bufs,hd.length,hd.count,hd.maxPages,
        hd.flushBytes,?_⟩
      · simp only [dropPages,he.capacity,hfind,bind_eq_bind,bind_some,
          ne_eq,hlp,not_false_eq_true,if_true]
        exact hdrop
      · constructor
        · intro hf
          have := hd.sub.length_le
          rw [hf,length_cons] at this
          omega
        · rintro ⟨_,hon⟩
          exact absurd (hreach.mpr (fun a ha => hon a ha pg (by simp))) hr

end Drop

theorem recyclePages_spec {orig : WriteBuffer} (h : Sound orig) (pages : List Nat) :
    ∀ wb : WriteBuffer, wb.capacity = orig.capacity → wb.slots = orig.slots →
      (∀ p ∈ pages, p ≠ pageSlotEmpty ∧ ∃ i < orig.capacity, (orig.slots i).pageId = p) →
      ∃ ss : List PageSlot, ss.map PageSlot.pageId = pages ∧
        (∀ s ∈ ss, s ∈ liveSlots orig.capacity orig.slots) ∧
        recyclePages wb pages =
          some { wb with pagePool := (ss.map PageSlot.data).reverse ++ wb.pagePool } := by
  induction pages with
  | nil =>
    intro wb _ _ _
    exact ⟨[],rfl,by simp,by simp [recyclePages]⟩
  | cons pg rest ih =>
    intro wb hcap hslots hin
    obtain ⟨hne,i,hi,hpg⟩ := hin pg (by simp)
    have hf := h.found i hi (by rw [hpg]; exact hne)
    rw [hpg,← hcap,← hslots] at hf
    obtain ⟨ss,hmap,hmem,hrec⟩ := ih (writeBufRecyclePage wb (wb.slots i).data) hcap hslots
      (fun p hp => hin p (mem_cons_of_mem _ hp))
    have hpgw : (wb.slots i).pageId = pg := by rw [hslots,hpg]
    refine ⟨wb.slots i :: ss,by simp [hpgw,hmap],?_,?_⟩
    · intro s hs
      rcases mem_cons.mp hs with rfl | hs
      · exact mem_liveSlots.mpr ⟨by rw [hpgw]; exact hne,i,hi,by rw [hslots]⟩
      · exact hmem s hs
    · simp only [recyclePages,hf,bind_eq_bind,bind_some,hpgw,ne_eq,
        not_true_eq_false,if_false]
      rw [hrec]
      simp [writeBufRecyclePage]

theorem reinsertSlots_spec {capacity : Nat} (hc : capacity.isPowerOfTwo) (ss : List PageSlot) :
    ∀ slots : Nat → PageSlot, Probed capacity (pagemapHome capacity) (pageAt slots) →
      ((ss ++ liveSlots capacity slots).map PageSlot.pageId).Nodup →
      (∀ s ∈ ss, s.pageId ≠ pageSlotEmpty) →
      ss.length + occupied capacity (pageAt slots) < capacity →
      ∃ slots', reinsertSlots capacity slots ss = some slots' ∧
        Probed capacity (pagemapHome capacity) (pageAt slots') ∧
        (liveSlots capacity slots').Perm (ss ++ liveSlots capacity slots) := by
  induction ss with
  | nil =>
    intro slots hp _ _ _
    exact ⟨slots,rfl,hp,by simp⟩
  | cons s rest ih =>
    intro slots hp hnd hne hroom
    have hsne := hne s (by simp)
    have habsent : ∀ j < capacity, pageAt slots j ≠ some s.pageId := by
      intro j hj hjs
      obtain ⟨hjs,_⟩ := pageAt_eq_some.mp hjs
      rw [map_append] at hnd
      refine disjoint_of_nodup_append hnd (a := s.pageId) (by simp) ?_
      exact List.mem_map.mpr
        ⟨slots j,mem_liveSlots.mpr ⟨by rw [hjs]; exact hsne,j,hj,rfl⟩,hjs⟩
    simp only [length_cons] at hroom
    have hlow : occupied capacity (pageAt slots) < capacity := by omega
    obtain ⟨e,he,hen⟩ := exists_empty hlow
    obtain ⟨idx,hidx⟩ := probe_total (stopFor (pageAt slots) s.pageId) hc
      (home_lt hc (p := s.pageId)) he (by simp [stopFor,hen])
    obtain ⟨hlt,hr,hnone⟩ := search_absent hc (home_lt hc) habsent hidx
    have hnew : pageAt (update slots idx s) idx = some s.pageId := by simp [hsne]
    have hprobed := hp.insert (pow_two_pos hc) hlt hnone habsent hr hnew
      (fun j _ hji => pageAt_update hji)
    have hfill := liveSlots_fill hlt (pageAt_eq_none.mp hnone) hsne
    have hocc : occupied capacity (pageAt (update slots idx s)) =
        occupied capacity (pageAt slots) + 1 :=
      occupied_fill hlt hnone (by rw [hnew]; rfl) (fun j _ hji => pageAt_update hji)
    have hperm : (rest ++ liveSlots capacity (update slots idx s)).Perm
        (s :: rest ++ liveSlots capacity slots) :=
      (hfill.append_left rest).trans perm_middle
    obtain ⟨slots',hre,hprobed',hlive⟩ := ih (update slots idx s) hprobed
      ((hperm.map PageSlot.pageId).nodup_iff.mpr hnd)
      (fun q hq => hne q (mem_cons_of_mem _ hq)) (by omega)
    refine ⟨slots',?_,hprobed',hlive.trans hperm⟩
    simp only [reinsertSlots,find_eq_probe _ _ hsne,hidx,bind_eq_bind,bind_some]
    exact hre

section Cleanup

variable {wb : WriteBuffer} {pages : List Nat} {limit : Nat}

structure Batch (wb : WriteBuffer) (pages : List Nat) : Prop where
  nodup : pages.Nodup
  stored : ∀ p ∈ pages, p ≠ pageSlotEmpty ∧ ∃ i < wb.capacity, (wb.slots i).pageId = p

theorem batch_collect (h : Sound wb) (hp : pages.Perm (collectPages limit wb)) : Batch wb pages :=
  ⟨hp.nodup_iff.mpr (collectPages_nodup h limit),
    fun _ hm => mem_collectPages (hp.mem_iff.mp hm)⟩

theorem batch_length (h : Sound wb) (hp : pages.Perm (collectPages limit wb)) :
    pages.length = min limit wb.count := by
  rw [hp.length_eq,collectPages_length h]

theorem Batch.length_le (hb : Batch wb pages) (h : Sound wb) : pages.length ≤ wb.count := by
  rw [← h.live_length,← length_map (f := PageSlot.pageId)]
  apply (List.Nodup.subperm hb.nodup ?_).length_le
  intro p hm
  obtain ⟨hne,i,hi,rfl⟩ := hb.stored p hm
  exact List.mem_map.mpr ⟨wb.slots i,mem_liveSlots.mpr ⟨hne,i,hi,rfl⟩,rfl⟩

theorem cleanup_full (h : Sound wb) (hb : Batch wb pages) (hn : pages.length = wb.count)
    (mallocOk : Bool) :
    ∃ bufs : List PageBuf, bufs.Perm (heldBufs wb) ∧
      flushCleanup mallocOk wb pages = some { wb with
        slots := fun _ => emptySlot, count := 0, pagePool := bufs ++ wb.pagePool } := by
  obtain ⟨ss,hmap,hmem,hrec⟩ := recyclePages_spec h pages wb rfl rfl hb.stored
  have hss : ss.Perm (liveSlots wb.capacity wb.slots) := by
    have hnd : ss.Nodup := List.Nodup.of_map PageSlot.pageId (by rw [hmap]; exact hb.nodup)
    apply (List.Nodup.subperm hnd hmem).perm_of_length_le
    rw [h.live_length,← hn,← hmap,length_map]
  refine ⟨(ss.map PageSlot.data).reverse,
    (reverse_perm _).trans (hss.map PageSlot.data),?_⟩
  simp [flushCleanup,hn,hrec]

/-- A clean-up of some of the buffered pages: `wb1` is the table after the emptying
loop, of which the sweep keeps as many slots as `count` says should be left. -/
structure PartialClean (wb : WriteBuffer) (pages : List Nat) (wb1 : WriteBuffer)
    (found : List Nat) (wb' : WriteBuffer) : Prop where
  dropped : Dropped wb wb [] pages wb1 found
  capacity : wb'.capacity = wb.capacity
  maxPages : wb'.maxPages = wb.maxPages
  flushBytes : wb'.flushBytes = wb.flushBytes
  pool : wb'.pagePool = wb1.pagePool
  probed : Probed wb'.capacity (pagemapHome wb'.capacity) (pageAt wb'.slots)
  live : (liveSlots wb'.capacity wb'.slots).Perm
    ((liveSlots wb1.capacity wb1.slots).take (wb.count - pages.length))
  count : wb'.count = (liveSlots wb'.capacity wb'.slots).length

theorem EmptiedBy.live_sub {wb1 : WriteBuffer} {gone : List Nat} (he : EmptiedBy wb wb1 gone)
    {s : PageSlot} (hs : s ∈ liveSlots wb1.capacity wb1.slots) :
    s ∈ liveSlots wb.capacity wb.slots ∧ s.pageId ∉ gone := by
  obtain ⟨hne,i,hi,rfl⟩ := mem_liveSlots.mp hs
  rw [he.capacity] at hi
  have hsl := he.slots i hi
  split_ifs at hsl with hm
  · rw [hsl] at hne
    exact absurd rfl hne
  · rw [hsl] at hne ⊢
    exact ⟨mem_liveSlots.mpr ⟨hne,i,hi,rfl⟩,hm⟩

theorem EmptiedBy.live_keep {wb1 : WriteBuffer} {gone : List Nat} (he : EmptiedBy wb wb1 gone)
    {s : PageSlot} (hs : s ∈ liveSlots wb.capacity wb.slots) (hg : s.pageId ∉ gone) :
    s ∈ liveSlots wb1.capacity wb1.slots := by
  obtain ⟨hne,i,hi,rfl⟩ := mem_liveSlots.mp hs
  have hsl := he.slots i hi
  rw [if_neg hg] at hsl
  exact mem_liveSlots.mpr ⟨hne,i,by rw [he.capacity]; exact hi,hsl⟩

theorem EmptiedBy.live_nodup {wb1 : WriteBuffer} {gone : List Nat} (h : Sound wb)
    (he : EmptiedBy wb wb1 gone) :
    ((liveSlots wb1.capacity wb1.slots).map PageSlot.pageId).Nodup := by
  apply liveSlots_nodup
  intro i hi j hj p hip hjp
  rw [he.capacity] at hi hj
  obtain ⟨hip,hp⟩ := pageAt_eq_some.mp hip
  obtain ⟨hjp,-⟩ := pageAt_eq_some.mp hjp
  have hkept : ∀ l < wb.capacity, (wb1.slots l).pageId = p → (wb.slots l).pageId = p := by
    intro l hl hlp
    have hsl := he.slots l hl
    split_ifs at hsl
    · rw [hsl] at hlp
      exact absurd hlp.symm hp
    · rwa [hsl] at hlp
  have hi' := hkept i hi hip
  have hj' := hkept j hj hjp
  exact (h.unique hi hj (by rwa [hi']) (by rw [hi',hj'])).symm

theorem cleanup_partial (h : Sound wb) (hb : Batch wb pages) (hn : pages.length < wb.count) :
    ∃ wb1 found wb', flushCleanup true wb pages = some wb' ∧
      PartialClean wb pages wb1 found wb' := by
  obtain ⟨wb1,found,hdrop,hd⟩ := dropPages_spec h pages wb []
    ⟨rfl,by simp⟩ (by simpa using hb.stored) (by simpa using hb.nodup)
  have hcap := hd.emptied.capacity
  have hroom := h.room
  have hrem : sub32 wb1.count pages.length = wb.count - pages.length := by
    rw [hd.count]
    exact sub32_of_le (Nat.le_of_lt hn)
  have hpow : wb1.capacity.isPowerOfTwo := by rw [hcap]; exact h.pow
  have hlen : (sweepSlots (wb.count - pages.length) wb1).length ≤ wb.count - pages.length := by
    rw [sweepSlots,length_take]
    exact Nat.min_le_left _ _
  obtain ⟨slots',hre,hprobed,hlive⟩ := reinsertSlots_spec hpow
    (sweepSlots (wb.count - pages.length) wb1) (fun _ => emptySlot)
    (by
      have : pageAt (fun _ => emptySlot) = fun _ => none := by
        funext i
        simp [emptySlot]
      rw [this]
      exact probed_empty)
    (by
      rw [liveSlots_empty,append_nil]
      exact (hd.emptied.live_nodup h).sublist ((take_sublist _ _).map _))
    (fun s hs => (mem_liveSlots.mp (mem_of_mem_take hs)).1)
    (by
      rw [← liveSlots_length,liveSlots_empty,hcap,length_nil]
      omega)
  rw [liveSlots_empty,append_nil] at hlive
  refine ⟨wb1,found,{ wb1 with
    slots := slots',
    count := (sweepSlots (wb.count - pages.length) wb1).length },?_,
    hd,hcap,hd.maxPages,hd.flushBytes,rfl,hprobed,hlive,hlive.length_eq.symm⟩
  have hne : pages.length ≠ wb.count := by omega
  have hpos : 0 < wb.count - pages.length := by omega
  simp [flushCleanup,hne,hdrop,hrem,hpos,hre]

structure Cleaned (wb : WriteBuffer) (pages : List Nat) (wb' : WriteBuffer) : Prop where
  sound : Sound wb'
  capacity : wb'.capacity = wb.capacity
  maxPages : wb'.maxPages = wb.maxPages
  flushBytes : wb'.flushBytes = wb.flushBytes
  sub : ∀ s ∈ liveSlots wb'.capacity wb'.slots, s ∈ liveSlots wb.capacity wb.slots
  shrunk : wb'.count + pages.length ≤ wb.count
  addrs : ((heldBufs wb' ++ wb'.pagePool).map PageBuf.addr).Subperm
    ((heldBufs wb ++ wb.pagePool).map PageBuf.addr)

structure Lossless (wb : WriteBuffer) (pages : List Nat) (wb' : WriteBuffer) : Prop where
  live : ∀ s, s ∈ liveSlots wb'.capacity wb'.slots ↔
    s ∈ liveSlots wb.capacity wb.slots ∧ s.pageId ∉ pages
  bufs : (heldBufs wb' ++ wb'.pagePool).Perm (heldBufs wb ++ wb.pagePool)

theorem sound_of_probed {wb' : WriteBuffer} (hc : wb'.capacity.isPowerOfTwo)
    (hroom : wb'.count < wb'.capacity)
    (hcount : wb'.count = (liveSlots wb'.capacity wb'.slots).length)
    (hp : Probed wb'.capacity (pagemapHome wb'.capacity) (pageAt wb'.slots))
    (ho : ((heldBufs wb' ++ wb'.pagePool).map PageBuf.addr).Nodup) : Sound wb' :=
  ⟨hc,hroom,by rw [hcount,liveSlots_length],fun _ hi hn => found_of_probed hc hp hi hn,ho⟩

theorem full_cleaned (h : Sound wb) (hb : Batch wb pages) (hn : pages.length = wb.count)
    (mallocOk : Bool) :
    ∃ wb', flushCleanup mallocOk wb pages = some wb' ∧ Cleaned wb pages wb' ∧
      Lossless wb pages wb' := by
  obtain ⟨bufs,hperm,hflush⟩ := cleanup_full h hb hn mallocOk
  have hbufs : (bufs ++ wb.pagePool).Perm (heldBufs wb ++ wb.pagePool) :=
    hperm.append_right _
  refine ⟨_,hflush,⟨?_,rfl,rfl,rfl,by simp [liveSlots_empty],by simp [hn],?_⟩,?_,?_⟩
  · refine sound_of_probed h.pow (pow_two_pos h.pow) (by simp [liveSlots_empty]) ?_ ?_
    · have : pageAt (fun _ => emptySlot) = fun _ => none := by
        funext i
        simp [emptySlot]
      simp only [this]
      exact probed_empty
    · simp only [heldBufs,liveSlots_empty,map_nil,nil_append]
      exact (hbufs.map PageBuf.addr).nodup_iff.mpr h.owned
  · simp only [heldBufs,liveSlots_empty,map_nil,nil_append]
    exact (hbufs.map PageBuf.addr).subperm
  · intro s
    simp only [liveSlots_empty,not_mem_nil,false_iff,not_and,not_not]
    intro hs
    -- The batch has as many distinct stored pages as the table, so it has them all.
    have hsub : pages.Subperm ((liveSlots wb.capacity wb.slots).map PageSlot.pageId) := by
      apply List.Nodup.subperm hb.nodup
      intro p hp
      obtain ⟨hne,i,hi,rfl⟩ := hb.stored p hp
      exact List.mem_map.mpr ⟨wb.slots i,mem_liveSlots.mpr ⟨hne,i,hi,rfl⟩,rfl⟩
    have hall := hsub.perm_of_length_le (by rw [length_map,h.live_length,hn])
    exact hall.mem_iff.mpr (List.mem_map_of_mem hs)
  · simp only [heldBufs,liveSlots_empty,map_nil,nil_append]
    exact hbufs

section Partial

variable {wb1 wb' : WriteBuffer} {found : List Nat}

theorem PartialClean.cleaned (hp : PartialClean wb pages wb1 found wb') (h : Sound wb)
    (hn : pages.length < wb.count) : Cleaned wb pages wb' := by
  have hlen := hp.live.length_eq
  rw [length_take,← hp.count] at hlen
  have hroom := h.room
  have hsub : ((heldBufs wb' ++ wb'.pagePool).map PageBuf.addr).Subperm
      ((heldBufs wb ++ wb.pagePool).map PageBuf.addr) := by
    refine List.Subperm.trans ?_ (hp.dropped.bufs.map PageBuf.addr).subperm
    rw [hp.pool]
    refine (((hp.live.map PageSlot.data).append_right _).map PageBuf.addr).subperm.trans ?_
    exact ((((take_sublist _ _).map PageSlot.data).append_right _).map
      PageBuf.addr).subperm
  refine ⟨sound_of_probed (by rw [hp.capacity]; exact h.pow) ?_ hp.count hp.probed ?_,
    hp.capacity,hp.maxPages,hp.flushBytes,?_,?_,hsub⟩
  · rw [hp.capacity]
    omega
  · obtain ⟨l,hperm,hl⟩ := hsub
    exact hperm.nodup_iff.mp (h.owned.sublist hl)
  · intro s hs
    exact (hp.dropped.emptied.live_sub (mem_of_mem_take (hp.live.mem_iff.mp hs))).1
  · omega

theorem PartialClean.lossless (hp : PartialClean wb pages wb1 found wb') (h : Sound wb)
    (hf : ChainsClear wb pages) : Lossless wb pages wb' := by
  have hfound : found = pages := hp.dropped.all_iff.mpr ⟨hf,by simp⟩
  subst hfound
  have hlen := hp.dropped.length
  rw [h.live_length] at hlen
  have hlive := hp.live
  rw [take_of_length_le (by omega)] at hlive
  refine ⟨?_,?_⟩
  · intro s
    rw [hlive.mem_iff]
    constructor
    · intro hs
      simpa using hp.dropped.emptied.live_sub hs
    · rintro ⟨hs,hn⟩
      exact hp.dropped.emptied.live_keep hs (by simpa using hn)
  · rw [hp.pool]
    exact ((hlive.map PageSlot.data).append_right _).trans hp.dropped.bufs

/-- When a look-up failed, the sweep stops before the last occupied slot: the
buffer of a slot it leaves out is neither in the table nor in the pool. -/
theorem PartialClean.lost (hp : PartialClean wb pages wb1 found wb') (h : Sound wb)
    (hn : pages.length < wb.count) (hf : ¬ ChainsClear wb pages) :
    ∃ b ∈ heldBufs wb ++ wb.pagePool, b.addr ∉ (heldBufs wb').map PageBuf.addr ∧
      b.addr ∉ wb'.pagePool.map PageBuf.addr := by
  have hne : found ≠ pages := fun he => hf (hp.dropped.all_iff.mp he).1
  have hlt : found.length < pages.length := by
    rcases Nat.lt_or_ge found.length pages.length with hl | hl
    · exact hl
    · exact absurd (hp.dropped.sub.eq_of_length_le hl) hne
  have hlen := hp.dropped.length
  rw [h.live_length] at hlen
  generalize hlive1 : liveSlots wb1.capacity wb1.slots = live1 at hlen
  have howned := (hp.dropped.bufs.map PageBuf.addr).nodup_iff.mpr h.owned
  have hsplit : heldBufs wb1 = (live1.take (wb.count - pages.length)).map PageSlot.data ++
      (live1.drop (wb.count - pages.length)).map PageSlot.data := by
    rw [← map_append,take_append_drop,heldBufs,hlive1]
  obtain ⟨s,hs⟩ := exists_mem_of_length_pos (l := live1.drop (wb.count - pages.length))
    (by rw [length_drop]; omega)
  have hheld : ((heldBufs wb').map PageBuf.addr).Perm
      (((live1.take (wb.count - pages.length)).map PageSlot.data).map PageBuf.addr) := by
    have := (hp.live.map PageSlot.data).map PageBuf.addr
    rwa [hlive1] at this
  have haddr : s.data.addr ∈ ((live1.drop (wb.count - pages.length)).map
      PageSlot.data).map PageBuf.addr :=
    List.mem_map_of_mem (List.mem_map_of_mem hs)
  rw [hsplit,map_append,map_append,nodup_append] at howned
  refine ⟨s.data,?_,?_,?_⟩
  · apply hp.dropped.bufs.mem_iff.mp
    rw [hsplit]
    exact mem_append_left _ (mem_append_right _ (List.mem_map_of_mem hs))
  · rw [hheld.mem_iff]
    intro hm
    have := (nodup_append.mp howned.1).2.2
    exact this _ hm _ haddr rfl
  · rw [hp.pool]
    intro hm
    exact howned.2.2 _ (mem_append_right _ haddr) _ hm rfl

end Partial

theorem cleanup_cleaned (h : Sound wb) (hb : Batch wb pages) :
    ∃ wb', flushCleanup true wb pages = some wb' ∧ Cleaned wb pages wb' ∧
      (pages.length = wb.count ∨ ChainsClear wb pages → Lossless wb pages wb') := by
  rcases Nat.lt_or_eq_of_le (hb.length_le h) with hn | hn
  · obtain ⟨wb1,found,wb',hflush,hp⟩ := cleanup_partial h hb hn
    refine ⟨wb',hflush,hp.cleaned h hn,?_⟩
    rintro (he | hclear)
    · omega
    · exact hp.lossless h hclear
  · obtain ⟨wb',hflush,hcl,hlossless⟩ := full_cleaned h hb hn true
    exact ⟨wb',hflush,hcl,fun _ => hlossless⟩

/-- A flush of `pages` dropped no dirty page: each buffered page was written or is
still found with its data, the count is right, and each page buffer is either
in the table or in the pool. -/
structure NothingDropped (limit : Nat) (wb : WriteBuffer) (pages : List Nat)
    (wb' : WriteBuffer) : Prop where
  batch : pages.length ≤ limit
  kept : ∀ i < wb.capacity, (wb.slots i).pageId ≠ pageSlotEmpty →
    (wb.slots i).pageId ∈ pages ∨
      ∃ j, pagemapFind wb'.slots wb'.capacity (wb.slots i).pageId = some j ∧
        wb'.slots j = wb.slots i
  counted : wb'.count = occupied wb'.capacity (pageAt wb'.slots)
  accounted : ∀ b ∈ heldBufs wb ++ wb.pagePool,
    Xor (b.addr ∈ (heldBufs wb').map PageBuf.addr) (b.addr ∈ wb'.pagePool.map PageBuf.addr)

theorem Lossless.nothingDropped {wb' : WriteBuffer} (hl : Lossless wb pages wb')
    (hcl : Cleaned wb pages wb') (hlen : pages.length ≤ limit) :
    NothingDropped limit wb pages wb' := by
  refine ⟨hlen,?_,hcl.sound.counted,?_⟩
  · intro i hi hne
    by_cases hm : (wb.slots i).pageId ∈ pages
    · exact .inl hm
    · right
      have hlive := (hl.live (wb.slots i)).mpr ⟨mem_liveSlots.mpr ⟨hne,i,hi,rfl⟩,hm⟩
      obtain ⟨_,j,hj,hji⟩ := mem_liveSlots.mp hlive
      refine ⟨j,?_,hji⟩
      have := hcl.sound.found j hj (by rw [hji]; exact hne)
      rwa [hji] at this
  · intro b hb
    have hdisj := hcl.sound.owned
    rw [map_append,nodup_append] at hdisj
    have hm := (hl.bufs.map PageBuf.addr).mem_iff.mpr (List.mem_map_of_mem (f := PageBuf.addr) hb)
    rw [map_append,mem_append] at hm
    rcases hm with hm | hm
    · exact .inl ⟨hm,fun hp => hdisj.2.2 _ hm _ hp rfl⟩
    · exact .inr ⟨hm,fun hp => hdisj.2.2 _ hp _ hm rfl⟩

/-- Whatever the order in which the clean-up visits the written pages, it drops
nothing exactly when the flush was full or no visited page hides a later one. -/
theorem nothingDropped_iff (limit : Nat) (h : Sound wb) (hp : pages.Perm (collectPages limit wb)) :
    (∃ wb', flushCleanup true wb pages = some wb' ∧ NothingDropped limit wb pages wb') ↔
      wb.count ≤ limit ∨ ChainsClear wb pages := by
  have hb := batch_collect h hp
  have hlen := batch_length h hp
  constructor
  · rintro ⟨wb',hflush,hnd⟩
    by_contra hno
    push Not at hno
    obtain ⟨wb1,found,wb'',hflush',hpart⟩ := cleanup_partial h hb (by omega)
    cases hflush'.symm.trans hflush
    obtain ⟨b,hbm,hheld,hpool⟩ := hpart.lost h (by omega) hno.2
    rcases hnd.accounted b hbm with ⟨hin,_⟩ | ⟨hin,_⟩
    · exact hheld hin
    · exact hpool hin
  · intro hc
    obtain ⟨wb',hflush,hcl,hloss⟩ := cleanup_cleaned h hb
    refine ⟨wb',hflush,(hloss ?_).nothingDropped hcl (by omega)⟩
    rcases hc with hc | hc
    · exact .inl (by omega)
    · exact .inr hc

theorem dimbinFlushPages_perm : (dimbinFlushPages limit wb).Perm (collectPages limit wb) :=
  perm_insertionSort _ _

/-- `dimbin_flush` visits the written pages in ascending order, `graveldb_flush` and
`graveldb_flush_poll` in slot order. Each of the clean-ups keeps all dirty pages
exactly when everything was written or no page it visits is on the probe path of
one it visits later. -/
theorem flushCleanup_drops_nothing_iff (h : Sound wb) :
    ((∃ wb', flushCleanup true wb (dimbinFlushPages limit wb) = some wb' ∧
        NothingDropped limit wb (dimbinFlushPages limit wb) wb') ↔
      wb.count ≤ limit ∨ ChainsClear wb (dimbinFlushPages limit wb)) ∧
    ((∃ wb', flushCleanup true wb (collectPages limit wb) = some wb' ∧
        NothingDropped limit wb (collectPages limit wb) wb') ↔
      wb.count ≤ limit ∨ ChainsClear wb (collectPages limit wb)) :=
  ⟨nothingDropped_iff limit h dimbinFlushPages_perm,nothingDropped_iff limit h (.refl _)⟩

end Cleanup

/-- Pages 0, 4 and 2 in a table of four slots: page 4 was pushed from slot 0 to slot 1. -/
def crowded : WriteBuffer where
  slots i := match i with
    | 0 => ⟨0,1,fun _ => 0⟩
    | 1 => ⟨4,2,fun _ => 0⟩
    | 2 => ⟨2,3,fun _ => 0⟩
    | _ => emptySlot
  capacity := 4
  count := 3
  maxPages := 2
  flushBytes := 0
  pagePool := []

theorem crowded_sound : Sound crowded :=
  ⟨⟨2,rfl⟩,by decide,by decide,by decide,by decide⟩

theorem crowded_full_flush :
    ∃ wb', flushCleanup true crowded (dimbinFlushPages 3 crowded) = some wb' ∧
      NothingDropped 3 crowded (dimbinFlushPages 3 crowded) wb' :=
  (flushCleanup_drops_nothing_iff crowded_sound).1.mpr (.inl (by decide))

/-- With a batch limit of two the clean-up empties slot 0, misses page 4 behind it,
keeps page 4 as the one survivor and drops page 2. -/
theorem crowded_flush_drops :
    Sound crowded ∧
    (¬ ∃ wb', flushCleanup true crowded (dimbinFlushPages 2 crowded) = some wb' ∧
      NothingDropped 2 crowded (dimbinFlushPages 2 crowded) wb') ∧
    ¬ ∃ wb', flushCleanup true crowded (collectPages 2 crowded) = some wb' ∧
      NothingDropped 2 crowded (collectPages 2 crowded) wb' := by
  have hsorted : dimbinFlushPages 2 crowded = collectPages 2 crowded := by decide
  have hno : ¬ (crowded.count ≤ 2 ∨ ChainsClear crowded (collectPages 2 crowded)) := by decide
  have hdrop := mt (nothingDropped_iff 2 crowded_sound (.refl _)).mp hno
  rw [hsorted]
  exact ⟨crowded_sound,hdrop,hdrop⟩

end Gravel.Proofs.FlushCleanup
