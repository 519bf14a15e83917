import Gravel.Lib.OnePass
import Gravel.Proofs.FlushCleanup

namespace Gravel.Proofs.InPlaceRehash
open LinearProbe PageMap FlushCleanup List Option Function

/-- A table in which every page was found, after some of its slots were emptied. -/
structure JustEmptied (capacity : Nat) (orig slots : Nat → PageSlot) : Prop where
  pow : capacity.isPowerOfTwo
  found : ∀ i < capacity, (orig i).pageId ≠ pageSlotEmpty →
    pagemapFind orig capacity (orig i).pageId = some i
  emptied : ∀ i < capacity, slots i = orig i ∨ slots i = emptySlot
  hole : ∃ i < capacity, (orig i).pageId ≠ pageSlotEmpty ∧ slots i = emptySlot

/-- The last slots of the table, from `l` on, were not touched: they are full, their pages have
their homes among them and not behind their slots, and so has every page that was pushed over the
end of the table. -/
def EndIntact (capacity : Nat) (slots : Nat → PageSlot) (l : Nat) : Prop :=
  Intact capacity (pagemapHome capacity) (pageAt slots) l

/-- What the two ways to rehash have to agree on: the pages with their buffers, the count, and
that every page is found. -/
structure Rehashed (capacity : Nat) (slots slots' : Nat → PageSlot) (cnt : Nat) : Prop where
  pages : ∀ s, s ∈ liveSlots capacity slots' ↔ s ∈ liveSlots capacity slots
  count : cnt = (liveSlots capacity slots).length
  found : ∀ s ∈ liveSlots capacity slots,
    ∃ i, pagemapFind slots' capacity s.pageId = some i ∧ slots' i = s

section Pass

variable {capacity : Nat} {orig slots slots' : Nat → PageSlot} {cnt : Nat}

def pageKey (s : PageSlot) : Option Nat := if s.pageId = pageSlotEmpty then none else some s.pageId

theorem pageKey_eq (slots : Nat → PageSlot) : (fun l => pageKey (slots l)) = pageAt slots := rfl

theorem rehashInPlace_eq (capacity : Nat) (l : List Nat) : ∀ (slots : Nat → PageSlot) (cnt : Nat),
    rehashInPlace capacity slots cnt l =
      settle pageKey (pagemapHome capacity) capacity emptySlot l slots cnt := by
  induction l with
  | nil => exact fun _ _ => rfl
  | cons i rest ih =>
    intro slots cnt
    rw [rehashInPlace,settle]
    by_cases he : (slots i).pageId = pageSlotEmpty
    · rw [if_pos he,pageKey,if_pos he]
      exact ih slots cnt
    · rw [if_neg he,pageKey,if_neg he]
      simp only [find_eq_probe _ _ he,ih]
      rfl

theorem JustEmptied.once (h : JustEmptied capacity orig slots) : Once capacity (pageAt slots) := by
  intro i hi j hj p hip hjp
  obtain ⟨hip,hp⟩ := pageAt_eq_some.mp hip
  obtain ⟨hjp,-⟩ := pageAt_eq_some.mp hjp
  have hkept : ∀ l < capacity, (slots l).pageId = p → pagemapFind orig capacity p = some l := by
    intro l hl hlp
    rcases h.emptied l hl with he | he
    · rw [he] at hlp
      have hf := h.found l hl (by rwa [hlp])
      rwa [hlp] at hf
    · rw [he] at hlp
      exact absurd hlp.symm hp
  have hii := hkept i hi hip
  rw [hkept j hj hjp] at hii
  exact (Option.some.inj hii).symm

theorem JustEmptied.room (h : JustEmptied capacity orig slots) :
    ∃ e < capacity, pageAt slots e = none := by
  obtain ⟨e,he,-,hempty⟩ := h.hole
  refine ⟨e,he,pageAt_eq_none.mpr ?_⟩
  rw [hempty]
  rfl

theorem JustEmptied.length_lt (h : JustEmptied capacity orig slots) :
    (liveSlots capacity slots).length < capacity := by
  obtain ⟨e,he,hempty⟩ := h.room
  rw [liveSlots_length]
  have hfill : occupied capacity (update (pageAt slots) e (some 0)) =
      occupied capacity (pageAt slots) + 1 := by
    apply occupied_fill he hempty
    · simp
    · intro j _ hj
      exact update_of_ne hj _ _
  have hle : occupied capacity (update (pageAt slots) e (some 0)) ≤ capacity := occupied_le
  omega

/-- In a table that stores no page twice, all its pages are found exactly if every walk from a
home to its page is over occupied slots. -/
theorem found_iff_probed (hc : capacity.isPowerOfTwo) (ho : Once capacity (pageAt slots')) :
    (∀ s ∈ liveSlots capacity slots',
        ∃ i, pagemapFind slots' capacity s.pageId = some i ∧ slots' i = s) ↔
      Probed capacity (pagemapHome capacity) (pageAt slots') := by
  constructor
  · intro hfound
    refine ⟨?_,ho⟩
    intro i hi p hip
    obtain ⟨hid,hne⟩ := pageAt_eq_some.mp hip
    obtain ⟨j,hj,hji⟩ := hfound (slots' i) (mem_liveSlots.mpr ⟨by rwa [hid],i,hi,rfl⟩)
    rw [hid,find_eq_probe _ _ hne] at hj
    obtain ⟨hlt,hreach,-⟩ := search_some hc (home_lt hc) hj
    have heq : j = i := ho j hlt i hi p (by rw [pageAt,hji]; exact hip) hip
    rwa [heq] at hreach
  · intro hp s hs
    obtain ⟨hne,i,hi,rfl⟩ := mem_liveSlots.mp hs
    refine ⟨i,?_,rfl⟩
    rw [find_eq_probe _ _ hne]
    exact search_present hc (home_lt hc) hp hi (pageAt_eq_some.mpr ⟨rfl,hne⟩)

theorem JustEmptied.reinsert (h : JustEmptied capacity orig slots) :
    ∃ normal, reinsertSlots capacity (fun _ => emptySlot) (liveSlots capacity slots) = some normal ∧
      Rehashed capacity slots normal (liveSlots capacity slots).length := by
  have hblank : pageAt (fun _ => emptySlot) = fun _ => none := rfl
  obtain ⟨normal,hrun,hprobed,hperm⟩ := reinsertSlots_spec h.pow (liveSlots capacity slots)
    (fun _ => emptySlot) (by rw [hblank]; exact probed_empty)
    (by rw [liveSlots_empty,append_nil]; exact liveSlots_nodup h.once)
    (fun s hs => (mem_liveSlots.mp hs).1)
    (by rw [hblank,occupied_empty]; exact h.length_lt)
  rw [liveSlots_empty,append_nil] at hperm
  refine ⟨normal,hrun,fun s => hperm.mem_iff,rfl,?_⟩
  intro s hs
  exact (found_iff_probed h.pow hprobed.unique).mpr hprobed s (hperm.mem_iff.mpr hs)

/-- The pass in place ends, and with a rehashed table exactly if the end of the table was
intact. -/
theorem JustEmptied.in_place (h : JustEmptied capacity orig slots) :
    ∃ slots' cnt, rehashInPlace capacity slots 0 (List.range capacity) = some (slots',cnt) ∧
      (Rehashed capacity slots slots' cnt ↔ ∃ l, EndIntact capacity slots l) := by
  obtain ⟨e,he,hempty⟩ := h.room
  obtain ⟨slots',cnt,hrun,honce,hcontents,hiff⟩ := @settle_iff _ _ _ pageKey
    (pagemapHome capacity) capacity emptySlot slots h.pow (fun _ => home_lt h.pow) rfl h.once
    ⟨e,he,hempty⟩
  have hpages : ∀ s, s ∈ liveSlots capacity slots' ↔ s ∈ liveSlots capacity slots := by
    intro s
    rw [mem_liveSlots,mem_liveSlots]
    apply and_congr_right
    intro hne
    exact hcontents s (by rw [pageKey,if_neg hne]; exact some_ne_none _)
  rw [← rehashInPlace_eq] at hrun
  refine ⟨slots',cnt,hrun,?_⟩
  unfold EndIntact
  rw [← pageKey_eq slots,← hiff,pageKey_eq,pageKey_eq,← liveSlots_length,
    ← found_iff_probed h.pow honce]
  constructor
  · intro hr
    exact ⟨hr.count,fun s hs => hr.found s ((hpages s).mp hs)⟩
  · rintro ⟨hcount,hfound⟩
    exact ⟨hpages,hcount,fun s hs => hfound s ((hpages s).mpr hs)⟩

end Pass

/-- Without memory for the temporary array, a table is rehashed as well as with it exactly if the
slots at its end were not touched by the flush. -/
theorem in_place_rehash_iff {capacity : Nat} {orig slots : Nat → PageSlot}
    (h : JustEmptied capacity orig slots) :
    (∃ normal,
        reinsertSlots capacity (fun _ => emptySlot) (liveSlots capacity slots) = some normal ∧
        Rehashed capacity slots normal (liveSlots capacity slots).length) ∧
      ((∃ slots' cnt, rehashInPlace capacity slots 0 (List.range capacity) = some (slots',cnt) ∧
        Rehashed capacity slots slots' cnt) ↔ ∃ l, EndIntact capacity slots l) := by
  refine ⟨h.reinsert,?_⟩
  obtain ⟨slots',cnt,hrun,hiff⟩ := h.in_place
  rw [← hiff]
  constructor
  · rintro ⟨slots2,cnt2,hrun2,hr⟩
    rw [hrun] at hrun2
    cases hrun2
    exact hr
  · intro hr
    exact ⟨slots',cnt,hrun,hr⟩

def slotOf (p : Nat) : PageSlot := { emptySlot with pageId := p }

def collidingPages (i : Nat) : PageSlot :=
  if i = 0 then slotOf 0 else if i = 1 then slotOf 4 else emptySlot

/-- Flushing page 0 leaves page 4 alone in the table; the pass moves it home. -/
theorem collision_rehashed :
    JustEmptied 4 collidingPages (update collidingPages 0 emptySlot) ∧
      ∃ slots' cnt, rehashInPlace 4 (update collidingPages 0 emptySlot) 0
          (List.range 4) = some (slots',cnt) ∧
        Rehashed 4 (update collidingPages 0 emptySlot) slots' cnt := by
  have h : JustEmptied 4 collidingPages (update collidingPages 0 emptySlot) := by
    refine ⟨by decide,by decide,?_,0,by decide,by decide,rfl⟩
    intro i _
    by_cases hi : i = 0
    · subst hi
      exact Or.inr rfl
    · exact Or.inl (update_of_ne hi _ _)
  have hend : EndIntact 4 (update collidingPages 0 emptySlot) 4 := by
    refine ⟨Nat.le_refl 4,?_,?_⟩
    · intro s hs hlt
      omega
    · intro i hi p hip hlt
      obtain ⟨rfl,hne⟩ := pageAt_eq_some.mp hip
      have hhome : ∀ i < 4, (update collidingPages 0 emptySlot i).pageId ≠ pageSlotEmpty →
          pagemapHome 4 (update collidingPages 0 emptySlot i).pageId ≤ i := by decide
      exact absurd hlt (Nat.not_lt.mpr (hhome i hi hne))
  exact ⟨h,(in_place_rehash_iff h).2.mpr ⟨4,hend⟩⟩

/-- Pages 30 and 94 of home 62 in the last two of 64 slots, the fewest that `dimbin_init` makes, and
pages 47 and 111 of home 63, pushed over the end. -/
def crowdedEnd (i : Nat) : PageSlot :=
  if i = 62 then slotOf 30 else if i = 63 then slotOf 94
  else if i = 0 then slotOf 47 else if i = 1 then slotOf 111 else emptySlot

def crowdedBuffer : WriteBuffer := ⟨crowdedEnd,64,4,32,0,[]⟩

def flushedEnd : Nat → PageSlot := update (update crowdedEnd 62 emptySlot) 0 emptySlot

/-- A flush of the first three pages in slot order, as the source does with 65536, leaves page 111,
since its lookup stops at the slot of page 47. The pass then moves page 94 from page 111's home after
page 111 was looked at, and page 111 is no longer found. -/
theorem pushed_page_lost :
    (dropPages crowdedBuffer (dimbinFlushPages 3 crowdedBuffer)).map WriteBuffer.slots =
        some flushedEnd ∧
      JustEmptied 64 crowdedEnd flushedEnd ∧
      ¬ ∃ slots' cnt, rehashInPlace 64 flushedEnd 0 (List.range 64) = some (slots',cnt) ∧
        Rehashed 64 flushedEnd slots' cnt := by
  refine ⟨rfl,⟨by decide,by decide +kernel,?_,0,by decide,by decide,rfl⟩,?_⟩
  · intro i _
    rw [flushedEnd,update_apply,update_apply]
    split_ifs
    · exact Or.inr rfl
    · exact Or.inr rfl
    · exact Or.inl rfl
  rintro ⟨slots',cnt,hrun,hr⟩
  have hfind : (rehashInPlace 64 flushedEnd 0 (List.range 64)).map
      (fun r => (pagemapFind r.1 64 111,(r.1 63).pageId)) = some (some 63,pageSlotEmpty) := by
    decide +kernel
  rw [hrun,map_some,Option.some.injEq,Prod.mk.injEq] at hfind
  have hmem : slotOf 111 ∈ liveSlots 64 flushedEnd :=
    mem_liveSlots.mpr ⟨by decide,1,by decide,rfl⟩
  obtain ⟨i,hi,his⟩ := hr.found _ hmem
  rw [show (slotOf 111).pageId = 111 from rfl,hfind.1] at hi
  cases hi
  have hid : (slots' 63).pageId = pageSlotEmpty := hfind.2
  rw [his] at hid
  exact absurd hid (by decide)

end Gravel.Proofs.InPlaceRehash
