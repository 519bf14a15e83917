import Gravel.Lib.RehashRoom

namespace Rehash
open LinearProbe Option Function

variable {κ σ : Type} {L : Layout κ σ}

def Within (cap : Nat) (slots : Nat → σ) (s : σ) : Prop := ∃ i < cap, slots i = s

theorem within_update {cap i : Nat} {slots : Nat → σ} {s u : σ} (hi : i < cap) :
    Within cap (update slots i u) s ↔ u = s ∨ ∃ j < cap, j ≠ i ∧ slots j = s := by
  constructor
  · rintro ⟨j,hj,rfl⟩
    by_cases hji : j = i
    · subst hji
      simp
    · exact .inr ⟨j,hj,hji,(update_of_ne hji _ _).symm⟩
  · rintro (rfl | ⟨j,hj,hji,rfl⟩)
    · exact ⟨i,hi,by simp⟩
    · exact ⟨j,hj,update_of_ne hji _ _⟩

theorem within_fill {cap i : Nat} {slots : Nat → σ} {s u : σ} (hi : i < cap)
    (hn : L.key (slots i) = none) (hs : L.key s ≠ none) :
    Within cap (update slots i u) s ↔ u = s ∨ Within cap slots s := by
  rw [within_update hi]
  refine or_congr_right ⟨?_,?_⟩
  · rintro ⟨j,hj,_,h⟩
    exact ⟨j,hj,h⟩
  · rintro ⟨j,hj,rfl⟩
    refine ⟨j,hj,?_,rfl⟩
    rintro rfl
    exact hs hn

/-- The entries in the other slots are those under other keys. -/
theorem within_beside {cap i : Nat} {slots : Nat → σ} {s : σ} {k : κ} (hs : L.key s ≠ none)
    (hk : L.key (slots i) = some k ∨ L.key (slots i) = none)
    (hu : ∀ j < cap, L.key (slots j) = some k → j = i) :
    (∃ j < cap, j ≠ i ∧ slots j = s) ↔ L.key s ≠ some k ∧ Within cap slots s := by
  constructor
  · rintro ⟨j,hj,hji,rfl⟩
    exact ⟨fun hjk => hji (hu j hj hjk),j,hj,rfl⟩
  · rintro ⟨hsk,j,hj,rfl⟩
    refine ⟨j,hj,?_,rfl⟩
    rintro rfl
    exact hk.elim hsk hs

/-- The two tables during a migration. Only the new one is searched by an unbroken
walk: entries of the old one are moved away and removed without repair. -/
structure Split (L : Layout κ σ) (capacity : Nat) (slots : Nat → σ) (old : OldTable σ) : Prop where
  pow : capacity.isPowerOfTwo
  oldPow : old.capacity.isPowerOfTwo
  probed : Probed capacity (L.home capacity) (L.keys slots)
  swept : ∀ i < old.cursor, L.key (old.slots i) = none
  unique : ∀ i < old.capacity, ∀ j < old.capacity, ∀ k,
    L.key (old.slots i) = some k → L.key (old.slots j) = some k → i = j
  apart : ∀ i < capacity, ∀ j < old.capacity, ∀ k,
    L.key (slots i) = some k → L.key (old.slots j) ≠ some k
  room : occupied capacity (L.keys slots) + occupied old.capacity (L.keys old.slots) ≤ capacity

section Search

variable [DecidableEq κ]
variable {slots : Nat → σ} {cap i : Nat} {k : κ}

theorem lookup_absent (hc : cap.isPowerOfTwo) (ha : ∀ j < cap, L.key (slots j) ≠ some k) :
    lookup L slots cap k = none := by
  cases h : lookup L slots cap k with
  | none => rfl
  | some i =>
    obtain ⟨hi,hk⟩ := lookup_some hc h
    exact absurd hk (ha i hi)

theorem lookup_reached (hc : cap.isPowerOfTwo) (hi : i < cap) (hk : L.key (slots i) = some k)
    (hr : Reaches cap (L.home cap) (L.keys slots) k i)
    (hu : ∀ j < cap, L.key (slots j) = some k → j = i) : lookup L slots cap k = some i := by
  rw [lookup,find,search_reached hc (home_lt hc k) hi hk hr hu]
  simp [Option.filter,hk]

theorem lookup_hidden (hc : cap.isPowerOfTwo) (hr : ¬ Reaches cap (L.home cap) (L.keys slots) k i)
    (hu : ∀ j < cap, L.key (slots j) = some k → j = i) : lookup L slots cap k = none := by
  obtain ⟨j,_,hfind,hnone⟩ := search_hidden hc (home_lt hc k) hu hr
  rw [lookup,find,hfind]
  simp [Option.filter,hnone]

theorem lookup_probed (hc : cap.isPowerOfTwo) (hp : Probed cap (L.home cap) (L.keys slots))
    (hi : i < cap) (hk : L.key (slots i) = some k) : lookup L slots cap k = some i :=
  lookup_reached hc hi hk (hp.reach i hi k hk) (fun j hj hjk => hp.unique j hj i hi k hjk hk)

theorem find_free (hc : cap.isPowerOfTwo) (ha : ∀ j < cap, L.key (slots j) ≠ some k)
    (hroom : occupied cap (L.keys slots) < cap) :
    ∃ h < cap, find L slots cap k = some h ∧ L.key (slots h) = none ∧
      Reaches cap (L.home cap) (L.keys slots) k h := by
  obtain ⟨e,he,hen⟩ := exists_empty hroom
  obtain ⟨h,hh⟩ := probe_total (stopFor (L.keys slots) k) hc (home_lt hc k) he
    (by simp [stopFor,hen])
  obtain ⟨hlt,hr,hn⟩ := search_absent hc (home_lt hc k) ha hh
  exact ⟨h,hlt,hh,hn,hr⟩

theorem freeSlot_eq_find (hc : cap.isPowerOfTwo) (ha : ∀ j < cap, L.key (slots j) ≠ some k) :
    freeSlot L slots cap k = find L slots cap k := by
  apply probe_congr hc (home_lt hc k)
  intro j hj
  have := ha j hj
  cases hk : L.key (slots j) with
  | none => simp [stopFor,hk]
  | some q =>
    rw [hk] at this
    simp [stopFor,hk,this]

end Search

section Migration

variable {cap : Nat} {slots : Nat → σ} {old : OldTable σ} {k : κ}

theorem Split.loaded (hs : Split L cap slots old) : Loaded L cap slots old := ⟨hs.pow,hs.swept,hs.room⟩

theorem Split.skip (hs : Split L cap slots old) (hn : L.key (old.slots old.cursor) = none) :
    Split L cap slots { old with cursor := old.cursor + 1 } :=
  { hs with swept := (hs.loaded.skip hn).swept }

theorem Split.move [DecidableEq κ] (hs : Split L cap slots old) (hcur : old.cursor < old.capacity)
    (hk : L.key (old.slots old.cursor) = some k) :
    ∃ h < cap, freeSlot L slots cap k = some h ∧ L.key (slots h) = none ∧
      Split L cap (update slots h (old.slots old.cursor)) (old.passed L) := by
  have habsent : ∀ j < cap, L.key (slots j) ≠ some k :=
    fun j hj hjk => hs.apart j hj old.cursor hcur k hjk hk
  obtain ⟨h,hh,hfree,hnone,hload,_,_⟩ := hs.loaded.move hcur hk
  have hfind : find L slots cap k = some h := by rw [← freeSlot_eq_find hs.pow habsent,hfree]
  obtain ⟨_,hr,_⟩ := search_absent hs.pow (home_lt hs.pow k) habsent hfind
  have hother : ∀ j < cap, j ≠ h →
      L.keys (update slots h (old.slots old.cursor)) j = L.keys slots j :=
    fun j _ hj => congrArg L.key (update_of_ne hj _ _)
  have hself : L.keys (update slots h (old.slots old.cursor)) h = some k := by
    rw [Layout.keys,update_self,hk]
  refine ⟨h,hh,hfree,hnone,hs.pow,hs.oldPow,
    hs.probed.insert (pow_two_pos hs.pow) hh hnone habsent hr hself hother,hload.swept,?_,?_,
    hload.room⟩
  · intro i hi j hj q hiq hjq
    exact hs.unique i hi j hj q (passed_some hiq).2 (passed_some hjq).2
  · intro i hi j hj q hiq hjq
    obtain ⟨hjc,hjq⟩ := passed_some hjq
    by_cases hih : i = h
    · subst hih
      cases hself.symm.trans hiq
      exact hjc (hs.unique j hj old.cursor hcur k hjq hk)
    · exact hs.apart i hi j hj q ((hother i hi hih).symm.trans hiq) hjq

structure Migrated (L : Layout κ σ) (cap : Nat) (slots : Nat → σ) (old : OldTable σ) (m : Nat)
    (slots' : Nat → σ) (old' : OldTable σ) : Prop extends Drained L cap slots old m slots' old' where
  split : Split L cap slots' old'
  stored : ∀ s, L.key s ≠ none →
    (Within cap slots' s ∨ Within old'.capacity old'.slots s ↔
      Within cap slots s ∨ Within old.capacity old.slots s)

theorem within_moved {h : Nat} {s : σ} (hh : h < cap) (hcur : old.cursor < old.capacity)
    (hnone : L.key (slots h) = none) (hs : L.key s ≠ none) :
    Within cap (update slots h (old.slots old.cursor)) s ∨
        Within (old.passed L).capacity (old.passed L).slots s ↔
      Within cap slots s ∨ Within old.capacity old.slots s := by
  rw [within_fill hh hnone hs]
  constructor
  · rintro ((rfl | hw) | ⟨i,hi,rfl⟩)
    · exact .inr ⟨old.cursor,hcur,rfl⟩
    · exact .inl hw
    · obtain ⟨q,hq⟩ := ne_none_iff_exists'.mp hs
      obtain ⟨hic,_⟩ := passed_some hq
      exact .inr ⟨i,hi,(passed_other hic).symm⟩
  · rintro (hw | ⟨i,hi,rfl⟩)
    · exact .inl (.inr hw)
    · by_cases hic : i = old.cursor
      · subst hic
        exact .inl (.inl rfl)
      · exact .inr ⟨i,hi,passed_other hic⟩

theorem migrate_keeps [DecidableEq κ] (fuel : Nat) : ∀ slots old m slots' old',
    migrate L cap fuel slots old m = some (slots',old') → Split L cap slots old →
      Split L cap slots' old' ∧ ∀ s, L.key s ≠ none →
        (Within cap slots' s ∨ Within old'.capacity old'.slots s ↔
          Within cap slots s ∨ Within old.capacity old.slots s) := by
  induction fuel with
  | zero =>
    intro slots old m slots' old' hrun hs
    cases hrun
    exact ⟨hs,fun _ _ => .rfl⟩
  | succ fuel ih =>
    intro slots old m slots' old' hrun hs
    by_cases hgo : old.cursor < old.capacity ∧ m < L.batch
    · cases hk : L.key (old.slots old.cursor) with
      | none =>
        simp only [migrate,hgo,and_self,if_true,hk] at hrun
        exact ih slots { old with cursor := old.cursor + 1 } m slots' old' hrun (hs.skip hk)
      | some k =>
        obtain ⟨h,hh,hfree,hnone,hsplit⟩ := hs.move hgo.1 hk
        simp only [migrate,hgo,and_self,if_true,hk,hfree,bind_eq_bind,bind_some] at hrun
        obtain ⟨hsplit',hstored⟩ := ih _ _ _ _ _ hrun hsplit
        exact ⟨hsplit',fun s hsn => (hstored s hsn).trans (within_moved hh hgo.1 hnone hsn)⟩
    · simp only [migrate,hgo,if_false] at hrun
      cases hrun
      exact ⟨hs,fun _ _ => .rfl⟩

theorem migrate_spec [DecidableEq κ] {m : Nat} (fuel : Nat) (hs : Split L cap slots old)
    (hm : m ≤ L.batch) (hf : old.capacity ≤ fuel + old.cursor) :
    ∃ slots' old', migrate L cap fuel slots old m = some (slots',old') ∧
      Migrated L cap slots old m slots' old' := by
  obtain ⟨slots',old',hrun,hd⟩ := migrate_drains fuel slots old m hs.loaded hm hf
  obtain ⟨hsplit,hstored⟩ := migrate_keeps fuel slots old m slots' old' hrun hs
  exact ⟨slots',old',hrun,{ hd with split := hsplit, stored := hstored }⟩

end Migration

end Rehash
