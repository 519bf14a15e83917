import Gravel.Lib.RehashFrame

namespace Rehash
open LinearProbe Option Function

variable {κ σ : Type} {L : Layout κ σ} {Q : σ → Prop} {t t' : Table σ} {k : κ}

/-- Whatever is in a slot of either table, in use or not, satisfies `Q`. -/
structure AllSlots (Q : σ → Prop) (t : Table σ) : Prop where
  slots : ∀ i, Q (t.slots i)
  old : ∀ o ∈ t.old, ∀ i, Q (o.slots i)

theorem AllSlots.imp {Q' : σ → Prop} (h : AllSlots Q t) (hq : ∀ s, Q s → Q' s) : AllSlots Q' t :=
  ⟨fun i => hq _ (h.slots i),fun o ho i => hq _ (h.old o ho i)⟩

theorem forall_update {slots : Nat → σ} {s : σ} (h : ∀ i, Q (slots i)) (hs : Q s) (j : Nat) :
    ∀ i, Q (update slots j s i) := by
  intro i
  by_cases hi : i = j
  · subst hi
    rw [update_self]
    exact hs
  · rw [update_of_ne hi]
    exact h i

theorem forall_shiftLoop {home : κ → Nat} {mask h : Nat} (fuel : Nat) :
    ∀ (slots : Nat → σ) (empty j : Nat), (∀ i, Q (slots i)) →
      ∀ i, Q ((shiftLoop L.key home mask h fuel slots empty j).1 i) := by
  induction fuel with
  | zero => exact fun _ _ _ hq => hq
  | succ fuel ih =>
    intro slots empty j hq
    rw [shiftLoop]
    split
    · exact hq
    · rename_i k hk
      obtain ⟨next,hnext⟩ : ∃ next, next = (if displaced empty j (home k) then
          (update slots empty (slots j),j) else (slots,empty)) := ⟨_,rfl⟩
      have hq' : ∀ i, Q (next.1 i) := by
        rw [hnext]
        split_ifs
        · exact forall_update hq (hq j) empty
        · exact hq
      simp only [← hnext]
      split
      · exact hq'
      · exact ih _ _ _ hq'

section Operations

/-- A migration writes slots that were there before, or vacated ones. -/
theorem AllSlots.migrate {capacity : Nat} (hv : ∀ s, Q (L.vacate s)) (fuel : Nat) :
    ∀ (slots : Nat → σ) (old : OldTable σ) (m : Nat) (slots' : Nat → σ) (old' : OldTable σ),
      Rehash.migrate L capacity fuel slots old m = some (slots',old') → (∀ i, Q (slots i)) →
      (∀ i, Q (old.slots i)) → (∀ i, Q (slots' i)) ∧ ∀ i, Q (old'.slots i) := by
  induction fuel with
  | zero =>
    intro slots old m slots' old' h hq ho
    cases h
    exact ⟨hq,ho⟩
  | succ fuel ih =>
    intro slots old m slots' old' h hq ho
    rw [Rehash.migrate] at h
    split_ifs at h
    · simp only at h
      split at h
      · obtain ⟨j,_,h⟩ := bind_eq_some_iff.mp h
        exact ih _ _ _ _ _ h (forall_update hq (ho _) j) (forall_update ho (hv _) _)
      · exact ih _ _ _ _ _ h hq ho
    · cases h
      exact ⟨hq,ho⟩

theorem AllSlots.rehashStep (h : AllSlots Q t) (hv : ∀ s, Q (L.vacate s))
    (hstep : Rehash.rehashStep L t = some t') : AllSlots Q t' := by
  unfold Rehash.rehashStep at hstep
  cases ho : t.old with
  | none =>
    simp only [ho] at hstep
    cases hstep
    exact h
  | some o =>
    simp only [ho] at hstep
    obtain ⟨⟨slots,o'⟩,hmigrate,hstep⟩ := bind_eq_some_iff.mp hstep
    obtain ⟨hslots,hold⟩ := AllSlots.migrate hv _ _ _ _ _ _ hmigrate h.slots (h.old o ho)
    simp only at hstep
    split_ifs at hstep
    · cases hstep
      exact ⟨hslots,fun o ho => by cases ho⟩
    · cases hstep
      refine ⟨hslots,fun o1 ho1 => ?_⟩
      cases ho1
      exact hold

theorem AllSlots.growth (h : AllSlots Q t) (hb : Q L.blank) : AllSlots Q (Rehash.growth L t) := by
  unfold Rehash.growth
  split_ifs
  · refine ⟨fun _ => hb,fun o ho => ?_⟩
    cases ho
    exact h.slots
  · exact h

variable [DecidableEq κ]

theorem AllSlots.put {change : σ → σ} {fresh : σ} (h : AllSlots Q t) (hb : Q L.blank)
    (hv : ∀ s, Q (L.vacate s)) (hc : ∀ s, Q s → Q (change s)) (hf : Q fresh)
    (hput : Rehash.put L t k change fresh = some t') : AllSlots Q t' := by
  obtain ⟨t1,hstep,hput⟩ := bind_eq_some_iff.mp hput
  obtain ⟨t2,ht2⟩ : ∃ t2, t2 = Rehash.growth L t1 := ⟨_,rfl⟩
  have h2 : AllSlots Q t2 := ht2 ▸ (h.rehashStep hv hstep).growth hb
  simp only [← ht2] at hput
  obtain ⟨i,hput⟩ := slot_chosen hput
  split_ifs at hput
  · cases hput
    exact ⟨forall_update h2.slots (hc _ (h2.slots i)) i,h2.old⟩
  · split at hput
    · rename_i old j hold
      cases hput
      obtain ⟨o,ho,hmap⟩ := bind_eq_some_iff.mp hold
      obtain ⟨j',_,heq⟩ := map_eq_some_iff.mp hmap
      cases heq
      refine ⟨h2.slots,fun o1 ho1 => ?_⟩
      cases ho1
      exact forall_update (h2.old _ ho) (hc _ (h2.old _ ho j)) j
    · cases hput
      exact ⟨forall_update h2.slots hf i,h2.old⟩

theorem AllSlots.get {r : Option σ} (h : AllSlots Q t) (hv : ∀ s, Q (L.vacate s))
    (hget : Rehash.get L t k = some (t',r)) : AllSlots Q t' ∧ ∀ s ∈ r, Q s := by
  have h' := h.rehashStep hv (get_steps hget)
  refine ⟨h',fun s hs => ?_⟩
  obtain ⟨t1,hstep,hget⟩ := bind_eq_some_iff.mp hget
  have h1 := h.rehashStep hv hstep
  split at hget
  · cases hget
    cases hs
    exact h1.slots _
  · split at hget
    · cases hget
      cases hs
    · rename_i o ho
      cases hget
      obtain ⟨i,_,rfl⟩ := map_eq_some_iff.mp hs
      exact h1.old o ho i

theorem lookup_key {slots : Nat → σ} {capacity i : Nat} (h : lookup L slots capacity k = some i) :
    L.key (slots i) = some k := by
  have hi := (filter_eq_some_iff.mp h).2
  simpa using hi

theorem get_key {s : σ} (h : Rehash.get L t k = some (t',some s)) : L.key s = some k := by
  obtain ⟨t1,_,h⟩ := bind_eq_some_iff.mp h
  split at h
  · rename_i i hi
    cases h
    exact lookup_key hi
  · split at h
    · cases h
    · rename_i o ho
      obtain ⟨i,hi,hs⟩ := map_eq_some_iff.mp (congrArg Prod.snd (Option.some.inj h))
      rw [← hs]
      exact lookup_key hi

theorem get_still (ho : t.old = none) (k : κ) : ∃ r, Rehash.get L t k = some (t,r) := by
  have hstep : Rehash.rehashStep L t = some t := by
    unfold Rehash.rehashStep
    rw [ho]
  unfold Rehash.get
  rw [hstep,bind_eq_bind,bind_some]
  cases lookup L t.slots t.capacity k with
  | some i => exact ⟨_,rfl⟩
  | none =>
    rw [ho]
    exact ⟨_,rfl⟩

theorem AllSlots.remove {found : Bool} (h : AllSlots Q t) (hv : ∀ s, Q (L.vacate s))
    (hremove : Rehash.remove L t k = some (t',found)) : AllSlots Q t' := by
  obtain ⟨t1,hstep,hremove⟩ := bind_eq_some_iff.mp hremove
  have h1 := h.rehashStep hv hstep
  split at hremove
  · cases hremove
    exact ⟨forall_update (forall_shiftLoop _ _ _ _ h1.slots) (hv _) _,h1.old⟩
  · split at hremove
    · rename_i old j hold
      cases hremove
      obtain ⟨o,ho,hmap⟩ := bind_eq_some_iff.mp hold
      obtain ⟨j',_,heq⟩ := map_eq_some_iff.mp hmap
      cases heq
      refine ⟨h1.slots,fun o1 ho1 => ?_⟩
      cases ho1
      exact forall_update (h1.old _ ho) (hv _) j
    · cases hremove
      exact h1

end Operations

theorem migrate_cursor {capacity : Nat} (fuel : Nat) :
    ∀ (slots : Nat → σ) (old : OldTable σ) (m : Nat) (slots' : Nat → σ) (old' : OldTable σ),
      migrate L capacity fuel slots old m = some (slots',old') →
      old'.capacity = old.capacity ∧ old.cursor ≤ old'.cursor ∧
        (0 < fuel → old.cursor < old.capacity → m < L.batch → old.cursor < old'.cursor) := by
  induction fuel with
  | zero =>
    intro slots old m slots' old' h
    cases h
    exact ⟨rfl,Nat.le_refl _,fun h => absurd h (Nat.lt_irrefl 0)⟩
  | succ fuel ih =>
    intro slots old m slots' old' h
    rw [migrate] at h
    split_ifs at h with hgo
    · simp only at h
      split at h
      · obtain ⟨j,_,h⟩ := bind_eq_some_iff.mp h
        obtain ⟨hcap,hle,_⟩ := ih _ _ _ _ _ h
        exact ⟨hcap,Nat.le_of_succ_le hle,fun _ _ _ => hle⟩
      · obtain ⟨hcap,hle,_⟩ := ih _ _ _ _ _ h
        exact ⟨hcap,Nat.le_of_succ_le hle,fun _ _ _ => hle⟩
    · cases h
      exact ⟨rfl,Nat.le_refl _,fun _ hc hm => absurd ⟨hc,hm⟩ hgo⟩

/-- A step that changes nothing had nothing to migrate. -/
theorem rehashStep_moves (h : rehashStep L t = some t) : t.old = none := by
  unfold rehashStep at h
  cases ho : t.old with
  | none => rfl
  | some o =>
    simp only [ho] at h
    obtain ⟨⟨slots,o'⟩,hmigrate,h⟩ := bind_eq_some_iff.mp h
    obtain ⟨hcap,hle,hlt⟩ := migrate_cursor _ _ _ _ _ _ hmigrate
    have hbatch := L.three_le_batch
    simp only at h
    split_ifs at h with hdone
    · have hold := congrArg Table.old (Option.some.inj h)
      rw [ho] at hold
      cases hold
    · have hold := congrArg Table.old (Option.some.inj h)
      rw [ho] at hold
      cases hold
      have := hlt (by omega) (by omega) (by omega)
      omega

end Rehash
