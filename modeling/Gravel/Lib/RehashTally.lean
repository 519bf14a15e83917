import Gravel.Lib.RehashFrame
import Gravel.Lib.RehashRoom

namespace Rehash
open LinearProbe Option Function

variable {κ σ : Type} {L : Layout κ σ}

def oldCount (L : Layout κ σ) (t : Table σ) : Nat :=
  match t.old with
  | none => 0
  | some o => occupied o.capacity (L.keys o.slots)

/-- An old table on its way out. By `pace` it is empty long before the new table fills up. -/
structure Draining (L : Layout κ σ) (t : Table σ) (o : OldTable σ) : Prop where
  double : t.capacity = o.capacity * 2
  oldPow : o.capacity.isPowerOfTwo
  cursor : o.cursor < o.capacity
  swept : ∀ i < o.cursor, L.key (o.slots i) = none
  pace : L.batch * t.count + occupied o.capacity (L.keys o.slots) ≤
    (L.batch + 1) * o.capacity + L.batch

/-- The counter is right and leaves room. Nothing is said about which keys can be found: an entry
that a search misses may be stored a second time. -/
structure Tallied (L : Layout κ σ) (t : Table σ) : Prop where
  pow : t.capacity.isPowerOfTwo
  count : t.count = occupied t.capacity (L.keys t.slots) + oldCount L t
  old : ∀ o, t.old = some o → Draining L t o

variable {t t' : Table σ} {o : OldTable σ} {k : κ}

theorem oldCount_some (h : t.old = some o) : oldCount L t = occupied o.capacity (L.keys o.slots) := by
  simp [oldCount,h]

theorem oldCount_none (h : t.old = none) : oldCount L t = 0 := by
  simp [oldCount,h]

theorem oldCount_congr (h : t'.old = t.old) : oldCount L t' = oldCount L t := by
  unfold oldCount
  rw [h]

theorem Draining.pos (h : Draining L t o) : 0 < o.capacity :=
  Nat.lt_of_le_of_lt (Nat.zero_le _) h.cursor

theorem Tallied.count_le (h : Tallied L t) : t.count ≤ t.capacity := by
  cases ho : t.old with
  | none =>
    rw [h.count,oldCount_none ho]
    exact occupied_le
  | some o =>
    have hd := h.old o ho
    rw [hd.double]
    exact pace_room L.three_le_batch hd.pace hd.pos

theorem Tallied.loaded (h : Tallied L t) (ho : t.old = some o) : Loaded L t.capacity t.slots o := by
  have hle := h.count_le
  rw [h.count,oldCount_some ho] at hle
  exact ⟨h.pow,(h.old o ho).swept,hle⟩

theorem Tallied.full (h : Tallied L t) (ho : t.old = some o) :
    t.count < t.capacity ∨ t.capacity ≤ 2 := by
  have hd := h.old o ho
  rw [hd.double]
  exact pace_free L.three_le_batch hd.pace hd.pos

theorem Tallied.free (h : Tallied L t) (hlt : t.count < t.capacity) :
    ∃ i < t.capacity, L.key (t.slots i) = none := by
  have hcount := h.count
  exact exists_empty (T := L.keys t.slots) (by omega)

theorem tallied_blank {cap : Nat} (hc : cap.isPowerOfTwo) :
    Tallied L ⟨fun _ => L.blank,cap,0,none⟩ := by
  refine ⟨hc,?_,fun o ho => nomatch ho⟩
  simp only [keys_blank,occupied_empty,oldCount_none]

structure Ticked (L : Layout κ σ) (t t' : Table σ) : Prop where
  tallied : Tallied L t'
  count : t'.count = t.count
  capacity : t'.capacity = t.capacity
  slack : ∀ o', t'.old = some o' → L.batch * t'.count + occupied o'.capacity (L.keys o'.slots) ≤
    (L.batch + 1) * o'.capacity
  onward : ∀ o', t'.old = some o' → ∃ o, t.old = some o ∧ o'.capacity = o.capacity ∧
    o.cursor < o'.cursor

theorem rehashStep_ticks (h : Tallied L t) : ∃ t', rehashStep L t = some t' ∧ Ticked L t t' := by
  cases ho : t.old with
  | none =>
    refine ⟨t,by simp [rehashStep,ho],h,rfl,rfl,?_,?_⟩
    · intro o' ho'
      rw [ho] at ho'
      cases ho'
    · intro o' ho'
      rw [ho] at ho'
      cases ho'
  | some o =>
    have hd := h.old o ho
    obtain ⟨slots',o',hrun,hm⟩ := migrate_drains o.capacity t.slots o 0 (h.loaded ho) (Nat.zero_le _)
      (by omega)
    have hcount := h.count
    rw [oldCount_some ho] at hcount
    have htotal := hm.total
    have hcap := hm.capacity
    by_cases hdone : o'.capacity ≤ o'.cursor
    · have hempty : occupied o'.capacity (L.keys o'.slots) = 0 := by
        rw [occupied,Finset.card_eq_zero,Finset.filter_eq_empty_iff]
        intro i hi
        have hi := Finset.mem_range.mp hi
        simp [hm.loaded.swept i (by omega)]
      refine ⟨{ t with slots := slots', old := none },by simp [rehashStep,ho,hrun,hdone],
        ⟨h.pow,?_,?_⟩,rfl,rfl,?_,?_⟩
      · rw [oldCount_none rfl]
        simp only
        omega
      · intro o2 ho2
        cases ho2
      · intro o2 ho2
        cases ho2
      · intro o2 ho2
        cases ho2
    · have hspent := hm.spent (by omega)
      rw [Nat.zero_add] at hspent
      have hleft := hm.left
      have hpace := hd.pace
      have hslack : L.batch * t.count + occupied o'.capacity (L.keys o'.slots) ≤
          (L.batch + 1) * o'.capacity := by
        rw [hcap] at hleft ⊢
        omega
      have hfwd : o.cursor < o'.cursor := by
        rcases Nat.lt_or_eq_of_le hm.cursor_le with hlt | heq
        · exact hlt
        · have := L.three_le_batch
          rw [← heq,moved_self] at hspent
          omega
      have hdrain : Draining L { t with slots := slots', old := some o' } o' :=
        ⟨by rw [hcap]; exact hd.double,by rw [hcap]; exact hd.oldPow,by omega,hm.loaded.swept,
          Nat.le_add_right_of_le hslack⟩
      refine ⟨{ t with slots := slots', old := some o' },by simp [rehashStep,ho,hrun,hdone],
        ⟨h.pow,?_,?_⟩,rfl,rfl,?_,?_⟩
      · rw [oldCount_some rfl]
        simp only
        omega
      · intro o2 ho2
        cases ho2
        exact hdrain
      · intro o2 ho2
        cases ho2
        exact hslack
      · intro o2 ho2
        cases ho2
        exact ⟨o,ho,hcap,hfwd⟩

theorem Tallied.beginGrow (h : Tallied L t) (ho : t.old = none)
    (hdouble : L.double t.capacity = t.capacity * 2) :
    Tallied L (beginGrow L t) ∧ L.batch * t.count + occupied t.capacity (L.keys t.slots) ≤
      (L.batch + 1) * t.capacity := by
  have hcount := h.count
  rw [oldCount_none ho,Nat.add_zero] at hcount
  have hpos := pow_two_pos h.pow
  have hle : t.count ≤ t.capacity := h.count_le
  have hslack : L.batch * t.count + occupied t.capacity (L.keys t.slots) ≤
      (L.batch + 1) * t.capacity := by
    rw [← hcount]
    calc L.batch * t.count + t.count = (L.batch + 1) * t.count := by ring
      _ ≤ (L.batch + 1) * t.capacity := Nat.mul_le_mul_left _ hle
  rw [Rehash.beginGrow,hdouble]
  refine ⟨⟨Nat.isPowerOfTwo_mul_two_of_isPowerOfTwo h.pow,?_,?_⟩,hslack⟩
  · rw [oldCount_some rfl]
    simp only [keys_blank,occupied_empty]
    omega
  · intro o ho'
    cases ho'
    exact ⟨rfl,h.pow,hpos,fun i hi => absurd hi (Nat.not_lt_zero i),Nat.le_add_right_of_le hslack⟩

structure Vacant (L : Layout κ σ) (t : Table σ) : Prop where
  tallied : Tallied L t
  room : t.count < t.capacity
  slack : ∀ o, t.old = some o → L.batch * t.count + occupied o.capacity (L.keys o.slots) ≤
    (L.batch + 1) * o.capacity

structure Accommodates (L : Layout κ σ) (t : Table σ) : Prop where
  double : L.crowded t.count t.capacity = true → L.double t.capacity = t.capacity * 2
  room : L.crowded t.count t.capacity = false → t.count < t.capacity

theorem Ticked.growth (h : Ticked L t t') (ha : Accommodates L t) :
    Vacant L (growth L t') ∧ (growth L t').count = t.count ∧
      ((growth L t').capacity = t.capacity ∨ (growth L t').capacity = t.capacity * 2) := by
  have hcap := h.capacity
  have hdouble := ha.double
  have hroom := ha.room
  rw [← h.count,← hcap] at hdouble hroom
  unfold Rehash.growth
  cases ho : t'.old with
  | none =>
    cases hcr : L.crowded t'.count t'.capacity with
    | true =>
      obtain ⟨hgrown,hslack⟩ := h.tallied.beginGrow ho (hdouble hcr)
      have hpos := pow_two_pos h.tallied.pow
      have hle := h.tallied.count_le
      simp only [isNone_none,Bool.and_self,if_true]
      refine ⟨⟨hgrown,?_,?_⟩,h.count,.inr ?_⟩
      · simp only [Rehash.beginGrow,hdouble hcr]
        omega
      · intro o ho'
        cases ho'
        exact hslack
      · rw [← hcap]
        exact hdouble hcr
    | false =>
      simp only [isNone_none,Bool.and_false,Bool.false_eq_true,if_false]
      exact ⟨⟨h.tallied,hroom hcr,h.slack⟩,h.count,.inl hcap⟩
  | some o =>
    simp only [isNone_some,Bool.false_and,Bool.false_eq_true,if_false]
    have hd := h.tallied.old o ho
    have hfree := slack_free L.three_le_batch (h.slack o ho) hd.pos
    rw [← hd.double] at hfree
    exact ⟨⟨h.tallied,hfree,h.slack⟩,h.count,.inl hcap⟩

theorem Tallied.change_new (h : Tallied L t) {i : Nat} {u : σ}
    (hu : (L.key u).isSome = (L.key (t.slots i)).isSome) :
    Tallied L { t with slots := update t.slots i u } := by
  refine ⟨h.pow,?_,fun o ho => ?_⟩
  · simp only [occupied_change hu]
    exact h.count
  · obtain ⟨hdouble,hpow,hcur,hswept,hpace⟩ := h.old o ho
    exact ⟨hdouble,hpow,hcur,hswept,hpace⟩

theorem Tallied.change_old (h : Tallied L t) (ho : t.old = some o) {i : Nat} {u : σ} (hi : i < o.capacity)
    (hs : (L.key (o.slots i)).isSome) (hu : (L.key u).isSome) :
    Tallied L { t with old := some { o with slots := update o.slots i u } } := by
  have hocc : occupied o.capacity (L.keys (update o.slots i u)) =
      occupied o.capacity (L.keys o.slots) := occupied_change (by rw [hu,hs])
  refine ⟨h.pow,?_,fun o' ho' => ?_⟩
  · rw [h.count,oldCount_some ho,oldCount_some rfl,hocc]
  · cases ho'
    obtain ⟨hdouble,hpow,hcur,hswept,hpace⟩ := h.old o ho
    refine ⟨hdouble,hpow,hcur,fun j hj => ?_,by rw [hocc]; exact hpace⟩
    have hji : j ≠ i := by
      rintro rfl
      rw [hswept j hj] at hs
      cases hs
    simp only [update_of_ne hji]
    exact hswept j hj

theorem Tallied.fill (h : Tallied L t)
    (hslack : ∀ o, t.old = some o → L.batch * t.count + occupied o.capacity (L.keys o.slots) ≤
      (L.batch + 1) * o.capacity) {i : Nat} {u : σ} (hi : i < t.capacity)
    (hn : L.key (t.slots i) = none) (hu : L.key u ≠ none) :
    Tallied L { t with slots := update t.slots i u, count := t.count + 1 } := by
  have hocc := occupied_put hi hn hu
  have hcount := h.count
  refine ⟨h.pow,?_,fun o ho => ?_⟩
  · have hold : oldCount L { t with slots := update t.slots i u, count := t.count + 1 } =
        oldCount L t := oldCount_congr rfl
    simp only [hocc,hold]
    omega
  · obtain ⟨hdouble,hpow,hcur,hswept,_⟩ := h.old o ho
    have hroom := hslack o ho
    refine ⟨hdouble,hpow,hcur,hswept,?_⟩
    simp only [Nat.mul_add,Nat.mul_one]
    omega

theorem Draining.fewer (h : Draining L t o) {n : Nat} (hn : n ≤ occupied o.capacity (L.keys o.slots)) :
    L.batch * (t.count - 1) + n ≤ (L.batch + 1) * o.capacity + L.batch := by
  have hle : L.batch * (t.count - 1) ≤ L.batch * t.count := Nat.mul_le_mul_left _ (Nat.sub_le _ _)
  have hpace := h.pace
  omega

theorem Tallied.take_new (h : Tallied L t) {slots : Nat → σ}
    (hocc : occupied t.capacity (L.keys slots) + 1 = occupied t.capacity (L.keys t.slots)) :
    Tallied L { t with slots := slots, count := t.count - 1 } := by
  have hold : oldCount L { t with slots := slots, count := t.count - 1 } = oldCount L t :=
    oldCount_congr rfl
  have hcount := h.count
  refine ⟨h.pow,?_,fun o ho => ?_⟩
  · rw [hold]
    simp only
    omega
  · have hd := h.old o ho
    exact ⟨hd.double,hd.oldPow,hd.cursor,hd.swept,hd.fewer (Nat.le_refl _)⟩

theorem Tallied.take_old (h : Tallied L t) (ho : t.old = some o) {i : Nat} (hi : i < o.capacity)
    (hk : L.key (o.slots i) = some k) :
    Tallied L { t with
      old := some { o with slots := update o.slots i (L.vacate (o.slots i)) }
      count := t.count - 1 } := by
  have hocc := occupied_take hi (by rw [hk]; rfl) (L.key_vacate (o.slots i))
  have hcount := h.count
  rw [oldCount_some ho] at hcount
  have hd := h.old o ho
  refine ⟨h.pow,?_,fun o' ho' => ?_⟩
  · rw [oldCount_some rfl]
    simp only
    omega
  · cases ho'
    refine ⟨hd.double,hd.oldPow,hd.cursor,fun j hj => ?_,hd.fewer (by simp only; omega)⟩
    by_cases hji : j = i
    · subst hji
      simp only [update_self]
      exact L.key_vacate _
    · simp only [update_of_ne hji]
      exact hd.swept j hj

section Operations

variable [DecidableEq κ]

theorem old_found (h : Tallied L t) {i : Nat}
    (hl : t.old.bind (fun o => (lookup L o.slots o.capacity k).map (fun i => (o,i))) = some (o,i)) :
    t.old = some o ∧ i < o.capacity ∧ L.key (o.slots i) = some k := by
  obtain ⟨o1,ho1,hl⟩ := bind_eq_some_iff.mp hl
  obtain ⟨i1,hl,heq⟩ := map_eq_some_iff.mp hl
  cases heq
  obtain ⟨hi,hk⟩ := lookup_some (h.old _ ho1).oldPow hl
  exact ⟨ho1,hi,hk⟩

theorem put_tallies (h : Tallied L t) (ha : Accommodates L t) {change : σ → σ} {fresh : σ}
    (hchange : ∀ s, L.key s = some k → L.key (change s) = some k) (hfresh : L.key fresh = some k) :
    ∃ t1 t', rehashStep L t = some t1 ∧
      (∃ i < (growth L t1).capacity, L.key ((growth L t1).slots i) = none) ∧
      put L t k change fresh = some t' ∧ Tallied L t' ∧
      (t'.capacity = t.capacity ∨ t'.capacity = t.capacity * 2) := by
  obtain ⟨t1,hstep,htick⟩ := rehashStep_ticks h
  obtain ⟨hv,hcount,hcap⟩ := htick.growth ha
  have hfree := hv.tallied.free hv.room
  refine ⟨t1,?_⟩
  simp only [put,hstep,bind_eq_bind,bind_some,true_and]
  generalize growth L t1 = t2 at hv hcount hcap hfree ⊢
  obtain ⟨i,hi,hfind,hkey⟩ := find_stops hv.tallied.pow hfree k
  by_cases hk : L.key (t2.slots i) = some k
  · refine ⟨{ t2 with slots := update t2.slots i (change (t2.slots i)) },hfree,
      by simp [hfind,hk],hv.tallied.change_new ?_,hcap⟩
    rw [hchange _ hk,hk]
  · have hnone := hkey.resolve_right hk
    cases hl : t2.old.bind (fun o => (lookup L o.slots o.capacity k).map (fun i => (o,i))) with
    | some p =>
      obtain ⟨o,j⟩ := p
      obtain ⟨ho,hj,hjk⟩ := old_found hv.tallied hl
      refine ⟨{ t2 with
          old := some { o with slots := update o.slots j (change (o.slots j)) } },hfree,
        by simp [hfind,hnone],hv.tallied.change_old ho hj ?_ ?_,hcap⟩
      · rw [hjk]
        rfl
      · rw [hchange _ hjk]
        rfl
    | none =>
      refine ⟨{ t2 with slots := update t2.slots i fresh, count := t2.count + 1 },hfree,
        by simp [hfind,hnone],hv.tallied.fill hv.slack hi hnone (by rw [hfresh]; simp),hcap⟩

theorem get_tallies (h : Tallied L t) (k : κ) :
    ∃ t' r, get L t k = some (t',r) ∧ Tallied L t' ∧ t'.capacity = t.capacity := by
  obtain ⟨t1,hstep,htick⟩ := rehashStep_ticks h
  simp only [get,hstep,bind_eq_bind,bind_some]
  cases lookup L t1.slots t1.capacity k with
  | some i => exact ⟨t1,_,rfl,htick.tallied,htick.capacity⟩
  | none =>
    cases ho : t1.old with
    | none => exact ⟨t1,_,rfl,htick.tallied,htick.capacity⟩
    | some o => exact ⟨t1,_,rfl,htick.tallied,htick.capacity⟩

theorem remove_tallies (h : Tallied L t) (k : κ) :
    ∃ t' b, remove L t k = some (t',b) ∧ Tallied L t' ∧ t'.capacity = t.capacity := by
  obtain ⟨t1,hstep,htick⟩ := rehashStep_ticks h
  have ht := htick.tallied
  simp only [remove,hstep,bind_eq_bind,bind_some]
  cases hl : lookup L t1.slots t1.capacity k with
  | some i =>
    obtain ⟨hi,hk⟩ := lookup_some ht.pow hl
    exact ⟨_,true,rfl,ht.take_new (shiftRemove_occupied ht.pow L.key_vacate hi (by rw [hk]; rfl)),
      htick.capacity⟩
  | none =>
    cases hb : t1.old.bind (fun o => (lookup L o.slots o.capacity k).map (fun i => (o,i))) with
    | none => exact ⟨t1,false,by simp,ht,htick.capacity⟩
    | some p =>
      obtain ⟨o,i⟩ := p
      obtain ⟨ho,hi,hk⟩ := old_found ht hb
      exact ⟨_,true,by simp,ht.take_old ho hi hk,htick.capacity⟩

end Operations

theorem Tallied.migrates (h : Tallied L t) (hsteps : Migrates L t t') : Tallied L t' := by
  induction hsteps with
  | refl => exact h
  | tail _ hlast ih =>
    obtain ⟨t1,hstep,htick⟩ := rehashStep_ticks ih
    rw [hlast] at hstep
    cases hstep
    exact htick.tallied

theorem finishRehash_migrates (h : Tallied L t) {fuel : Nat} (hfuel : t.capacity < fuel) :
    ∃ t', finishRehash L fuel t = some t' ∧ Migrates L t t' ∧ t'.old = none := by
  have hrun : ∀ fuel (t : Table σ), Tallied L t → 0 < fuel →
      (∀ o, t.old = some o → o.capacity < fuel + o.cursor) →
      ∃ t', finishRehash L fuel t = some t' ∧ Migrates L t t' ∧ t'.old = none := by
    intro fuel
    induction fuel with
    | zero =>
      intro t _ hpos
      omega
    | succ fuel ih =>
      intro t h _ hfuel
      cases ho : t.old with
      | none => exact ⟨t,by simp [finishRehash,ho],.refl,ho⟩
      | some o =>
        obtain ⟨t1,hstep,htick⟩ := rehashStep_ticks h
        have hlt := hfuel o ho
        have hcur := (h.old o ho).cursor
        obtain ⟨t',hrun,hsteps,hnone⟩ := ih t1 htick.tallied (by omega) (by
          intro o' ho'
          obtain ⟨o2,ho2,hcap,hfwd⟩ := htick.onward o' ho'
          rw [ho] at ho2
          cases ho2
          omega)
        refine ⟨t',?_,.head hstep hsteps,hnone⟩
        simp only [finishRehash,ho,hstep,bind_eq_bind,bind_some]
        exact hrun
  refine hrun fuel t h (by omega) fun o ho => ?_
  have hdouble := (h.old o ho).double
  omega

end Rehash
