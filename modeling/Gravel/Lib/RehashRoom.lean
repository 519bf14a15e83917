import Gravel.Lib.Rehash
import Mathlib.Tactic.Linarith

namespace Rehash
open LinearProbe List Option Function

section Moved

variable {κ : Type} {T T' : Nat → Option κ} {a b q : Nat}

def moved (T : Nat → Option κ) (a b : Nat) : Nat :=
  (List.range' a (b - a)).countP (fun i => (T i).isSome)

theorem moved_self : moved T a a = 0 := by simp [moved]

theorem moved_head (h : a < b) :
    moved T a b = (if (T a).isSome then 1 else 0) + moved T (a + 1) b := by
  obtain ⟨n,hn⟩ : ∃ n, b - a = n + 1 := ⟨b - a - 1,by omega⟩
  have hn' : b - (a + 1) = n := by omega
  rw [moved,moved,hn,hn',range'_succ,countP_cons,Nat.add_comm]

theorem moved_add (haq : a ≤ q) (hqb : q ≤ b) : moved T a b = moved T a q + moved T q b := by
  have hsplit : List.range' a (b - a) = List.range' a (q - a) ++ List.range' q (b - q) := by
    have happ : List.range' a (q - a) 1 ++ List.range' (a + 1 * (q - a)) (b - q) 1 =
        List.range' a (q - a + (b - q)) 1 := range'_append
    rw [Nat.one_mul,show a + (q - a) = q by omega,show q - a + (b - q) = b - a by omega] at happ
    exact happ.symm
  rw [moved,hsplit,countP_append,moved,moved]

theorem moved_lt (haq : a ≤ q) (hqb : q < b) (hq : (T q).isSome) : moved T a q < moved T a b := by
  rw [moved_add haq (Nat.le_of_lt hqb),moved_head hqb,if_pos hq]
  omega

theorem moved_congr (h : ∀ i, a ≤ i → T' i = T i) : moved T' a b = moved T a b := by
  unfold moved
  apply countP_congr
  intro i hi
  rw [h i (mem_range'_1.mp hi).1]

end Moved

section Arithmetic

variable {B C n r : Nat}

theorem pace_room (hB : 3 ≤ B) (hp : B * n + r ≤ (B + 1) * C + B) (hC : 0 < C) : n ≤ C * 2 := by
  by_contra hn
  nlinarith

theorem pace_free (hB : 3 ≤ B) (hp : B * n + r ≤ (B + 1) * C + B) (hC : 0 < C) :
    n < C * 2 ∨ C * 2 ≤ 2 := by
  by_contra hn
  push Not at hn
  obtain ⟨b,rfl⟩ : ∃ b, B = b + 3 := ⟨B - 3,by omega⟩
  obtain ⟨c,rfl⟩ : ∃ c, C = c + 2 := ⟨C - 2,by omega⟩
  nlinarith

theorem slack_free (hB : 3 ≤ B) (hp : B * n + r ≤ (B + 1) * C) (hC : 0 < C) : n < C * 2 := by
  by_contra hn
  nlinarith

end Arithmetic

variable {κ σ : Type} {L : Layout κ σ}

theorem home_lt {cap : Nat} (hc : cap.isPowerOfTwo) (k : κ) : L.home cap k < cap := by
  rw [Layout.home,and_mask hc]
  exact Nat.mod_lt _ (pow_two_pos hc)

theorem keys_blank : L.keys (fun _ => L.blank) = fun _ => none := by
  funext i
  exact L.key_blank

section Search

variable {slots : Nat → σ} {cap i : Nat} {k : κ}

theorem freeSlot_free (hc : cap.isPowerOfTwo) (hroom : ∃ i < cap, L.key (slots i) = none) (k : κ) :
    ∃ h < cap, freeSlot L slots cap k = some h ∧ L.key (slots h) = none := by
  obtain ⟨e,he,hen⟩ := hroom
  obtain ⟨h,hh⟩ := probe_total (fun i => (L.key (slots i)).isNone) hc (home_lt hc k) he (by simp [hen])
  obtain ⟨d,_,_,hstop,_⟩ := (probe_some hc (home_lt hc k)).mp hh
  exact ⟨h,probe_lt hc (home_lt hc k) hh,hh,by simpa using hstop⟩

theorem find_stops [DecidableEq κ] (hc : cap.isPowerOfTwo)
    (hroom : ∃ i < cap, L.key (slots i) = none) (k : κ) :
    ∃ h < cap, find L slots cap k = some h ∧
      (L.key (slots h) = none ∨ L.key (slots h) = some k) := by
  obtain ⟨e,he,hen⟩ := hroom
  obtain ⟨h,hh⟩ := probe_total (stopFor (L.keys slots) k) hc (home_lt hc k) he (by simp [stopFor,hen])
  obtain ⟨hlt,_,hstop⟩ := search_some hc (home_lt hc k) hh
  exact ⟨h,hlt,hh,hstop⟩

theorem lookup_some [DecidableEq κ] (hc : cap.isPowerOfTwo) (h : lookup L slots cap k = some i) :
    i < cap ∧ L.key (slots i) = some k := by
  obtain ⟨hf,hk⟩ := filter_eq_some_iff.mp h
  exact ⟨probe_lt hc (home_lt hc k) hf,by simpa using hk⟩

end Search

section Occupancy

variable {slots : Nat → σ} {cap i : Nat} {u : σ}

theorem occupied_put (hi : i < cap) (hn : L.key (slots i) = none) (hu : L.key u ≠ none) :
    occupied cap (L.keys (update slots i u)) = occupied cap (L.keys slots) + 1 := by
  refine occupied_fill hi hn ?_ fun j _ hj => congrArg L.key (update_of_ne hj _ _)
  rw [Layout.keys,update_self]
  exact isSome_iff_ne_none.mpr hu

theorem occupied_take (hi : i < cap) (hs : (L.key (slots i)).isSome) (hu : L.key u = none) :
    occupied cap (L.keys (update slots i u)) + 1 = occupied cap (L.keys slots) := by
  refine occupied_clear hi hs ?_ fun j _ hj => congrArg L.key (update_of_ne hj _ _)
  rw [Layout.keys,update_self,hu]

theorem occupied_change (hu : (L.key u).isSome = (L.key (slots i)).isSome) :
    occupied cap (L.keys (update slots i u)) = occupied cap (L.keys slots) := by
  refine occupied_congr fun j _ => ?_
  by_cases hj : j = i
  · subst hj
    rw [Layout.keys,update_self,hu]
  · rw [Layout.keys,update_of_ne hj]

end Occupancy

section Migration

variable {cap : Nat} {slots : Nat → σ} {old : OldTable σ} {k : κ}

def OldTable.passed (L : Layout κ σ) (old : OldTable σ) : OldTable σ :=
  { old with
    slots := update old.slots old.cursor (L.vacate (old.slots old.cursor))
    cursor := old.cursor + 1 }

theorem passed_none : L.key ((old.passed L).slots old.cursor) = none := by
  simp [OldTable.passed,L.key_vacate]

theorem passed_other {i : Nat} (hi : i ≠ old.cursor) : (old.passed L).slots i = old.slots i := by
  simp [OldTable.passed,update_of_ne hi]

theorem passed_some {i : Nat} (hi : L.key ((old.passed L).slots i) = some k) :
    i ≠ old.cursor ∧ L.key (old.slots i) = some k := by
  have hne : i ≠ old.cursor := by
    rintro rfl
    rw [passed_none] at hi
    contradiction
  rw [passed_other hne] at hi
  exact ⟨hne,hi⟩

/-- What a migration needs to find an empty slot for every entry that it moves; nothing is said
about which keys the tables hold. -/
structure Loaded (L : Layout κ σ) (capacity : Nat) (slots : Nat → σ) (old : OldTable σ) : Prop where
  pow : capacity.isPowerOfTwo
  swept : ∀ i < old.cursor, L.key (old.slots i) = none
  room : occupied capacity (L.keys slots) + occupied old.capacity (L.keys old.slots) ≤ capacity

theorem Loaded.skip (hs : Loaded L cap slots old) (hn : L.key (old.slots old.cursor) = none) :
    Loaded L cap slots { old with cursor := old.cursor + 1 } := by
  refine { hs with swept := ?_ }
  intro i hi
  rcases Nat.lt_succ_iff_lt_or_eq.mp hi with hi | rfl
  · exact hs.swept i hi
  · exact hn

theorem Loaded.free (hs : Loaded L cap slots old) (hcur : old.cursor < old.capacity)
    (hk : L.key (old.slots old.cursor) = some k) : ∃ i < cap, L.key (slots i) = none := by
  have hheld : 0 < occupied old.capacity (L.keys old.slots) := by
    have := occupied_take (u := L.blank) hcur (by rw [hk]; rfl) L.key_blank
    omega
  have hroom := hs.room
  exact exists_empty (T := L.keys slots) (by omega)

theorem Loaded.move (hs : Loaded L cap slots old) (hcur : old.cursor < old.capacity)
    (hk : L.key (old.slots old.cursor) = some k) :
    ∃ h < cap, freeSlot L slots cap k = some h ∧ L.key (slots h) = none ∧
      Loaded L cap (update slots h (old.slots old.cursor)) (old.passed L) ∧
      occupied cap (L.keys (update slots h (old.slots old.cursor))) =
        occupied cap (L.keys slots) + 1 ∧
      occupied old.capacity (L.keys (old.passed L).slots) + 1 =
        occupied old.capacity (L.keys old.slots) := by
  obtain ⟨h,hh,hfree,hnone⟩ := freeSlot_free hs.pow (hs.free hcur hk) k
  have hnew := occupied_put hh hnone (u := old.slots old.cursor) (by rw [hk]; simp)
  have hold : occupied old.capacity (L.keys (old.passed L).slots) + 1 =
      occupied old.capacity (L.keys old.slots) :=
    occupied_take hcur (by rw [hk]; rfl) (L.key_vacate _)
  refine ⟨h,hh,hfree,hnone,⟨hs.pow,?_,?_⟩,hnew,hold⟩
  · intro i hi
    rcases Nat.lt_succ_iff_lt_or_eq.mp hi with hi | rfl
    · rw [passed_other (by omega)]
      exact hs.swept i hi
    · exact passed_none
  · have hroom := hs.room
    show _ + occupied old.capacity (L.keys (old.passed L).slots) ≤ cap
    omega

structure Drained (L : Layout κ σ) (cap : Nat) (slots : Nat → σ) (old : OldTable σ) (m : Nat)
    (slots' : Nat → σ) (old' : OldTable σ) : Prop where
  loaded : Loaded L cap slots' old'
  capacity : old'.capacity = old.capacity
  cursor_le : old.cursor ≤ old'.cursor
  rest : ∀ q, old'.cursor ≤ q → old'.slots q = old.slots q
  budget : m + moved (L.keys old.slots) old.cursor old'.cursor ≤ L.batch
  spent : old'.cursor < old.capacity →
    m + moved (L.keys old.slots) old.cursor old'.cursor = L.batch
  left : occupied old'.capacity (L.keys old'.slots) +
    moved (L.keys old.slots) old.cursor old'.cursor = occupied old.capacity (L.keys old.slots)
  total : occupied cap (L.keys slots') + occupied old'.capacity (L.keys old'.slots) =
    occupied cap (L.keys slots) + occupied old.capacity (L.keys old.slots)

theorem drained_refl {m : Nat} (hs : Loaded L cap slots old) (hm : m ≤ L.batch)
    (hstop : ¬ (old.cursor < old.capacity ∧ m < L.batch)) :
    Drained L cap slots old m slots old := by
  refine ⟨hs,rfl,Nat.le_refl _,fun _ _ => rfl,by simpa [moved_self] using hm,?_,
    by simp [moved_self],rfl⟩
  intro hlt
  rw [moved_self]
  omega

theorem migrate_drains (fuel : Nat) :
    ∀ slots old m, Loaded L cap slots old → m ≤ L.batch → old.capacity ≤ fuel + old.cursor →
      ∃ slots' old', migrate L cap fuel slots old m = some (slots',old') ∧
        Drained L cap slots old m slots' old' := by
  induction fuel with
  | zero =>
    intro slots old m hs hm hf
    exact ⟨slots,old,rfl,drained_refl hs hm (by omega)⟩
  | succ fuel ih =>
    intro slots old m hs hm hf
    by_cases hgo : old.cursor < old.capacity ∧ m < L.batch
    · cases hk : L.key (old.slots old.cursor) with
      | none =>
        obtain ⟨slots',old',hrun,hd⟩ := ih slots { old with cursor := old.cursor + 1 } m
          (hs.skip hk) hm (by simp only; omega)
        have hhead {b : Nat} (hb : old.cursor + 1 ≤ b) :
            moved (L.keys old.slots) old.cursor b = moved (L.keys old.slots) (old.cursor + 1) b := by
          rw [moved_head (by omega),if_neg (by simp [hk]),Nat.zero_add]
        have hle : old.cursor + 1 ≤ old'.cursor := hd.cursor_le
        refine ⟨slots',old',by simp [migrate,hgo,hk,hrun],hd.loaded,hd.capacity,by omega,hd.rest,
          ?_,?_,?_,hd.total⟩
        · rw [hhead hle]
          exact hd.budget
        · rw [hhead hle]
          exact hd.spent
        · rw [hhead hle]
          exact hd.left
      | some k =>
        obtain ⟨h,hh,hfree,hnone,hload,hnew,hold⟩ := hs.move hgo.1 hk
        obtain ⟨slots',old',hrun,hd⟩ := ih (update slots h (old.slots old.cursor))
          (old.passed L) (m + 1) hload (by omega) (by simp only [OldTable.passed]; omega)
        have hle : old.cursor + 1 ≤ old'.cursor := hd.cursor_le
        have hhead : moved (L.keys old.slots) old.cursor old'.cursor =
            1 + moved (L.keys (old.passed L).slots) (old.passed L).cursor old'.cursor := by
          rw [moved_head (by omega),if_pos (by simp [hk])]
          congr 1
          apply (moved_congr _).symm
          intro i hi
          exact congrArg L.key (passed_other (by omega))
        have hcap : (old.passed L).capacity = old.capacity := rfl
        have hbudget := hd.budget
        have hleft := hd.left
        have htotal := hd.total
        rw [hcap] at hleft htotal
        refine ⟨slots',old',?_,hd.loaded,hd.capacity,by omega,?_,by omega,?_,by omega,by omega⟩
        · simp only [migrate,hgo,and_self,if_true,hk,hfree,bind_eq_bind,bind_some]
          exact hrun
        · intro q hq
          rw [hd.rest q hq,passed_other (by omega)]
        · intro hlt
          have := hd.spent hlt
          omega
    · exact ⟨slots,old,by simp only [migrate,hgo,if_false],drained_refl hs hm hgo⟩

/-- The insertions of one migration loop: the table and the key that each of them is called with. -/
inductive LoopInserts (L : Layout κ σ) (cap : Nat) (table : Nat → σ) (k : κ) :
    (Nat → σ) → OldTable σ → Nat → Prop where
  | here {old : OldTable σ} {m : Nat} (hcur : old.cursor < old.capacity) (hm : m < L.batch)
      (hk : L.key (old.slots old.cursor) = some k) : LoopInserts L cap table k table old m
  | moved {slots : Nat → σ} {old : OldTable σ} {m : Nat} {q : κ} {h : Nat}
      (hcur : old.cursor < old.capacity) (hm : m < L.batch)
      (hq : L.key (old.slots old.cursor) = some q) (hfree : freeSlot L slots cap q = some h)
      (hlater : LoopInserts L cap table k (update slots h (old.slots old.cursor))
        (old.passed L) (m + 1)) : LoopInserts L cap table k slots old m
  | skipped {slots : Nat → σ} {old : OldTable σ} {m : Nat}
      (hcur : old.cursor < old.capacity) (hm : m < L.batch)
      (hnone : L.key (old.slots old.cursor) = none)
      (hlater : LoopInserts L cap table k slots { old with cursor := old.cursor + 1 } m) :
      LoopInserts L cap table k slots old m

theorem LoopInserts.free {table : Nat → σ} {m : Nat} (h : LoopInserts L cap table k slots old m)
    (hs : Loaded L cap slots old) : ∃ i < cap, L.key (table i) = none := by
  induction h with
  | here hcur _ hk => exact hs.free hcur hk
  | moved hcur _ hq hfree _ ih =>
    obtain ⟨i,_,hfree',_,hload,_⟩ := hs.move hcur hq
    rw [hfree] at hfree'
    cases hfree'
    exact ih hload
  | skipped _ _ hnone _ ih => exact ih (hs.skip hnone)

end Migration

end Rehash
