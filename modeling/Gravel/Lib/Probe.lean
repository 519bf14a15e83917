import Mathlib.Data.Nat.Bitwise
import Mathlib.Data.Finset.Card
import Mathlib.Data.Finset.Range
import Mathlib.Logic.Function.Basic
import Mathlib.Tactic.Ring
import Mathlib.Tactic.SplitIfs

namespace LinearProbe
open List Option

/-- Walk from slot `h` in steps of one, masked, until `stop` holds; `none` when
`fuel` slots were visited without stopping. With as much fuel as there are slots
`none` means that the unbounded loop never stops. -/
def probe (stop : Nat → Bool) (mask : Nat) : Nat → Nat → Option Nat
  | 0, _ => none
  | fuel + 1, h => if stop h then some h else probe stop mask fuel ((h + 1) &&& mask)

def gap (cap a b : Nat) : Nat := if a ≤ b then b - a else b + cap - a

section Cycle

variable {cap a b d : Nat}

theorem and_mask (hc : cap.isPowerOfTwo) (x : Nat) : x &&& (cap - 1) = x % cap := by
  obtain ⟨n,rfl⟩ := hc
  exact Nat.and_two_pow_sub_one_eq_mod x n

theorem pow_two_pos (hc : cap.isPowerOfTwo) : 0 < cap := by
  obtain ⟨n,rfl⟩ := hc
  exact Nat.two_pow_pos n

theorem add_mod_lt (ha : a < cap) (hd : d ≤ cap) :
    (a + d) % cap = if a + d < cap then a + d else a + d - cap := by
  split_ifs with h
  · exact Nat.mod_eq_of_lt h
  · rw [Nat.mod_eq_sub_mod (by omega)]
    exact Nat.mod_eq_of_lt (by omega)

theorem gap_lt (ha : a < cap) (hb : b < cap) : gap cap a b < cap := by
  unfold gap
  split_ifs <;> omega

theorem gap_self : gap cap a a = 0 := by simp [gap]

theorem walk_gap (ha : a < cap) (hb : b < cap) : (a + gap cap a b) % cap = b := by
  rw [add_mod_lt ha (Nat.le_of_lt (gap_lt ha hb))]
  unfold gap
  split_ifs <;> omega

theorem gap_walk (ha : a < cap) (hd : d < cap) : gap cap a ((a + d) % cap) = d := by
  rw [add_mod_lt ha (Nat.le_of_lt hd)]
  unfold gap
  split_ifs <;> omega

end Cycle

section Loop

variable {stop : Nat → Bool} {cap fuel h i : Nat}

theorem probe_some (hc : cap.isPowerOfTwo) (hh : h < cap) :
    probe stop (cap - 1) fuel h = some i ↔
      ∃ d < fuel, i = (h + d) % cap ∧ stop i = true ∧
        ∀ e < d, stop ((h + e) % cap) = false := by
  induction fuel generalizing h with
  | zero => simp [probe]
  | succ fuel ih =>
    have hnext : (h + 1) &&& (cap - 1) < cap := by
      rw [and_mask hc]
      exact Nat.mod_lt _ (pow_two_pos hc)
    have hshift (e : Nat) : (((h + 1) &&& (cap - 1)) + e) % cap = (h + (e + 1)) % cap := by
      rw [and_mask hc,Nat.mod_add_mod]
      congr 1
      omega
    cases hs : stop h with
    | true =>
      simp only [probe,hs,if_true,Option.some.injEq]
      constructor
      · rintro rfl
        exact ⟨0,by omega,by simp [Nat.mod_eq_of_lt hh],hs,by simp⟩
      · rintro ⟨d,_,hi,_,hbefore⟩
        cases d with
        | zero => simpa [Nat.mod_eq_of_lt hh] using hi.symm
        | succ d =>
          have := hbefore 0 (by omega)
          simp [Nat.mod_eq_of_lt hh,hs] at this
    | false =>
      simp only [probe,hs,Bool.false_eq_true,if_false]
      rw [ih hnext]
      constructor
      · rintro ⟨d,hd,hi,hst,hbefore⟩
        refine ⟨d + 1,by omega,by rw [hi,hshift],hst,?_⟩
        intro e he
        cases e with
        | zero => simpa [Nat.mod_eq_of_lt hh] using hs
        | succ e =>
          rw [← hshift]
          exact hbefore e (by omega)
      · rintro ⟨d,hd,hi,hst,hbefore⟩
        cases d with
        | zero =>
          simp only [Nat.add_zero,Nat.mod_eq_of_lt hh] at hi
          rw [hi,hs] at hst
          contradiction
        | succ d =>
          refine ⟨d,by omega,by rw [hi,hshift],hst,?_⟩
          intro e he
          rw [hshift]
          exact hbefore (e + 1) (by omega)

theorem probe_none (hc : cap.isPowerOfTwo) (hh : h < cap) :
    probe stop (cap - 1) fuel h = none ↔ ∀ d < fuel, stop ((h + d) % cap) = false := by
  constructor
  · intro hn d
    -- The first stopping slot among those visited would have been returned.
    induction d using Nat.strong_induction_on with
    | h d ih =>
      intro hd
      cases hs : stop ((h + d) % cap) with
      | false => rfl
      | true =>
        have := (probe_some (i := (h + d) % cap) hc hh).mpr
          ⟨d,hd,rfl,hs,fun e he => ih e he (by omega)⟩
        rw [hn] at this
        contradiction
  · intro hall
    cases hp : probe stop (cap - 1) fuel h with
    | none => rfl
    | some i =>
      obtain ⟨d,hd,hi,hs,_⟩ := (probe_some hc hh).mp hp
      rw [hi,hall d hd] at hs
      contradiction

theorem probe_lt (hc : cap.isPowerOfTwo) (hh : h < cap)
    (hp : probe stop (cap - 1) fuel h = some i) : i < cap := by
  obtain ⟨d,_,hi,_⟩ := (probe_some hc hh).mp hp
  rw [hi]
  exact Nat.mod_lt _ (pow_two_pos hc)

theorem probe_total (stop : Nat → Bool) (hc : cap.isPowerOfTwo) (hh : h < cap) {j : Nat}
    (hj : j < cap) (hs : stop j = true) : ∃ i, probe stop (cap - 1) cap h = some i := by
  cases hp : probe stop (cap - 1) cap h with
  | some i => exact ⟨i,rfl⟩
  | none =>
    have := (probe_none hc hh).mp hp (gap cap h j) (gap_lt hh hj)
    rw [walk_gap hh hj,hs] at this
    contradiction

theorem probe_congr (hc : cap.isPowerOfTwo) (hh : h < cap) {stop' : Nat → Bool}
    (he : ∀ j < cap, stop j = stop' j) :
    probe stop (cap - 1) fuel h = probe stop' (cap - 1) fuel h := by
  induction fuel generalizing h with
  | zero => rfl
  | succ fuel ih =>
    have hnext : (h + 1) &&& (cap - 1) < cap := by
      rw [and_mask hc]
      exact Nat.mod_lt _ (pow_two_pos hc)
    simp only [probe,he h hh,ih hnext]

end Loop

section Table

variable {κ : Type} {cap : Nat} {home : κ → Nat} {T : Nat → Option κ} {k : κ} {i : Nat}
  {T' : Nat → Option κ}

/-- Every slot on the way from the home of `k` to slot `i` is occupied. -/
def Reaches (cap : Nat) (home : κ → Nat) (T : Nat → Option κ) (k : κ) (i : Nat) : Prop :=
  ∀ d < gap cap (home k) i, T ((home k + d) % cap) ≠ none

/-- The invariant of a table searched by linear probing: each key can be walked
to from its home, and no key is stored twice. -/
structure Probed (cap : Nat) (home : κ → Nat) (T : Nat → Option κ) : Prop where
  reach : ∀ i < cap, ∀ k, T i = some k → Reaches cap home T k i
  unique : ∀ i < cap, ∀ j < cap, ∀ k, T i = some k → T j = some k → i = j

theorem probed_empty : Probed cap home (fun _ => (none : Option κ)) :=
  ⟨by simp,by simp⟩

theorem Reaches.mono (h : Reaches cap home T k i) (hc : 0 < cap)
    (ho : ∀ j < cap, T j ≠ none → T' j ≠ none) : Reaches cap home T' k i :=
  fun d hd => ho _ (Nat.mod_lt _ hc) (h d hd)

theorem Reaches.clear {j : Nat} (h : Reaches cap home T k i) (hk : home k < cap) (hi : i < cap)
    (ho : ∀ l < cap, l ≠ j → T' l = T l)
    (hj : gap cap (home k) i ≤ gap cap (home k) j) : Reaches cap home T' k i := by
  intro d hd
  have hdc := Nat.lt_trans hd (gap_lt hk hi)
  rw [ho _ (Nat.mod_lt _ (by omega)) ?_]
  · exact h d hd
  · rintro rfl
    rw [gap_walk hk hdc] at hj
    omega

variable [DecidableEq κ]

def stopFor (T : Nat → Option κ) (k : κ) (i : Nat) : Bool := T i = none || T i = some k

theorem search_reached (hc : cap.isPowerOfTwo) (hk : home k < cap) (hi : i < cap)
    (hik : T i = some k) (hr : Reaches cap home T k i) (hu : ∀ j < cap, T j = some k → j = i) :
    probe (stopFor T k) (cap - 1) cap (home k) = some i := by
  rw [probe_some hc hk]
  refine ⟨gap cap (home k) i,gap_lt hk hi,(walk_gap hk hi).symm,by simp [stopFor,hik],?_⟩
  intro e he
  have hne : T ((home k + e) % cap) ≠ some k := by
    intro hs
    have hei := hu _ (Nat.mod_lt _ (pow_two_pos hc)) hs
    have := gap_walk hk (Nat.lt_trans he (gap_lt hk hi))
    rw [hei] at this
    omega
  simp [stopFor,hr e he,hne]

theorem search_present (hc : cap.isPowerOfTwo) (hk : home k < cap) (hT : Probed cap home T)
    (hi : i < cap) (hik : T i = some k) : probe (stopFor T k) (cap - 1) cap (home k) = some i :=
  search_reached hc hk hi hik (hT.reach i hi k hik)
    (fun j hj hjk => hT.unique j hj i hi k hjk hik)

theorem search_some (hc : cap.isPowerOfTwo) (hk : home k < cap)
    (hp : probe (stopFor T k) (cap - 1) cap (home k) = some i) :
    i < cap ∧ Reaches cap home T k i ∧ (T i = none ∨ T i = some k) := by
  obtain ⟨d,hd,hi,hs,hbefore⟩ := (probe_some hc hk).mp hp
  refine ⟨probe_lt hc hk hp,?_,by simpa [stopFor] using hs⟩
  intro e he
  rw [hi,gap_walk hk hd] at he
  have := hbefore e he
  simp only [stopFor,Bool.or_eq_false_iff,decide_eq_false_iff_not] at this
  exact this.1

theorem search_absent (hc : cap.isPowerOfTwo) (hk : home k < cap) (ha : ∀ j < cap, T j ≠ some k)
    (hp : probe (stopFor T k) (cap - 1) cap (home k) = some i) :
    i < cap ∧ Reaches cap home T k i ∧ T i = none := by
  obtain ⟨hi,hr,hs⟩ := search_some hc hk hp
  exact ⟨hi,hr,hs.resolve_right (ha i hi)⟩

/-- A stored key whose walk is interrupted is not found: the search ends at the
first empty slot on the way. -/
theorem search_hidden (hc : cap.isPowerOfTwo) (hk : home k < cap)
    (hu : ∀ j < cap, T j = some k → j = i) (hr : ¬ Reaches cap home T k i) :
    ∃ j < cap, probe (stopFor T k) (cap - 1) cap (home k) = some j ∧ T j = none := by
  unfold Reaches at hr
  push Not at hr
  obtain ⟨d,hd,hn⟩ := hr
  have hlt : (home k + d) % cap < cap := Nat.mod_lt _ (pow_two_pos hc)
  obtain ⟨j,hj⟩ := probe_total (stopFor T k) hc hk hlt (by simp [stopFor,hn])
  obtain ⟨hjc,hreach,hs⟩ := search_some hc hk hj
  refine ⟨j,hjc,hj,hs.resolve_right ?_⟩
  intro hjk
  rw [hu j hjc hjk] at hreach
  exact hreach d hd hn

omit [DecidableEq κ] in
theorem Probed.insert (hT : Probed cap home T) (hc : 0 < cap) (hi : i < cap) (hnone : T i = none)
    (ha : ∀ j < cap, T j ≠ some k) (hr : Reaches cap home T k i) (hnew : T' i = some k)
    (hold : ∀ j < cap, j ≠ i → T' j = T j) : Probed cap home T' := by
  have hmono : ∀ j < cap, T j ≠ none → T' j ≠ none := by
    intro j hj hne
    rw [hold j hj (by rintro rfl; exact hne hnone)]
    exact hne
  refine ⟨?_,?_⟩
  · intro j hj q hq
    by_cases hji : j = i
    · subst hji
      rw [hnew] at hq
      cases hq
      exact hr.mono hc hmono
    · rw [hold j hj hji] at hq
      exact (hT.reach j hj q hq).mono hc hmono
  · intro j hj l hl q hjq hlq
    by_cases hji : j = i <;> by_cases hli : l = i
    · rw [hji,hli]
    · subst hji
      rw [hnew] at hjq
      cases hjq
      rw [hold l hl hli] at hlq
      exact absurd hlq (ha l hl)
    · subst hli
      rw [hnew] at hlq
      cases hlq
      rw [hold j hj hji] at hjq
      exact absurd hjq (ha j hj)
    · rw [hold j hj hji] at hjq
      rw [hold l hl hli] at hlq
      exact hT.unique j hj l hl q hjq hlq

end Table

section Count

variable {κ : Type} {cap i : Nat} {T T' : Nat → Option κ}

def occupied (cap : Nat) (T : Nat → Option κ) : Nat :=
  ((Finset.range cap).filter (fun i => (T i).isSome)).card

theorem occupied_eq_length :
    occupied cap T = ((List.range cap).filter (fun i => (T i).isSome)).length := by
  rw [← toFinset_card_of_nodup (nodup_range.filter _),occupied]
  congr 1
  ext i
  simp

theorem occupied_le : occupied cap T ≤ cap := by
  have := Finset.card_filter_le (Finset.range cap) (fun i => (T i).isSome)
  simpa [occupied] using this

theorem occupied_empty : occupied cap (fun _ => (none : Option κ)) = 0 := by
  simp [occupied]

theorem exists_empty (h : occupied cap T < cap) : ∃ i < cap, T i = none := by
  by_contra hall
  push Not at hall
  have : (Finset.range cap).filter (fun i => (T i).isSome) = Finset.range cap := by
    apply Finset.filter_true_of_mem
    intro i hi
    exact isSome_iff_ne_none.mpr (hall i (Finset.mem_range.mp hi))
  rw [occupied,this,Finset.card_range] at h
  omega

theorem occupied_fill (hi : i < cap) (hn : T i = none) (hs : (T' i).isSome)
    (ho : ∀ j < cap, j ≠ i → T' j = T j) : occupied cap T' = occupied cap T + 1 := by
  have : (Finset.range cap).filter (fun i => (T' i).isSome) =
      insert i ((Finset.range cap).filter (fun i => (T i).isSome)) := by
    ext j
    simp only [Finset.mem_filter,Finset.mem_range,Finset.mem_insert]
    by_cases hji : j = i
    · subst hji
      simp [hi,hs]
    · constructor
      · rintro ⟨hj,hjs⟩
        exact .inr ⟨hj,ho j hj hji ▸ hjs⟩
      · rintro (he | ⟨hj,hjs⟩)
        · exact absurd he hji
        · exact ⟨hj,(ho j hj hji).symm ▸ hjs⟩
  rw [occupied,this,Finset.card_insert_of_notMem (by simp [hn]),occupied]

theorem occupied_clear (hi : i < cap) (hs : (T i).isSome) (hn : T' i = none)
    (ho : ∀ j < cap, j ≠ i → T' j = T j) : occupied cap T' + 1 = occupied cap T :=
  (occupied_fill hi hn hs (fun j hj hji => (ho j hj hji).symm)).symm

theorem occupied_congr (ho : ∀ j < cap, (T' j).isSome = (T j).isSome) :
    occupied cap T' = occupied cap T := by
  unfold occupied
  congr 1
  apply Finset.filter_congr
  intro j hj
  rw [ho j (Finset.mem_range.mp hj)]

end Count

section Live

variable {σ κ : Type} {key : σ → Option κ} {cap : Nat} {slots : Nat → σ} {s : σ}

def live (key : σ → Option κ) (cap : Nat) (slots : Nat → σ) : List σ :=
  ((List.range cap).map slots).filter (fun s => (key s).isSome)

theorem live_eq : live key cap slots =
    ((List.range cap).filter (fun i => (key (slots i)).isSome)).map slots := by
  rw [live,List.filter_map]
  rfl

theorem mem_live : s ∈ live key cap slots ↔ (key s).isSome ∧ ∃ i < cap, slots i = s := by
  simp [live,and_comm]

theorem length_live : (live key cap slots).length = occupied cap (fun i => key (slots i)) := by
  rw [live_eq,length_map,occupied_eq_length]

theorem nodup_live (key : σ → Option κ) (hu : ∀ i < cap, ∀ j < cap, ∀ k,
    key (slots i) = some k → key (slots j) = some k → i = j) : ((live key cap slots).map key).Nodup := by
  rw [live_eq,List.map_map]
  apply List.Nodup.map_on _ (nodup_range.filter _)
  intro i hi j hj hij
  simp only [mem_filter,mem_range,isSome_iff_exists] at hi hj
  obtain ⟨hic,k,hk⟩ := hi
  exact hu i hic j hj.1 k hk (hij.symm.trans hk)

end Live

end LinearProbe
