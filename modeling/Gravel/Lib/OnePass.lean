import Gravel.Lib.Probe
import Mathlib.Order.Interval.Finset.Nat

/-! One pass over a table searched by linear probing that takes each key out of its slot and puts
it where a search for it then ends. -/

namespace LinearProbe
open List Option Function

variable {σ κ : Type}

def moveTo (vacant : σ) (slots : Nat → σ) (i j : Nat) : Nat → σ :=
  update (update slots i vacant) j (slots i)

/-- The pass over the given slots, with the number of keys it has moved. -/
def settle [DecidableEq κ] (key : σ → Option κ) (home : κ → Nat) (cap : Nat) (vacant : σ) :
    List Nat → (Nat → σ) → Nat → Option ((Nat → σ) × Nat)
  | [], slots, n => some (slots,n)
  | i :: rest, slots, n =>
    match key (slots i) with
    | none => settle key home cap vacant rest slots n
    | some k => do
      let cleared := update slots i vacant
      let j ← probe (stopFor (fun l => key (cleared l)) k) (cap - 1) cap (home k)
      settle key home cap vacant rest (moveTo vacant slots i j) (n + 1)

/-- From slot `l` on the table is full, each key there has its home between `l` and its slot, and
a key that sits before its home has its home there as well. -/
structure Intact (cap : Nat) (home : κ → Nat) (T : Nat → Option κ) (l : Nat) : Prop where
  le : l ≤ cap
  full : ∀ s, l ≤ s → s < cap → ∃ k, T s = some k ∧ l ≤ home k ∧ home k ≤ s
  wrapped : ∀ i < cap, ∀ k, T i = some k → i < home k → l ≤ home k

def Once (cap : Nat) (T : Nat → Option κ) : Prop :=
  ∀ i < cap, ∀ j < cap, ∀ k, T i = some k → T j = some k → i = j

def tail (i : Nat) (T : Nat → Option κ) : Nat → Option κ := fun l => if i ≤ l then T l else none

section Move

variable {key : σ → Option κ} {home : κ → Nat} {cap i j : Nat} {vacant : σ} {slots : Nat → σ}
  {k : κ} {l : Nat}

theorem moveTo_self (vacant : σ) (slots : Nat → σ) (i j : Nat) :
    moveTo vacant slots i j j = slots i := update_self ..

theorem moveTo_other (hj : l ≠ j) (hi : l ≠ i) : moveTo vacant slots i j l = slots l := by
  rw [moveTo,update_of_ne hj,update_of_ne hi]

theorem moveTo_left (h : i ≠ j) : moveTo vacant slots i j i = vacant := by
  rw [moveTo,update_of_ne h,update_self]

theorem moveTo_same (vacant : σ) (slots : Nat → σ) (i : Nat) : moveTo vacant slots i i = slots := by
  rw [moveTo,update_idem,update_eq_self]

theorem moveTo_source (hv : key vacant = none) (h : key (moveTo vacant slots i j l) = some k) :
    (l = j ∧ key (slots i) = some k) ∨ (l ≠ j ∧ l ≠ i ∧ key (slots l) = some k) := by
  by_cases hj : l = j
  · subst hj
    rw [moveTo_self] at h
    exact .inl ⟨rfl,h⟩
  · by_cases hi : l = i
    · subst hi
      rw [moveTo_left hj,hv] at h
      cases h
    · rw [moveTo_other hj hi] at h
      exact .inr ⟨hj,hi,h⟩

structure Landing (key : σ → Option κ) (home : κ → Nat) (cap : Nat) (vacant : σ)
    (slots : Nat → σ) (i : Nat) (k : κ) (j : Nat) : Prop where
  lt : j < cap
  empty : key (update slots i vacant j) = none
  reach : Reaches cap home (fun l => key (update slots i vacant l)) k j
  near : gap cap (home k) j ≤ gap cap (home k) i

theorem search_lands [DecidableEq κ] (hc : cap.isPowerOfTwo) (hhome : home k < cap)
    (hv : key vacant = none) (ho : Once cap (fun l => key (slots l))) (hi : i < cap)
    (hik : key (slots i) = some k) :
    ∃ j, probe (stopFor (fun l => key (update slots i vacant l)) k) (cap - 1) cap (home k) =
      some j ∧ Landing key home cap vacant slots i k j := by
  have hnone : key (update slots i vacant i) = none := by rw [update_self,hv]
  have habsent : ∀ l < cap, key (update slots i vacant l) ≠ some k := by
    intro l hl hlk
    by_cases hli : l = i
    · rw [hli,hnone] at hlk
      cases hlk
    · rw [update_of_ne hli] at hlk
      exact hli (ho l hl i hi k hlk hik)
  obtain ⟨j,hj⟩ := probe_total (stopFor (fun l => key (update slots i vacant l)) k) hc hhome
    hi (by simp [stopFor,hv])
  obtain ⟨hlt,hreach,hempty⟩ := search_absent hc hhome habsent hj
  refine ⟨j,hj,hlt,hempty,hreach,?_⟩
  by_contra hfar
  have hpass := hreach (gap cap (home k) i) (Nat.not_le.mp hfar)
  rw [walk_gap hhome hi] at hpass
  exact hpass hnone

theorem Landing.other_empty (h : Landing key home cap vacant slots i k j) (hij : j ≠ i) :
    key (slots j) = none := by
  have hempty := h.empty
  rwa [update_of_ne hij] at hempty

theorem once_moveTo (hv : key vacant = none)
    (ho : Once cap (fun l => key (slots l))) (hi : i < cap) :
    Once cap (fun l => key (moveTo vacant slots i j l)) := by
  intro a ha b hb q haq hbq
  rcases moveTo_source hv haq with ⟨haj,hiq⟩ | ⟨_,hai,hold⟩
  · rcases moveTo_source hv hbq with ⟨hbj,_⟩ | ⟨_,hbi,hold'⟩
    · rw [haj,hbj]
    · exact absurd (ho b hb i hi q hold' hiq) hbi
  · rcases moveTo_source hv hbq with ⟨_,hiq⟩ | ⟨_,_,hold'⟩
    · exact absurd (ho a ha i hi q hold hiq) hai
    · exact ho a ha b hb q hold hold'

theorem Landing.contents (h : Landing key home cap vacant slots i k j) (hv : key vacant = none)
    (hi : i < cap) {s : σ} (hs : key s ≠ none) :
    (∃ l < cap, moveTo vacant slots i j l = s) ↔ ∃ l < cap, slots l = s := by
  constructor
  · rintro ⟨l,hl,hls⟩
    by_cases hj : l = j
    · subst hj
      rw [moveTo_self] at hls
      exact ⟨i,hi,hls⟩
    · by_cases hli : l = i
      · subst hli
        rw [moveTo_left hj] at hls
        exact absurd (hls ▸ hv) hs
      · rw [moveTo_other hj hli] at hls
        exact ⟨l,hl,hls⟩
  · rintro ⟨l,hl,hls⟩
    by_cases hli : l = i
    · subst hli
      exact ⟨j,h.lt,by rw [moveTo_self,hls]⟩
    · have hj : l ≠ j := by
        rintro rfl
        exact hs (hls ▸ h.other_empty hli)
      exact ⟨l,hl,by rw [moveTo_other hj hli,hls]⟩

end Move

section Rule

variable [DecidableEq κ] {key : σ → Option κ} {home : κ → Nat} {cap : Nat} {vacant : σ}

theorem settle_invariant (Inv : Nat → (Nat → σ) → Nat → Prop) (hc : cap.isPowerOfTwo) (hhome : ∀ k, home k < cap)
    (hv : key vacant = none)
    (honce : ∀ i slots n, Inv i slots n → Once cap (fun l => key (slots l)))
    (hskip : ∀ i slots n, Inv i slots n → key (slots i) = none → Inv (i + 1) slots n)
    (hmove : ∀ i slots n k j, Inv i slots n → i < cap → key (slots i) = some k →
      Landing key home cap vacant slots i k j → Inv (i + 1) (moveTo vacant slots i j) (n + 1))
    (m : Nat) : ∀ i slots n, i + m = cap → Inv i slots n →
    ∃ slots' n', settle key home cap vacant (List.range' i m) slots n = some (slots',n') ∧
      Inv cap slots' n' := by
  induction m with
  | zero =>
    intro i slots n him h
    obtain rfl : i = cap := him
    exact ⟨slots,n,rfl,h⟩
  | succ m ih =>
    intro i slots n him h
    have hi : i < cap := by omega
    rw [range'_succ,settle]
    cases hik : key (slots i) with
    | none => exact ih (i + 1) slots n (by omega) (hskip i slots n h hik)
    | some k =>
      obtain ⟨j,hprobe,hland⟩ := search_lands hc (hhome k) hv (honce i slots n h) hi hik
      obtain ⟨slots',n',hrun,hinv⟩ := ih (i + 1) (moveTo vacant slots i j) (n + 1) (by omega)
        (hmove i slots n k j h hi hik hland)
      refine ⟨slots',n',?_,hinv⟩
      simp only [hprobe]
      exact hrun

end Rule

section Tally

variable {key : σ → Option κ} {home : κ → Nat} {cap i j : Nat} {vacant : σ} {slots : Nat → σ}
  {k : κ} {T : Nat → Option κ}

theorem tail_zero (T : Nat → Option κ) : tail 0 T = T := by
  funext l
  exact if_pos (Nat.zero_le l)

theorem occupied_tail_end (T : Nat → Option κ) : occupied cap (tail cap T) = 0 := by
  rw [← @occupied_empty κ cap]
  apply occupied_congr
  intro l hl
  rw [tail,if_neg (Nat.not_le.mpr hl)]

theorem occupied_tail_skip (h : T i = none) :
    occupied cap (tail (i + 1) T) = occupied cap (tail i T) := by
  apply occupied_congr
  intro l _
  by_cases hl : l = i
  · subst hl
    simp [tail,h]
  · simp only [tail,show (i + 1 ≤ l) = (i ≤ l) by rw [eq_iff_iff]; omega]

theorem occupied_tail_take (hi : i < cap) (h : T i = some k) :
    occupied cap (tail (i + 1) T) + 1 = occupied cap (tail i T) := by
  apply occupied_clear hi
  · simp [tail,h]
  · simp [tail]
  · intro l _ hl
    simp only [tail,show (i + 1 ≤ l) = (i ≤ l) by rw [eq_iff_iff]; omega]

theorem tally_back (vacant : σ) (hi : i < cap) (hik : key (slots i) = some k) (hj : j ≤ i) :
    occupied cap (tail (i + 1) (fun l => key (moveTo vacant slots i j l))) + 1 =
      occupied cap (tail i (fun l => key (slots l))) := by
  rw [← occupied_tail_take hi hik]
  congr 1
  apply occupied_congr
  intro l _
  by_cases hl : i + 1 ≤ l
  · simp only [tail,if_pos hl]
    rw [moveTo_other (by omega) (by omega)]
  · simp only [tail,if_neg hl]

theorem Landing.tally_ahead (h : Landing key home cap vacant slots i k j) (hi : i < cap)
    (hik : key (slots i) = some k) (hj : i < j) :
    occupied cap (tail (i + 1) (fun l => key (moveTo vacant slots i j l))) =
      occupied cap (tail i (fun l => key (slots l))) := by
  rw [← occupied_tail_take hi hik]
  apply occupied_fill h.lt
  · simp [tail,h.other_empty (Nat.ne_of_gt hj)]
  · simp [tail,moveTo_self,hik,Nat.succ_le_of_lt hj]
  · intro l _ hlj
    by_cases hl : i + 1 ≤ l
    · simp only [tail,if_pos hl]
      rw [moveTo_other hlj (by omega)]
    · simp only [tail,if_neg hl]

end Tally

section Pass

variable {key : σ → Option κ} {home : κ → Nat} {cap i n : Nat} {vacant : σ}
  {orig slots : Nat → σ}

structure Passing (key : σ → Option κ) (cap : Nat) (orig : Nat → σ) (i : Nat) (slots : Nat → σ)
    (n : Nat) : Prop where
  once : Once cap (fun l => key (slots l))
  contents : ∀ s, key s ≠ none → ((∃ l < cap, slots l = s) ↔ ∃ l < cap, orig l = s)
  counted : occupied cap (fun l => key (orig l)) ≤ n + occupied cap (tail i (fun l => key (slots l)))
  ahead : n + occupied cap (tail i (fun l => key (slots l))) =
    occupied cap (fun l => key (orig l)) → ∀ l, i ≤ l → slots l = orig l
  back : n + occupied cap (tail i (fun l => key (slots l))) =
    occupied cap (fun l => key (orig l)) →
      ∀ p < cap, ∀ k, key (slots p) = some k → ∃ s, p ≤ s ∧ s < cap ∧ key (orig s) = some k

theorem Passing.init (ho : Once cap (fun l => key (orig l))) : Passing key cap orig 0 orig 0 := by
  refine ⟨ho,fun _ _ => Iff.rfl,?_,fun _ _ _ => rfl,fun _ p hp k hk => ⟨p,Nat.le_refl p,hp,hk⟩⟩
  rw [tail_zero]
  omega

theorem Passing.skip (h : Passing key cap orig i slots n) (hi : key (slots i) = none) :
    Passing key cap orig (i + 1) slots n := by
  have htail := @occupied_tail_skip κ cap i (fun l => key (slots l)) hi
  refine ⟨h.once,h.contents,by rw [htail]; exact h.counted,?_,?_⟩
  · rw [htail]
    exact fun heq l hl => h.ahead heq l (by omega)
  · rw [htail]
    exact h.back

theorem Passing.move (h : Passing key cap orig i slots n) (hv : key vacant = none) (hi : i < cap)
    {k : κ} {j : Nat} (hik : key (slots i) = some k)
    (hland : Landing key home cap vacant slots i k j) :
    Passing key cap orig (i + 1) (moveTo vacant slots i j) (n + 1) := by
  have hcontents (s : σ) (hs : key s ≠ none) :
      (∃ l < cap, moveTo vacant slots i j l = s) ↔ ∃ l < cap, orig l = s :=
    (hland.contents hv hi hs).trans (h.contents s hs)
  have hcounted := h.counted
  by_cases hj : j ≤ i
  · have htally := tally_back vacant hi hik hj
    refine ⟨once_moveTo hv h.once hi,hcontents,by omega,?_,?_⟩
    · intro heq l hl
      rw [moveTo_other (by omega) (by omega)]
      exact h.ahead (by omega) l (by omega)
    · intro heq p hp q hq
      have hback := h.back (by omega)
      rcases moveTo_source hv hq with ⟨rfl,hiq⟩ | ⟨_,_,hold⟩
      · obtain ⟨s,his,hs,hsq⟩ := hback i hi q hiq
        exact ⟨s,by omega,hs,hsq⟩
      · exact hback p hp q hold
  · have htally := hland.tally_ahead hi hik (Nat.not_le.mp hj)
    refine ⟨once_moveTo hv h.once hi,hcontents,by omega,?_,?_⟩
    · intro heq
      omega
    · intro heq
      omega

end Pass

section Forward

variable {key : σ → Option κ} {home : κ → Nat} {cap l i j n : Nat} {vacant : σ}
  {orig slots : Nat → σ} {k : κ}

/-- The table when the pass over an intact one has come to slot `i`: the slots from `l` on are as
they were, and the keys that were moved can be walked to. -/
structure Settling (key : σ → Option κ) (home : κ → Nat) (cap l : Nat) (orig : Nat → σ) (i : Nat)
    (slots : Nat → σ) (n : Nat) : Prop where
  once : Once cap (fun l => key (slots l))
  counted : n + occupied cap (tail i (fun l => key (slots l))) =
    occupied cap (fun l => key (orig l))
  kept : ∀ q, i ≤ q ∨ l ≤ q → slots q = orig q
  reach : ∀ p < i, ∀ k, key (slots p) = some k → Reaches cap home (fun l => key (slots l)) k p
  wrapped : ∀ p < i, ∀ k, key (slots p) = some k → p < home k → l ≤ home k

theorem Settling.init (ho : Once cap (fun l => key (orig l))) :
    Settling key home cap l orig 0 orig 0 := by
  refine ⟨ho,?_,fun _ _ => rfl,fun p hp => absurd hp (Nat.not_lt_zero p),
    fun p hp => absurd hp (Nat.not_lt_zero p)⟩
  rw [tail_zero,Nat.zero_add]

theorem Settling.skip (h : Settling key home cap l orig i slots n) (hi : key (slots i) = none) :
    Settling key home cap l orig (i + 1) slots n := by
  have hbefore {p : Nat} {k : κ} (hp : p < i + 1) (hk : key (slots p) = some k) : p < i := by
    rcases Nat.lt_or_eq_of_le (Nat.le_of_lt_succ hp) with hlt | rfl
    · exact hlt
    · rw [hi] at hk
      cases hk
  refine ⟨h.once,?_,fun q hq => h.kept q (hq.imp_left (by omega)),
    fun p hp k hk => h.reach p (hbefore hp hk) k hk,
    fun p hp k hk => h.wrapped p (hbefore hp hk) k hk⟩
  rw [@occupied_tail_skip κ cap i (fun l => key (slots l)) hi]
  exact h.counted

theorem Settling.stays (h : Settling key home cap l orig i slots n)
    (hT : Intact cap home (fun l => key (orig l)) l) (hi : i < cap) (hli : l ≤ i)
    (hik : key (slots i) = some k) (hland : Landing key home cap vacant slots i k j) : j = i := by
  obtain ⟨k',hk',hlow,hhigh⟩ := hT.full i hli hi
  rw [← h.kept i (.inl (Nat.le_refl i)),hik] at hk'
  cases hk'
  have hnear := hland.near
  have hlt := hland.lt
  unfold gap at hnear
  by_contra hji
  have hlj : l ≤ j := by split_ifs at hnear <;> omega
  obtain ⟨q,hq,_⟩ := hT.full j hlj hlt
  have hempty := hland.other_empty hji
  rw [h.kept j (.inr hlj)] at hempty
  rw [hempty] at hq
  cases hq

theorem Settling.goes_back (h : Settling key home cap l orig i slots n)
    (hT : Intact cap home (fun l => key (orig l)) l) (hi : i < cap)
    (hik : key (slots i) = some k) (hhome : home k < cap)
    (hland : Landing key home cap vacant slots i k j) : j ≤ i ∧ (j < home k → l ≤ home k) := by
  have hnear := hland.near
  have hlt := hland.lt
  by_cases hwrap : i < home k
  · have hik' := hik
    rw [h.kept i (.inl (Nat.le_refl i))] at hik'
    have hl := hT.wrapped i hi k hik' hwrap
    refine ⟨?_,fun _ => hl⟩
    by_contra hij
    -- The way to `j` is inside the intact part, which has no empty slot.
    have hlj : l ≤ j := by
      unfold gap at hnear
      split_ifs at hnear <;> omega
    obtain ⟨q,hq,_⟩ := hT.full j hlj hlt
    have hempty := hland.other_empty (by omega)
    rw [h.kept j (.inr hlj)] at hempty
    rw [hempty] at hq
    cases hq
  · unfold gap at hnear
    split_ifs at hnear
    · exact ⟨by omega,by omega⟩
    · omega
    · omega
    · omega

theorem Settling.move (h : Settling key home cap l orig i slots n)
    (hT : Intact cap home (fun l => key (orig l)) l) (hv : key vacant = none) (hc : 0 < cap)
    (hhome : ∀ k, home k < cap) (hi : i < cap) (hik : key (slots i) = some k)
    (hland : Landing key home cap vacant slots i k j) :
    Settling key home cap l orig (i + 1) (moveTo vacant slots i j) (n + 1) := by
  -- A slot that the search saw occupied is still occupied when the key is back.
  have hmono : ∀ q < cap, key (update slots i vacant q) ≠ none →
      key (moveTo vacant slots i j q) ≠ none := by
    intro q _ hq
    by_cases hqj : q = j
    · rw [hqj,moveTo_self,hik]
      exact some_ne_none k
    · rwa [moveTo,update_of_ne hqj]
  have hown := hland.reach.mono hc hmono
  by_cases hli : l ≤ i
  · obtain rfl := h.stays hT hi hli hik hland
    have htally := tally_back vacant hi hik (Nat.le_refl j)
    have hcounted := h.counted
    rw [moveTo_same] at htally hown ⊢
    have hlast {p : Nat} (hp : p < j + 1) (hne : p ≠ j) : p < j := by omega
    refine ⟨h.once,by omega,fun q hq => h.kept q (hq.imp_left (by omega)),?_,?_⟩
    · intro p hp q hq
      by_cases hpj : p = j
      · subst hpj
        rw [hik] at hq
        cases hq
        exact hown
      · exact h.reach p (hlast hp hpj) q hq
    · intro p hp q hq hpq
      by_cases hpj : p = j
      · subst hpj
        exact Nat.le_trans hli (Nat.le_of_lt hpq)
      · exact h.wrapped p (hlast hp hpj) q hq hpq
  · obtain ⟨hji,hwrap⟩ := h.goes_back hT hi hik (hhome k) hland
    have htally := tally_back vacant hi hik hji
    have hcounted := h.counted
    refine ⟨once_moveTo hv h.once hi,by omega,?_,?_,?_⟩
    · intro q hq
      rw [moveTo_other (by omega) (by omega)]
      exact h.kept q (hq.imp_left (by omega))
    · intro p hp q hq
      rcases moveTo_source hv hq with ⟨rfl,hiq⟩ | ⟨_,hpi,hold⟩
      · rw [hik] at hiq
        cases hiq
        exact hown
      · have hpi : p < i := by omega
        refine Reaches.mono ?_ hc hmono
        refine (h.reach p hpi q hold).clear (hhome q) (by omega)
          (fun a _ hai => by rw [update_of_ne hai]) ?_
        have hq' := h.wrapped p hpi q hold
        unfold gap
        split_ifs <;> omega
    · intro p hp q hq hpq
      rcases moveTo_source hv hq with ⟨rfl,hiq⟩ | ⟨_,hpi,hold⟩
      · rw [hik] at hiq
        cases hiq
        exact hwrap hpq
      · exact h.wrapped p (by omega) q hold hpq

end Forward

section Backward

variable {home : κ → Nat} {cap l : Nat} {T F : Nat → Option κ} {k : κ}

theorem Reaches.gap_le {p e : Nat} (h : Reaches cap home F k p) (hhome : home k < cap)
    (he : e < cap) (hnone : F e = none) : gap cap (home k) p ≤ gap cap (home k) e := by
  by_contra hfar
  have hpass := h (gap cap (home k) e) (Nat.not_le.mp hfar)
  rw [walk_gap hhome he] at hpass
  exact hpass hnone

theorem full_before (ho : Once cap F)
    (hback : ∀ p < cap, ∀ k, F p = some k → ∃ s, p ≤ s ∧ s < cap ∧ T s = some k)
    (hfull : ∀ p, l ≤ p → p < cap → F p ≠ none) :
    ∀ s, l ≤ s → s < cap → ∃ k p, T s = some k ∧ l ≤ p ∧ p ≤ s ∧ F p = some k := by
  have hsource : ∀ p, ∃ s, l ≤ p → p < cap → p ≤ s ∧ s < cap ∧ T s = F p := by
    intro p
    by_cases hp : l ≤ p ∧ p < cap
    · obtain ⟨k,hk⟩ := ne_none_iff_exists'.mp (hfull p hp.1 hp.2)
      obtain ⟨s,hps,hs,hsk⟩ := hback p hp.2 k hk
      exact ⟨s,fun _ _ => ⟨hps,hs,hsk.trans hk.symm⟩⟩
    · exact ⟨0,fun h1 h2 => absurd ⟨h1,h2⟩ hp⟩
  choose f hf using hsource
  have hmaps : Set.MapsTo f (Finset.Ico l cap) (Finset.Ico l cap) := by
    intro p hp
    simp only [Finset.coe_Ico,Set.mem_Ico] at hp ⊢
    have := hf p hp.1 hp.2
    omega
  have hinj : Set.InjOn f (Finset.Ico l cap) := by
    intro p hp q hq hpq
    simp only [Finset.coe_Ico,Set.mem_Ico] at hp hq
    obtain ⟨k,hk⟩ := ne_none_iff_exists'.mp (hfull p hp.1 hp.2)
    have hqk : F q = some k := by
      rw [← (hf q hq.1 hq.2).2.2,← hpq,(hf p hp.1 hp.2).2.2,hk]
    exact ho p hp.2 q hq.2 k hk hqk
  intro s hls hs
  obtain ⟨p,hp,rfl⟩ := Finset.surjOn_of_injOn_of_card_le f hmaps hinj (Nat.le_refl _)
    (show s ∈ ((Finset.Ico l cap : Finset Nat) : Set Nat) by simp [hls,hs])
  simp only [Finset.coe_Ico,Set.mem_Ico] at hp
  obtain ⟨k,hk⟩ := ne_none_iff_exists'.mp (hfull p hp.1 hp.2)
  obtain ⟨hps,_,hT⟩ := hf p hp.1 hp.2
  exact ⟨k,p,hT.trans hk,hp.1,hps,hk⟩

theorem intact_of_found (hhome : ∀ k, home k < cap) (hTonce : Once cap T)
    (hhole : ∃ e < cap, T e = none) (hF : Probed cap home F)
    (hstored : ∀ i < cap, ∀ k, T i = some k → ∃ p < cap, F p = some k)
    (hback : ∀ p < cap, ∀ k, F p = some k → ∃ s, p ≤ s ∧ s < cap ∧ T s = some k) :
    ∃ l, Intact cap home T l := by
  classical
  have hex : ∃ l, ∀ s, l ≤ s → s < cap → F s ≠ none := ⟨cap,fun s h1 h2 => absurd h1 (by omega)⟩
  -- The slots from `l` on are the longest full end of the table.
  obtain ⟨l,hl⟩ : ∃ l, l = Nat.find hex := ⟨_,rfl⟩
  have hfull : ∀ s, l ≤ s → s < cap → F s ≠ none := hl ▸ Nat.find_spec hex
  have hmin {m : Nat} (hm : ∀ s, m ≤ s → s < cap → F s ≠ none) : l ≤ m := hl ▸ Nat.find_min' hex hm
  have hle : l ≤ cap := hmin (fun s h1 h2 => absurd h1 (by omega))
  have hbefore := full_before hF.unique hback hfull
  have hpos : 0 < l := by
    obtain ⟨e,he,hnone⟩ := hhole
    rcases Nat.eq_zero_or_pos l with h0 | hpos
    · obtain ⟨k,_,hk,_⟩ := hbefore e (by omega) he
      rw [hnone] at hk
      cases hk
    · exact hpos
  have hhole : F (l - 1) = none := by
    by_contra hne
    have hle := @hmin (l - 1) (fun s h1 h2 => by
      rcases Nat.lt_or_eq_of_le h1 with hlt | heq
      · exact hfull s (by omega) h2
      · rw [← heq]
        exact hne)
    omega
  have hnear {p : Nat} {k : κ} (hp : p < cap) (hpk : F p = some k) :
      gap cap (home k) p ≤ gap cap (home k) (l - 1) :=
    (hF.reach p hp k hpk).gap_le (hhome k) (by omega) hhole
  refine ⟨l,hle,?_,?_⟩
  · intro s hls hs
    obtain ⟨k,p,hsk,hlp,hps,hpk⟩ := hbefore s hls hs
    have hgap := hnear (by omega) hpk
    have hk := hhome k
    refine ⟨k,hsk,?_,?_⟩
    · unfold gap at hgap
      split_ifs at hgap <;> omega
    · unfold gap at hgap
      split_ifs at hgap <;> omega
  · intro i hi k hik hwrap
    obtain ⟨p,hp,hpk⟩ := hstored i hi k hik
    obtain ⟨s,hps,hs,hsk⟩ := hback p hp k hpk
    obtain rfl := hTonce s hs i hi k hsk hik
    have hgap := hnear hp hpk
    unfold gap at hgap
    split_ifs at hgap <;> omega

end Backward

section Result

variable [DecidableEq κ] {key : σ → Option κ} {home : κ → Nat} {cap : Nat} {vacant : σ}
  {orig : Nat → σ}

/-- The pass keeps the contents of the table; it counts them right and leaves every key where it
is found exactly if the table was intact. -/
theorem settle_iff (hc : cap.isPowerOfTwo) (hhome : ∀ k, home k < cap) (hv : key vacant = none)
    (ho : Once cap (fun l => key (orig l))) (hhole : ∃ e < cap, key (orig e) = none) :
    ∃ slots n, settle key home cap vacant (List.range cap) orig 0 = some (slots,n) ∧
      Once cap (fun l => key (slots l)) ∧
      (∀ s, key s ≠ none → ((∃ l < cap, slots l = s) ↔ ∃ l < cap, orig l = s)) ∧
      (n = occupied cap (fun l => key (orig l)) ∧ Probed cap home (fun l => key (slots l)) ↔
        ∃ l, Intact cap home (fun l => key (orig l)) l) := by
  obtain ⟨slots,n,hrun,hpass⟩ := settle_invariant (Passing key cap orig) hc hhome hv
    (fun _ _ _ h => h.once) (fun _ _ _ h => h.skip) (fun _ _ _ _ _ h hi => h.move hv hi)
    cap 0 orig 0 (Nat.zero_add cap) (.init ho)
  rw [← range_eq_range'] at hrun
  refine ⟨slots,n,hrun,hpass.once,hpass.contents,?_⟩
  constructor
  · rintro ⟨hn,hfound⟩
    refine intact_of_found hhome ho hhole hfound ?_ (hpass.back ?_)
    · intro i hi k hik
      obtain ⟨p,hp,hps⟩ := (hpass.contents (orig i) (by rw [hik]; exact some_ne_none k)).mpr
        ⟨i,hi,rfl⟩
      exact ⟨p,hp,by rw [hps,hik]⟩
    · rw [occupied_tail_end,hn,Nat.add_zero]
  · rintro ⟨l,hT⟩
    obtain ⟨slots',n',hrun',hset⟩ := settle_invariant (Settling key home cap l orig) hc hhome
      hv (fun _ _ _ h => h.once) (fun _ _ _ h => h.skip)
      (fun _ _ _ _ _ h hi hik => h.move hT hv (pow_two_pos hc) hhome hi hik) cap 0 orig 0
      (Nat.zero_add cap) (.init ho)
    rw [← range_eq_range',hrun] at hrun'
    cases hrun'
    have hcounted := hset.counted
    rw [occupied_tail_end,Nat.add_zero] at hcounted
    exact ⟨hcounted,hset.reach,hset.once⟩

end Result

end LinearProbe
