import Gravel.Lib.Probe

namespace LinearProbe
open Option Function

variable {κ σ : Type}

/-- Whether the entry in slot `j` with home slot `ideal` has to move back to the
hole at `empty`. -/
def displaced (empty j ideal : Nat) : Bool :=
  if empty < j then ideal ≤ empty || j < ideal else ideal ≤ empty && j < ideal

/-- Backward-shift deletion: walk on from the hole at `empty` and move displaced
entries into it, until an empty slot or the first removed slot `h` is met. -/
def shiftLoop (key : σ → Option κ) (home : κ → Nat) (mask h : Nat) :
    Nat → (Nat → σ) → Nat → Nat → (Nat → σ) × Nat
  | 0, slots, empty, _ => (slots,empty)
  | fuel + 1, slots, empty, j =>
    match key (slots j) with
    | none => (slots,empty)
    | some k =>
      let next := if displaced empty j (home k) then (update slots empty (slots j),j)
        else (slots,empty)
      let j' := (j + 1) &&& mask
      if j' = h then next else shiftLoop key home mask h fuel next.1 next.2 j'

/-- Remove the entry in slot `h`; `vacate` is what the source does to the last hole. -/
def shiftRemove (key : σ → Option κ) (vacate : σ → σ) (home : κ → Nat) (cap : Nat)
    (slots : Nat → σ) (h : Nat) : Nat → σ :=
  let (slots,empty) := shiftLoop key home (cap - 1) h cap slots h ((h + 1) &&& (cap - 1))
  update slots empty (vacate (slots empty))

section Cycle

variable {cap a b h i j n : Nat}

theorem gap_injective (ha : a < cap) (hi : i < cap) (hj : j < cap)
    (he : gap cap a i = gap cap a j) : i = j := by
  rw [← walk_gap ha hi,he,walk_gap ha hj]

theorem gap_from (hh : h < cap) (ha : a < cap) (hb : b < cap) :
    gap cap a b = if gap cap h a ≤ gap cap h b then gap cap h b - gap cap h a
      else gap cap h b + cap - gap cap h a := by
  unfold gap
  split_ifs <;> omega

theorem walk_back (hh : h < cap) (hn : n < cap) (hback : (h + (n + 1)) % cap = h) :
    n + 1 = cap := by
  by_contra hne
  have := gap_walk hh (show n + 1 < cap by omega)
  rw [hback,gap_self] at this
  omega

theorem walk_on (hh : h < cap) (hn : n < cap) (hon : (h + (n + 1)) % cap ≠ h) : n + 1 < cap := by
  refine Nat.lt_of_le_of_ne hn fun hall => hon ?_
  rw [hall,Nat.add_mod_right,Nat.mod_eq_of_lt hh]

theorem displaced_iff (ha : a < cap) (hj : j < cap) (hi : i < cap) :
    displaced a j i = true ↔ gap cap i a < gap cap i j := by
  unfold displaced gap
  split_ifs <;> simp <;> omega

end Cycle

section Shift

variable {cap : Nat} {home : κ → Nat} {key : σ → Option κ} {vacate : σ → σ} {k : κ} {j e : Nat}
  {last : Nat → σ}
variable {h empty n : Nat} {orig slots : Nat → σ}

theorem Reaches.pattern {T T' : Nat → Option κ} {i : Nat} (hr : Reaches cap home T k i)
    (hc : 0 < cap) (hp : ∀ j < cap, (T' j).isSome = (T j).isSome) : Reaches cap home T' k i :=
  hr.mono hc (fun j hj hne => by
    rw [← isSome_iff_ne_none] at hne ⊢
    rw [hp j hj]
    exact hne)

theorem pattern_update (he : (key (slots empty)).isSome) (hj : (key (slots j)).isSome)
    (i : Nat) : (key (update slots empty (slots j) i)).isSome = (key (slots i)).isSome := by
  by_cases hie : i = empty
  · subst hie
    rw [update_self,he,hj]
  · rw [update_of_ne hie]

theorem shiftLoop_pattern (hc : cap.isPowerOfTwo) (fuel : Nat) : ∀ slots empty j slots' empty',
    shiftLoop key home (cap - 1) h fuel slots empty j = (slots',empty') →
    empty < cap → j < cap → (key (slots empty)).isSome →
      empty' < cap ∧ (key (slots' empty')).isSome ∧
        ∀ i, (key (slots' i)).isSome = (key (slots i)).isSome := by
  induction fuel with
  | zero =>
    intro slots empty j slots' empty' hrun he _ hs
    cases hrun
    exact ⟨he,hs,fun _ => rfl⟩
  | succ fuel ih =>
    intro slots empty j slots' empty' hrun he hj hs
    cases hk : key (slots j) with
    | none =>
      simp only [shiftLoop,hk] at hrun
      cases hrun
      exact ⟨he,hs,fun _ => rfl⟩
    | some k =>
      obtain ⟨slots1,empty1,hstep,he1,hs1,hpat⟩ : ∃ slots1 empty1,
          (if displaced empty j (home k) then (update slots empty (slots j),j)
            else (slots,empty)) = (slots1,empty1) ∧ empty1 < cap ∧ (key (slots1 empty1)).isSome ∧
          ∀ i, (key (slots1 i)).isSome = (key (slots i)).isSome := by
        have hsome : (key (slots j)).isSome := by rw [hk]; rfl
        split_ifs
        · have hpat := pattern_update hs hsome
          exact ⟨_,_,rfl,hj,by rw [hpat]; exact hsome,hpat⟩
        · exact ⟨_,_,rfl,he,hs,fun _ => rfl⟩
      simp only [shiftLoop,hk,hstep] at hrun
      split_ifs at hrun
      · cases hrun
        exact ⟨he1,hs1,hpat⟩
      · have hnext : (j + 1) &&& (cap - 1) < cap := by
          rw [and_mask hc]
          exact Nat.mod_lt _ (pow_two_pos hc)
        obtain ⟨hlt,hlast,hrest⟩ := ih slots1 empty1 _ slots' empty' hrun he1 hnext hs1
        exact ⟨hlt,hlast,fun i => (hrest i).trans (hpat i)⟩

theorem shiftRemove_occupied (hc : cap.isPowerOfTwo) (hv : ∀ s, key (vacate s) = none) (hh : h < cap)
    (ho : (key (orig h)).isSome) :
    occupied cap (fun i => key (shiftRemove key vacate home cap orig h i)) + 1 =
      occupied cap (fun i => key (orig i)) := by
  have hnext : (h + 1) &&& (cap - 1) < cap := by
    rw [and_mask hc]
    exact Nat.mod_lt _ (pow_two_pos hc)
  obtain ⟨⟨slots,empty⟩,hrun⟩ : ∃ r, shiftLoop key home (cap - 1) h cap orig h
    ((h + 1) &&& (cap - 1)) = r := ⟨_,rfl⟩
  obtain ⟨hlt,hfilled,hpat⟩ := shiftLoop_pattern hc cap orig h _ slots empty hrun hh hnext ho
  rw [← occupied_congr fun i _ => hpat i]
  refine occupied_clear hlt hfilled ?_ fun i _ hi => ?_
  · simp [shiftRemove,hrun,hv]
  · simp [shiftRemove,hrun,update_of_ne hi]

def Avoided (key : σ → Option κ) (home : κ → Nat) (cap h : Nat) (slots : Nat → σ) (e : Nat) : Prop :=
  ∀ i < cap, i ≠ h → ∀ k, key (slots i) = some k → gap cap (home k) i ≤ gap cap (home k) e

/-- State of the loop after the first `n` slots from `h` on: `slots` is the table `orig` with
the entry of slot `h` gone and a stale copy left in the hole at `empty`. -/
structure Shifting (key : σ → Option κ) (home : κ → Nat) (cap h : Nat) (orig : Nat → σ)
    (slots : Nat → σ) (empty n : Nat) : Prop where
  hole : empty < cap
  order : gap cap h empty < n
  filled : (key (slots empty)).isSome
  unique : ∀ a < cap, ∀ b < cap, a ≠ empty → b ≠ empty → ∀ k,
    key (slots a) = some k → key (slots b) = some k → a = b
  reach : ∀ i < cap, i ≠ empty → ∀ k, key (slots i) = some k →
    Reaches cap home (fun i => key (slots i)) k i
  -- Entries between the hole and the next slot do not depend on the hole.
  settled : ∀ i < cap, gap cap h empty < gap cap h i → gap cap h i < n → ∀ k,
    key (slots i) = some k → gap cap (home k) i ≤ gap cap (home k) empty
  ahead : ∀ i < cap, gap cap h empty < gap cap h i → slots i = orig i
  kept : ∀ i < cap, i ≠ h → ∃ i' < cap, i' ≠ empty ∧ slots i' = orig i
  -- An entry only moves towards its home, and never past `h`.
  back : ∀ i < cap, i ≠ empty → ∃ i0 < cap, i0 ≠ h ∧ orig i0 = slots i ∧
    gap cap h i ≤ gap cap h i0 ∧
    ∀ k, key (slots i) = some k → gap cap (home k) i ≤ gap cap (home k) i0
  bound : ∀ e < cap, Avoided key home cap h orig e → gap cap h empty ≤ gap cap h e

theorem shifting_init (hp : Probed cap home (fun i => key (orig i))) (hh : h < cap)
    (ho : (key (orig h)).isSome) : Shifting key home cap h orig orig h 1 := by
  refine ⟨hh,by rw [gap_self]; omega,ho,?_,?_,?_,fun _ _ _ => rfl,?_,?_,?_⟩
  · intro a ha b hb _ _ k hak hbk
    exact hp.unique a ha b hb k hak hbk
  · intro i hi _ k hk
    exact hp.reach i hi k hk
  · intro i hi hlt hone
    rw [gap_self] at hlt
    omega
  · intro i hi hne
    exact ⟨i,hi,hne,rfl⟩
  · intro i hi hne
    exact ⟨i,hi,hne,rfl,Nat.le_refl _,fun _ _ => Nat.le_refl _⟩
  · intro e _ _
    rw [gap_self]
    exact Nat.zero_le _

theorem Shifting.stay (hs : Shifting key home cap h orig slots empty n) (hh : h < cap)
    (hk : key (slots ((h + n) % cap)) = some k)
    (hstay : gap cap (home k) ((h + n) % cap) ≤ gap cap (home k) empty) :
    Shifting key home cap h orig slots empty (n + 1) := by
  refine { hs with order := Nat.lt_succ_of_lt hs.order, settled := ?_ }
  intro i hi hlt hle q hq
  rcases Nat.lt_succ_iff_lt_or_eq.mp hle with hle | heq
  · exact hs.settled i hi hlt hle q hq
  · have hin : i = (h + n) % cap := by rw [← heq,walk_gap hh hi]
    rw [hin,hk,Option.some.injEq] at hq
    subst hq
    rw [hin]
    exact hstay

theorem Shifting.move (hs : Shifting key home cap h orig slots empty n) (hh : h < cap)
    (hhome : ∀ k, home k < cap) (hn : n < cap) (hjn : j = (h + n) % cap)
    (hk : key (slots j) = some k) (hpast : gap cap (home k) empty < gap cap (home k) j) :
    Shifting key home cap h orig (update slots empty (slots j)) j (n + 1) := by
  have hc : 0 < cap := by omega
  have hj : j < cap := by rw [hjn]; exact Nat.mod_lt _ hc
  have hgap : gap cap h j = n := by rw [hjn,gap_walk hh hn]
  have horder := hs.order
  have hne : j ≠ empty := by
    rintro rfl
    omega
  have hjh : j ≠ h := by
    rintro rfl
    rw [gap_self] at hgap
    omega
  have horig : slots j = orig j := hs.ahead j hj (by omega)
  have hpat : ∀ i < cap, (key (update slots empty (slots j) i)).isSome =
      (key (slots i)).isSome := fun i _ => pattern_update hs.filled (by rw [hk]; rfl) i
  refine ⟨hj,by omega,?_,?_,?_,?_,?_,?_,?_,?_⟩
  · rw [update_of_ne hne,hk]
    rfl
  · intro a ha b hb haj hbj q haq hbq
    simp only [update_apply] at haq hbq
    split_ifs at haq hbq with hae hbe hbe
    · rw [hae,hbe]
    · exact absurd (hs.unique j hj b hb hne hbe q haq hbq).symm hbj
    · exact absurd (hs.unique a ha j hj hae hne q haq hbq) haj
    · exact hs.unique a ha b hb hae hbe q haq hbq
  · intro i hi hij q hq
    by_cases hie : i = empty
    · subst hie
      rw [update_self,hk,Option.some.injEq] at hq
      subst hq
      have hr := (hs.reach j hj hne k hk).pattern hc hpat
      exact fun d hd => hr d (Nat.lt_trans hd hpast)
    · rw [update_of_ne hie] at hq
      exact (hs.reach i hi hie q hq).pattern hc hpat
  · intro i hi hlt hle
    omega
  · intro i hi hlt
    have hie : i ≠ empty := by
      rintro rfl
      omega
    rw [update_of_ne hie]
    exact hs.ahead i hi (by omega)
  · intro i hi hih
    obtain ⟨i',hi',hie,heq⟩ := hs.kept i hi hih
    by_cases hij : i' = j
    · subst hij
      exact ⟨empty,hs.hole,hne.symm,by rw [update_self,heq]⟩
    · exact ⟨i',hi',hij,by rw [update_of_ne hie,heq]⟩
  · intro i hi hij
    by_cases hie : i = empty
    · subst hie
      rw [update_self]
      refine ⟨j,hj,hjh,horig.symm,by omega,fun q hq => ?_⟩
      rw [hk,Option.some.injEq] at hq
      subst hq
      exact Nat.le_of_lt hpast
    · rw [update_of_ne hie]
      exact hs.back i hi hie
  · -- A walk that avoids `e` and ends behind it begins behind it, so the entry would have stayed.
    intro e he havoid
    have hle := hs.bound e he havoid
    by_contra hlt
    rw [horig] at hk
    have hwalk := havoid j hj hjh k hk
    rw [gap_from hh (hhome k) hj,gap_from hh (hhome k) he] at hwalk
    rw [gap_from hh (hhome k) hj,gap_from hh (hhome k) hs.hole] at hpast
    have := gap_lt hh he
    split_ifs at hwalk hpast <;> omega

theorem shiftLoop_stops (hc : cap.isPowerOfTwo) (hh : h < cap) (hhome : ∀ k, home k < cap)
    (fuel : Nat) : ∀ slots empty n, Shifting key home cap h orig slots empty n → n < cap →
      cap ≤ fuel + n →
      ∃ slots' empty' n', shiftLoop key home (cap - 1) h fuel slots empty ((h + n) % cap) =
          (slots',empty') ∧ Shifting key home cap h orig slots' empty' n' ∧
        (n' = cap ∨ n' < cap ∧ key (slots' ((h + n') % cap)) = none) := by
  induction fuel with
  | zero =>
    intro slots empty n _ hn hf
    omega
  | succ fuel ih =>
    intro slots empty n hs hn hf
    have hj : (h + n) % cap < cap := Nat.mod_lt _ (by omega)
    cases hk : key (slots ((h + n) % cap)) with
    | none => exact ⟨slots,empty,n,by simp only [shiftLoop,hk],hs,.inr ⟨hn,hk⟩⟩
    | some k =>
      have hnext : ((h + n) % cap + 1) &&& (cap - 1) = (h + (n + 1)) % cap := by
        rw [and_mask hc,Nat.mod_add_mod,Nat.add_assoc]
      obtain ⟨slots1,empty1,hstep,hs1⟩ : ∃ slots1 empty1,
          (if displaced empty ((h + n) % cap) (home k)
            then (update slots empty (slots ((h + n) % cap)),(h + n) % cap)
            else (slots,empty)) = (slots1,empty1) ∧
          Shifting key home cap h orig slots1 empty1 (n + 1) := by
        have hdis := displaced_iff hs.hole hj (hhome k)
        split_ifs with hd
        · exact ⟨_,_,rfl,hs.move hh hhome hn rfl hk (hdis.mp hd)⟩
        · refine ⟨_,_,rfl,hs.stay hh hk ?_⟩
          rw [hdis] at hd
          omega
      simp only [shiftLoop,hk,hstep,hnext]
      split_ifs with hback
      · exact ⟨slots1,empty1,n + 1,rfl,hs1,.inl (walk_back hh hn hback)⟩
      · exact ih slots1 empty1 (n + 1) hs1 (walk_on hh hn hback) (by omega)

structure ShiftRemoved (key : σ → Option κ) (home : κ → Nat) (cap h : Nat)
    (orig slots : Nat → σ) : Prop where
  probed : Probed cap home (fun i => key (slots i))
  content : ∀ s, key s ≠ none →
    ((∃ i < cap, slots i = s) ↔ ∃ i < cap, i ≠ h ∧ orig i = s)
  occupied : occupied cap (fun i => key (slots i)) + 1 = occupied cap (fun i => key (orig i))

theorem Shifting.free (hs : Shifting key home cap h orig slots empty n) (hh : h < cap)
    (hhome : ∀ k, home k < cap) (hstop : n = cap ∨ n < cap ∧ key (slots ((h + n) % cap)) = none)
    (he : e < cap) (havoid : Avoided key home cap h orig e) :
    Avoided key home cap empty slots empty := by
  intro i hi hie k hk
  have hbound := hs.bound e he havoid
  have horder := hs.order
  rcases Nat.lt_trichotomy (gap cap h i) (gap cap h empty) with hlt | heq | hgt
  · -- An entry before the hole: its old walk avoided `e`, which lies at the hole or behind it.
    obtain ⟨i0,hi0,hne0,heq0,_,hnear⟩ := hs.back i hi hie
    have hwalk := Nat.le_trans (hnear k hk) (havoid i0 hi0 hne0 k (by rw [heq0]; exact hk))
    have := gap_lt hh he
    have := gap_lt hh hi
    rw [gap_from hh (hhome k) hi,gap_from hh (hhome k) he] at hwalk
    rw [gap_from hh (hhome k) hi,gap_from hh (hhome k) hs.hole]
    split_ifs at hwalk ⊢ <;> omega
  · exact absurd (gap_injective hh hi hs.hole heq) hie
  · rcases Nat.lt_or_ge (gap cap h i) n with hin | hin
    · exact hs.settled i hi hgt hin k hk
    · -- An entry behind the empty slot that stopped the walk.
      have hlast := gap_lt hh hi
      obtain ⟨hn,hnone⟩ := hstop.resolve_left (by omega)
      have hgap := gap_walk hh hn
      have hj : (h + n) % cap < cap := Nat.mod_lt _ (by omega)
      have hbefore : gap cap (home k) i ≤ gap cap (home k) ((h + n) % cap) := by
        by_contra hover
        have := hs.reach i hi hie k hk _ (Nat.lt_of_not_le hover)
        rw [walk_gap (hhome k) hj] at this
        exact this hnone
      rw [gap_from hh (hhome k) hi,gap_from hh (hhome k) hj,hgap] at hbefore
      have hin' : gap cap h i ≠ n := by
        intro heq
        rw [← heq,walk_gap hh hi] at hnone
        rw [hnone] at hk
        cases hk
      rw [gap_from hh (hhome k) hi,gap_from hh (hhome k) hs.hole]
      split_ifs at hbefore ⊢ <;> omega

theorem Shifting.avoided (hs : Shifting key home cap h orig slots empty n) (hh : h < cap)
    (hp : Probed cap home (fun i => key (orig i))) (hhome : ∀ k, home k < cap)
    (hfree : Avoided key home cap empty slots empty) : Avoided key home cap h orig empty := by
  intro i0 hi0 hne0 k hk
  obtain ⟨i,hi,hie,heq⟩ := hs.kept i0 hi0 hne0
  have hik : key (slots i) = some k := by rw [heq]; exact hk
  obtain ⟨i1,hi1,_,heq1,hle,_⟩ := hs.back i hi hie
  obtain rfl : i1 = i0 := hp.unique i1 hi1 i0 hi0 k (by simp only [heq1,hik]) hk
  have hwalk := hfree i hi hie k hik
  rcases Nat.lt_trichotomy (gap cap h i1) (gap cap h empty) with hlt | hsame | hgt
  · have := gap_lt hh hs.hole
    rw [gap_from hh (hhome k) hi,gap_from hh (hhome k) hs.hole] at hwalk
    rw [gap_from hh (hhome k) hi1,gap_from hh (hhome k) hs.hole]
    split_ifs at hwalk ⊢ <;> omega
  · rw [gap_injective hh hi1 hs.hole hsame]
  · have hstill := hs.ahead i1 hi1 hgt
    have hne : i1 ≠ empty := by
      rintro rfl
      omega
    obtain rfl := hs.unique i hi i1 hi1 hie hne k hik (by rw [hstill]; exact hk)
    exact hwalk

theorem Shifting.emptied (hs : Shifting key home cap h orig slots empty n)
    (hhome : ∀ k, home k < cap) (hv : ∀ s, key (vacate s) = none)
    (hlast : last = update slots empty (vacate (slots empty))) :
    (∀ s, key s ≠ none → ((∃ i < cap, last i = s) ↔ ∃ i < cap, i ≠ h ∧ orig i = s)) ∧
      (Probed cap home (fun i => key (last i)) ↔ Avoided key home cap empty slots empty) := by
  have hother : ∀ i < cap, i ≠ empty → last i = slots i := by
    intro i _ hie
    rw [hlast,update_of_ne hie]
  have hgone : key (last empty) = none := by rw [hlast,update_self,hv]
  have hback {i : Nat} (hk : key (last i) ≠ none) : i ≠ empty := by
    rintro rfl
    exact hk hgone
  refine ⟨fun s hne => ⟨?_,?_⟩,⟨fun hp i hi hie k hk => ?_,fun hfree => ⟨?_,?_⟩⟩⟩
  · rintro ⟨i,hi,rfl⟩
    obtain ⟨i0,hi0,hne0,heq,_⟩ := hs.back i hi (hback hne)
    exact ⟨i0,hi0,hne0,by rw [heq,hother i hi (hback hne)]⟩
  · rintro ⟨i,hi,hih,rfl⟩
    obtain ⟨i',hi',hie,heq⟩ := hs.kept i hi hih
    exact ⟨i',hi',by rw [hother i' hi' hie,heq]⟩
  · by_contra hover
    have hwalk := hp.reach i hi k (by rw [hother i hi hie]; exact hk) _ (Nat.lt_of_not_le hover)
    rw [walk_gap (hhome k) hs.hole] at hwalk
    exact hwalk hgone
  · intro i hi k hk
    have hie := hback (by rw [hk]; simp)
    have hk' : key (slots i) = some k := by rw [← hother i hi hie]; exact hk
    exact (hs.reach i hi hie k hk').clear (hhome k) hi (fun l hl hle => by rw [hother l hl hle])
      (hfree i hi hie k hk')
  · intro a ha b hb k hak hbk
    have hae := hback (by rw [hak]; simp)
    have hbe := hback (by rw [hbk]; simp)
    simp only [hother a ha hae] at hak
    simp only [hother b hb hbe] at hbk
    exact hs.unique a ha b hb hae hbe k hak hbk

/-- What is left of the table, and when it can still be searched: some slot must not be needed by
the walk to any other entry. -/
theorem shiftRemove_spec (hc : cap.isPowerOfTwo) (hhome : ∀ k, home k < cap)
    (hv : ∀ s, key (vacate s) = none) (hp : Probed cap home (fun i => key (orig i))) (hh : h < cap)
    (ho : (key (orig h)).isSome) (hlast : last = shiftRemove key vacate home cap orig h) :
    (∀ s, key s ≠ none → ((∃ i < cap, last i = s) ↔ ∃ i < cap, i ≠ h ∧ orig i = s)) ∧
      (Probed cap home (fun i => key (last i)) ↔ ∃ e < cap, Avoided key home cap h orig e) := by
  obtain ⟨slots,empty,n,hloop,hs,hstop⟩ : ∃ slots empty n,
      shiftLoop key home (cap - 1) h cap orig h ((h + 1) &&& (cap - 1)) = (slots,empty) ∧
      Shifting key home cap h orig slots empty n ∧
      (n = cap ∨ n < cap ∧ key (slots ((h + n) % cap)) = none) := by
    rw [and_mask hc]
    have hinit := shifting_init hp hh ho
    rcases Nat.lt_or_ge 1 cap with hone | hone
    · exact shiftLoop_stops hc hh hhome cap orig h 1 hinit hone (by omega)
    · -- The only slot of the table is compared with itself.
      obtain rfl : cap = 1 := by omega
      obtain rfl : h = 0 := by omega
      obtain ⟨k,hk⟩ := isSome_iff_exists.mp ho
      exact ⟨orig,0,1,by simp [shiftLoop,hk,displaced,Nat.lt_one_iff.mp (hhome k)],hinit,.inl rfl⟩
  rw [shiftRemove,hloop] at hlast
  obtain ⟨hcontent,hprobed⟩ := hs.emptied hhome hv hlast
  refine ⟨hcontent,hprobed.trans ⟨fun hfree => ?_,fun ⟨e,he,havoid⟩ => ?_⟩⟩
  · exact ⟨empty,hs.hole,hs.avoided hh hp hhome hfree⟩
  · exact hs.free hh hhome hstop he havoid

/-- Backward-shift deletion is correct as soon as one slot is not needed. -/
theorem shiftRemove_removes (hc : cap.isPowerOfTwo) (hhome : ∀ k, home k < cap)
    (hv : ∀ s, key (vacate s) = none) (hp : Probed cap home (fun i => key (orig i))) (hh : h < cap)
    (ho : (key (orig h)).isSome) (havoid : ∃ e < cap, Avoided key home cap h orig e) :
    ShiftRemoved key home cap h orig (shiftRemove key vacate home cap orig h) := by
  obtain ⟨hcontent,hprobed⟩ := shiftRemove_spec hc hhome hv hp hh ho rfl
  exact ⟨hprobed.mpr havoid,hcontent,shiftRemove_occupied hc hv hh ho⟩

theorem avoided_empty (hhome : ∀ k, home k < cap) (hp : Probed cap home (fun i => key (orig i)))
    (he : e < cap) (hn : key (orig e) = none) : Avoided key home cap h orig e := by
  intro i hi _ k hk
  by_contra hover
  have hwalk := hp.reach i hi k hk _ (Nat.lt_of_not_le hover)
  rw [walk_gap (hhome k) he] at hwalk
  exact hwalk hn

theorem avoided_small (hsmall : cap ≤ 2) (hh : h < cap) :
    ∃ e < cap, Avoided key home cap h orig e := by
  rcases Nat.lt_or_ge 1 cap with hone | hone
  · refine ⟨1 - h,by omega,fun i hi hih k _ => ?_⟩
    obtain rfl : i = 1 - h := by omega
    exact Nat.le_refl _
  · refine ⟨h,hh,fun i hi hih k _ => ?_⟩
    omega

theorem shiftLoop_fuel (hc : cap.isPowerOfTwo) (hh : h < cap) (more fuel : Nat) :
    ∀ slots empty n, n < cap → cap ≤ fuel + n →
      shiftLoop key home (cap - 1) h (fuel + more) slots empty ((h + n) % cap) =
        shiftLoop key home (cap - 1) h fuel slots empty ((h + n) % cap) := by
  induction fuel with
  | zero =>
    intro slots empty n hn hf
    omega
  | succ fuel ih =>
    intro slots empty n hn hf
    have hnext : ((h + n) % cap + 1) &&& (cap - 1) = (h + (n + 1)) % cap := by
      rw [and_mask hc,Nat.mod_add_mod,Nat.add_assoc]
    rw [Nat.add_right_comm]
    cases hk : key (slots ((h + n) % cap)) with
    | none => simp only [shiftLoop,hk]
    | some k =>
      simp only [shiftLoop,hk,hnext]
      by_cases hback : (h + (n + 1)) % cap = h
      · rw [if_pos hback,if_pos hback]
      · rw [if_neg hback,if_neg hback]
        exact ih _ _ (n + 1) (walk_on hh hn hback) (by omega)

theorem shiftLoop_ends (hc : cap.isPowerOfTwo) (hh : h < cap) (more : Nat) (slots : Nat → σ)
    (empty : Nat) :
    shiftLoop key home (cap - 1) h (cap + more) slots empty ((h + 1) &&& (cap - 1)) =
      shiftLoop key home (cap - 1) h cap slots empty ((h + 1) &&& (cap - 1)) := by
  rw [and_mask hc]
  rcases Nat.lt_or_ge 1 cap with hone | hone
  · exact shiftLoop_fuel hc hh more cap slots empty 1 hone (by omega)
  · obtain rfl : cap = 1 := by omega
    rw [show (h + 1) % 1 = (h + 0) % 1 by rw [Nat.mod_one,Nat.mod_one]]
    exact shiftLoop_fuel hc hh more 1 slots empty 0 (by omega) (by omega)

end Shift

end LinearProbe
