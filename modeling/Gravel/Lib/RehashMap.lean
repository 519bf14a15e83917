import Gravel.Lib.RehashInvariant
import Gravel.Lib.RehashTally

namespace Rehash
open LinearProbe

variable {κ σ : Type} {L : Layout κ σ}

/-- A table in the middle of a migration. By `pace` the migration is over long
before the new table fills up. -/
structure Growing (L : Layout κ σ) (t : Table σ) (o : OldTable σ) : Prop where
  split : Split L t.capacity t.slots o
  double : t.capacity = o.capacity * 2
  cursor : o.cursor < o.capacity
  pace : L.batch * t.count + occupied o.capacity (L.keys o.slots) ≤
    (L.batch + 1) * o.capacity + L.batch

structure Valid (L : Layout κ σ) (t : Table σ) : Prop where
  pow : t.capacity.isPowerOfTwo
  probed : Probed t.capacity (L.home t.capacity) (L.keys t.slots)
  count : t.count = occupied t.capacity (L.keys t.slots) + oldCount L t
  full : occupied t.capacity (L.keys t.slots) < t.capacity ∨ t.capacity ≤ 2
  old : ∀ o, t.old = some o → Growing L t o

def Stored (L : Layout κ σ) (t : Table σ) (s : σ) : Prop :=
  L.key s ≠ none ∧
    (Within t.capacity t.slots s ∨ ∃ o, t.old = some o ∧ Within o.capacity o.slots s)

def Represents (L : Layout κ σ) (t : Table σ) (m : κ → Option σ) : Prop :=
  ∀ k s, m k = some s ↔ L.key s = some k ∧ Stored L t s

/-- The entry in slot `q` of the old table survives the next migration step: a whole batch
of entries comes before it. -/
def Stays (L : Layout κ σ) (o : OldTable σ) (q : Nat) : Prop :=
  (L.key (o.slots q)).isSome ∧ L.batch ≤ moved (L.keys o.slots) o.cursor q

instance (o : OldTable σ) (q : Nat) : Decidable (Stays L o q) :=
  inferInstanceAs (Decidable (_ ∧ _))

/-- The entry of `k` stays in the old table while the next migration step, or an
earlier migration or removal, leaves a hole on the way to it. -/
def Hidden (L : Layout κ σ) (t : Table σ) (k : κ) : Prop :=
  ∃ o, t.old = some o ∧ ∃ p < o.capacity, L.key (o.slots p) = some k ∧ Stays L o p ∧
    ∃ d < gap o.capacity (L.home o.capacity k) p,
      ¬ Stays L o ((L.home o.capacity k + d) % o.capacity)

instance [DecidableEq κ] (t : Table σ) (k : κ) : Decidable (Hidden L t k) :=
  decidable_of_iff (∃ o ∈ t.old, ∃ p < o.capacity, L.key (o.slots p) = some k ∧ Stays L o p ∧
    ∃ d < gap o.capacity (L.home o.capacity k) p,
      ¬ Stays L o ((L.home o.capacity k + d) % o.capacity)) .rfl

theorem Valid.tallied {t : Table σ} (hv : Valid L t) : Tallied L t :=
  ⟨hv.pow,hv.count,fun o ho =>
    have hg := hv.old o ho
    ⟨hg.double,hg.split.oldPow,hg.cursor,hg.split.swept,hg.pace⟩⟩

theorem Valid.count_le {t : Table σ} (hv : Valid L t) : t.count ≤ t.capacity := hv.tallied.count_le

theorem Valid.still {t : Table σ} (hv : Valid L t) (ho : t.old = none) :
    t.count < t.capacity ∨ t.capacity ≤ 2 := by
  rw [hv.count,oldCount_none ho]
  exact hv.full

theorem Tallied.valid {t : Table σ} (h : Tallied L t)
    (hp : Probed t.capacity (L.home t.capacity) (L.keys t.slots))
    (hstill : t.old = none → t.count < t.capacity ∨ t.capacity ≤ 2) (hold : ∀ o, t.old = some o →
      (∀ i < o.capacity, ∀ j < o.capacity, ∀ k, L.key (o.slots i) = some k →
        L.key (o.slots j) = some k → i = j) ∧
      ∀ i < t.capacity, ∀ j < o.capacity, ∀ k, L.key (t.slots i) = some k →
        L.key (o.slots j) ≠ some k) : Valid L t := by
  have hcount := h.count
  refine ⟨h.pow,hp,hcount,?_,fun o ho => ?_⟩
  · have hfull : t.count < t.capacity ∨ t.capacity ≤ 2 := by
      cases ho : t.old with
      | none => exact hstill ho
      | some o => exact h.full ho
    omega
  · have hd := h.old o ho
    exact ⟨⟨h.pow,hd.oldPow,hp,hd.swept,(hold o ho).1,(hold o ho).2,(h.loaded ho).room⟩,
      hd.double,hd.cursor,hd.pace⟩

theorem valid_still {t : Table σ} (hc : t.capacity.isPowerOfTwo)
    (hp : Probed t.capacity (L.home t.capacity) (L.keys t.slots))
    (hn : t.count = occupied t.capacity (L.keys t.slots))
    (hf : t.count < t.capacity ∨ t.capacity ≤ 2) (ho : t.old = none) : Valid L t :=
  ⟨hc,hp,by rw [hn,oldCount_none ho,Nat.add_zero],by rw [← hn]; exact hf,
    fun o h => by rw [ho] at h; contradiction⟩

theorem Represents.stored {t t' : Table σ} {m : κ → Option σ} (hm : Represents L t m)
    (hs : ∀ s, Stored L t' s ↔ Stored L t s) : Represents L t' m := by
  intro k s
  rw [hm k s,hs s]

theorem stored_some {t : Table σ} {o : OldTable σ} {s : σ} (ho : t.old = some o) :
    Stored L t s ↔
      L.key s ≠ none ∧ (Within t.capacity t.slots s ∨ Within o.capacity o.slots s) := by
  simp [Stored,ho]

theorem stored_none {t : Table σ} {s : σ} (ho : t.old = none) :
    Stored L t s ↔ L.key s ≠ none ∧ Within t.capacity t.slots s := by
  simp [Stored,ho]

section Step

variable {t t' : Table σ} {k : κ} {cap q : Nat} {slots slots' : Nat → σ} {o o' : OldTable σ}

/-- One migration step: the same entries, and what is left of the old table are the
entries that stay. -/
structure Stepped (L : Layout κ σ) (t t' : Table σ) : Prop where
  valid : Valid L t'
  stored : ∀ s, Stored L t' s ↔ Stored L t s
  count : t'.count = t.count
  capacity : t'.capacity = t.capacity
  slack : ∀ o', t'.old = some o' → L.batch * t'.count + occupied o'.capacity (L.keys o'.slots) ≤
    (L.batch + 1) * o'.capacity
  rest : ∀ o', t'.old = some o' → ∃ o, t.old = some o ∧ o'.capacity = o.capacity ∧
    o.cursor < o'.cursor ∧
    ∀ q < o.capacity, L.key (o'.slots q) = if Stays L o q then L.key (o.slots q) else none
  finished : t'.old = none → ∀ o, t.old = some o → ∀ q < o.capacity, ¬ Stays L o q

theorem Migrated.stays_iff (hm : Migrated L cap slots o 0 slots' o') (hs : Split L cap slots o)
    (hq : q < o.capacity) : Stays L o q ↔ (L.key (o.slots q)).isSome ∧ o'.cursor ≤ q := by
  constructor
  · rintro ⟨hsome,hstay⟩
    refine ⟨hsome,?_⟩
    by_contra hlt
    have hcq : o.cursor ≤ q := by
      by_contra hc
      rw [hs.swept q (by omega)] at hsome
      contradiction
    have := moved_lt (T := L.keys o.slots) hcq (Nat.lt_of_not_le hlt) hsome
    have := hm.budget
    omega
  · rintro ⟨hsome,hle⟩
    refine ⟨hsome,?_⟩
    have hspent := hm.spent (by omega)
    have := moved_add (T := L.keys o.slots) hm.cursor_le hle
    omega

theorem Migrated.key_eq (hm : Migrated L cap slots o 0 slots' o') (hs : Split L cap slots o)
    (hq : q < o.capacity) :
    L.key (o'.slots q) = if Stays L o q then L.key (o.slots q) else none := by
  have hiff := hm.stays_iff hs hq
  rcases Nat.lt_or_ge q o'.cursor with hlt | hge
  · rw [if_neg (by rw [hiff]; omega)]
    exact hm.split.swept q hlt
  · rw [hm.rest q hge]
    split_ifs with hstay
    · rfl
    · cases hk : L.key (o.slots q) with
      | none => rfl
      | some k => exact absurd (hiff.mpr ⟨by simp [hk],hge⟩) hstay

theorem rehashStep_spec [DecidableEq κ] (hv : Valid L t) :
    ∃ t', rehashStep L t = some t' ∧ Stepped L t t' := by
  obtain ⟨t',hstep,htick⟩ := rehashStep_ticks hv.tallied
  refine ⟨t',hstep,?_⟩
  cases ho : t.old with
  | none =>
    obtain rfl : t = t' := by simpa [rehashStep,ho] using hstep
    refine ⟨hv,fun _ => .rfl,rfl,rfl,htick.slack,?_,?_⟩
    · intro o' ho'
      rw [ho] at ho'
      contradiction
    · intro _ o ho'
      rw [ho] at ho'
      contradiction
  | some o =>
    have hg := hv.old o ho
    obtain ⟨slots',o',hrun,hm⟩ := migrate_spec o.capacity hg.split (Nat.zero_le _) (by omega)
    have hcap := hm.capacity
    by_cases hdone : o'.capacity ≤ o'.cursor
    · obtain rfl : { t with slots := slots', old := none } = t' := by
        simpa [rehashStep,ho,hrun,hdone] using hstep
      refine ⟨htick.tallied.valid hm.split.probed (fun _ => hv.tallied.full ho)
        (fun _ h => by contradiction),?_,rfl,rfl,htick.slack,?_,?_⟩
      · intro s
        rw [stored_none rfl,stored_some ho]
        apply and_congr_right
        intro hs
        rw [← hm.stored s hs]
        constructor
        · exact Or.inl
        · rintro (hw | ⟨i,hi,rfl⟩)
          · exact hw
          · exact absurd (hm.split.swept i (by omega)) hs
      · intro _ h
        contradiction
      · intro _ o2 ho2 q hq
        rw [ho] at ho2
        cases ho2
        rw [hm.stays_iff hg.split hq]
        omega
    · obtain rfl : { t with slots := slots', old := some o' } = t' := by
        simpa [rehashStep,ho,hrun,hdone] using hstep
      refine ⟨htick.tallied.valid hm.split.probed (fun h => by contradiction)
        (fun o2 ho2 => ?_),?_,rfl,rfl,htick.slack,?_,?_⟩
      · cases ho2
        exact ⟨hm.split.unique,hm.split.apart⟩
      · intro s
        rw [stored_some rfl,stored_some ho]
        exact and_congr_right (fun hs => hm.stored s hs)
      · intro o2 ho2
        obtain ⟨o1,ho1,_,hfwd⟩ := htick.onward o2 ho2
        rw [ho] at ho1
        cases ho1
        cases ho2
        exact ⟨o,ho,hcap,hfwd,fun q hq => hm.key_eq hg.split hq⟩
      · intro h
        contradiction

theorem Stepped.ticked (hst : Stepped L t t') : Ticked L t t' :=
  ⟨hst.valid.tallied,hst.count,hst.capacity,hst.slack,fun o' ho' =>
    let ⟨o,ho,hcap,hfwd,_⟩ := hst.rest o' ho'
    ⟨o,ho,hcap,hfwd⟩⟩

theorem Valid.migrates [DecidableEq κ] (hv : Valid L t) (hsteps : Migrates L t t') :
    Valid L t' ∧ (∀ s, Stored L t' s ↔ Stored L t s) ∧ t'.count = t.count ∧
      t'.capacity = t.capacity := by
  induction hsteps with
  | refl => exact ⟨hv,fun _ => .rfl,rfl,rfl⟩
  | tail _ hlast ih =>
    obtain ⟨hv,hs,hn,hc⟩ := ih
    obtain ⟨t1,hstep,hst⟩ := rehashStep_spec hv
    rw [hlast] at hstep
    cases hstep
    exact ⟨hst.valid,fun s => (hst.stored s).trans (hs s),hst.count.trans hn,hst.capacity.trans hc⟩

theorem Stepped.hidden_iff (hst : Stepped L t t') :
    Hidden L t k ↔ ∃ o', t'.old = some o' ∧ ∃ p < o'.capacity, L.key (o'.slots p) = some k ∧
      ¬ Reaches o'.capacity (L.home o'.capacity) (L.keys o'.slots) k p := by
  constructor
  · rintro ⟨o,ho,p,hp,hk,hstay,d,hd,hgone⟩
    cases ho' : t'.old with
    | none => exact absurd hstay (hst.finished ho' o ho p hp)
    | some o' =>
      obtain ⟨o2,ho2,hcap,_,hkey⟩ := hst.rest o' ho'
      rw [ho] at ho2
      cases ho2
      have hmod : (L.home o.capacity k + d) % o.capacity < o.capacity :=
        Nat.mod_lt _ (by omega)
      refine ⟨o',rfl,p,by omega,by rw [hkey p hp,if_pos hstay,hk],?_⟩
      intro hr
      rw [hcap] at hr
      apply hr d hd
      rw [Layout.keys,hkey _ hmod,if_neg hgone]
  · rintro ⟨o',ho',p,hp,hk,hr⟩
    obtain ⟨o,ho,hcap,_,hkey⟩ := hst.rest o' ho'
    rw [hcap] at hp hr
    have hstay : Stays L o p := by
      by_contra hns
      rw [hkey p hp,if_neg hns] at hk
      contradiction
    rw [hkey p hp,if_pos hstay] at hk
    unfold Reaches at hr
    push Not at hr
    obtain ⟨d,hd,hnone⟩ := hr
    have hmod : (L.home o.capacity k + d) % o.capacity < o.capacity := Nat.mod_lt _ (by omega)
    refine ⟨o,ho,p,hp,hk,hstay,d,hd,?_⟩
    intro hs
    rw [Layout.keys,hkey _ hmod,if_pos hs] at hnone
    have := hs.1
    rw [hnone] at this
    contradiction

end Step

section Lookup

variable {t : Table σ} {k : κ} {m : κ → Option σ} {i : Nat}

theorem Represents.new (hm : Represents L t m) (hi : i < t.capacity)
    (hk : L.key (t.slots i) = some k) : m k = some (t.slots i) :=
  (hm k _).mpr ⟨hk,by rw [hk]; simp,.inl ⟨i,hi,rfl⟩⟩

theorem Represents.old (hm : Represents L t m) {o : OldTable σ} (ho : t.old = some o)
    (hi : i < o.capacity) (hk : L.key (o.slots i) = some k) : m k = some (o.slots i) :=
  (hm k _).mpr ⟨hk,by rw [hk]; simp,.inr ⟨o,ho,i,hi,rfl⟩⟩

theorem Represents.absent (hm : Represents L t m)
    (habs : ∀ j < t.capacity, L.key (t.slots j) ≠ some k)
    (hold : ∀ o, t.old = some o → ∀ j < o.capacity, L.key (o.slots j) ≠ some k) : m k = none := by
  cases h : m k with
  | none => rfl
  | some s =>
    obtain ⟨hk,_,⟨i,hi,rfl⟩ | ⟨o,ho,i,hi,rfl⟩⟩ := (hm k s).mp h
    · exact absurd hk (habs i hi)
    · exact absurd hk (hold o ho i hi)

variable [DecidableEq κ]

inductive Place (L : Layout κ σ) (t : Table σ) (k : κ) : Prop where
  | new (i : Nat) (hi : i < t.capacity) (hk : L.key (t.slots i) = some k)
      (hl : lookup L t.slots t.capacity k = some i)
  | old (o : OldTable σ) (i : Nat) (ho : t.old = some o) (hi : i < o.capacity)
      (hk : L.key (o.slots i) = some k)
      (habs : ∀ j < t.capacity, L.key (t.slots j) ≠ some k)
      (hl : Reaches o.capacity (L.home o.capacity) (L.keys o.slots) k i ∧
          lookup L o.slots o.capacity k = some i ∨
        ¬ Reaches o.capacity (L.home o.capacity) (L.keys o.slots) k i ∧
          lookup L o.slots o.capacity k = none)
  | absent (habs : ∀ j < t.capacity, L.key (t.slots j) ≠ some k)
      (hold : ∀ o, t.old = some o → ∀ j < o.capacity, L.key (o.slots j) ≠ some k)

theorem Valid.place (hv : Valid L t) (k : κ) : Place L t k := by
  by_cases hnew : ∃ i < t.capacity, L.key (t.slots i) = some k
  · obtain ⟨i,hi,hk⟩ := hnew
    exact .new i hi hk (lookup_probed hv.pow hv.probed hi hk)
  · push Not at hnew
    by_cases hold : ∃ o, t.old = some o ∧ ∃ i < o.capacity, L.key (o.slots i) = some k
    · obtain ⟨o,ho,i,hi,hk⟩ := hold
      have hsp := (hv.old o ho).split
      have hu : ∀ j < o.capacity, L.key (o.slots j) = some k → j = i :=
        fun j hj hjk => hsp.unique j hj i hi k hjk hk
      refine .old o i ho hi hk hnew ?_
      by_cases hr : Reaches o.capacity (L.home o.capacity) (L.keys o.slots) k i
      · exact .inl ⟨hr,lookup_reached hsp.oldPow hi hk hr hu⟩
      · exact .inr ⟨hr,lookup_hidden hsp.oldPow hr hu⟩
    · push Not at hold
      exact .absent hnew hold

/-- `get` answers as the map unless the key is hidden, and misses a hidden key. -/
theorem get_spec (hv : Valid L t) (hm : Represents L t m) (k : κ) :
    ∃ t' r, get L t k = some (t',r) ∧ Stepped L t t' ∧
      (¬ Hidden L t k → r = m k) ∧ (Hidden L t k → r = none ∧ m k ≠ none) := by
  obtain ⟨t',hstep,hst⟩ := rehashStep_spec hv
  have hm' := hm.stored hst.stored
  have hhid := hst.hidden_iff (k := k)
  cases hst.valid.place k with
  | new i hi hk hl =>
    refine ⟨t',some (t'.slots i),by simp [get,hstep,hl],hst,
      fun _ => (hm'.new hi hk).symm,?_⟩
    intro hh
    obtain ⟨o',ho',p,hp,hpk,_⟩ := hhid.mp hh
    exact absurd hpk ((hst.valid.old o' ho').split.apart i hi p hp k hk)
  | old o i ho hi hk habs hl =>
    have hnew := lookup_absent hst.valid.pow habs
    rcases hl with ⟨hr,hl⟩ | ⟨hr,hl⟩
    · refine ⟨t',some (o.slots i),by simp [get,hstep,hnew,ho,hl],hst,
        fun _ => (hm'.old ho hi hk).symm,?_⟩
      intro hh
      obtain ⟨o',ho',p,hp,hpk,hnr⟩ := hhid.mp hh
      rw [ho] at ho'
      cases ho'
      obtain rfl := (hst.valid.old o ho).split.unique p hp i hi k hpk hk
      exact absurd hr hnr
    · refine ⟨t',none,by simp [get,hstep,hnew,ho,hl],hst,?_,?_⟩
      · intro hh
        exact absurd (hhid.mpr ⟨o,ho,i,hi,hk,hr⟩) hh
      · intro _
        rw [hm'.old ho hi hk]
        exact ⟨rfl,by simp⟩
  | absent habs hold =>
    have hnew := lookup_absent hst.valid.pow habs
    have hnone := hm'.absent habs hold
    refine ⟨t',none,?_,hst,fun _ => hnone.symm,?_⟩
    · cases ho : t'.old with
      | none => simp [get,hstep,hnew,ho]
      | some o =>
        simp [get,hstep,hnew,ho,
          lookup_absent (hst.valid.old o ho).split.oldPow (hold o ho)]
    · intro hh
      obtain ⟨o',ho',p,hp,hpk,_⟩ := hhid.mp hh
      exact absurd hpk (hold o' ho' p hp)

end Lookup

end Rehash
