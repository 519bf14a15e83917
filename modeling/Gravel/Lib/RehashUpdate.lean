import Gravel.Lib.RehashMap

namespace Rehash
open LinearProbe Option Function

variable {κ σ : Type} {L : Layout κ σ} {t : Table σ} {k : κ} {m : κ → Option σ}

section Same

theorem key_update {slots : Nat → σ} {i : Nat} {s : σ} (hs : L.key s = L.key (slots i)) (j : Nat) :
    L.key (update slots i s j) = L.key (slots j) := by
  by_cases hji : j = i
  · subst hji
    rw [update_self,hs]
  · rw [update_of_ne hji]

theorem Valid.change_new (hv : Valid L t) {i : Nat} {u : σ} (hu : L.key u = L.key (t.slots i)) :
    Valid L { t with slots := update t.slots i u } := by
  have hkeys : L.keys (update t.slots i u) = L.keys t.slots := funext (key_update hu)
  refine (hv.tallied.change_new (by rw [hu])).valid ?_ hv.still fun o ho => ?_
  · simp only [hkeys]
    exact hv.probed
  · have hs := (hv.old o ho).split
    exact ⟨hs.unique,fun a ha b hb q hq => hs.apart a ha b hb q ((key_update hu a).symm.trans hq)⟩

theorem Valid.change_old (hv : Valid L t) {o : OldTable σ} (ho : t.old = some o) {i : Nat} {u : σ}
    (hi : i < o.capacity) (hk : L.key (o.slots i) = some k) (hu : L.key u = some k) :
    Valid L { t with old := some { o with slots := update o.slots i u } } := by
  have hs := (hv.old o ho).split
  have hsame := @key_update _ _ L o.slots _ _ (hu.trans hk.symm)
  refine (hv.tallied.change_old ho hi (by rw [hk]; rfl) (by rw [hu]; rfl)).valid hv.probed
    (fun h => by contradiction) fun o2 ho2 => ?_
  cases ho2
  simp only [hsame]
  exact ⟨hs.unique,hs.apart⟩

theorem Valid.only_new (hv : Valid L t) {i : Nat} (hi : i < t.capacity)
    (hk : L.key (t.slots i) = some k) : ∀ j < t.capacity, L.key (t.slots j) = some k → j = i :=
  fun j hj hjk => hv.probed.unique j hj i hi k hjk hk

theorem Valid.only_new_old (hv : Valid L t) {i : Nat} (hi : i < t.capacity)
    (hk : L.key (t.slots i) = some k) :
    ∀ o, t.old = some o → ∀ j < o.capacity, L.key (o.slots j) ≠ some k :=
  fun o ho j hj => (hv.old o ho).split.apart i hi j hj k hk

end Same

section Change

variable [DecidableEq κ] {s : σ}

/-- A table of which one side `A` has lost the entry under `k` and got `e`, while the other side `B`
has no such entry. -/
theorem represents_of_side {t' : Table σ} {A A' B : σ → Prop} {e : Option σ} (hm : Represents L t m)
    (he : ∀ s, e = some s → L.key s = some k)
    (ht : ∀ s, Stored L t s ↔ L.key s ≠ none ∧ (A s ∨ B s))
    (ht' : ∀ s, Stored L t' s ↔ L.key s ≠ none ∧ (A' s ∨ B s))
    (hside : ∀ s, L.key s ≠ none → (A' s ↔ e = some s ∨ L.key s ≠ some k ∧ A s))
    (hapart : ∀ s, B s → L.key s ≠ some k) : Represents L t' (update m k e) := by
  intro q s
  by_cases hqk : q = k
  · subst hqk
    rw [update_self,ht']
    constructor
    · intro h
      have hne : L.key s ≠ none := by simp [he s h]
      exact ⟨he s h,hne,.inl ((hside s hne).mpr (.inl h))⟩
    · rintro ⟨hk,hne,h | h⟩
      · exact ((hside s hne).mp h).resolve_right fun h => h.1 hk
      · exact absurd hk (hapart s h)
  · rw [update_of_ne hqk,hm q s,ht,ht']
    refine and_congr_right fun hk => and_congr_right fun hne => or_congr_left ?_
    have hsk : L.key s ≠ some k := by simpa [hk] using hqk
    rw [hside s hne]
    constructor
    · exact fun h => .inr ⟨hsk,h⟩
    · rintro (h | h)
      · exact absurd (he s h) hsk
      · exact h.2

theorem represents_new {slots' : Nat → σ} {e : Option σ} {i n : Nat} (hm : Represents L t m)
    (he : ∀ s, e = some s → L.key s = some k)
    (hk : L.key (t.slots i) = some k ∨ L.key (t.slots i) = none)
    (hu : ∀ j < t.capacity, L.key (t.slots j) = some k → j = i)
    (hold : ∀ o, t.old = some o → ∀ j < o.capacity, L.key (o.slots j) ≠ some k)
    (hside : ∀ s, L.key s ≠ none →
      (Within t.capacity slots' s ↔ e = some s ∨ ∃ j < t.capacity, j ≠ i ∧ t.slots j = s)) :
    Represents L { t with slots := slots', count := n } (update m k e) := by
  refine represents_of_side hm he (fun _ => .rfl) (fun _ => .rfl) (fun s hs => ?_) ?_
  · rw [← within_beside hs hk hu]
    exact hside s hs
  · rintro _ ⟨o,ho,j,hj,rfl⟩
    exact hold o ho j hj

theorem represents_put {i n : Nat} (hm : Represents L t m) (hi : i < t.capacity)
    (hk : L.key (t.slots i) = some k ∨ L.key (t.slots i) = none) (hs : L.key s = some k)
    (hu : ∀ j < t.capacity, L.key (t.slots j) = some k → j = i)
    (hold : ∀ o, t.old = some o → ∀ j < o.capacity, L.key (o.slots j) ≠ some k) :
    Represents L { t with slots := update t.slots i s, count := n } (update m k (some s)) := by
  refine represents_new hm (by rintro _ ⟨⟩; exact hs) hk hu hold fun u _ => ?_
  rw [within_update hi,some_inj]

theorem represents_change_old (hv : Valid L t) (hm : Represents L t m) {o : OldTable σ} {i n : Nat}
    (ho : t.old = some o) (hi : i < o.capacity) (hk : L.key (o.slots i) = some k)
    (hs : L.key s = some k ∨ L.key s = none) :
    Represents L
      { t with old := some { o with slots := update o.slots i s }, count := n }
      (update m k (if L.key s = none then none else some s)) := by
  have hsp := (hv.old o ho).split
  have hu : ∀ j < o.capacity, L.key (o.slots j) = some k → j = i :=
    fun j hj hjk => hsp.unique j hj i hi k hjk hk
  refine represents_of_side hm ?_ (fun u => (stored_some ho).trans (and_congr_right' or_comm))
    (fun u => (stored_some rfl).trans (and_congr_right' or_comm)) (fun u hne => ?_) ?_
  · intro u hu
    split_ifs at hu with hn
    cases hu
    exact hs.resolve_right hn
  · rw [within_update hi,within_beside hne (.inl hk) hu]
    refine or_congr_left ?_
    split_ifs with hn
    · exact iff_of_false (fun h => hne (h ▸ hn)) (by simp)
    · rw [some_inj]
  · rintro _ ⟨j,hj,rfl⟩ hjk
    exact hsp.apart j hj i hi k hjk hk

end Change

section Put

structure Ready (L : Layout κ σ) (t : Table σ) (k : κ) : Prop where
  valid : Valid L t
  room : occupied t.capacity (L.keys t.slots) < t.capacity
  still : t.old = none → t.count + 1 < t.capacity ∨ t.capacity ≤ 2
  slack : ∀ o, t.old = some o → L.batch * t.count + occupied o.capacity (L.keys o.slots) ≤
    (L.batch + 1) * o.capacity
  visible : ∀ o, t.old = some o → ∀ p < o.capacity, L.key (o.slots p) = some k →
    Reaches o.capacity (L.home o.capacity) (L.keys o.slots) k p

theorem blank_represents {cap : Nat} (hc : cap.isPowerOfTwo) :
    Valid L ⟨fun _ => L.blank,cap,0,none⟩ ∧
      Represents L ⟨fun _ => L.blank,cap,0,none⟩ (fun _ => none) := by
  refine ⟨valid_still hc ?_ ?_ (.inl (pow_two_pos hc)) rfl,?_⟩
  · simp only [keys_blank]
    exact probed_empty
  · simp only [keys_blank,occupied_empty]
  · intro k s
    rw [stored_none rfl]
    constructor
    · intro hs
      cases hs
    · rintro ⟨_,hs,i,_,rfl⟩
      exact absurd L.key_blank hs

theorem beginGrow_valid (hv : Valid L t) (ho : t.old = none)
    (hdouble : L.double t.capacity = t.capacity * 2) :
    Valid L (beginGrow L t) ∧ ∀ s, Stored L (beginGrow L t) s ↔ Stored L t s := by
  refine ⟨(hv.tallied.beginGrow ho hdouble).1.valid ?_ (fun h => by contradiction) ?_,fun s => ?_⟩
  · simp only [beginGrow,keys_blank]
    exact probed_empty
  · intro o ho'
    cases ho'
    refine ⟨hv.probed.unique,fun i _ j _ q hq => ?_⟩
    rw [beginGrow,L.key_blank] at hq
    contradiction
  · rw [stored_some rfl,stored_none ho]
    apply and_congr_right
    intro hs
    constructor
    · rintro (⟨i,_,rfl⟩ | hw)
      · exact absurd L.key_blank hs
      · exact hw
    · exact Or.inr

theorem Ready.insert_valid (hr : Ready L t k) {h : Nat} {s : σ} (hh : h < t.capacity)
    (hnone : L.key (t.slots h) = none) (hs : L.key s = some k)
    (habs : ∀ j < t.capacity, L.key (t.slots j) ≠ some k)
    (hold : ∀ o, t.old = some o → ∀ j < o.capacity, L.key (o.slots j) ≠ some k)
    (hreach : Reaches t.capacity (L.home t.capacity) (L.keys t.slots) k h) :
    Valid L { t with slots := update t.slots h s, count := t.count + 1 } := by
  have hv := hr.valid
  have hother : ∀ j < t.capacity, j ≠ h →
      L.keys (update t.slots h s) j = L.keys t.slots j :=
    fun j _ hj => congrArg L.key (update_of_ne hj _ _)
  have hself : L.keys (update t.slots h s) h = some k := by
    rw [Layout.keys,update_self,hs]
  refine (hv.tallied.fill hr.slack hh hnone (by rw [hs]; simp)).valid
    (hv.probed.insert (pow_two_pos hv.pow) hh hnone habs hreach hself hother) hr.still fun o ho => ?_
  have hsp := (hv.old o ho).split
  refine ⟨hsp.unique,fun i hi j hj q hiq => ?_⟩
  by_cases hih : i = h
  · subst hih
    cases hself.symm.trans hiq
    exact hold o ho j hj
  · exact hsp.apart i hi j hj q ((hother i hi hih).symm.trans hiq)

theorem ready_of_stepped {t' : Table σ} (hst : Stepped L t t') (hvis : ¬ Hidden L t k)
    (hdouble : L.crowded t.count t.capacity = true → L.double t.capacity = t.capacity * 2)
    (hroom : L.crowded t.count t.capacity = false →
      t.count < t.capacity ∧ (t.count + 1 < t.capacity ∨ t.capacity ≤ 2)) :
    Ready L (growth L t') k ∧ (∀ s, Stored L (growth L t') s ↔ Stored L t s) ∧
      (growth L t').count = t.count ∧
      ((growth L t').capacity = t.capacity ∨ (growth L t').capacity = t.capacity * 2) := by
  obtain ⟨hvac,hcount,hcap⟩ := hst.ticked.growth ⟨hdouble,fun hcr => (hroom hcr).1⟩
  have hoccupied := hvac.tallied.count
  have hfree := hvac.room
  suffices hgrown : Valid L (growth L t') ∧ (∀ s, Stored L (growth L t') s ↔ Stored L t s) ∧
      ((growth L t').old = none →
        (growth L t').count + 1 < (growth L t').capacity ∨ (growth L t').capacity ≤ 2) ∧
      ∀ o, (growth L t').old = some o → ∀ p < o.capacity, L.key (o.slots p) = some k →
        Reaches o.capacity (L.home o.capacity) (L.keys o.slots) k p from
    ⟨⟨hgrown.1,by omega,hgrown.2.2.1,hvac.slack,hgrown.2.2.2⟩,hgrown.2.1,hcount,hcap⟩
  unfold growth
  cases ho : t'.old with
  | none =>
    cases hcr : L.crowded t'.count t'.capacity with
    | true =>
      rw [hst.count,hst.capacity] at hcr
      have htwice := hdouble hcr
      rw [← hst.capacity] at htwice
      obtain ⟨hv,hstored⟩ := beginGrow_valid hst.valid ho htwice
      simp only [isNone_none,Bool.and_self,if_true]
      refine ⟨hv,fun s => (hstored s).trans (hst.stored s),fun h => by contradiction,?_⟩
      intro o ho' p hp hk
      cases ho'
      exact hst.valid.probed.reach p hp k hk
    | false =>
      simp only [isNone_none,Bool.and_false,Bool.false_eq_true,if_false]
      rw [hst.count,hst.capacity] at hcr
      have hstill := (hroom hcr).2
      rw [← hst.count,← hst.capacity] at hstill
      refine ⟨hst.valid,hst.stored,fun _ => hstill,fun o h => ?_⟩
      rw [ho] at h
      contradiction
  | some o =>
    simp only [isNone_some,Bool.false_and,Bool.false_eq_true,if_false]
    refine ⟨hst.valid,hst.stored,fun h => ?_,?_⟩
    · rw [ho] at h
      contradiction
    · intro o2 ho2 p hp hk
      by_contra hr
      exact hvis (hst.hidden_iff.mpr ⟨o2,ho2,p,hp,hk,hr⟩)

/-- Writing to a key that is not hidden updates the map at this key only. -/
theorem put_spec [DecidableEq κ] (hv : Valid L t) (hm : Represents L t m) (hvis : ¬ Hidden L t k)
    (hdouble : L.crowded t.count t.capacity = true → L.double t.capacity = t.capacity * 2)
    (hroom : L.crowded t.count t.capacity = false →
      t.count < t.capacity ∧ (t.count + 1 < t.capacity ∨ t.capacity ≤ 2))
    {change : σ → σ} {fresh : σ} (hchange : ∀ s, L.key s = some k → L.key (change s) = some k)
    (hfresh : L.key fresh = some k) :
    ∃ t', put L t k change fresh = some t' ∧ Valid L t' ∧
      Represents L t' (update m k (some ((m k).elim fresh change))) ∧
      t'.count = (if m k = none then t.count + 1 else t.count) ∧
      (t'.capacity = t.capacity ∨ t'.capacity = t.capacity * 2) := by
  obtain ⟨t1,hstep,hst⟩ := rehashStep_spec hv
  obtain ⟨hready,hstored,hcount,hcap⟩ := ready_of_stepped hst hvis hdouble hroom
  simp only [put,hstep,bind_eq_bind,bind_some]
  generalize growth L t1 = t2 at hready hstored hcount hcap ⊢
  have hm2 := hm.stored hstored
  cases hready.valid.place k with
  | new i hi hk hl =>
    have hmk := hm2.new hi hk
    have hfind : find L t2.slots t2.capacity k = some i := (filter_eq_some_iff.mp hl).1
    have hsame : L.key (change (t2.slots i)) = L.key (t2.slots i) := by rw [hchange _ hk,hk]
    refine ⟨{ t2 with slots := update t2.slots i (change (t2.slots i)) },
      by simp [hfind,hk],hready.valid.change_new hsame,?_,by simp [hmk,hcount],hcap⟩
    rw [hmk]
    exact represents_put hm2 hi (.inl hk) (hchange _ hk) (hready.valid.only_new hi hk)
      (hready.valid.only_new_old hi hk)
  | old o i ho hi hk habs hl =>
    have hmk := hm2.old ho hi hk
    have hlook : lookup L o.slots o.capacity k = some i := by
      rcases hl with ⟨_,hl⟩ | ⟨hr,_⟩
      · exact hl
      · exact absurd (hready.visible o ho i hi hk) hr
    obtain ⟨h,hh,hfind,hnone,_⟩ := find_free hready.valid.pow habs hready.room
    refine ⟨{ t2 with
        old := some { o with slots := update o.slots i (change (o.slots i)) } },
      by simp [hfind,hnone,ho,hlook],hready.valid.change_old ho hi hk (hchange _ hk),?_,
      by simp [hmk,hcount],hcap⟩
    have := represents_change_old (n := t2.count) hready.valid hm2 ho hi hk (.inl (hchange _ hk))
    rw [if_neg (by rw [hchange _ hk]; simp)] at this
    rw [hmk]
    exact this
  | absent habs hold =>
    have hmk := hm2.absent habs hold
    obtain ⟨h,hh,hfind,hnone,hreach⟩ := find_free hready.valid.pow habs hready.room
    have hbind : t2.old.bind (fun o =>
        (lookup L o.slots o.capacity k).map (fun i => (o,i))) = none := by
      cases ho : t2.old with
      | none => rfl
      | some o =>
        simp [lookup_absent (hready.valid.old o ho).split.oldPow (hold o ho)]
    refine ⟨{ t2 with slots := update t2.slots h fresh, count := t2.count + 1 },
      by simp [hfind,hnone,hbind],hready.insert_valid hh hnone hfresh habs hold hreach,?_,
      by simp [hmk,hcount],hcap⟩
    rw [hmk]
    exact represents_put hm2 hh (.inr hnone) hfresh (fun j hj hjk => absurd hjk (habs j hj)) hold

end Put

section Remove

theorem Valid.shiftRemove (hv : Valid L t) {i : Nat} (hi : i < t.capacity)
    (hk : L.key (t.slots i) = some k) :
    ShiftRemoved L.key (L.home t.capacity) t.capacity i t.slots
      (shiftRemove L.key L.vacate (L.home t.capacity) t.capacity t.slots i) := by
  have hhome : ∀ q, L.home t.capacity q < t.capacity := home_lt hv.pow
  have hsome : (L.key (t.slots i)).isSome := by rw [hk]; rfl
  refine shiftRemove_removes hv.pow hhome L.key_vacate hv.probed hi hsome ?_
  rcases hv.full with hroom | hsmall
  · obtain ⟨e,he,hn⟩ := exists_empty hroom
    exact ⟨e,he,avoided_empty hhome hv.probed he hn⟩
  · exact avoided_small hsmall hi

theorem Valid.remove_new (hv : Valid L t) {i : Nat} {slots : Nat → σ}
    (hr : ShiftRemoved L.key (L.home t.capacity) t.capacity i t.slots slots) :
    Valid L { t with slots := slots, count := t.count - 1 } := by
  refine (hv.tallied.take_new hr.occupied).valid hr.probed (fun ho => ?_) fun o ho => ?_
  · have hstill := hv.still ho
    simp only
    omega
  · have hsp := (hv.old o ho).split
    refine ⟨hsp.unique,fun a ha b hb q haq => ?_⟩
    obtain ⟨j,hj,_,hja⟩ := (hr.content (slots a) (by rw [haq]; simp)).mp ⟨a,ha,rfl⟩
    exact hsp.apart j hj b hb q (by rw [hja]; exact haq)

theorem represents_remove_new [DecidableEq κ] (hv : Valid L t) (hm : Represents L t m) {i n : Nat}
    (hi : i < t.capacity) (hk : L.key (t.slots i) = some k) {slots : Nat → σ}
    (hr : ShiftRemoved L.key (L.home t.capacity) t.capacity i t.slots slots) :
    Represents L { t with slots := slots, count := n } (update m k none) := by
  refine represents_new hm (by simp) (.inl hk) (hv.only_new hi hk) (hv.only_new_old hi hk) fun s hs => ?_
  simp only [reduceCtorEq,false_or]
  exact hr.content s hs

theorem Valid.remove_old (hv : Valid L t) {o : OldTable σ} {i : Nat} (ho : t.old = some o)
    (hi : i < o.capacity) (hk : L.key (o.slots i) = some k) :
    Valid L { t with
      old := some { o with slots := update o.slots i (L.vacate (o.slots i)) }
      count := t.count - 1 } := by
  have hsp := (hv.old o ho).split
  have hback {j : Nat} {q : κ}
      (hq : L.key (update o.slots i (L.vacate (o.slots i)) j) = some q) :
      L.key (o.slots j) = some q := by
    have hji : j ≠ i := by
      rintro rfl
      rw [update_self,L.key_vacate] at hq
      contradiction
    rw [update_of_ne hji] at hq
    exact hq
  refine (hv.tallied.take_old ho hi hk).valid hv.probed (fun h => by contradiction) fun o2 ho2 => ?_
  cases ho2
  exact ⟨fun a ha b hb q haq hbq => hsp.unique a ha b hb q (hback haq) (hback hbq),
    fun a ha b hb q haq hbq => hsp.apart a ha b hb q haq (hback hbq)⟩

theorem remove_spec [DecidableEq κ] (hv : Valid L t) (hm : Represents L t m)
    (hvis : ¬ Hidden L t k) :
    ∃ t', remove L t k = some (t',(m k).isSome) ∧ Valid L t' ∧
      Represents L t' (update m k none) ∧
      t'.count = (if m k = none then t.count else t.count - 1) ∧ t'.capacity = t.capacity := by
  obtain ⟨t1,hstep,hst⟩ := rehashStep_spec hv
  have hm1 := hm.stored hst.stored
  simp only [remove,hstep,bind_eq_bind,bind_some]
  cases hst.valid.place k with
  | new i hi hk hl =>
    have hmk := hm1.new hi hk
    have hr := hst.valid.shiftRemove hi hk
    exact ⟨_,by simp only [hl,hmk]; rfl,hst.valid.remove_new hr,
      represents_remove_new hst.valid hm1 hi hk hr,by simp [hmk,hst.count],hst.capacity⟩
  | old o i ho hi hk habs hl =>
    have hmk := hm1.old ho hi hk
    have hlook : lookup L o.slots o.capacity k = some i := by
      rcases hl with ⟨_,hl⟩ | ⟨hr,_⟩
      · exact hl
      · exact absurd (hst.hidden_iff.mpr ⟨o,ho,i,hi,hk,hr⟩) hvis
    have hrep := represents_change_old (n := t1.count - 1) hst.valid hm1 ho hi hk
      (.inr (L.key_vacate (o.slots i)))
    rw [if_pos (L.key_vacate _)] at hrep
    refine ⟨_,?_,hst.valid.remove_old ho hi hk,hrep,by simp [hmk,hst.count],hst.capacity⟩
    simp [lookup_absent hst.valid.pow habs,ho,hlook,hmk]
  | absent habs hold =>
    have hmk := hm1.absent habs hold
    have hbind : t1.old.bind (fun o =>
        (lookup L o.slots o.capacity k).map (fun i => (o,i))) = none := by
      cases ho : t1.old with
      | none => rfl
      | some o => simp [lookup_absent (hst.valid.old o ho).split.oldPow (hold o ho)]
    refine ⟨t1,by simp [lookup_absent hst.valid.pow habs,hbind,hmk],hst.valid,?_,
      by simp [hmk,hst.count],hst.capacity⟩
    rw [← hmk,update_eq_self]
    exact hm1

end Remove

end Rehash
