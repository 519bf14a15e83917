import Mathlib.Data.List.Nodup

/-! Rebuilding a table of owners from a list of slots. Each slot belongs to a region and holds a
key or nothing. An empty slot is freed; a key that a slot of another region owns already frees
both slots; a key that a slot of the same region owns already moves to the new slot. -/

namespace ConflictScan
open List Function

variable {κ ρ : Type}

abbrev Word (κ ρ : Type) := (ρ × Nat) × Option κ

structure State (κ ρ : Type) where
  owner : κ → Option (ρ × Nat)
  freed : List (ρ × Nat)

def empty : State κ ρ := ⟨fun _ => none,[]⟩

section Decidable

variable [DecidableEq κ] [DecidableEq ρ]

def contest (st : State κ ρ) (v : ρ × Nat) (k : κ) : Option (ρ × Nat) → State κ ρ
  | none => { st with owner := update st.owner k (some v) }
  | some u =>
    if u.1 = v.1 then { st with owner := update st.owner k (some v) }
    else ⟨update st.owner k none,v :: u :: st.freed⟩

def scan (st : State κ ρ) (w : Word κ ρ) : State κ ρ :=
  match w.2 with
  | none => { st with freed := w.1 :: st.freed }
  | some k => contest st w.1 k (st.owner k)

def occurrences (words : List (Word κ ρ)) (k : κ) : List (ρ × Nat) :=
  (words.filter (fun w => w.2 = some k)).map Prod.fst

/-- From an owner `o` on, no key moves within a region: the occurrences cancel in pairs of
different regions. -/
def Cancels (o : Option (ρ × Nat)) : List (ρ × Nat) → Prop
  | [] => True
  | v :: rest => (∀ u ∈ o, u.1 ≠ v.1) ∧ Cancels (if o = none then some v else none) rest

instance decidableCancels : ∀ (o : Option (ρ × Nat)) l, Decidable (Cancels o l)
  | _, [] => isTrue trivial
  | o, v :: rest =>
    have := decidableCancels (if o = none then some v else none) rest
    inferInstanceAs (Decidable ((∀ u ∈ o, u.1 ≠ v.1) ∧ _))

end Decidable

def Contested (words : List (Word κ ρ)) (v : ρ × Nat) (k : κ) : Prop :=
  ∃ u, (u,some k) ∈ words ∧ u.1 ≠ v.1

structure Tidy (done : List (Word κ ρ)) (st : State κ ρ) : Prop where
  nodup : st.freed.Nodup
  owned : ∀ k v, st.owner k = some v → (v,some k) ∈ done ∧ v ∉ st.freed
  freed : ∀ v ∈ st.freed, (v,none) ∈ done ∨ ∃ k, (v,some k) ∈ done ∧ Contested done v k

def Kept (words : List (Word κ ρ)) (st : State κ ρ) (w : Word κ ρ) : Prop :=
  match w.2 with
  | none => w.1 ∈ st.freed
  | some k => st.owner k = some w.1 ∨ (w.1 ∈ st.freed ∧ Contested words w.1 k)

def Lost (st : State κ ρ) (v : ρ × Nat) : Prop := v ∉ st.freed ∧ ∀ k, st.owner k ≠ some v

section Step

variable {done : List (Word κ ρ)} {st : State κ ρ} {w : Word κ ρ} {v u : ρ × Nat} {k : κ}
  {x : Option κ}

theorem Contested.cons (h : Contested done v k) : Contested (w :: done) v k := by
  obtain ⟨u,hu,hne⟩ := h
  exact ⟨u,mem_cons_of_mem _ hu,hne⟩

theorem Tidy.freed_cons (h : Tidy done st) (hv : v ∈ st.freed) :
    (v,none) ∈ w :: done ∨ ∃ k, (v,some k) ∈ w :: done ∧ Contested (w :: done) v k := by
  rcases h.freed v hv with hmem | ⟨k,hmem,hc⟩
  · exact .inl (mem_cons_of_mem _ hmem)
  · exact .inr ⟨k,mem_cons_of_mem _ hmem,hc.cons⟩

theorem Tidy.mem_done (h : Tidy done st) (hv : v ∈ st.freed) : ∃ x, (v,x) ∈ done := by
  rcases h.freed v hv with hmem | ⟨k,hmem,_⟩
  · exact ⟨_,hmem⟩
  · exact ⟨_,hmem⟩

theorem slot_word (hnd : (done.map Prod.fst).Nodup) {y : Option κ} (hx : (v,x) ∈ done)
    (hy : (v,y) ∈ done) : x = y := by
  have := inj_on_of_nodup_map hnd hx hy rfl
  exact congrArg Prod.snd this

theorem Tidy.not_freed (h : Tidy done st) (hnew : v ∉ done.map Prod.fst) : v ∉ st.freed := by
  intro hv
  obtain ⟨x,hx⟩ := h.mem_done hv
  exact hnew (List.mem_map.mpr ⟨_,hx,rfl⟩)

theorem Tidy.not_owned (h : Tidy done st) (hnew : v ∉ done.map Prod.fst) : st.owner k ≠ some v :=
  fun hk => hnew (List.mem_map.mpr ⟨_,(h.owned k v hk).1,rfl⟩)

variable [DecidableEq κ]

theorem Tidy.move (h : Tidy done st) (hnew : v ∉ done.map Prod.fst) :
    Tidy ((v,some k) :: done) { st with owner := update st.owner k (some v) } := by
  refine ⟨h.nodup,?_,fun u hu => h.freed_cons hu⟩
  intro g u hu
  by_cases hg : g = k
  · subst hg
    simp only [update_self,Option.some.injEq] at hu
    subst hu
    exact ⟨mem_cons_self,h.not_freed hnew⟩
  · simp only [update_of_ne hg] at hu
    obtain ⟨hmem,hfree⟩ := h.owned g u hu
    exact ⟨mem_cons_of_mem _ hmem,hfree⟩

theorem Tidy.clash (h : Tidy done st) (hnd : (done.map Prod.fst).Nodup)
    (hnew : v ∉ done.map Prod.fst) (hu : st.owner k = some u) (hne : u.1 ≠ v.1) :
    Tidy ((v,some k) :: done) ⟨update st.owner k none,v :: u :: st.freed⟩ := by
  obtain ⟨humem,hufree⟩ := h.owned k u hu
  have huv : u ≠ v := fun he => hne (congrArg Prod.fst he)
  refine ⟨?_,?_,?_⟩
  · refine nodup_cons.mpr ⟨?_,nodup_cons.mpr ⟨hufree,h.nodup⟩⟩
    intro hmem
    rcases mem_cons.mp hmem with he | hmem
    · exact huv he.symm
    · exact h.not_freed hnew hmem
  · intro g x hx
    have hg : g ≠ k := by
      rintro rfl
      simp only [update_self,reduceCtorEq] at hx
    simp only [update_of_ne hg] at hx
    obtain ⟨hmem,hfree⟩ := h.owned g x hx
    refine ⟨mem_cons_of_mem _ hmem,?_⟩
    intro hin
    rcases mem_cons.mp hin with rfl | hin
    · exact hnew (List.mem_map.mpr ⟨_,hmem,rfl⟩)
    · rcases mem_cons.mp hin with rfl | hin
      · exact hg (Option.some.inj (slot_word hnd hmem humem))
      · exact hfree hin
  · intro x hx
    rcases mem_cons.mp hx with rfl | hx
    · exact .inr ⟨k,mem_cons_self,u,mem_cons_of_mem _ humem,hne⟩
    · rcases mem_cons.mp hx with rfl | hx
      · exact .inr ⟨k,mem_cons_of_mem _ humem,v,mem_cons_self,Ne.symm hne⟩
      · exact h.freed_cons hx

variable [DecidableEq ρ]

theorem Tidy.scan (h : Tidy done st) (hnd : (done.map Prod.fst).Nodup)
    (hnew : w.1 ∉ done.map Prod.fst) : Tidy (w :: done) (scan st w) := by
  obtain ⟨v,x⟩ := w
  cases x with
  | none =>
    refine ⟨nodup_cons.mpr ⟨h.not_freed hnew,h.nodup⟩,?_,?_⟩
    · intro k u hu
      obtain ⟨hmem,hfree⟩ := h.owned k u hu
      refine ⟨mem_cons_of_mem _ hmem,?_⟩
      intro hin
      rcases mem_cons.mp hin with rfl | hin
      · exact h.not_owned hnew hu
      · exact hfree hin
    · intro u hu
      rcases mem_cons.mp hu with rfl | hu
      · exact .inl mem_cons_self
      · exact h.freed_cons hu
  | some k =>
    cases ho : st.owner k with
    | none => simpa only [ConflictScan.scan,ho,contest] using h.move hnew
    | some u =>
      by_cases hr : u.1 = v.1
      · simpa only [ConflictScan.scan,ho,contest,if_pos hr] using h.move hnew
      · simpa only [ConflictScan.scan,ho,contest,if_neg hr] using h.clash hnd hnew ho hr

omit [DecidableEq ρ] in
theorem update_avoids {f : κ → Option (ρ × Nat)} {x : Option (ρ × Nat)} (hx : x ≠ some v)
    (hf : ∀ g, g ≠ k → f g ≠ some v) (g : κ) : update f k x g ≠ some v := by
  by_cases hg : g = k
  · subst hg
    rw [update_self]
    exact hx
  · rw [update_of_ne hg]
    exact hf g hg

theorem Lost.scan (h : Lost st v) (hne : w.1 ≠ v) : Lost (scan st w) v := by
  obtain ⟨w,x⟩ := w
  obtain ⟨hfree,hown⟩ := h
  have hmove : ∀ k, Lost { st with owner := update st.owner k (some w) } v := fun k =>
    ⟨hfree,update_avoids (fun he => hne (Option.some.inj he)) (fun g _ => hown g)⟩
  cases x with
  | none =>
    refine ⟨fun hin => ?_,hown⟩
    rcases mem_cons.mp hin with rfl | hin
    · exact hne rfl
    · exact hfree hin
  | some k =>
    cases ho : st.owner k with
    | none => simpa only [ConflictScan.scan,ho,contest] using hmove k
    | some u =>
      by_cases hr : u.1 = w.1
      · simpa only [ConflictScan.scan,ho,contest,if_pos hr] using hmove k
      · simp only [ConflictScan.scan,ho,contest,if_neg hr]
        refine ⟨fun hin => ?_,update_avoids (by simp) (fun g _ => hown g)⟩
        rcases mem_cons.mp hin with rfl | hin
        · exact hne rfl
        · rcases mem_cons.mp hin with rfl | hin
          · exact hown k ho
          · exact hfree hin

theorem Tidy.moved_lost (h : Tidy done st) (hnd : (done.map Prod.fst).Nodup)
    (hnew : v ∉ done.map Prod.fst) (hu : st.owner k = some u) (hr : u.1 = v.1) :
    Lost (ConflictScan.scan st (v,some k)) u := by
  simp only [ConflictScan.scan,hu,contest,if_pos hr]
  obtain ⟨humem,hufree⟩ := h.owned k u hu
  refine ⟨hufree,update_avoids ?_ ?_⟩
  · intro he
    cases he
    exact hnew (List.mem_map.mpr ⟨_,humem,rfl⟩)
  · intro g hg hgu
    exact hg (Option.some.inj (slot_word hnd (h.owned g u hgu).1 humem))

theorem scan_owner (hcl : ∀ u ∈ st.owner k, u.1 ≠ v.1) (g : κ) :
    (scan st (v,some k)).owner g =
      if g = k then (if st.owner k = none then some v else none) else st.owner g := by
  by_cases hg : g = k
  · subst hg
    rw [if_pos rfl]
    cases ho : st.owner g with
    | none => simp only [scan,ho,contest,update_self,if_true]
    | some u =>
      have hr : u.1 ≠ v.1 := hcl u (by rw [ho]; rfl)
      simp only [scan,ho,contest,if_neg hr,update_self,reduceCtorEq,if_false]
  · rw [if_neg hg]
    cases ho : st.owner k with
    | none => simp only [scan,ho,contest,update_of_ne hg]
    | some u =>
      have hr : u.1 ≠ v.1 := hcl u (by rw [ho]; rfl)
      simp only [scan,ho,contest,if_neg hr,update_of_ne hg]

omit [DecidableEq ρ] in
theorem occurrences_cons_self (rest : List (Word κ ρ)) :
    occurrences ((v,some k) :: rest) k = v :: occurrences rest k := by
  simp [occurrences]

omit [DecidableEq ρ] in
theorem occurrences_cons_of_ne (rest : List (Word κ ρ)) (hx : x ≠ some k) :
    occurrences ((v,x) :: rest) k = occurrences rest k := by
  simp [occurrences,hx]

end Step

section Runs

variable [DecidableEq κ] [DecidableEq ρ] {done words : List (Word κ ρ)} {st : State κ ρ}
  {v : ρ × Nat} {w : Word κ ρ}

theorem Lost.foldl (l : List (Word κ ρ)) : ∀ st : State κ ρ, Lost st v →
    v ∉ l.map Prod.fst → Lost (l.foldl ConflictScan.scan st) v := by
  induction l with
  | nil =>
    intro st h _
    exact h
  | cons w rest ih =>
    intro st h hv
    rw [map_cons] at hv
    obtain ⟨hne,hrest⟩ := not_or.mp (fun hc => hv (mem_cons.mpr hc))
    exact ih (ConflictScan.scan st w) (h.scan (Ne.symm hne)) hrest

theorem scan_freed (st : State κ ρ) (w : Word κ ρ) : st.freed ⊆ (scan st w).freed := by
  intro v hv
  obtain ⟨w,x⟩ := w
  cases x with
  | none => exact mem_cons_of_mem _ hv
  | some k =>
    cases ho : st.owner k with
    | none => simpa only [scan,ho,contest] using hv
    | some u =>
      by_cases hr : u.1 = w.1
      · simpa only [scan,ho,contest,if_pos hr] using hv
      · simp only [scan,ho,contest,if_neg hr]
        exact mem_cons_of_mem _ (mem_cons_of_mem _ hv)

def Clear (st : State κ ρ) (w : Word κ ρ) : Prop := ∀ k ∈ w.2, ∀ u ∈ st.owner k, u.1 ≠ w.1.1

theorem Kept.scan {w' : Word κ ρ} (h : Kept done st w) (hcl : Clear st w') :
    Kept (w' :: done) (ConflictScan.scan st w') w := by
  obtain ⟨v,x⟩ := w
  cases x with
  | none => exact scan_freed st w' h
  | some k =>
    rcases h with hown | ⟨hfree,hc⟩
    · obtain ⟨v',x'⟩ := w'
      cases x' with
      | none => exact .inl hown
      | some g =>
        have hcl' : ∀ u ∈ st.owner g, u.1 ≠ v'.1 := hcl g rfl
        by_cases hg : k = g
        · subst hg
          have hne : v.1 ≠ v'.1 := hcl' v (by rw [hown]; rfl)
          refine .inr ⟨?_,v',mem_cons_self,Ne.symm hne⟩
          simp [ConflictScan.scan,hown,contest,hne]
        · refine .inl ?_
          rw [scan_owner hcl',if_neg hg]
          exact hown
    · exact .inr ⟨scan_freed st w' hfree,hc.cons⟩

theorem Kept.self (ht : Tidy done st) (hcl : Clear st w) :
    Kept (w :: done) (ConflictScan.scan st w) w := by
  obtain ⟨v,x⟩ := w
  cases x with
  | none => exact mem_cons_self
  | some k =>
    have hcl' : ∀ u ∈ st.owner k, u.1 ≠ v.1 := hcl k rfl
    cases ho : st.owner k with
    | none =>
      refine .inl ?_
      rw [scan_owner hcl',if_pos rfl,if_pos ho]
    | some u =>
      have hne : u.1 ≠ v.1 := hcl' u (by rw [ho]; rfl)
      refine .inr ⟨?_,u,mem_cons_of_mem _ (ht.owned k u ho).1,hne⟩
      simp [ConflictScan.scan,ho,contest,hne]

omit [DecidableEq κ] [DecidableEq ρ] in
theorem Lost.not_kept (h : Lost st w.1) : ¬ Kept words st w := by
  intro hk
  obtain ⟨v,x⟩ := w
  cases x with
  | none => exact h.1 hk
  | some k =>
    rcases hk with hown | ⟨hfree,_⟩
    · exact h.2 k hown
    · exact h.1 hfree

omit [DecidableEq κ] [DecidableEq ρ] in
theorem Tidy.lost_of_new (ht : Tidy done st) (hnew : v ∉ done.map Prod.fst) : Lost st v :=
  ⟨ht.not_freed hnew,fun _ => ht.not_owned hnew⟩

theorem cancels_cons (rest : List (Word κ ρ)) (hcl : Clear st w) :
    (∀ k, Cancels (st.owner k) (occurrences (w :: rest) k)) ↔
      ∀ k, Cancels ((scan st w).owner k) (occurrences rest k) := by
  obtain ⟨v,x⟩ := w
  refine forall_congr' fun k => ?_
  cases x with
  | none => rw [occurrences_cons_of_ne rest (by simp)]; rfl
  | some g =>
    have hcl' : ∀ u ∈ st.owner g, u.1 ≠ v.1 := hcl g rfl
    rw [scan_owner hcl']
    by_cases hk : k = g
    · subst hk
      rw [occurrences_cons_self,if_pos rfl]
      exact ⟨fun h => h.2,fun h => ⟨hcl',h⟩⟩
    · rw [occurrences_cons_of_ne rest (fun he => hk (Option.some.inj he).symm),if_neg hk]

omit [DecidableEq ρ] in
theorem not_cancels (rest : List (Word κ ρ)) (hcl : ¬ Clear st w) :
    ¬ ∀ k, Cancels (st.owner k) (occurrences (w :: rest) k) := by
  obtain ⟨v,x⟩ := w
  intro h
  refine hcl fun k hk => ?_
  obtain rfl : x = some k := hk
  have := h k
  rw [occurrences_cons_self] at this
  exact this.1

theorem foldl_kept (l : List (Word κ ρ)) : ∀ (done : List (Word κ ρ)) (st : State κ ρ),
    Tidy done st → ((l.reverse ++ done).map Prod.fst).Nodup → (∀ w ∈ done, Kept done st w) →
    ((∀ k, Cancels (st.owner k) (occurrences l k)) ∧
      ∀ w ∈ l.reverse ++ done, Kept (l.reverse ++ done) (l.foldl scan st) w) ∨
    ((¬ ∀ k, Cancels (st.owner k) (occurrences l k)) ∧
      ∃ w ∈ l.reverse ++ done, Lost (l.foldl scan st) w.1) := by
  induction l with
  | nil =>
    intro done st _ _ hkept
    exact .inl ⟨fun _ => trivial,hkept⟩
  | cons w rest ih =>
    intro done st ht hnd hkept
    have heq : (w :: rest).reverse ++ done = rest.reverse ++ w :: done := by simp
    rw [heq] at hnd ⊢
    have hcons : ((w :: done).map Prod.fst).Nodup := by
      rw [map_append] at hnd
      exact List.Nodup.of_append_right hnd
    obtain ⟨hnew,hdone⟩ := nodup_cons.mp hcons
    have ht' := ht.scan hdone hnew
    by_cases hcl : Clear st w
    · simp only [cancels_cons rest hcl,foldl_cons]
      refine ih (w :: done) (scan st w) ht' hnd ?_
      intro x hx
      rcases mem_cons.mp hx with rfl | hx
      · exact .self ht hcl
      · exact (hkept x hx).scan hcl
    · refine .inr ⟨not_cancels rest hcl,?_⟩
      obtain ⟨v,x⟩ := w
      simp only [Clear,not_forall,not_not] at hcl
      obtain ⟨k,hk,u,hu,hr⟩ := hcl
      obtain rfl : x = some k := hk
      have humem := (ht.owned k u hu).1
      have hlost := ht.moved_lost hdone hnew hu hr
      refine ⟨_,mem_append_right _ (mem_cons_of_mem _ humem),hlost.foldl rest _ ?_⟩
      intro hin
      rw [map_append,map_reverse] at hnd
      exact disjoint_of_nodup_append hnd (mem_reverse.mpr hin)
        (List.mem_map.mpr ⟨_,mem_cons_of_mem _ humem,rfl⟩)

omit [DecidableEq κ] [DecidableEq ρ] in
theorem Kept.congr {words' : List (Word κ ρ)} (hmem : ∀ w, w ∈ words ↔ w ∈ words')
    (h : Kept words st w) : Kept words' st w := by
  obtain ⟨v,x⟩ := w
  cases x with
  | none => exact h
  | some k =>
    rcases h with hown | ⟨hfree,u,hu,hne⟩
    · exact .inl hown
    · exact .inr ⟨hfree,u,(hmem _).mp hu,hne⟩

omit [DecidableEq κ] [DecidableEq ρ] in
theorem tidy_empty : Tidy [] (empty : State κ ρ) := by
  refine ⟨nodup_nil,fun k v hk => ?_,fun v hv => ?_⟩
  · cases hk
  · cases hv

/-- A scan keeps every slot exactly when the occurrences of each key cancel in pairs of different
regions. -/
theorem scanned_kept (hnd : (words.map Prod.fst).Nodup) :
    (∀ w ∈ words, Kept words (words.foldl scan empty) w) ↔
      ∀ k, Cancels none (occurrences words k) := by
  have hmem : ∀ w, w ∈ words.reverse ++ [] ↔ w ∈ words := by simp
  have hrun := foldl_kept words [] empty tidy_empty (by simpa [map_reverse] using hnd)
    (by simp)
  rcases hrun with ⟨hc,hkept⟩ | ⟨hc,w,hw,hlost⟩
  · exact ⟨fun _ => hc,fun _ w hw => (hkept w ((hmem w).mpr hw)).congr hmem⟩
  · exact ⟨fun hkept => absurd (hkept w ((hmem w).mp hw)) hlost.not_kept,fun h => absurd h hc⟩

end Runs

end ConflictScan
