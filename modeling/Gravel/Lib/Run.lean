import Mathlib.Data.Option.Basic

namespace Run

variable {σ ο : Type} (step : σ → ο → Option σ)

/-- The operations one after the other, as long as each of them returns. -/
def run (s : σ) : List ο → Option σ
  | [] => some s
  | op :: ops => do
    let s ← step s op
    run s ops

def Along (P : σ → ο → σ → Prop) (s : σ) : List ο → Prop
  | [] => True
  | op :: ops =>
    match step s op with
    | some s' => P s op s' ∧ Along P s' ops
    | none => True

instance decidableAlong (P : σ → ο → σ → Prop) [∀ s op s', Decidable (P s op s')] :
    ∀ s ops, Decidable (Along step P s ops)
  | _, [] => isTrue trivial
  | s, op :: ops =>
    match h : step s op with
    | some s' =>
      have := decidableAlong P s' ops
      decidable_of_iff (P s op s' ∧ Along step P s' ops) (by simp [Along,h])
    | none => isTrue (by simp [Along,h])

/-- Every operation finds a state in which `P` lets it go on. -/
def Ready (P : σ → ο → Prop) (s : σ) : List ο → Prop
  | [] => True
  | op :: ops => P s op ∧ ∀ s' ∈ step s op, Ready P s' ops

instance decidableReady (P : σ → ο → Prop) [∀ s op, Decidable (P s op)] :
    ∀ s ops, Decidable (Ready step P s ops)
  | _, [] => isTrue trivial
  | s, op :: ops =>
    have : DecidablePred (fun s' => Ready step P s' ops) := fun s' => decidableReady P s' ops
    inferInstanceAs (Decidable (P s op ∧ ∀ s' ∈ step s op, Ready step P s' ops))

/-- `P` holds before every operation and after the last one. -/
def Always (P : σ → Prop) (s : σ) : List ο → Prop
  | [] => P s
  | op :: ops => P s ∧ ∀ s' ∈ step s op, Always P s' ops

instance decidableAlways (P : σ → Prop) [DecidablePred P] : ∀ s ops, Decidable (Always step P s ops)
  | s, [] => inferInstanceAs (Decidable (P s))
  | s, op :: ops =>
    have : DecidablePred (fun s' => Always step P s' ops) := fun s' => decidableAlways P s' ops
    inferInstanceAs (Decidable (P s ∧ ∀ s' ∈ step s op, Always step P s' ops))

variable {step}

/-- Operations that all go on are a run of the other side. -/
theorem run_simulates {τ : Type} {P : σ → ο → Prop} {R : σ → τ → Prop} {next : τ → ο → τ}
    (hstep : ∀ s t op, R s t → P s op → ∃ s', step s op = some s' ∧ R s' (next t op))
    (ops : List ο) : ∀ s t, R s t → Ready step P s ops →
      ∃ s', run step s ops = some s' ∧ R s' (ops.foldl next t) := by
  induction ops with
  | nil => exact fun s t h _ => ⟨s,rfl,h⟩
  | cons op ops ih =>
    intro s t h hready
    obtain ⟨s1,hs1,h1⟩ := hstep s t op h hready.1
    obtain ⟨s',hrun,h'⟩ := ih s1 _ h1 (hready.2 s1 hs1)
    exact ⟨s',by simp [run,hs1,hrun],h'⟩

theorem run_invariant {P : σ → ο → σ → Prop} {Inv : σ → Prop}
    (hstep : ∀ s op s', Inv s → P s op s' → step s op = some s' → Inv s') (ops : List ο) :
    ∀ s s', Inv s → Along step P s ops → run step s ops = some s' → Inv s' := by
  induction ops with
  | nil =>
    intro s s' hinv _ hrun
    cases hrun
    exact hinv
  | cons op ops ih =>
    intro s s' hinv halong hrun
    obtain ⟨s1,hs1,hrun⟩ := Option.bind_eq_some_iff.mp hrun
    simp only [Along,hs1] at halong
    exact ih s1 s' (hstep s op s1 hinv halong.1 hs1) halong.2 hrun

theorem run_keeps {Inv : σ → Prop} (hstep : ∀ s op s', Inv s → step s op = some s' → Inv s')
    (ops : List ο) : ∀ s s', Inv s → run step s ops = some s' → Inv s' := by
  induction ops with
  | nil =>
    intro s s' hinv hrun
    cases hrun
    exact hinv
  | cons op ops ih =>
    intro s s' hinv hrun
    obtain ⟨s1,hs1,hrun⟩ := Option.bind_eq_some_iff.mp hrun
    exact ih s1 s' (hstep s op s1 hinv hs1) hrun

/-- A step that finds one condition and the invariant finds another condition. -/
theorem ready_mono {P Q : σ → ο → Prop} {Inv : σ → Prop}
    (hstep : ∀ s op, Inv s → P s op → Q s op ∧ ∀ s' ∈ step s op, Inv s') (ops : List ο) :
    ∀ s, Inv s → Ready step P s ops → Ready step Q s ops := by
  induction ops with
  | nil => exact fun _ _ _ => trivial
  | cons op ops ih =>
    intro s hinv hready
    obtain ⟨hq,hnext⟩ := hstep s op hinv hready.1
    exact ⟨hq,fun s' hs' => ih s' (hnext s' hs') (hready.2 s' hs')⟩

/-- Steps after which `P` holds just if they find `Q`, as long as the invariant does. -/
theorem always_iff_ready {next : σ → ο → σ} {Inv P : σ → Prop} {Q : σ → ο → Prop}
    (hstep : ∀ s op, Inv s → P s → Inv (next s op) ∧ (P (next s op) ↔ Q s op)) (ops : List ο) :
    ∀ s, Inv s → P s → (Always (fun s op => some (next s op)) P s ops ↔
      Ready (fun s op => some (next s op)) Q s ops) := by
  induction ops with
  | nil => exact fun s _ hp => iff_of_true hp trivial
  | cons op ops ih =>
    intro s hinv hp
    obtain ⟨hinv',hiff⟩ := hstep s op hinv hp
    constructor
    · rintro ⟨_,hrest⟩
      have hrest := hrest _ rfl
      have hp' : P (next s op) := by
        cases ops with
        | nil => exact hrest
        | cons _ _ => exact hrest.1
      refine ⟨hiff.mp hp',?_⟩
      rintro _ ⟨⟩
      exact (ih _ hinv' hp').mp hrest
    · rintro ⟨hq,hrest⟩
      refine ⟨hp,?_⟩
      rintro _ ⟨⟩
      exact (ih _ hinv' (hiff.mpr hq)).mpr (hrest _ rfl)

section Replies

variable {α τ : Type} (act : σ → ο → Option (σ × α)) (spec : τ → ο → τ × α)

/-- Operations that answer, taken as steps of the state alone. -/
def quiet (s : σ) (op : ο) : Option σ := (act s op).map Prod.fst

/-- The operations one after the other, with their answers. -/
def replies (s : σ) : List ο → Option (σ × List α)
  | [] => some (s,[])
  | op :: ops => do
    let (s,a) ← act s op
    let (s,as) ← replies s ops
    return (s,a :: as)

def specReplies (t : τ) : List ο → τ × List α
  | [] => (t,[])
  | op :: ops =>
    let (t,a) := spec t op
    let (t,as) := specReplies t ops
    (t,a :: as)

variable {R : σ → τ → Prop} {Legal : ο → Prop} {C : σ → Prop} {V : σ → ο → Prop}

theorem mem_quiet {act : σ → ο → Option (σ × α)} {s s' : σ} {op : ο} {a : α} (h : act s op = some (s',a)) :
    s' ∈ quiet act s op := by simp [quiet,h]

/-- Operations that answer as the other side does, one by one, answer as it does all along. -/
theorem replies_simulate
    (hstep : ∀ s t op, R s t → Legal op → C s → V s op →
      ∃ s', act s op = some (s',(spec t op).2) ∧ R s' (spec t op).1) (ops : List ο) :
    ∀ s t, R s t → (∀ op ∈ ops, Legal op) → Always (quiet act) C s ops →
      Ready (quiet act) V s ops →
      ∃ s', replies act s ops = some (s',(specReplies spec t ops).2) ∧
        R s' (specReplies spec t ops).1 := by
  induction ops with
  | nil => exact fun s t h _ _ _ => ⟨s,rfl,h⟩
  | cons op ops ih =>
    intro s t h hlegal halways hready
    obtain ⟨s1,hs1,h1⟩ := hstep s t op h (hlegal op List.mem_cons_self) halways.1 hready.1
    obtain ⟨s',hrun,h'⟩ := ih s1 _ h1 (fun x hx => hlegal x (List.mem_cons_of_mem _ hx))
      (halways.2 s1 (mem_quiet hs1)) (hready.2 s1 (mem_quiet hs1))
    exact ⟨s',by simp [replies,hs1,hrun,specReplies],h'⟩

end Replies

section Along

variable {P Q : σ → ο → σ → Prop} {Inv : σ → Prop} {Legal : ο → Prop}

/-- A description of the transitions that keeps the invariant, and wherever that holds implies
another one, implies it along every run. -/
theorem along_mono
    (hstep : ∀ s op s', Inv s → Legal op → step s op = some s' → P s op s' → Q s op s' ∧ Inv s')
    (ops : List ο) :
    ∀ s, Inv s → (∀ op ∈ ops, Legal op) → Along step P s ops → Along step Q s ops := by
  induction ops with
  | nil =>
    intro s _ _ _
    trivial
  | cons op ops ih =>
    intro s hinv hlegal
    cases hs : step s op with
    | none => simp only [Along,hs,imp_self]
    | some s' =>
      simp only [Along,hs]
      rintro ⟨hp,halong⟩
      obtain ⟨hq,hinv'⟩ := hstep s op s' hinv (hlegal op List.mem_cons_self) hs hp
      exact ⟨hq,ih s' hinv' (fun x hx => hlegal x (List.mem_cons_of_mem _ hx)) halong⟩

/-- Two descriptions of the transitions that agree wherever the invariant holds, and of which the
second keeps it, agree along every run. -/
theorem along_iff (hstep : ∀ s op s', Inv s → Legal op → step s op = some s' →
      (P s op s' ↔ Q s op s') ∧ (Q s op s' → Inv s')) (ops : List ο) :
    ∀ s, Inv s → (∀ op ∈ ops, Legal op) → (Along step P s ops ↔ Along step Q s ops) := by
  intro s hinv hlegal
  constructor
  · refine along_mono (fun s op s' hinv hlegal hs hp => ?_) ops s hinv hlegal
    obtain ⟨hiff,hkeep⟩ := hstep s op s' hinv hlegal hs
    exact ⟨hiff.mp hp,hkeep (hiff.mp hp)⟩
  · refine along_mono (fun s op s' hinv hlegal hs hq => ?_) ops s hinv hlegal
    obtain ⟨hiff,hkeep⟩ := hstep s op s' hinv hlegal hs
    exact ⟨hiff.mpr hq,hkeep hq⟩

end Along

end Run
