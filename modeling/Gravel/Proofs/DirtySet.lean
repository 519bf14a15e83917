import Gravel.Model.DirtyTracker

namespace Gravel.Proofs.DirtySet
open BinarySearch List Function

def NodeWf : Nat → DirtyNode → Prop
  | 0, _ => True
  | depth + 1, n => ∀ c < 64, (n.children c).isNull = false →
      n.bits.testBit c = true ∧ NodeWf depth (n.children c)

def nodeHas : Nat → DirtyNode → Nat → Prop
  | 0, n, offset => n.bits.testBit (offset % 64) = true
  | depth + 1, n, offset =>
    (n.children (offset / 64 ^ (depth + 1) % 64)).isNull = false ∧
      nodeHas depth (n.children (offset / 64 ^ (depth + 1) % 64)) offset

section Nodes

variable {n : DirtyNode} {depth offset o p maxPages base : Nat}

theorem shift_eq (depth : Nat) : 2 ^ ((depth + 1) * 6) = 64 ^ (depth + 1) := by
  rw [Nat.mul_comm,Nat.pow_mul]

theorem nodeHas_create : ¬ nodeHas depth nodeCreate o := by
  cases depth <;> simp [nodeHas,nodeCreate,DirtyNode.bits,DirtyNode.children,DirtyNode.isNull]

theorem nodeWf_create : NodeWf depth nodeCreate := by
  cases depth <;> simp [NodeWf,nodeCreate,DirtyNode.children,DirtyNode.isNull]

theorem nodeMark_isNull : (nodeMark offset depth n).isNull = false := by
  cases depth <;> rfl

theorem testBit_or_two_pow {b i j : Nat} :
    (b ||| 2 ^ i).testBit j = (b.testBit j || decide (i = j)) := by
  rw [Nat.testBit_or,Nat.testBit_two_pow]

theorem digits_iff (depth o offset : Nat) :
    o % 64 ^ (depth + 2) = offset % 64 ^ (depth + 2) ↔
      o / 64 ^ (depth + 1) % 64 = offset / 64 ^ (depth + 1) % 64 ∧
        o % 64 ^ (depth + 1) = offset % 64 ^ (depth + 1) := by
  have hpow : 64 ^ (depth + 2) = 64 ^ (depth + 1) * 64 := Nat.pow_succ 64 (depth + 1)
  rw [hpow,Nat.mod_mul,Nat.mod_mul]
  have hpos : 0 < 64 ^ (depth + 1) := Nat.pow_pos (by decide)
  generalize hP : 64 ^ (depth + 1) = P at *
  constructor
  · intro h
    have hmod := congrArg (· % P) h
    simp only [Nat.add_mul_mod_self_left,Nat.mod_mod] at hmod
    refine ⟨?_,hmod⟩
    rw [hmod] at h
    exact Nat.eq_of_mul_eq_mul_left hpos (Nat.add_left_cancel h)
  · rintro ⟨hd,hm⟩
    rw [hd,hm]

theorem nodeHas_mod : ∀ (depth : Nat) (n : DirtyNode) {o o' : Nat},
    o % 64 ^ (depth + 1) = o' % 64 ^ (depth + 1) → (nodeHas depth n o ↔ nodeHas depth n o') := by
  intro depth
  induction depth with
  | zero =>
    intro n o o' h
    rw [Nat.zero_add,Nat.pow_one] at h
    simp only [nodeHas,h]
  | succ depth ih =>
    intro n o o' h
    obtain ⟨hd,hm⟩ := (digits_iff depth o o').mp h
    simp only [nodeHas,hd]
    exact and_congr_right (fun _ => ih _ hm)

theorem nodeMark_spec (offset : Nat) : ∀ {depth : Nat} {n : DirtyNode}, NodeWf depth n →
    NodeWf depth (nodeMark offset depth n) ∧
      ∀ o, nodeHas depth (nodeMark offset depth n) o ↔
        nodeHas depth n o ∨ o % 64 ^ (depth + 1) = offset % 64 ^ (depth + 1) := by
  intro depth
  induction depth with
  | zero =>
    intro n _
    refine ⟨trivial,?_⟩
    intro o
    simp only [nodeHas,nodeMark,DirtyNode.bits_node,testBit_or_two_pow,Bool.or_eq_true,
      decide_eq_true_eq,Nat.zero_add,Nat.pow_one]
    rw [eq_comm (a := offset % 64)]
  | succ depth ih =>
    intro n hwf
    simp only [nodeMark,shift_eq]
    generalize hc : offset / 64 ^ (depth + 1) % 64 = c
    have hc64 : c < 64 := by rw [← hc]; exact Nat.mod_lt _ (by decide)
    -- The child that is marked, created if it did not exist.
    obtain ⟨child,hchild⟩ : ∃ child, child =
      if (n.children c).isNull then nodeCreate else n.children c := ⟨_,rfl⟩
    have hcwf : NodeWf depth child := by
      rw [hchild]
      split_ifs with hnull
      · exact nodeWf_create
      · exact (hwf c hc64 (by simpa using hnull)).2
    have hchas : ∀ o, nodeHas depth child o ↔
        (n.children c).isNull = false ∧ nodeHas depth (n.children c) o := by
      intro o
      rw [hchild]
      split_ifs with hnull
      · simp [hnull,nodeHas_create]
      · simp [Bool.eq_false_iff.mpr hnull]
    obtain ⟨hmwf,hmhas⟩ := ih hcwf
    rw [← hchild]
    refine ⟨?_,?_⟩
    · intro d hd hnull
      simp only [DirtyNode.bits_node,DirtyNode.children_node] at hnull ⊢
      by_cases hdc : d = c
      · subst hdc
        rw [update_self]
        refine ⟨?_,hmwf⟩
        split_ifs with hn
        · simp
        · exact (hwf d hd (by simpa using hn)).1
      · rw [update_of_ne hdc] at hnull ⊢
        obtain ⟨hbit,hdwf⟩ := hwf d hd hnull
        refine ⟨?_,hdwf⟩
        split_ifs
        · simp [hbit]
        · exact hbit
    · intro o
      rw [digits_iff,hc]
      simp only [nodeHas,DirtyNode.children_node]
      by_cases hoc : o / 64 ^ (depth + 1) % 64 = c
      · rw [hoc,update_self,nodeMark_isNull,hmhas o,hchas o]
        simp
      · rw [update_of_ne hoc]
        simp [hoc]

theorem mem_nodePages : ∀ {depth base : Nat} {n : DirtyNode}, NodeWf depth n →
    (p ∈ nodePages maxPages depth base n ↔
      p < maxPages ∧ ∃ o < 64 ^ (depth + 1), p = base + o ∧ nodeHas depth n o) := by
  intro depth
  induction depth with
  | zero =>
    intro base n _
    simp only [nodePages,mem_filter,List.mem_map,mem_range,decide_eq_true_eq,nodeHas,
      Nat.zero_add,Nat.pow_one]
    constructor
    · rintro ⟨⟨o,⟨ho,hbit⟩,rfl⟩,hp⟩
      exact ⟨hp,o,ho,rfl,by rw [Nat.mod_eq_of_lt ho]; exact hbit⟩
    · rintro ⟨hp,o,ho,rfl,hbit⟩
      rw [Nat.mod_eq_of_lt ho] at hbit
      exact ⟨⟨o,⟨ho,hbit⟩,rfl⟩,hp⟩
  | succ depth ih =>
    intro base n hwf
    have hpos : 0 < 64 ^ (depth + 1) := Nat.pow_pos (by decide)
    have hpow : 64 ^ (depth + 2) = 64 * 64 ^ (depth + 1) := by rw [Nat.pow_succ,Nat.mul_comm]
    simp only [nodePages,mem_flatMap,mem_filter,mem_range,shift_eq]
    constructor
    · rintro ⟨c,⟨hc,_⟩,hp⟩
      split_ifs at hp with hnull
      · simp at hp
      · have hnull : (n.children c).isNull = false := Bool.eq_false_iff.mpr hnull
        obtain ⟨hlt,o,ho,rfl,hhas⟩ := (ih (hwf c hc hnull).2).mp hp
        have hdig : (c * 64 ^ (depth + 1) + o) / 64 ^ (depth + 1) % 64 = c := by
          rw [Nat.add_comm,Nat.add_mul_div_right _ _ hpos,Nat.div_eq_of_lt ho,Nat.zero_add,
            Nat.mod_eq_of_lt hc]
        refine ⟨hlt,c * 64 ^ (depth + 1) + o,?_,by omega,?_⟩
        · rw [hpow]
          have := Nat.mul_le_mul_right (64 ^ (depth + 1)) (Nat.succ_le_of_lt hc)
          rw [Nat.succ_mul] at this
          omega
        · simp only [nodeHas,hdig]
          exact ⟨hnull,(nodeHas_mod depth _ (by simp)).mpr hhas⟩
    · rintro ⟨hlt,o,ho,rfl,hnull,hhas⟩
      have hc : o / 64 ^ (depth + 1) < 64 := Nat.div_lt_of_lt_mul (by rw [← Nat.mul_comm 64,← hpow]; exact ho)
      rw [Nat.mod_eq_of_lt hc] at hnull hhas
      refine ⟨o / 64 ^ (depth + 1),⟨hc,(hwf _ hc hnull).1⟩,?_⟩
      rw [if_neg (by simp [hnull])]
      refine (ih (hwf _ hc hnull).2).mpr ⟨hlt,o % 64 ^ (depth + 1),Nat.mod_lt _ hpos,?_,?_⟩
      · have := Nat.div_add_mod' o (64 ^ (depth + 1))
        omega
      · exact (nodeHas_mod depth _ (by simp)).mpr hhas

theorem nodePages_ascending : ∀ {depth base : Nat} {n : DirtyNode}, NodeWf depth n →
    (nodePages maxPages depth base n).Pairwise (· < ·) := by
  intro depth
  induction depth with
  | zero =>
    intro base n _
    refine List.Pairwise.filter _ (pairwise_map.mpr ?_)
    exact (pairwise_lt_range.filter _).imp (fun h => Nat.add_lt_add_left h base)
  | succ depth ih =>
    intro base n hwf
    refine pairwise_flatMap.mpr ⟨?_,(pairwise_lt_range.filter _).imp_of_mem ?_⟩
    · intro c hc
      have hlt := mem_range.mp (mem_filter.mp hc).1
      split_ifs with hnull
      · exact .nil
      · exact ih (hwf c hlt (Bool.eq_false_iff.mpr hnull)).2
    · intro c d hc hd hcd x hx y hy
      have hc := mem_range.mp (mem_filter.mp hc).1
      have hd := mem_range.mp (mem_filter.mp hd).1
      split_ifs at hx with hnc
      · cases hx
      split_ifs at hy with hnd
      · cases hy
      · obtain ⟨_,o,ho,rfl,_⟩ := (mem_nodePages (hwf c hc (Bool.eq_false_iff.mpr hnc)).2).mp hx
        obtain ⟨_,o',_,rfl,_⟩ := (mem_nodePages (hwf d hd (Bool.eq_false_iff.mpr hnd)).2).mp hy
        have := Nat.mul_le_mul_right (2 ^ ((depth + 1) * 6)) (Nat.succ_le_of_lt hcd)
        rw [← shift_eq] at ho
        rw [Nat.succ_mul] at this
        omega

end Nodes

/-- A tree of the dirty tracker: sorted segments, each a well-formed radix tree over
`segmentSpan` pages, in an array whose 16-bit capacity has not wrapped. -/
structure TreeInv (t : DirtyTree) : Prop where
  span : t.segmentSpan = 64 ^ (t.depth + 1)
  levels : computeDepth 32 t.segmentSpan = t.depth
  sorted : (t.segments.map DirtySegment.segmentId).Pairwise (· < ·)
  roots : ∀ s ∈ t.segments, NodeWf t.depth s.root
  room : t.segments.length ≤ t.segmentCap
  cap : t.segmentCap = 0 ∨ ∃ k ≤ 13, t.segmentCap = 4 * 2 ^ k

def Marked (t : DirtyTree) (p : Nat) : Prop :=
  ∃ s ∈ t.segments, s.segmentId = p / t.segmentSpan ∧
    nodeHas t.depth s.root (p % t.segmentSpan)

/-- The segment of the page exists, or there is room for one more. -/
def HasRoom (t : DirtyTree) (p : Nat) : Prop :=
  (∃ s ∈ t.segments, s.segmentId = p / t.segmentSpan) ∨ t.segments.length < 32768

instance (t : DirtyTree) (p : Nat) : Decidable (HasRoom t p) :=
  inferInstanceAs (Decidable (_ ∨ _))

section Trees

variable {t : DirtyTree} {p q : Nat}

theorem TreeInv.span_pos (h : TreeInv t) : 0 < t.segmentSpan := by
  rw [h.span]
  exact Nat.pow_pos (by decide)

theorem segmentFind_cases (h : TreeInv t) (id : Nat) :
    (∃ i s, t.segments = t.segments.take i ++ s :: t.segments.drop (i + 1) ∧
      i < t.segments.length ∧ s.segmentId = id ∧ segmentFind t id = .inl i) ∨
    (∃ i, i ≤ t.segments.length ∧ (∀ s ∈ t.segments.take i, s.segmentId < id) ∧
      (∀ s ∈ t.segments.drop i, id < s.segmentId) ∧ segmentFind t id = .inr i) := by
  refine search_sorted _ h.sorted ?_ id
  intro i hi
  simp [segmentIdAt,hi]

theorem markSegment_spec {l1 l2 : List DirtySegment} {s : DirtySegment}
    (hspan : t.segmentSpan = 64 ^ (t.depth + 1)) (ht : t.segments = l1 ++ s :: l2)
    (hr : ∀ s ∈ t.segments, NodeWf t.depth s.root) (hid : s.segmentId = p / t.segmentSpan) :
    let t' := markSegment t (p % t.segmentSpan) l1.length
    (t'.segments.map DirtySegment.segmentId = t.segments.map DirtySegment.segmentId) ∧
      (∀ s ∈ t'.segments, NodeWf t.depth s.root) ∧ ∀ q, Marked t' q ↔ Marked t q ∨ q = p := by
  have hmod : (markSegment t (p % t.segmentSpan) l1.length).segments =
      l1 ++ ⟨s.segmentId,nodeMark (p % t.segmentSpan) t.depth s.root⟩ :: l2 := by
    rw [markSegment,modify_eq_take_cons_drop (by simp [ht])]
    simp [ht]
  have hpos : 0 < t.segmentSpan := by rw [hspan]; exact Nat.pow_pos (by decide)
  obtain ⟨hwf,hhas⟩ := nodeMark_spec (p % t.segmentSpan) (hr s (by simp [ht]))
  refine ⟨by simp [hmod,ht],?_,?_⟩
  · intro s' hs'
    rw [hmod] at hs'
    rcases mem_append.mp hs' with hm | hm
    · exact hr s' (by simp [ht,hm])
    · rcases mem_cons.mp hm with rfl | hm
      · exact hwf
      · exact hr s' (by simp [ht,hm])
  · intro q
    have hq := Nat.div_add_mod' q t.segmentSpan
    have hp := Nat.div_add_mod' p t.segmentSpan
    have hsame : q = p ↔ s.segmentId = q / t.segmentSpan ∧
        q % t.segmentSpan % 64 ^ (t.depth + 1) = p % t.segmentSpan % 64 ^ (t.depth + 1) := by
      rw [← hspan,Nat.mod_mod,Nat.mod_mod,hid]
      constructor
      · rintro rfl
        exact ⟨rfl,rfl⟩
      · rintro ⟨hd,hm⟩
        rw [← hq,← hp,hd,hm]
    simp only [Marked]
    rw [hmod,ht]
    simp only [markSegment,mem_append,mem_cons]
    constructor
    · rintro ⟨s',hs' | rfl | hs',hid',hhas'⟩
      · exact .inl ⟨s',.inl hs',hid',hhas'⟩
      · rcases (hhas _).mp hhas' with hold | hnew
        · exact .inl ⟨s,.inr (.inl rfl),hid',hold⟩
        · exact .inr (hsame.mpr ⟨hid',hnew⟩)
      · exact .inl ⟨s',.inr (.inr hs'),hid',hhas'⟩
    · rintro (⟨s',hs' | rfl | hs',hid',hhas'⟩ | heq)
      · exact ⟨s',.inl hs',hid',hhas'⟩
      · exact ⟨_,.inr (.inl rfl),hid',(hhas _).mpr (.inl hhas')⟩
      · exact ⟨s',.inr (.inr hs'),hid',hhas'⟩
      · obtain ⟨hid',hm⟩ := hsame.mp heq
        exact ⟨_,.inr (.inl rfl),hid',(hhas _).mpr (.inr hm)⟩

theorem segmentGrow_spec (h : TreeInv t) (hroom : t.segments.length < 32768) :
    ∃ cap, segmentGrow t = some cap ∧ t.segments.length < cap ∧
      ∃ k ≤ 13, cap = 4 * 2 ^ k := by
  have hle := h.room
  unfold segmentGrow
  rcases h.cap with hz | ⟨k,hk,hcap⟩
  · refine ⟨4,by simp [hz],by omega,0,by omega,rfl⟩
  · by_cases hfull : t.segmentCap ≤ t.segments.length
    · have hlt : k < 13 := by
        rcases Nat.lt_or_eq_of_le hk with hlt | rfl
        · exact hlt
        · omega
      have hpow : 2 ^ (k + 1) ≤ 2 ^ 13 := Nat.pow_le_pow_right (by decide) hlt
      rw [Nat.pow_succ] at hpow
      have hmod : t.segmentCap * 2 % 2 ^ 16 = 4 * 2 ^ (k + 1) := by
        rw [hcap,Nat.pow_succ,Nat.mod_eq_of_lt (by omega)]
        omega
      have hpos : 0 < 2 ^ k := Nat.pow_pos (by decide)
      refine ⟨4 * 2 ^ (k + 1),?_,by rw [Nat.pow_succ]; omega,k + 1,hlt,rfl⟩
      have hz : t.segmentCap ≠ 0 := by omega
      have hnz : 4 * 2 ^ (k + 1) ≠ 0 := by omega
      simp only [if_pos hfull,if_neg hz,hmod,if_neg hnz]
    · exact ⟨t.segmentCap,by rw [if_neg hfull],by omega,k,hk,hcap⟩

theorem segmentGrow_none (h : TreeInv t) (hroom : ¬ t.segments.length < 32768) :
    segmentGrow t = none := by
  have hle := h.room
  rcases h.cap with hz | ⟨k,hk,hcap⟩
  · omega
  · have hpow : 2 ^ k ≤ 2 ^ 13 := Nat.pow_le_pow_right (by decide) hk
    have hcap' : t.segmentCap = 32768 := by omega
    rw [segmentGrow,if_pos (by omega),hcap']
    decide

theorem treeMark_spec (h : TreeInv t) (hroom : HasRoom t p) :
    ∃ t', treeMark t p = some t' ∧ TreeInv t' ∧ t'.segmentSpan = t.segmentSpan ∧
      ∀ q, Marked t' q ↔ Marked t q ∨ q = p := by
  rcases segmentFind_cases h (p / t.segmentSpan) with
    ⟨i,s,hsplit,hi,hid,hfind⟩ | ⟨i,hi,hbelow,habove,hfind⟩
  · have hlen : (t.segments.take i).length = i := by simp; omega
    have hspec := markSegment_spec h.span hsplit h.roots hid
    rw [hlen] at hspec
    obtain ⟨hids,hroots,hmarked⟩ := hspec
    refine ⟨markSegment t (p % t.segmentSpan) i,by simp [treeMark,hfind],
      ⟨h.span,h.levels,by rw [hids]; exact h.sorted,hroots,?_,h.cap⟩,rfl,hmarked⟩
    have := congrArg List.length hids
    simp only [length_map] at this
    rw [this]
    exact h.room
  · -- No segment of this id is present, so there has to be room for one.
    have habsent : ¬ ∃ s ∈ t.segments, s.segmentId = p / t.segmentSpan := by
      rintro ⟨s,hs,hid⟩
      rw [← take_append_drop i t.segments,mem_append] at hs
      rcases hs with hs | hs
      · have := hbelow s hs
        omega
      · have := habove s hs
        omega
    obtain ⟨cap,hgrow,hlt,hcap⟩ := segmentGrow_spec h (hroom.resolve_left habsent)
    obtain ⟨t1,ht1⟩ : ∃ t1 : DirtyTree, t1 = { t with
      segments := t.segments.insertIdx i ⟨p / t.segmentSpan,nodeCreate⟩
      segmentCap := cap } := ⟨_,rfl⟩
    have hseg : t1.segments = t.segments.take i ++
        ⟨p / t.segmentSpan,nodeCreate⟩ :: t.segments.drop i := by
      rw [ht1]
      exact insertIdx_eq t.segments _ hi
    have hspan : t1.segmentSpan = t.segmentSpan := by rw [ht1]
    have hdepth : t1.depth = t.depth := by rw [ht1]
    have hsorted : (t1.segments.map DirtySegment.segmentId).Pairwise (· < ·) := by
      rw [hseg]
      exact sorted_insert (by rw [take_append_drop]; exact h.sorted) hbelow habove
    have hroots : ∀ s ∈ t1.segments, NodeWf t1.depth s.root := by
      intro s hs
      rw [hdepth]
      rw [ht1] at hs
      rcases (mem_insertIdx hi).mp hs with rfl | hs
      · exact nodeWf_create
      · exact h.roots s hs
    have hlen : (t.segments.take i).length = i := by simp; omega
    have hspec := markSegment_spec (p := p) (by rw [hspan,hdepth]; exact h.span) hseg
      hroots (by rw [hspan])
    rw [hlen,hspan] at hspec
    obtain ⟨hids,hroots',hmarked⟩ := hspec
    refine ⟨markSegment t1 (p % t.segmentSpan) i,?_,
      ⟨by simp only [markSegment]; rw [hspan,hdepth]; exact h.span,
        by simp only [markSegment]; rw [hspan,hdepth]; exact h.levels,
        by rw [hids]; exact hsorted,hroots',?_,?_⟩,hspan,?_⟩
    · simp [treeMark,hfind,hgrow,ht1]
    · have := congrArg List.length hids
      simp only [length_map] at this
      rw [this,hseg,← insertIdx_eq _ _ hi,length_insertIdx_of_le_length hi,markSegment,ht1]
      exact hlt
    · right
      simp only [markSegment,ht1]
      exact hcap
    · intro q
      rw [hmarked q]
      apply or_congr_left
      simp only [Marked,hspan,hdepth]
      constructor
      · rintro ⟨s,hs,hid,hhas⟩
        rw [ht1] at hs
        rcases (mem_insertIdx hi).mp hs with rfl | hs
        · exact absurd hhas nodeHas_create
        · exact ⟨s,hs,hid,hhas⟩
      · rintro ⟨s,hs,hid,hhas⟩
        exact ⟨s,by rw [ht1]; exact (mem_insertIdx hi).mpr (.inr hs),hid,hhas⟩

theorem treeMark_none (h : TreeInv t) (hroom : ¬ HasRoom t p) : treeMark t p = none := by
  rcases segmentFind_cases h (p / t.segmentSpan) with
    ⟨i,s,hsplit,hi,hid,hfind⟩ | ⟨i,hi,hbelow,habove,hfind⟩
  · exact absurd (.inl ⟨s,by rw [hsplit]; simp,hid⟩) hroom
  · simp [treeMark,hfind,segmentGrow_none h (fun hlt => hroom (.inr hlt))]

theorem treeInit_inv {span k : Nat} (hs : span = 64 ^ (k + 1)) (hk : computeDepth 32 span = k) :
    TreeInv (treeInit span) := by
  have hpos : span ≠ 0 := by
    rw [hs]
    exact Nat.ne_of_gt (Nat.pow_pos (by decide))
  have ht : treeInit span =
      { segments := [], segmentCap := 0, segmentSpan := span, depth := k } := by
    simp [treeInit,hpos,hk]
  rw [ht]
  exact ⟨hs,hk,.nil,by simp,Nat.le_refl 0,.inl rfl⟩

theorem not_marked_treeInit (span : Nat) : ¬ Marked (treeInit span) p := by
  simp [Marked,treeInit]

theorem mem_scan (h : TreeInv t) (maxPages : Nat) :
    p ∈ t.segments.flatMap (fun s =>
      nodePages maxPages t.depth (s.segmentId * t.segmentSpan) s.root) ↔
      p < maxPages ∧ Marked t p := by
  have hpos := h.span_pos
  simp only [mem_flatMap,Marked]
  constructor
  · rintro ⟨s,hs,hm⟩
    obtain ⟨hlt,o,ho,rfl,hhas⟩ := (mem_nodePages (h.roots s hs)).mp hm
    rw [← h.span] at ho
    refine ⟨hlt,s,hs,?_,?_⟩
    · rw [Nat.add_comm,Nat.add_mul_div_right _ _ hpos,Nat.div_eq_of_lt ho,Nat.zero_add]
    · rw [Nat.add_comm,Nat.add_mul_mod_self_right,Nat.mod_eq_of_lt ho]
      exact hhas
  · rintro ⟨hlt,s,hs,hid,hhas⟩
    refine ⟨s,hs,(mem_nodePages (h.roots s hs)).mpr ⟨hlt,p % t.segmentSpan,?_,?_,hhas⟩⟩
    · rw [← h.span]
      exact Nat.mod_lt _ hpos
    · rw [hid,Nat.div_add_mod']

theorem treePages_ascending (h : TreeInv t) (maxPages maxOut : Nat) :
    (treePages t maxPages maxOut).Pairwise (· < ·) := by
  refine List.Pairwise.sublist (take_sublist _ _) (pairwise_flatMap.mpr ⟨?_,?_⟩)
  · intro s hs
    exact nodePages_ascending (h.roots s hs)
  · refine (pairwise_map.mp h.sorted).imp_of_mem ?_
    intro s s' hs hs' hlt x hx y hy
    obtain ⟨_,o,ho,rfl,_⟩ := (mem_nodePages (h.roots s hs)).mp hx
    obtain ⟨_,o',_,rfl,_⟩ := (mem_nodePages (h.roots s' hs')).mp hy
    have := Nat.mul_le_mul_right t.segmentSpan (Nat.succ_le_of_lt hlt)
    rw [← h.span] at ho
    rw [Nat.succ_mul] at this
    omega

theorem mem_treePages (h : TreeInv t) {maxPages maxOut : Nat} (hp : p ∈ treePages t maxPages maxOut) :
    p < maxPages ∧ Marked t p := (mem_scan h maxPages).mp (mem_of_mem_take hp)

theorem mem_treePages_of_le (h : TreeInv t) {maxPages maxOut : Nat}
    (hq : q ∈ treePages t maxPages maxOut) (hle : p ≤ q) (hm : Marked t p) :
    p ∈ treePages t maxPages maxOut := by
  have hlt := (mem_treePages h hq).1
  have hall := (mem_scan h maxPages).mpr ⟨Nat.lt_of_le_of_lt hle hlt,hm⟩
  rw [treePages] at hq ⊢
  obtain ⟨l,hl⟩ : ∃ l, l = t.segments.flatMap (fun s =>
    nodePages maxPages t.depth (s.segmentId * t.segmentSpan) s.root) := ⟨_,rfl⟩
  have hasc := treePages_ascending h maxPages l.length
  rw [treePages,← hl,take_length] at hasc
  rw [← hl] at hq hall ⊢
  rw [← take_append_drop maxOut l] at hall hasc
  rcases mem_append.mp hall with hm | hm
  · exact hm
  · have := (pairwise_append.mp hasc).2.2 q hq p hm
    omega

end Trees

structure TrackerInv (dt : DirtyTracker) : Prop where
  active : TreeInv dt.active
  ckpt : TreeInv dt.ckpt

section Tracker

variable {dt : DirtyTracker} {p n : Nat}

theorem treeInit_span (estimate : Nat) : TreeInv (treeInit (spanFromEstimate estimate)) := by
  unfold spanFromEstimate
  split_ifs
  · exact treeInit_inv (k := 2) (by decide) (by decide)
  · exact treeInit_inv (k := 1) (by decide) (by decide)
  · exact treeInit_inv (k := 2) (by decide) (by decide)
  · exact treeInit_inv (k := 3) (by decide) (by decide)

theorem TrackerInv.init (estimate : Nat) : TrackerInv (dirtyTrackerInit estimate) :=
  ⟨treeInit_span estimate,treeInit_span estimate⟩

theorem TrackerInv.resize (h : TrackerInv dt) : TrackerInv (dirtyTrackerResize dt n) := by
  unfold dirtyTrackerResize
  split_ifs
  · exact h
  · exact ⟨h.active,h.ckpt⟩

theorem TrackerInv.swap (h : TrackerInv dt) : TrackerInv (dirtyTrackerSwap dt) :=
  ⟨treeInit_inv h.active.span h.active.levels,h.active⟩

theorem TrackerInv.mark (h : TrackerInv dt) (hroom : HasRoom dt.active p) :
    ∃ active, dirtyTrackerMark dt p = some { dt with active := active } ∧
      TrackerInv { dt with active := active } ∧
      ∀ q, Marked active q ↔ Marked dt.active q ∨ q = p := by
  obtain ⟨active,hm,hinv,_,hmarked⟩ := treeMark_spec h.active hroom
  exact ⟨active,by simp [dirtyTrackerMark,hm],⟨hinv,h.ckpt⟩,hmarked⟩

theorem TrackerInv.mark_none (h : TrackerInv dt) (hroom : ¬ HasRoom dt.active p) :
    dirtyTrackerMark dt p = none := by
  simp [dirtyTrackerMark,treeMark_none h.active hroom]

end Tracker

end Gravel.Proofs.DirtySet
