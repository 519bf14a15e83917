import Gravel.Proofs.PullSlots
import Gravel.Proofs.ServerFrames
import Gravel.Spec.PullWire

namespace Gravel.Proofs.PullCourse
open SendQueue ServerFrames PullSlots List Option

def chunkAt (lookup : UInt64 → PullRecord) (ids : List UInt64) (k : Nat) : List PullRecord :=
  ((ids.drop (pullChunkSize * k)).take pullChunkSize).map lookup

structure Position (ids : List UInt64) (k : Nat) (c : ClientConn) : Prop where
  featIds : c.async.featIds = ids
  offset : c.async.offset = min (pullChunkSize * k) ids.length

structure Submitted (lookup : UInt64 → PullRecord) (ids : List UInt64) (k : Nat) (c : ClientConn) :
    Prop extends Position ids k c where
  more : pullChunkSize * k < ids.length
  chunk : c.async.chunk = chunkAt lookup ids k

section Chunks

variable {lookup : UInt64 → PullRecord} {ids : List UInt64} {k : Nat} {c c' : ClientConn}
  {emit finalize : ClientConn → ClientConn} {order : List Nat} {polls polls' : List Poll}
  {busy : Bool}

theorem length_chunkAt (lookup : UInt64 → PullRecord) (ids : List UInt64) (k : Nat) :
    (chunkAt lookup ids k).length = min pullChunkSize (ids.length - pullChunkSize * k) := by
  rw [chunkAt,length_map,length_take,length_drop]

theorem Position.end_iff (h : Position ids k c) :
    c.async.featIds.length ≤ c.async.offset ↔ ids.length ≤ pullChunkSize * k := by
  rw [h.featIds,h.offset]
  omega

theorem Position.submit (h : Position ids k c) (hmore : pullChunkSize * k < ids.length) :
    Submitted lookup ids k (submitGet lookup c) := by
  refine ⟨⟨h.featIds,h.offset⟩,hmore,?_⟩
  change ((c.async.featIds.drop c.async.offset).take pullChunkSize).map lookup = _
  rw [h.featIds,h.offset,Nat.min_eq_left (Nat.le_of_lt hmore)]
  rfl

theorem finishGet_next (hemit : Emits emit) (h : Submitted lookup ids k c)
    (hget : finishGet emit order c = some c') : ∃ scratch,
    completeGet order (chunkAt lookup ids k) c.async.scratch = some scratch ∧
      Position ids (k + 1) c' ∧ ∃ offset, c' =
        { emit { c with async := { c.async with scratch := scratch } } with
          async := { (emit { c with async := { c.async with scratch := scratch } }).async with
            offset := offset } } := by
  obtain ⟨scratch,hcomplete,hc'⟩ := bind_eq_some_iff.mp hget
  cases hc'
  obtain ⟨_,hrequest⟩ := hemit.request { c with async := { c.async with scratch := scratch } }
  rw [h.chunk] at hcomplete
  refine ⟨scratch,hcomplete,⟨?_,?_⟩,_,rfl⟩
  · simp only [hrequest]
    exact h.featIds
  · have hmore := h.more
    simp only [hrequest]
    rw [h.offset,h.chunk,length_chunkAt,Nat.mul_add]
    omega

theorem finishGet_defined (hin : ∀ i, Inside (chunkAt lookup ids k) i)
    (h : Submitted lookup ids k c) : ∃ c', finishGet emit order c = some c' := by
  rw [finishGet,h.chunk,completeGet_eq hin]
  exact ⟨_,rfl⟩

/-- As long as every vector stays in the buffer, a pull meets no undefined behaviour. -/
theorem submitNextChunk_defined (hemit : Emits emit)
    (hin : ∀ k i, Inside (chunkAt lookup ids k) i) (polls : List Poll) : ∀ {k c},
    Position ids k c → ∃ r, submitNextChunk lookup emit finalize polls c = some r := by
  induction polls with
  | nil =>
    intro k c _
    rw [submitNextChunk]
    split_ifs
    · exact ⟨_,rfl⟩
    · exact ⟨_,rfl⟩
  | cons poll polls ih =>
    intro k c hpos
    by_cases hend : c.async.featIds.length ≤ c.async.offset
    · exact ⟨_,submitNextChunk_end hend _⟩
    rw [submitNextChunk,if_neg hend]
    cases poll with
    | again => exact ⟨_,rfl⟩
    | done order =>
      have hsub := @Position.submit lookup _ _ _ hpos (Nat.not_le.mp (mt hpos.end_iff.mpr hend))
      obtain ⟨c1,hget⟩ := @finishGet_defined _ _ _ _ emit order (hin k) hsub
      obtain ⟨_,_,hnext,_⟩ := finishGet_next hemit hsub hget
      obtain ⟨r,hr⟩ := ih hnext
      refine ⟨r,?_⟩
      change (finishGet emit order (submitGet lookup c)).bind _ = _
      rw [hget]
      exact hr

theorem submitNextChunk_ends (hemit : Emits emit) (polls : List Poll) : ∀ {k c busy c' polls'},
    Position ids k c → (∀ poll ∈ polls, poll ≠ .again) → ids.length ≤ k + polls.length →
    submitNextChunk lookup emit finalize polls c = some (busy,c',polls') → busy = false := by
  induction polls with
  | nil =>
    intro k c busy c' polls' hpos _ hlen h
    have hend : ids.length ≤ pullChunkSize * k := by
      rw [length_nil] at hlen
      rw [pullChunkSize]
      omega
    rw [submitNextChunk_end (hpos.end_iff.mpr hend)] at h
    cases h
    rfl
  | cons poll polls ih =>
    intro k c busy c' polls' hpos hdone hlen h
    by_cases hend : c.async.featIds.length ≤ c.async.offset
    · rw [submitNextChunk_end hend] at h
      cases h
      rfl
    rw [submitNextChunk,if_neg hend] at h
    cases poll with
    | again => exact absurd rfl (hdone .again mem_cons_self)
    | done order =>
      have hsub := @Position.submit lookup _ _ _ hpos (Nat.not_le.mp (mt hpos.end_iff.mpr hend))
      obtain ⟨c1,hget,hrun⟩ := bind_eq_some_iff.mp h
      obtain ⟨_,_,hnext,_⟩ := finishGet_next hemit hsub hget
      refine ih hnext (fun p hp => hdone p (mem_cons_of_mem _ hp)) ?_ hrun
      rw [length_cons] at hlen
      omega

end Chunks

structure SameResponse (c c' : ClientConn) : Prop where
  sendCur : c'.sendCur = c.sendCur
  output : output c' = output c
  firstFrame : c'.async.firstFrame = c.async.firstFrame

/-- How a response is made of the chunks: `built as c` says that those of `as` are in it, `before`
is what was sent earlier. -/
structure Course (ids : List UInt64) (emit finalize : ClientConn → ClientConn)
    (built : List (List PullRecord) → ClientConn → Prop)
    (response : List (List PullRecord) → List UInt8) (before : List UInt8) : Prop where
  emits : Emits emit
  finalizes : Finalizes finalize
  congr : ∀ {as c c'}, built as c → SameResponse c c' → built as c'
  add : ∀ {as c}, c.async.featIds = ids → built as c →
    built (as ++ [readSlots c.async.chunk c.async.scratch]) (emit c)
  finish : ∀ {as c}, built as c → output (finalize c) = before ++ response as

def Aligned (good : Nat → List PullRecord → Prop) (ids : List UInt64)
    (as : List (List PullRecord)) : Prop :=
  ∀ k a, as[k]? = some a → pullChunkSize * k < ids.length ∧ good k a

section Course

variable {lookup : UInt64 → PullRecord} {ids : List UInt64} {c c' : ClientConn}
  {emit finalize : ClientConn → ClientConn} {polls polls' : List Poll} {busy : Bool}
  {built : List (List PullRecord) → ClientConn → Prop}
  {response : List (List PullRecord) → List UInt8} {before : List UInt8}
  {good : Nat → List PullRecord → Prop} {as : List (List PullRecord)} {a : List PullRecord}

theorem aligned_nil : Aligned good ids [] := by
  intro k a h
  cases h

theorem Aligned.snoc (h : Aligned good ids as) (hmore : pullChunkSize * as.length < ids.length)
    (ha : good as.length a) : Aligned good ids (as ++ [a]) := by
  intro k b hb
  rcases Nat.lt_trichotomy k as.length with hk | rfl | hk
  · rw [getElem?_append_left hk] at hb
    exact h k b hb
  · rw [getElem?_concat_length,some_inj] at hb
    subst hb
    exact ⟨hmore,ha⟩
  · rw [getElem?_eq_none (by rw [length_append,length_singleton]; omega)] at hb
    cases hb

def CopiesWell (lookup : UInt64 → PullRecord) (ids : List UInt64)
    (good : Nat → List PullRecord → Prop) (polls : List Poll) : Prop :=
  ∀ order, .done order ∈ polls → ∀ k scratch scratch',
    completeGet order (chunkAt lookup ids k) scratch = some scratch' →
      good k (readSlots (chunkAt lookup ids k) scratch')

structure Outcome (lookup : UInt64 → PullRecord) (ids : List UInt64)
    (built : List (List PullRecord) → ClientConn → Prop)
    (response : List (List PullRecord) → List UInt8) (before : List UInt8)
    (good : Nat → List PullRecord → Prop) (busy : Bool) (c : ClientConn)
    (as : List (List PullRecord)) : Prop where
  aligned : Aligned good ids as
  waits : busy = true → Submitted lookup ids as.length c ∧ built as c
  ends : busy = false → ids.length ≤ pullChunkSize * as.length ∧ output c = before ++ response as

theorem Course.finishGet (hcourse : Course ids emit finalize built response before)
    {order : List Nat} (hgood : ∀ k scratch scratch',
      completeGet order (chunkAt lookup ids k) scratch = some scratch' →
        good k (readSlots (chunkAt lookup ids k) scratch'))
    (hal : Aligned good ids as) (hsub : Submitted lookup ids as.length c) (hbuilt : built as c)
    (h : finishGet emit order c = some c') :
    ∃ a, Aligned good ids (as ++ [a]) ∧ Position ids (as ++ [a]).length c' ∧ built (as ++ [a]) c' := by
  obtain ⟨scratch,hcomplete,hpos,offset,rfl⟩ := finishGet_next hcourse.emits hsub h
  have hpart : good as.length (readSlots c.async.chunk scratch) := by
    rw [hsub.chunk]
    exact hgood _ _ _ hcomplete
  refine ⟨_,hal.snoc hsub.more hpart,?_,?_⟩
  · rw [length_append,length_singleton]
    exact hpos
  · have hadd := @Course.add _ _ _ _ _ _ hcourse as
      { c with async := { c.async with scratch := scratch } } hsub.featIds
      (hcourse.congr hbuilt ⟨rfl,rfl,rfl⟩)
    exact hcourse.congr hadd ⟨rfl,rfl,rfl⟩

theorem Course.submitNextChunk (hcourse : Course ids emit finalize built response before)
    (polls : List Poll) : ∀ {as c busy c' polls'}, CopiesWell lookup ids good polls →
    Aligned good ids as → Position ids as.length c → built as c →
    Gravel.submitNextChunk lookup emit finalize polls c = some (busy,c',polls') →
    ∃ as', Outcome lookup ids built response before good busy c' as' := by
  have hended : ∀ {as c busy c' polls' polls}, Aligned good ids as → Position ids as.length c →
      built as c → c.async.featIds.length ≤ c.async.offset →
      Gravel.submitNextChunk lookup emit finalize polls c = some (busy,c',polls') →
      ∃ as', Outcome lookup ids built response before good busy c' as' := by
    intro as c busy c' polls' polls hal hpos hbuilt hend h
    rw [submitNextChunk_end hend] at h
    cases h
    exact ⟨as,hal,fun hb => (by cases hb),fun _ => ⟨hpos.end_iff.mp hend,hcourse.finish hbuilt⟩⟩
  induction polls with
  | nil =>
    intro as c busy c' polls' _ hal hpos hbuilt h
    by_cases hend : c.async.featIds.length ≤ c.async.offset
    · exact hended hal hpos hbuilt hend h
    have hmore := Nat.not_le.mp (mt hpos.end_iff.mpr hend)
    rw [Gravel.submitNextChunk,if_neg hend] at h
    cases h
    exact ⟨as,hal,fun _ => ⟨hpos.submit hmore,hcourse.congr hbuilt ⟨rfl,rfl,rfl⟩⟩,
      fun hb => by cases hb⟩
  | cons poll polls ih =>
    intro as c busy c' polls' hcopies hal hpos hbuilt h
    by_cases hend : c.async.featIds.length ≤ c.async.offset
    · exact hended hal hpos hbuilt hend h
    have hsub := @Position.submit lookup _ _ _ hpos (Nat.not_le.mp (mt hpos.end_iff.mpr hend))
    have hbuilt' : built as (submitGet lookup c) := hcourse.congr hbuilt ⟨rfl,rfl,rfl⟩
    rw [Gravel.submitNextChunk,if_neg hend] at h
    cases poll with
    | again =>
      cases h
      exact ⟨as,hal,fun _ => ⟨hsub,hbuilt'⟩,fun hb => by cases hb⟩
    | done order =>
      obtain ⟨c1,hget,hrun⟩ := bind_eq_some_iff.mp h
      obtain ⟨a,hal1,hpos1,hbuilt1⟩ :=
        hcourse.finishGet (hcopies order mem_cons_self) hal hsub hbuilt' hget
      exact ih (fun o ho => hcopies o (mem_cons_of_mem _ ho)) hal1 hpos1 hbuilt1 hrun

theorem Course.resumeGet (hcourse : Course ids emit finalize built response before)
    (hcopies : CopiesWell lookup ids good polls) (hal : Aligned good ids as)
    (hsub : Submitted lookup ids as.length c) (hbuilt : built as c)
    (h : Gravel.resumeGet lookup emit finalize polls c = some (busy,c',polls')) :
    ∃ as', Outcome lookup ids built response before good busy c' as' := by
  have hsame : ∃ as', Outcome lookup ids built response before good true c as' :=
    ⟨as,hal,fun _ => ⟨hsub,hbuilt⟩,fun hb => by cases hb⟩
  unfold Gravel.resumeGet at h
  cases polls with
  | nil =>
    cases h
    exact hsame
  | cons poll polls =>
    cases poll with
    | again =>
      cases h
      exact hsame
    | done order =>
      simp only at h
      split_ifs at h
      obtain ⟨c1,hget,hrun⟩ := bind_eq_some_iff.mp h
      obtain ⟨a,hal1,hpos1,hbuilt1⟩ :=
        hcourse.finishGet (hcopies order mem_cons_self) hal hsub hbuilt hget
      exact hcourse.submitNextChunk polls (fun o ho => hcopies o (mem_cons_of_mem _ ho))
        hal1 hpos1 hbuilt1 hrun

theorem resumeGet_defined (hemit : Emits emit) (hin : ∀ k i, Inside (chunkAt lookup ids k) i)
    {k : Nat} (hsub : Submitted lookup ids k c) (harena : c.async.arena = c.resets.length)
    (polls : List Poll) : ∃ r, Gravel.resumeGet lookup emit finalize polls c = some r := by
  cases polls with
  | nil => exact ⟨_,rfl⟩
  | cons poll polls =>
    cases poll with
    | again => exact ⟨_,rfl⟩
    | done order =>
      obtain ⟨c1,hget⟩ := @finishGet_defined _ _ _ _ emit order (hin k) hsub
      obtain ⟨_,_,hnext,_⟩ := finishGet_next hemit hsub hget
      obtain ⟨r,hr⟩ := @submitNextChunk_defined _ _ _ finalize hemit hin polls _ _ hnext
      refine ⟨r,?_⟩
      rw [Gravel.resumeGet,if_neg (not_not.mpr harena)]
      change (Gravel.finishGet emit order c).bind _ = _
      rw [hget]
      exact hr

theorem resumeGet_ends (hemit : Emits emit) {k : Nat} (hsub : Submitted lookup ids k c)
    (hdone : ∀ poll ∈ polls, poll ≠ .again) (hlen : ids.length ≤ polls.length)
    (h : Gravel.resumeGet lookup emit finalize polls c = some (busy,c',polls')) : busy = false := by
  cases polls with
  | nil =>
    have hmore := hsub.more
    rw [length_nil] at hlen
    omega
  | cons poll polls =>
    cases poll with
    | again => exact absurd rfl (hdone .again mem_cons_self)
    | done order =>
      rw [Gravel.resumeGet] at h
      split_ifs at h
      obtain ⟨c1,hget,hrun⟩ := bind_eq_some_iff.mp h
      obtain ⟨_,_,hnext,_⟩ := finishGet_next hemit hsub hget
      refine submitNextChunk_ends hemit polls hnext
        (fun p hp => hdone p (mem_cons_of_mem _ hp)) ?_ hrun
      rw [length_cons] at hlen
      omega

end Course

end Gravel.Proofs.PullCourse
