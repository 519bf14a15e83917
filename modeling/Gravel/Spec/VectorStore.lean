import Gravel.Model.Session

namespace Gravel.Spec
open List Option Function

/-- What a store is for: it has a vector, with its dim, for some of the feature ids. `dims` are
the dims that are known. -/
structure VectorStore where
  dims : List Nat
  vectors : UInt64 → Option (Nat × (Nat → UInt8))

namespace VectorStore

/-- A put is accepted if it has a vector and an id, and the id is not stored with another dim. -/
def accepts (st : VectorStore) (item : PutItem) : Bool :=
  item.emb.isSome && item.featId ≠ 0 && (st.vectors item.featId).all (fun v => v.1 = item.dim)

def putOne (st : VectorStore) (item : PutItem) : VectorStore :=
  if st.accepts item then
    { st with
      vectors := update st.vectors item.featId
        (item.emb.map (fun emb => (item.dim,emb))) }
  else st

theorem accepts_emb {st : VectorStore} {item : PutItem} (h : st.accepts item = true) :
    ∃ emb, item.emb = some emb := by
  simp only [accepts,Bool.and_eq_true] at h
  exact isSome_iff_exists.mp h.1.1

theorem putOne_accepted {st : VectorStore} {item : PutItem} {emb : Nat → UInt8}
    (h : st.accepts item = true) (hemb : item.emb = some emb) :
    st.putOne item =
      { st with vectors := update st.vectors item.featId (some (item.dim,emb)) } := by
  rw [putOne,if_pos h,hemb]
  rfl

theorem putOne_refused {st : VectorStore} {item : PutItem} (h : st.accepts item = false) :
    st.putOne item = st := by
  rw [putOne,if_neg (by simp [h])]

theorem putOne_dims (st : VectorStore) (item : PutItem) : (st.putOne item).dims = st.dims := by
  unfold putOne
  split_ifs <;> rfl

theorem foldl_dims {step : VectorStore → PutItem → VectorStore}
    (h : ∀ st item, (step st item).dims = st.dims) (items : List PutItem) :
    ∀ st, (items.foldl step st).dims = st.dims := by
  induction items with
  | nil => exact fun _ => rfl
  | cons item rest ih => exact fun st => (ih _).trans (h st item)

theorem accepts_putOne {st : VectorStore} {item item' : PutItem} (hdim : item'.dim = item.dim) :
    (st.putOne item).accepts item' = st.accepts item' := by
  unfold putOne
  split_ifs with haccept
  · obtain ⟨emb,hemb⟩ := accepts_emb haccept
    unfold accepts at haccept ⊢
    by_cases hf : item'.featId = item.featId
    · simp only [Bool.and_eq_true,decide_eq_true_eq] at haccept
      simp only [hf,update_self,hdim,hemb,map_some,haccept.2]
      simp
    · simp only [update_of_ne hf]
  · rfl

/-- An id stays without a vector if it had none and no item for it was accepted. -/
theorem putOne_absent {st : VectorStore} {item : PutItem} {f : UInt64}
    (h : (st.putOne item).vectors f = none) :
    st.vectors f = none ∧ (st.accepts item = true → item.featId ≠ f) := by
  unfold putOne at h
  split_ifs at h with haccept
  · obtain ⟨emb,hemb⟩ := accepts_emb haccept
    have hne : f ≠ item.featId := by
      rintro rfl
      simp [hemb] at h
    simp only [update_of_ne hne] at h
    exact ⟨h,fun _ => hne.symm⟩
  · exact ⟨h,fun hyes => absurd hyes haccept⟩

theorem foldl_absent {items : List PutItem} {f : UInt64} {dim : Nat} : ∀ {st : VectorStore},
    (∀ item ∈ items, item.dim = dim) → (items.foldl putOne st).vectors f = none →
      st.vectors f = none ∧ ∀ item ∈ items, st.accepts item = true → item.featId ≠ f := by
  induction items with
  | nil => exact fun _ h => ⟨h,by simp⟩
  | cons item rest ih =>
    intro st hdims h
    have hrest : ∀ x ∈ rest, x.dim = dim := fun x hx => hdims x (mem_cons_of_mem _ hx)
    obtain ⟨hnone,hothers⟩ := ih hrest h
    obtain ⟨hnone',hself⟩ := putOne_absent hnone
    refine ⟨hnone',fun x hx hyes => ?_⟩
    rcases mem_cons.mp hx with rfl | hx
    · exact hself hyes
    · refine hothers x hx ?_
      rw [accepts_putOne ((hrest x hx).trans (hdims item mem_cons_self).symm)]
      exact hyes

theorem foldl_other {items : List PutItem} {f : UInt64} : ∀ {st : VectorStore},
    f ∉ items.map PutItem.featId → (items.foldl putOne st).vectors f = st.vectors f := by
  induction items with
  | nil => exact fun _ => rfl
  | cons item rest ih =>
    intro st h
    rw [map_cons,mem_cons,not_or] at h
    obtain ⟨hne,hrest⟩ := h
    rw [foldl_cons,ih hrest,putOne]
    split_ifs
    · exact update_of_ne hne _ _
    · rfl

def rejects (st : VectorStore) (item : PutItem) : Bool :=
  item.emb.isSome && item.featId ≠ 0 && !st.accepts item

end VectorStore

end Gravel.Spec
