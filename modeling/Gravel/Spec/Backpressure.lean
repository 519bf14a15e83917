import Gravel.Lib.Budget
import Gravel.Spec.VectorStore

namespace Gravel.Spec
open List Option Function

/-- The memory that puts of one dim have to share: each id that is not held costs `cost`. -/
structure Limit where
  budget : Nat
  cost : Nat
  used : Nat
  held : UInt64 → Bool

/-- A batch of puts on its way: the store so far, the ids that are known without a vector, and the
status. -/
structure Ledger where
  st : VectorStore
  refused : List UInt64
  rc : Status

namespace VectorStore

/-- An id without a vector is entered, an id with one is left alone. -/
def claimOne (st : VectorStore) (item : PutItem) : VectorStore :=
  if (st.vectors item.featId).isNone then st.putOne item else st

section Folds

variable {st : VectorStore} {item item' : PutItem} {items : List PutItem} {dim : Nat}

theorem claimOne_refused (h : st.accepts item = false) : st.claimOne item = st := by
  rw [claimOne,putOne_refused h,ite_self]

theorem claimOne_dims : (st.claimOne item).dims = st.dims := by
  unfold claimOne
  split_ifs
  · exact putOne_dims st item
  · rfl

theorem claimOne_absent {f : UInt64} (h : (st.claimOne item).vectors f = none) :
    st.vectors f = none := by
  unfold claimOne putOne at h
  split_ifs at h with hnone haccept
  · by_cases hf : f = item.featId
    · rw [hf]
      exact isNone_iff_eq_none.mp hnone
    · simpa only [update_of_ne hf] using h
  · exact h
  · exact h

theorem accepts_claimOne (hdim : item'.dim = item.dim) :
    (st.claimOne item).accepts item' = st.accepts item' := by
  unfold claimOne
  split_ifs
  · exact accepts_putOne hdim
  · rfl

theorem putOne_claimOne (hdim : item'.dim = item.dim) :
    (st.claimOne item').putOne item = (st.putOne item).claimOne item' := by
  have hsame := @accepts_claimOne st _ _ hdim.symm
  have hsame' := @accepts_putOne st _ _ hdim
  cases hyes : st.accepts item with
  | false => rw [putOne_refused (hsame.trans hyes),putOne_refused hyes]
  | true =>
    cases hyes' : st.accepts item' with
    | false => rw [claimOne_refused hyes',claimOne_refused (hsame'.trans hyes')]
    | true =>
      obtain ⟨emb,hemb⟩ := accepts_emb hyes
      obtain ⟨emb',hemb'⟩ := accepts_emb hyes'
      have hput := putOne_accepted hyes hemb
      rw [putOne_accepted (hsame.trans hyes) hemb,claimOne,claimOne,
        putOne_accepted hyes' hemb',putOne_accepted (hsame'.trans hyes') hemb',hput]
      by_cases hf : item'.featId = item.featId
      · simp only [hf,update_self,isNone_some,Bool.false_eq_true,if_false]
        split_ifs
        · rw [update_idem]
        · rfl
      · simp only [update_of_ne hf]
        split_ifs
        · rw [update_comm hf]
        · rfl

theorem claimOne_putOne_self : (st.putOne item).claimOne item = st.putOne item := by
  cases hyes : st.accepts item with
  | false => rw [claimOne_refused ((accepts_putOne rfl).trans hyes)]
  | true =>
    obtain ⟨emb,hemb⟩ := accepts_emb hyes
    rw [putOne_accepted hyes hemb,claimOne,if_neg (by simp)]

/-- Items may be entered before the first of them are stored. -/
theorem puts_after_claims (late : List PutItem) : ∀ (items : List PutItem) st,
    (∀ item ∈ items ++ late, item.dim = dim) →
      items.foldl putOne ((items ++ late).foldl claimOne st) =
        late.foldl claimOne (items.foldl putOne st) := by
  have hpast : ∀ (item : PutItem) (rest : List PutItem) st, (∀ x ∈ rest, x.dim = item.dim) →
      (rest.foldl claimOne st).putOne item = rest.foldl claimOne (st.putOne item) := by
    intro item rest
    induction rest with
    | nil => exact fun _ _ => rfl
    | cons x rest ih =>
      intro st hdims
      rw [foldl_cons,ih _ (fun y hy => hdims y (mem_cons_of_mem _ hy)),
        putOne_claimOne (hdims x mem_cons_self),foldl_cons]
  intro items
  induction items with
  | nil => exact fun _ _ => rfl
  | cons item rest ih =>
    intro st hdims
    have hrest : ∀ x ∈ rest ++ late, x.dim = dim := fun x hx => hdims x (mem_cons_of_mem _ hx)
    rw [cons_append,foldl_cons,foldl_cons,foldl_cons,
      hpast item _ _ (fun x hx => (hrest x hx).trans (hdims item mem_cons_self).symm),
      putOne_claimOne rfl,claimOne_putOne_self,ih _ hrest]

theorem accepts_claims : ∀ {st : VectorStore}, (∀ item ∈ items, item'.dim = item.dim) →
      (items.foldl claimOne st).accepts item' = st.accepts item' := by
  induction items with
  | nil => exact fun _ => rfl
  | cons item rest ih =>
    intro st h
    rw [foldl_cons,ih (fun x hx => h x (mem_cons_of_mem _ hx)),
      accepts_claimOne (h item mem_cons_self)]

theorem foldl_accepted {step : VectorStore → PutItem → VectorStore}
    (hno : ∀ st item, accepts st item = false → step st item = st)
    (hsame : ∀ (st : VectorStore) item item', item'.dim = item.dim →
      (step st item).accepts item' = st.accepts item')
    (hdims : ∀ item ∈ items, item.dim = dim) :
    ∀ st, (items.filter st.accepts).foldl step st = items.foldl step st := by
  induction items with
  | nil => exact fun _ => rfl
  | cons item rest ih =>
    intro st
    have hrest : rest.filter st.accepts = rest.filter (step st item).accepts :=
      filter_congr fun x hx => (hsame st item x ((hdims x (mem_cons_of_mem _ hx)).trans
        (hdims item mem_cons_self).symm)).symm
    rw [foldl_cons,← ih (fun x hx => hdims x (mem_cons_of_mem _ hx)),← hrest]
    by_cases h : st.accepts item = true
    · rw [filter_cons_of_pos h,foldl_cons]
    · rw [filter_cons_of_neg h,hno st item (by simpa using h)]

end Folds

end VectorStore

namespace Ledger

/-- The items of one dim. All of them are entered first; then vectors are stored until the limit
is reached. -/
def putGroup (limit : Option Limit) (l : Ledger) (items : List PutItem) : Ledger :=
  let accepted := items.filter l.st.accepts
  let rc := if items.any l.st.rejects then .errDimMismatch else l.rc
  match limit with
  | none => { l with st := items.foldl VectorStore.putOne l.st, rc := rc }
  | some limit =>
    let n := Budget.taken limit.budget limit.cost limit.held limit.used
      (accepted.map PutItem.featId)
    let st := (accepted.take n).foldl VectorStore.putOne l.st
    let late := (accepted.drop n).map PutItem.featId
    { st := (accepted.drop n).foldl VectorStore.claimOne st
      refused := l.refused ++ late.filter (fun f => (st.vectors f).isNone)
      rc := if n < accepted.length then .errBusy else rc }

theorem putGroup_dims (limit : Option Limit) (l : Ledger) (items : List PutItem) :
    (l.putGroup limit items).st.dims = l.st.dims := by
  cases limit with
  | none => exact VectorStore.foldl_dims VectorStore.putOne_dims _ _
  | some limit =>
    exact (VectorStore.foldl_dims (fun _ _ => VectorStore.claimOne_dims) _ _).trans
      (VectorStore.foldl_dims VectorStore.putOne_dims _ _)

/-- The dims in turn; an unknown dim is added, without a limit, or ends the batch. -/
def putGroups (auto : Bool) (limits : Nat → Option Limit) (l : Ledger) :
    List (Nat × List PutItem) → Ledger
  | [] => l
  | (dim,items) :: rest =>
    if dim ∈ l.st.dims then putGroups auto limits (l.putGroup (limits dim) items) rest
    else if auto then
      putGroups auto limits
        ({ l with st := { l.st with dims := l.st.dims ++ [dim] } }.putGroup none items) rest
    else { l with rc := .errInvalid }

section Effect

variable {l : Ledger} {items : List PutItem} {limits : Nat → Option Limit} {auto : Bool}
  {items' : List PutItem} {st st' : VectorStore} {f : UInt64}

def FromBatch (items : List PutItem) (st st' : VectorStore) (f : UInt64) : Prop :=
  st'.vectors f = st.vectors f ∨
    ∃ item ∈ items, ∃ emb, item.featId = f ∧ item.emb = some emb ∧
      st'.vectors f = some (item.dim,emb)

theorem FromBatch.trans {st'' : VectorStore} (h : FromBatch items st st' f)
    (h' : FromBatch items' st' st'' f) : FromBatch (items ++ items') st st'' f := by
  rcases h' with hsame | ⟨item,hmem,emb,hf,hemb,hv⟩
  · rcases h with hsame' | ⟨item,hmem,emb,hf,hemb,hv⟩
    · exact .inl (hsame.trans hsame')
    · exact .inr ⟨item,mem_append_left _ hmem,emb,hf,hemb,hsame.trans hv⟩
  · exact .inr ⟨item,mem_append_right _ hmem,emb,hf,hemb,hv⟩

theorem FromBatch.mono (h : FromBatch items st st' f) (hsub : ∀ item ∈ items, item ∈ items') :
    FromBatch items' st st' f :=
  h.imp_right fun ⟨item,hmem,hrest⟩ => ⟨item,hsub item hmem,hrest⟩

theorem FromBatch.absent (h : FromBatch items st st' f)
    (hnone : st'.vectors f = none) : st.vectors f = none := by
  rcases h with hsame | ⟨_,_,_,_,_,hv⟩
  · exact hsame.symm.trans hnone
  · rw [hnone] at hv
    cases hv

theorem putOne_fromBatch (st : VectorStore) (item : PutItem) (f : UInt64) :
    FromBatch [item] st (st.putOne item) f := by
  by_cases hyes : st.accepts item = true
  · obtain ⟨emb,hemb⟩ := VectorStore.accepts_emb hyes
    rw [VectorStore.putOne_accepted hyes hemb]
    by_cases hf : f = item.featId
    · exact .inr ⟨item,mem_singleton.mpr rfl,emb,hf.symm,hemb,by simp [hf]⟩
    · exact .inl (by simp only [update_of_ne hf])
  · exact .inl (by rw [VectorStore.putOne_refused (by simpa using hyes)])

theorem claimOne_fromBatch (st : VectorStore) (item : PutItem) (f : UInt64) :
    FromBatch [item] st (st.claimOne item) f := by
  unfold VectorStore.claimOne
  split_ifs
  · exact putOne_fromBatch st item f
  · exact .inl rfl

theorem foldl_fromBatch {step : VectorStore → PutItem → VectorStore}
    (hstep : ∀ st item f, FromBatch [item] st (step st item) f) (items : List PutItem) :
    ∀ st f, FromBatch items st (items.foldl step st) f := by
  induction items with
  | nil => exact fun _ _ => .inl rfl
  | cons item rest ih => exact fun st f => (hstep st item f).trans (ih _ f)

theorem putGroup_fromBatch (limit : Option Limit) (l : Ledger) (items : List PutItem) (f : UInt64) :
    FromBatch items l.st (l.putGroup limit items).st f := by
  cases limit with
  | none => exact foldl_fromBatch putOne_fromBatch items l.st f
  | some limit =>
    refine ((foldl_fromBatch putOne_fromBatch _ l.st f).trans
      (foldl_fromBatch claimOne_fromBatch _ _ f)).mono ?_
    intro item hm
    rw [take_append_drop] at hm
    exact (mem_filter.mp hm).1

theorem putGroup_refused (limit : Option Limit) (l : Ledger) (items : List PutItem) :
    ∀ f ∈ (l.putGroup limit items).refused,
      f ∈ l.refused ∨ l.st.vectors f = none ∧ ∃ item ∈ items, item.featId = f := by
  intro f hf
  cases limit with
  | none => exact .inl hf
  | some limit =>
    rcases mem_append.mp hf with hf | hf
    · exact .inl hf
    · obtain ⟨hlate,hnone⟩ := mem_filter.mp hf
      obtain ⟨item,hitem,hid⟩ := List.mem_map.mp hlate
      exact .inr ⟨(foldl_fromBatch putOne_fromBatch _ l.st f).absent (isNone_iff_eq_none.mp hnone),
        item,(mem_filter.mp (mem_of_mem_drop hitem)).1,hid⟩

theorem putGroups_effect (groups : List (Nat × List PutItem)) : ∀ l : Ledger,
    (∀ f, FromBatch (groups.flatMap Prod.snd) l.st (l.putGroups auto limits groups).st f) ∧
    ∀ f ∈ (l.putGroups auto limits groups).refused, f ∈ l.refused ∨
      l.st.vectors f = none ∧ ∃ item ∈ groups.flatMap Prod.snd, item.featId = f := by
  induction groups with
  | nil => exact fun l => ⟨fun f => .inl rfl,fun f hf => .inl hf⟩
  | cons g rest ih =>
    intro l
    obtain ⟨dim,items⟩ := g
    have hstep : ∀ (l0 : Ledger) limit, l0.st.vectors = l.st.vectors → l0.refused = l.refused →
        (∀ f, FromBatch (items ++ rest.flatMap Prod.snd) l.st
          ((l0.putGroup limit items).putGroups auto limits rest).st f) ∧
        ∀ f ∈ ((l0.putGroup limit items).putGroups auto limits rest).refused,
          f ∈ l.refused ∨
            l.st.vectors f = none ∧ ∃ item ∈ items ++ rest.flatMap Prod.snd, item.featId = f := by
      intro l0 limit hv hr
      obtain ⟨hfrom,hrefused⟩ := ih (l0.putGroup limit items)
      have hone : ∀ f, FromBatch items l.st (l0.putGroup limit items).st f := by
        intro f
        have h := putGroup_fromBatch limit l0 items f
        rwa [FromBatch,hv] at h
      refine ⟨fun f => (hone f).trans (hfrom f),fun f hf => ?_⟩
      rcases hrefused f hf with hf | ⟨hnone,item,hitem,hid⟩
      · rw [← hr,← hv]
        refine (putGroup_refused limit l0 items f hf).imp_right ?_
        rintro ⟨hnone,item,hitem,hid⟩
        exact ⟨hnone,item,mem_append_left _ hitem,hid⟩
      · exact .inr ⟨(hone f).absent hnone,item,mem_append_right _ hitem,hid⟩
    rw [flatMap_cons,putGroups]
    split_ifs
    · exact hstep l (limits dim) rfl rfl
    · exact hstep _ none rfl rfl
    · exact ⟨fun f => .inl rfl,fun f hf => .inl hf⟩

end Effect

section Twins

def revalue (g : PutItem → Nat → UInt8) (item : PutItem) : PutItem :=
  { item with emb := item.emb.map (fun _ => g item) }

structure Twins (l l' : Ledger) : Prop where
  dims : l'.st.dims = l.st.dims
  shape : ∀ f, (l'.st.vectors f).map Prod.fst = (l.st.vectors f).map Prod.fst
  refused : l'.refused = l.refused
  rc : l'.rc = l.rc

def SameShape (st st' : VectorStore) : Prop :=
  st'.dims = st.dims ∧ ∀ f, (st'.vectors f).map Prod.fst = (st.vectors f).map Prod.fst

variable {st st' : VectorStore} {g : PutItem → Nat → UInt8}

theorem revalue_isSome (item : PutItem) : (revalue g item).emb.isSome = item.emb.isSome := by
  simp [revalue]

theorem SameShape.accepts (h : SameShape st st') (item : PutItem) :
    st'.accepts (revalue g item) = st.accepts item := by
  have hall : ∀ o : Option (Nat × (Nat → UInt8)), o.all (fun v => v.1 = item.dim) =
      (o.map Prod.fst).all (fun d => d = item.dim) := by
    intro o
    cases o <;> rfl
  change ((revalue g item).emb.isSome && decide (item.featId ≠ 0) &&
    (st'.vectors item.featId).all (fun v => v.1 = item.dim)) = _
  rw [revalue_isSome,hall,h.2,← hall]
  rfl

theorem SameShape.putOne (h : SameShape st st') (item : PutItem) :
    SameShape (st.putOne item) (st'.putOne (revalue g item)) := by
  refine ⟨by rw [VectorStore.putOne_dims,VectorStore.putOne_dims,h.1],fun f => ?_⟩
  unfold VectorStore.putOne
  rw [h.accepts item]
  split_ifs
  · by_cases hf : f = item.featId
    · simp [hf,revalue,comp_def]
    · simp only [revalue,update_of_ne hf,h.2]
  · exact h.2 f

theorem SameShape.isNone (h : SameShape st st') (f : UInt64) :
    (st'.vectors f).isNone = (st.vectors f).isNone := by
  rw [← isNone_map (f := Prod.fst),h.2 f,isNone_map]

theorem SameShape.claimOne (h : SameShape st st') (item : PutItem) :
    SameShape (st.claimOne item) (st'.claimOne (revalue g item)) := by
  unfold VectorStore.claimOne
  rw [show (revalue g item).featId = item.featId from rfl,h.isNone]
  split_ifs
  · exact h.putOne item
  · exact h

theorem SameShape.foldl {step : VectorStore → PutItem → VectorStore}
    (hstep : ∀ {st st'}, SameShape st st' → ∀ item, SameShape (step st item) (step st' (revalue g item)))
    (items : List PutItem) : ∀ {st st'}, SameShape st st' →
      SameShape (items.foldl step st) ((items.map (revalue g)).foldl step st') := by
  induction items with
  | nil => exact fun h => h
  | cons item rest ih => exact fun h => ih (hstep h item)

theorem Twins.store {l l' : Ledger} (h : Twins l l') : SameShape l.st l'.st := ⟨h.dims,h.shape⟩

theorem Twins.putGroup {l l' : Ledger} (h : Twins l l') (limit : Option Limit) (items : List PutItem) :
    Twins (l.putGroup limit items) (l'.putGroup limit (items.map (revalue g))) := by
  have hs := h.store
  have hrejects : (items.map (revalue g)).any l'.st.rejects = items.any l.st.rejects := by
    rw [List.any_map]
    congr 1
    funext item
    change ((revalue g item).emb.isSome && decide (item.featId ≠ 0) &&
      !l'.st.accepts (revalue g item)) = _
    rw [revalue_isSome,hs.accepts]
    rfl
  have haccepted : (items.map (revalue g)).filter l'.st.accepts =
      (items.filter l.st.accepts).map (revalue g) := by
    rw [List.filter_map]
    congr 1
    exact filter_congr fun item _ => hs.accepts item
  have hids : ∀ xs : List PutItem, (xs.map (revalue g)).map PutItem.featId = xs.map PutItem.featId := by
    intro xs
    rw [List.map_map]
    rfl
  cases limit with
  | none =>
    have hall := SameShape.foldl SameShape.putOne items hs (g := g)
    exact ⟨hall.1,hall.2,h.refused,by simp only [Ledger.putGroup,hrejects,h.rc]⟩
  | some limit =>
    have htake := fun n => SameShape.foldl (g := g) SameShape.putOne
      ((items.filter l.st.accepts).take n) hs
    have hall := fun n => SameShape.foldl SameShape.claimOne ((items.filter l.st.accepts).drop n)
      (htake n) (g := g)
    simp only [Ledger.putGroup,haccepted,hrejects,hids,← map_take,← map_drop,length_map]
    refine ⟨(hall _).1,(hall _).2,?_,by rw [h.rc]⟩
    simp only [h.refused,(htake _).isNone]

theorem Twins.putGroups {auto : Bool} {limits : Nat → Option Limit}
    (groups : List (Nat × List PutItem)) : ∀ {l l' : Ledger}, Twins l l' →
      Twins (l.putGroups auto limits groups)
        (l'.putGroups auto limits (groups.map (fun x => (x.1,x.2.map (revalue g))))) := by
  induction groups with
  | nil => exact fun h => h
  | cons x rest ih =>
    intro l l' h
    obtain ⟨dim,items⟩ := x
    simp only [map_cons,Ledger.putGroups,h.dims]
    split_ifs
    · exact ih (h.putGroup _ _)
    · have hnew : Twins { l with st := { l.st with dims := l.st.dims ++ [dim] } }
          { l' with st := { l'.st with dims := l.st.dims ++ [dim] } } := ⟨rfl,h.shape,h.refused,h.rc⟩
      exact ih (hnew.putGroup _ _)
    · exact ⟨h.dims,h.shape,h.refused,rfl⟩

end Twins

end Ledger

end Gravel.Spec
