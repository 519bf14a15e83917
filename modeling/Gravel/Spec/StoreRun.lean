import Gravel.Lib.Runs
import Gravel.Spec.Backpressure

namespace Gravel.Spec
open List Option Function

namespace Ledger

variable {auto : Bool} {limits : Nat → Option Limit} {dim : Nat} {items : List PutItem}

theorem putGroup_unlimited {limit : Limit} (h : limit.budget = 0)
    (hdims : ∀ item ∈ items, item.dim = dim) (l : Ledger) :
    l.putGroup (some limit) items = l.putGroup none items := by
  have hfold := VectorStore.foldl_accepted (fun _ _ => VectorStore.putOne_refused)
    (fun _ _ _ => VectorStore.accepts_putOne) hdims l.st
  simp [putGroup,h,Budget.taken_unlimited,hfold]

theorem putGroups_unlimited (groups : List (Nat × List PutItem)) : ∀ l : Ledger,
    (∀ g ∈ groups, (∀ limit ∈ limits g.1, limit.budget = 0) ∧ ∀ item ∈ g.2, item.dim = g.1) →
      l.putGroups auto limits groups = l.putGroups auto (fun _ => none) groups ∧
        (l.putGroups auto (fun _ => none) groups).refused = l.refused := by
  induction groups with
  | nil => exact fun l _ => ⟨rfl,rfl⟩
  | cons g rest ih =>
    intro l hall
    obtain ⟨hlimit,hdims⟩ := hall g mem_cons_self
    have hgroup : l.putGroup (limits g.1) g.2 = l.putGroup none g.2 := by
      cases hl : limits g.1 with
      | none => rfl
      | some limit => exact putGroup_unlimited (hlimit limit hl) hdims l
    have hrest := fun l => ih l (fun x hx => hall x (mem_cons_of_mem _ hx))
    unfold putGroups
    split_ifs
    · rw [hgroup]
      exact hrest _
    · exact hrest _
    · exact ⟨rfl,rfl⟩

end Ledger

namespace VectorStore

def putBatch (auto : Bool) (st : VectorStore) (items : List PutItem) : VectorStore :=
  (Ledger.putGroups auto (fun _ => none) ⟨st,[],.ok⟩
    (Runs.runs PutItem.dim (sortByDim items))).st

def deleteOne (st : VectorStore) (f : UInt64) : VectorStore :=
  { st with vectors := update st.vectors f none }

/-- What a call means. Flushes and checkpoints mean nothing. -/
def next (auto : Bool) (st : VectorStore) : StoreOp → VectorStore
  | .put items => st.putBatch auto items
  | .delete featIds => featIds.foldl deleteOne st
  | _ => st

end VectorStore

end Gravel.Spec
