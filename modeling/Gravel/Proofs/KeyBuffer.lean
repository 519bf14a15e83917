import Gravel.Lib.BTreeInsert
import Gravel.Proofs.FlushPages
import Mathlib.Tactic.NormNum

namespace Gravel.Proofs.KeyBuffer
open BTree File FlushPages List Option Function

/-- The key buffer between two operations. `6553` nodes are what the largest budget holds. -/
structure KeyBufInv (t : KeyBTree) : Prop where
  wf : t.Wf kbtOrder
  least : 4 ≤ t.arenaCap
  most : t.arenaCap ≤ 6553

section Arena

variable {t t' : KeyBTree} {e : Nat} {f : UInt64}

theorem wf_empty (t : KeyBTree) (hr : t.root = none) (hc : t.count = 0) (hu : t.arenaUsed = 0) :
    t.Wf kbtOrder := by
  refine ⟨by simp [Tree.collect,hr,Sorted],by simp [Tree.collect,hr,hc],fun _ => hu,?_⟩
  intro n hn
  rw [hr] at hn
  cases hn

theorem kbtInit_inv {budget : Nat} (h : budget ≤ 2 ^ 24) : KeyBufInv (kbtInit budget) := by
  refine ⟨wf_empty _ rfl rfl rfl,?_,?_⟩
  · simp only [kbtInit]
    omega
  · simp only [kbtInit,kbtNodeSize]
    omega

theorem KeyBufInv.clear (h : KeyBufInv t) : KeyBufInv (kbtClear t) :=
  ⟨wf_empty _ rfl rfl rfl,h.least,h.most⟩

theorem depth_le {d : Nat} {n : KBTNode} (hs : Shape kbtOrder d n) (hlen : 1 ≤ n.items.length)
    (hsize : size d n ≤ 6553) : d ≤ 2 := by
  by_contra hd
  obtain ⟨d,rfl⟩ : ∃ d', d = d' + 3 := ⟨d - 3,by omega⟩
  have hroot : 1 + (n.items.length + 1) * kbtOrder ^ (d + 2) ≤ BTree.size (d + 3) n :=
    root_size (by decide) hs
  have hpow : kbtOrder ^ 2 ≤ kbtOrder ^ (d + 2) := Nat.pow_le_pow_right (by decide) (by omega)
  have hmul : 2 * kbtOrder ^ 2 ≤ (n.items.length + 1) * kbtOrder ^ (d + 2) :=
    Nat.mul_le_mul (by omega) hpow
  have hval : kbtOrder ^ 2 = 4096 := by decide
  omega

theorem depth_le_full {d : Nat} {n : KBTNode} (hs : Shape kbtOrder d n)
    (hfull : n.items.length = 2 * kbtOrder - 1) (hsize : size d n ≤ 6553) (hd : d ≤ 2) : d ≤ 1 := by
  by_contra hd'
  obtain rfl : d = 2 := by omega
  have hroot : 1 + (n.items.length + 1) * kbtOrder ^ 1 ≤ BTree.size 2 n :=
    root_size (by decide) hs
  have hval : kbtOrder = 64 := rfl
  rw [hfull,hval] at hroot
  omega

theorem KeyBufInv.roomy (h : KeyBufInv t) (hf : kbtFull t = false) : t.Roomy kbtOrder := by
  have hroom : 3 ≤ t.arenaCap - t.arenaUsed := by simpa [kbtFull] using hf
  have hmost := h.most
  refine ⟨by omega,?_⟩
  intro d n hroot hs hlen hsize
  have hd := depth_le hs hlen (by omega)
  refine ⟨by unfold maxDepth; omega,?_⟩
  split_ifs with hfull
  · have := depth_le_full hs hfull (by omega) hd
    omega
  · omega

theorem kbtInsert_spec (h : KeyBufInv t) (hf : kbtFull t = false) (e : Nat) (f : UInt64) :
    ∃ t', kbtInsert t e f = some t' ∧ KeyBufInv t' ∧
      kbtCollect t' = upsert e f (kbtCollect t) := by
  obtain ⟨t',hins,hwf,hcap,hcol⟩ := Tree.insert_spec (k := e) (v := f) (by decide) h.wf (h.roomy hf)
  exact ⟨t',hins,⟨hwf,by rw [hcap]; exact h.least,by rw [hcap]; exact h.most⟩,hcol⟩

theorem kbtFull_empty (h : KeyBufInv t) (hc : t.count = 0) : kbtFull t = false := by
  have hused := h.wf.empty (h.wf.root_none hc)
  have hleast := h.least
  simp only [kbtFull,hused,decide_eq_false_iff_not]
  omega

theorem KeyBufInv.collect_nil (h : KeyBufInv t) : t.count = 0 ↔ kbtCollect t = [] := by
  rw [h.wf.count]
  exact length_eq_zero_iff

end Arena

section Patches

variable {cell : Nat → UInt64} {items items' : List KeyWriteEntry} {keys : File UInt64}
  {x p size : Nat}

theorem patchKeys_append :
    patchKeys cell (items ++ items') = patchKeys (patchKeys cell items) items' :=
  foldl_append

theorem patchKeys_lookup (h : Sorted items) (x : Nat) :
    patchKeys cell items x = (items.lookup x).getD (cell x) := by
  induction items generalizing cell with
  | nil => rfl
  | cons kv items ih =>
    obtain ⟨k,v⟩ := kv
    simp only [Sorted,map_cons,pairwise_cons] at h
    have hcons : patchKeys cell ((k,v) :: items) = patchKeys (update cell k v) items := rfl
    rw [hcons,ih h.2]
    by_cases hx : x = k
    · subst hx
      have hnone : items.lookup x = none := by
        rw [lookup_eq_none_iff]
        intro y hy
        have := h.1 y.1 (List.mem_map_of_mem hy)
        simp only [bne_iff_ne,ne_eq]
        omega
      simp [hnone]
    · have hb : (x == k) = false := by simpa using hx
      rw [lookup_cons,hb,update_of_ne hx]

theorem cell_putKey (kv : KeyWriteEntry) :
    (putKey keys kv.1 kv.2).cell = update keys.cell kv.1 kv.2 := by
  funext x
  by_cases hx : x = kv.1
  · subst hx
    rw [update_self]
    exact write_inside ⟨by omega,by omega⟩
  · rw [update_of_ne hx]
    exact write_outside (by omega)

theorem cell_putKeys (l : List KeyWriteEntry) (keys : File UInt64) :
    (l.foldl (fun keys kv => putKey keys kv.1 kv.2) keys).cell = patchKeys keys.cell l := by
  induction l generalizing keys with
  | nil => rfl
  | cons kv l ih =>
    rw [foldl_cons,ih,cell_putKey]
    rfl

def inPage (p : Nat) (items : List KeyWriteEntry) : List KeyWriteEntry :=
  items.map (fun kv => (p * keysPerPage + kv.1,kv.2))

theorem inPage_slot (kv : KeyWriteEntry) :
    inPage (kv.1 / keysPerPage) [(kv.1 % keysPerPage,kv.2)] = [kv] := by
  simp only [inPage,map_cons,map_nil,Nat.div_add_mod']

theorem inPage_snoc (kv : KeyWriteEntry) (rest : List KeyWriteEntry) :
    inPage (kv.1 / keysPerPage) (items ++ [(kv.1 % keysPerPage,kv.2)]) ++ rest =
      inPage (kv.1 / keysPerPage) items ++ kv :: rest := by
  have hsplit := inPage_slot kv
  rw [inPage] at hsplit ⊢
  rw [map_append,hsplit,append_assoc,singleton_append,inPage]

theorem slots_snoc (h : ∀ kv ∈ items, kv.1 < keysPerPage) (kv : KeyWriteEntry) :
    ∀ x ∈ items ++ [(kv.1 % keysPerPage,kv.2)], x.1 < keysPerPage := by
  intro x hx
  rcases mem_append.mp hx with hx | hx
  · exact h x hx
  · rw [mem_singleton.mp hx]
    exact Nat.mod_lt _ (by decide)

theorem patchKeys_shift (x : Nat) (p : Nat) (hx : p * keysPerPage ≤ x) :
    patchKeys (fun i => cell (p * keysPerPage + i)) items (x - p * keysPerPage) =
      patchKeys cell (inPage p items) x := by
  induction items generalizing cell with
  | nil =>
    simp only [patchKeys,inPage,foldl_nil,map_nil]
    congr 1
    omega
  | cons kv items ih =>
    have hshift : update (fun i => cell (p * keysPerPage + i)) kv.1 kv.2 =
        fun i => update cell (p * keysPerPage + kv.1) kv.2 (p * keysPerPage + i) := by
      funext i
      by_cases hi : i = kv.1
      · subst hi
        simp
      · rw [update_of_ne hi,update_of_ne (by omega)]
    calc patchKeys (fun i => cell (p * keysPerPage + i)) (kv :: items) (x - p * keysPerPage)
        = patchKeys (update (fun i => cell (p * keysPerPage + i)) kv.1 kv.2) items
            (x - p * keysPerPage) := rfl
      _ = patchKeys (update cell (p * keysPerPage + kv.1) kv.2) (inPage p items) x := by
          rw [hshift,ih]
      _ = patchKeys cell (inPage p (kv :: items)) x := rfl

theorem patchKeys_congr {cell' : Nat → UInt64} (h : cell x = cell' x) :
    patchKeys cell items x = patchKeys cell' items x := by
  induction items generalizing cell cell' with
  | nil => exact h
  | cons kv items ih =>
    apply ih
    by_cases hx : x = kv.1
    · subst hx
      simp
    · simp only [update_of_ne hx,h]

theorem patchKeys_outside (h : ∀ kv ∈ items, kv.1 ≠ x) : patchKeys cell items x = cell x := by
  induction items generalizing cell with
  | nil => rfl
  | cons kv items ih =>
    have hcons : patchKeys cell (kv :: items) = patchKeys (update cell kv.1 kv.2) items :=
      rfl
    rw [hcons,ih (fun y hy => h y (mem_cons_of_mem _ hy)),
      update_of_ne (Ne.symm (h kv mem_cons_self))]

theorem cell_flushKeyPage (hslot : ∀ kv ∈ items, kv.1 < keysPerPage)
    (hz : ∀ x, x / keysPerPage = p → size ≤ p * keysPerPage → keys.cell x = 0) :
    (flushKeyPage size keys p items).cell = patchKeys keys.cell (inPage p items) := by
  unfold flushKeyPage
  by_cases hd : keyCoalesceThresh ≤ items.length
  · simp only [if_pos hd]
    funext x
    by_cases hx : p * keysPerPage ≤ x ∧ x < p * keysPerPage + keysPerPage
    · rw [write_inside hx,← patchKeys_shift x p hx.1]
      apply patchKeys_congr
      split_ifs with hr
      · rw [read_zeroed (by omega)]
      · rw [Nat.add_sub_cancel' hx.1]
        have hpage : x / keysPerPage = p :=
          Nat.div_eq_of_lt_le hx.1 (by rw [Nat.succ_mul]; exact hx.2)
        exact (hz x hpage (Nat.not_lt.mp hr)).symm
    · rw [write_outside hx,patchKeys_outside]
      intro kv hkv
      obtain ⟨y,hy,rfl⟩ := List.mem_map.mp hkv
      have := hslot y hy
      simp only
      omega
  · simp only [if_neg hd]
    rw [← cell_putKeys,inPage,foldl_map]

theorem cell_putKeysLoop (rest : List KeyWriteEntry) : ∀ (keys : File UInt64) (p : Nat)
    (items : List KeyWriteEntry), (∀ kv ∈ items, kv.1 < keysPerPage) →
    (rest.map (·.1 / keysPerPage)).Pairwise (· ≤ ·) → (∀ kv ∈ rest, p ≤ kv.1 / keysPerPage) →
    (∀ x, p ≤ x / keysPerPage → size ≤ x / keysPerPage * keysPerPage → keys.cell x = 0) →
    (putKeysLoop size keys p items rest).cell = patchKeys keys.cell (inPage p items ++ rest) := by
  induction rest with
  | nil =>
    intro keys p items hslot _ _ hz
    rw [append_nil,putKeysLoop]
    split_ifs with hnil
    · rw [hnil]
      rfl
    · exact cell_flushKeyPage hslot (fun x hx hs => hz x (by omega) (by rw [hx]; exact hs))
  | cons kv rest ih =>
    intro keys p items hslot hasc hle hz
    simp only [map_cons,pairwise_cons] at hasc
    have hrest : ∀ y ∈ rest, kv.1 / keysPerPage ≤ y.1 / keysPerPage :=
      fun y hy => hasc.1 _ (List.mem_map_of_mem hy)
    have hp := hle kv mem_cons_self
    rw [putKeysLoop]
    by_cases hpg : kv.1 / keysPerPage ≠ p
    · have hflush : (flushKeyPage size keys p items).cell = patchKeys keys.cell (inPage p items) :=
        cell_flushKeyPage hslot (fun x hx hs => hz x (by omega) (by rw [hx]; exact hs))
      simp only [if_pos hpg]
      rw [ih _ _ [_] (slots_snoc (forall_mem_nil _) kv) hasc.2 hrest ?_,hflush,← patchKeys_append,
        inPage_slot]
      · rfl
      · -- Later pages are not touched by the flush of page `p`.
        intro x hx hs
        rw [hflush,patchKeys_outside]
        · exact hz x (by omega) hs
        · intro y hy
          obtain ⟨z,hz',rfl⟩ := List.mem_map.mp hy
          have := hslot z hz'
          rintro rfl
          rw [Nat.mul_comm,Nat.mul_add_div (by decide),Nat.div_eq_of_lt this] at hx
          omega
    · obtain rfl : kv.1 / keysPerPage = p := not_not.mp hpg
      simp only [if_neg hpg]
      rw [ih keys _ _ (slots_snoc hslot kv) hasc.2 hrest hz,inPage_snoc]

theorem cell_putKeysBatch {entries : List KeyWriteEntry} (hs : Sorted entries)
    (hz : ∀ x, size ≤ x → keys.cell x = 0) (x : Nat) :
    (dimbinPutKeysBatch size keys entries).cell x = (entries.lookup x).getD (keys.cell x) := by
  rw [← patchKeys_lookup hs]
  cases entries with
  | nil => rfl
  | cons e rest =>
    rw [dimbinPutKeysBatch]
    split_ifs with hlen
    · rw [cell_putKeys]
    · have hasc : (((e :: rest).map Prod.fst).map (· / keysPerPage)).Pairwise (· ≤ ·) :=
        (hs.imp Nat.le_of_lt).map _ (fun a b h => Nat.div_le_div_right h)
      rw [List.map_map] at hasc
      have hle : ∀ kv ∈ e :: rest, e.1 / keysPerPage ≤ kv.1 / keysPerPage := by
        intro kv hkv
        rcases mem_cons.mp hkv with rfl | hkv
        · exact Nat.le_refl _
        · exact (pairwise_cons.mp hasc).1 _ (List.mem_map_of_mem hkv)
      rw [cell_putKeysLoop (e :: rest) keys _ [] (by simp) hasc hle]
      · rfl
      · intro x _ hx
        exact hz x (Nat.le_trans hx (Nat.div_mul_le_self _ _))

end Patches

section Sizes

variable {size p : Nat} {items : List KeyWriteEntry}

theorem size_putKeys (l : List KeyWriteEntry) (keys : File UInt64) (f : KeyWriteEntry → Nat) :
    keys.size ≤ (l.foldl (fun keys kv => putKey keys (f kv) kv.2) keys).size := by
  induction l generalizing keys with
  | nil => exact Nat.le_refl _
  | cons kv l ih => exact Nat.le_trans size_le_write (ih (putKey keys (f kv) kv.2))

theorem size_flushKeyPage (keys : File UInt64) :
    keys.size ≤ (flushKeyPage size keys p items).size := by
  unfold flushKeyPage
  by_cases hd : keyCoalesceThresh ≤ items.length
  · simp only [if_pos hd]
    exact size_le_write
  · simp only [if_neg hd]
    exact size_putKeys items keys (fun kv => p * keysPerPage + kv.1)

theorem size_putKeysLoop (rest : List KeyWriteEntry) : ∀ (keys : File UInt64) (p : Nat)
    (items : List KeyWriteEntry), keys.size ≤ (putKeysLoop size keys p items rest).size := by
  induction rest with
  | nil =>
    intro keys p items
    rw [putKeysLoop]
    split_ifs
    · exact Nat.le_refl _
    · exact size_flushKeyPage keys
  | cons kv rest ih =>
    intro keys p items
    rw [putKeysLoop]
    by_cases hpg : kv.1 / keysPerPage ≠ p
    · simp only [if_pos hpg]
      exact Nat.le_trans (size_flushKeyPage keys) (ih _ _ _)
    · simp only [if_neg hpg]
      exact ih _ _ _

theorem size_putKeysBatch (keys : File UInt64) (entries : List KeyWriteEntry) :
    keys.size ≤ (dimbinPutKeysBatch size keys entries).size := by
  cases entries with
  | nil => exact Nat.le_refl _
  | cons e rest =>
    rw [dimbinPutKeysBatch]
    split_ifs
    · exact size_putKeys _ keys (fun kv => kv.1)
    · exact size_putKeysLoop _ _ _ _

end Sizes

/-- The key of an entry: the buffered one if there is one, else the word of the key file. -/
def keyAt (s : DimBin) (e : Nat) : UInt64 :=
  ((kbtCollect s.keyBuf).lookup e).getD (s.keys.cell e)

structure KeysInv (s : DimBin) : Prop where
  buf : KeyBufInv s.keyBuf
  below : ∀ kv ∈ kbtCollect s.keyBuf, kv.1 < s.keyFileSize
  zero : ∀ x, s.keyFileSize ≤ x → s.keys.cell x = 0
  file : s.keyFileSize ≤ s.keys.size

section Bins

variable {s s' : DimBin} {e : Nat} {f : UInt64}

theorem KeysInv.congr (h : KeysInv s) (hb : s'.keyBuf = s.keyBuf) (hk : s'.keys = s.keys)
    (hf : s'.keyFileSize = s.keyFileSize) : KeysInv s' :=
  ⟨by rw [hb]; exact h.buf,by rw [hb,hf]; exact h.below,by rw [hk,hf]; exact h.zero,
    by rw [hk,hf]; exact h.file⟩

theorem lookup_below (h : KeysInv s) (he : s.keyFileSize ≤ e) :
    (kbtCollect s.keyBuf).lookup e = none := by
  rw [lookup_eq_none_iff]
  intro kv hkv
  have := h.below kv hkv
  simp only [bne_iff_ne,ne_eq]
  omega

theorem dimbinFlushKeys_spec (h : KeysInv s) :
    KeysInv (dimbinFlushKeys s) ∧ kbtCollect (dimbinFlushKeys s).keyBuf = [] ∧
      ∀ e, keyAt (dimbinFlushKeys s) e = keyAt s e := by
  unfold dimbinFlushKeys
  split_ifs with hc
  · exact ⟨h,h.buf.collect_nil.mp hc,fun _ => rfl⟩
  · have hcell := cell_putKeysBatch h.buf.wf.sorted h.zero
    refine ⟨⟨h.buf.clear,by simp [kbtCollect,kbtClear,Tree.collect],?_,?_⟩,rfl,hcell⟩
    · intro x hx
      have hnone := lookup_below h hx
      refine (hcell x).trans ?_
      change ((kbtCollect s.keyBuf).lookup x).getD _ = 0
      rw [hnone]
      exact h.zero x hx
    · exact Nat.le_trans h.file (size_putKeysBatch _ _)

theorem keysFlushed_spec (h : KeysInv s) (hk : KeysFlushed s s')
    (hf : s'.keyFileSize = s.keyFileSize) : KeysInv s' ∧ ∀ x, keyAt s' x = keyAt s x := by
  obtain ⟨hinv,_,hkey⟩ := dimbinFlushKeys_spec h
  rcases hk with ⟨hk,hb⟩ | ⟨hk,hb⟩
  · refine ⟨h.congr hb hk hf,fun x => ?_⟩
    unfold keyAt
    rw [hb,hk]
  · refine ⟨hinv.congr hb hk (by rw [hf,dimbinFlushKeys_eq s]),fun x => ?_⟩
    rw [← hkey x]
    unfold keyAt
    rw [hb,hk]

theorem insertKey_spec (h : KeysInv s) (hfull : kbtFull s.keyBuf = false) (he : e < s.keyFileSize) :
    ∃ t, kbtInsert s.keyBuf e f = some t ∧ KeysInv { s with keyBuf := t } ∧
      ∀ x, keyAt { s with keyBuf := t } x = if x = e then f else keyAt s x := by
  obtain ⟨t,hins,hinv,hcol⟩ := kbtInsert_spec h.buf hfull e f
  refine ⟨t,hins,⟨hinv,?_,h.zero,h.file⟩,?_⟩
  · intro kv hkv
    simp only [hcol] at hkv
    rcases mem_keys_upsert.mp (List.mem_map_of_mem hkv) with hk | hk
    · simp only [hk]
      exact he
    · obtain ⟨y,hy,hye⟩ := List.mem_map.mp hk
      rw [← hye]
      exact h.below y hy
  · intro x
    unfold keyAt
    simp only [hcol]
    unfold kbtCollect
    rw [lookup_upsert h.buf.wf.sorted]
    split_ifs <;> rfl

theorem dimbinBufKey_spec (h : KeysInv s) (he : e < s.keyFileSize) (f : UInt64) :
    ∃ s', dimbinBufKey s e f = some s' ∧ KeysInv s' ∧
      ∀ x, keyAt s' x = if x = e then f else keyAt s x := by
  unfold dimbinBufKey
  by_cases hfull : kbtFull s.keyBuf
  · obtain ⟨hinv,hnil,hkey⟩ := dimbinFlushKeys_spec h
    have hroom : kbtFull (dimbinFlushKeys s).keyBuf = false := by
      unfold dimbinFlushKeys
      split_ifs with hc
      · exact kbtFull_empty h.buf hc
      · exact kbtFull_empty h.buf.clear rfl
    obtain ⟨t,hins,hinv',hkey'⟩ := insertKey_spec (f := f) hinv hroom
      (by rw [FlushPages.dimbinFlushKeys_eq s]; exact he)
    exact ⟨_,by simp only [if_pos hfull,hins,bind_eq_bind,bind_some,Option.pure_def],
      hinv',fun x => by rw [hkey' x,hkey x]⟩
  · obtain ⟨t,hins,hinv,hkey⟩ := insertKey_spec (f := f) h (by simpa using hfull) he
    exact ⟨_,by simp only [if_neg hfull,hins,bind_eq_bind,bind_some,Option.pure_def],
      hinv,hkey⟩

theorem nextDataSize_ge (s : DimBin) : 0 < nextDataSize s ∧ s.dataFileSize ≤ nextDataSize s := by
  unfold nextDataSize
  split_ifs
  · omega
  · have := s.geom.page_pos
    omega

theorem doubleUntil_ge (required : Nat) : ∀ fuel size, 0 < size →
    size ≤ doubleUntil required fuel size ∧
      (required ≤ size + fuel → required ≤ doubleUntil required fuel size) := by
  intro fuel
  induction fuel with
  | zero => exact fun size _ => ⟨Nat.le_refl _,fun h => h⟩
  | succ fuel ih =>
    intro size hpos
    rw [doubleUntil]
    split_ifs with hlt
    · obtain ⟨hle,hreq⟩ := ih (size * 2) (by omega)
      exact ⟨by omega,fun h => hreq (by omega)⟩
    · exact ⟨Nat.le_refl _,fun _ => by omega⟩

theorem nextKeySize_ge (s : DimBin) : 0 < nextKeySize s ∧ s.keyFileSize ≤ nextKeySize s := by
  unfold nextKeySize
  split_ifs <;> omega

theorem KeysInv.grow (h : KeysInv s) {n : Nat} {keys : File UInt64} (hn : s.keyFileSize ≤ n)
    (hcell : ∀ x, keys.cell x = s.keys.cell x) (hsize : n ≤ keys.size) :
    KeysInv { s with keys := keys, keyFileSize := n } := by
  refine ⟨h.buf,?_,?_,hsize⟩
  · intro kv hkv
    exact Nat.lt_of_lt_of_le (h.below kv hkv) hn
  · intro x hx
    rw [hcell]
    exact h.zero x (Nat.le_trans hn hx)

theorem reserveKeys_spec (h : KeysInv s) (n : Nat) :
    KeysInv (reserveKeys s n) ∧ n ≤ (reserveKeys s n).keyFileSize ∧
      s.keyFileSize ≤ (reserveKeys s n).keyFileSize ∧
      ∀ e, keyAt (reserveKeys s n) e = keyAt s e := by
  obtain ⟨hpos,hge⟩ := nextKeySize_ge s
  obtain ⟨hle,hreq⟩ := doubleUntil_ge n n _ hpos
  by_cases hlt : s.keyFileSize < n
  · have heq : reserveKeys s n = { s with
        keys := s.keys.extend (doubleUntil n n (nextKeySize s))
        keyFileSize := doubleUntil n n (nextKeySize s) } := by
      simp only [reserveKeys,if_pos hlt]
    rw [heq]
    exact ⟨h.grow (by omega) (fun _ => rfl) (Nat.le_max_right _ _),hreq (by omega),
      Nat.le_trans hge hle,fun _ => rfl⟩
  · have heq : reserveKeys s n = s := by
      simp only [reserveKeys,if_neg hlt]
    rw [heq]
    exact ⟨h,by omega,Nat.le_refl _,fun _ => rfl⟩

theorem growKeys_spec (h : KeysInv s) (n : Nat) :
    KeysInv (growKeys s n) ∧ n ≤ (growKeys s n).keyFileSize ∧
      s.keyFileSize ≤ (growKeys s n).keyFileSize ∧ ∀ e, keyAt (growKeys s n) e = keyAt s e := by
  obtain ⟨hpos,hge⟩ := nextKeySize_ge s
  obtain ⟨size,hsize⟩ : ∃ size, size = if nextKeySize s < n then n * 2 else nextKeySize s :=
    ⟨_,rfl⟩
  have hn : n ≤ size ∧ s.keyFileSize ≤ size := by
    split_ifs at hsize <;> omega
  by_cases hlt : s.keyFileSize < n
  · have heq : growKeys s n = { s with keys := s.keys.truncate size, keyFileSize := size } := by
      simp only [growKeys,if_pos hlt,hsize]
    have hcell : ∀ x, (s.keys.truncate size).cell x = s.keys.cell x := by
      intro x
      by_cases hx : x < size
      · exact if_pos hx
      · exact (if_neg hx).trans (h.zero x (by omega)).symm
    rw [heq]
    refine ⟨h.grow hn.2 hcell (Nat.le_refl _),hn.1,hn.2,?_⟩
    intro e
    simp only [keyAt,hcell]
  · have heq : growKeys s n = s := by
      simp only [growKeys,if_neg hlt]
    rw [heq]
    exact ⟨h,by omega,Nat.le_refl _,fun _ => rfl⟩

end Bins

end Gravel.Proofs.KeyBuffer
