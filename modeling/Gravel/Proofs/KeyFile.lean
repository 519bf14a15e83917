import Gravel.Model.KeyFile
import Gravel.Proofs.KeyBuffer

namespace Gravel.Proofs.KeyFile
open BTree WordFile KeyBuffer Gravel.KeyFile List

section Refinement

variable {o : ByteOrder} {f : File UInt8} {w : File UInt64} {p size : Nat}
  {items : List KeyWriteEntry}

theorem words_putKey (h : Words o f w) (e : Nat) (v : UInt64) :
    Words o (dimbinPutKey o f e v) (putKey w e v) := h.write (Agree.word o v)

theorem words_putKeys (items : List KeyWriteEntry) (pos : KeyWriteEntry → Nat) :
    ∀ {f : File UInt8} {w : File UInt64}, Words o f w →
      Words o (items.foldl (fun f kv => dimbinPutKey o f (pos kv) kv.2) f)
        (items.foldl (fun w kv => putKey w (pos kv) kv.2) w) := by
  induction items with
  | nil => exact fun h => h
  | cons kv items ih => exact fun h => ih (words_putKey h (pos kv) kv.2)

theorem agree_patchPage (items : List KeyWriteEntry) {n : Nat} : ∀ {b : Nat → UInt8}
    {v : Nat → UInt64}, Agree o n b v → Agree o n (patchPage o b items) (patchKeys v items) := by
  induction items with
  | nil => exact fun h => h
  | cons kv items ih => exact fun h => ih (h.store kv.1 kv.2)

theorem words_flushKeyPage (h : Words o f w) :
    Words o (KeyFile.flushKeyPage o size f p items) (Gravel.flushKeyPage ((size + 7) / 8) w p items) := by
  unfold KeyFile.flushKeyPage Gravel.flushKeyPage
  by_cases hd : keyCoalesceThresh ≤ items.length
  · have hiff : p * keysPerPage * 8 < size ↔ p * keysPerPage < (size + 7) / 8 := by omega
    have hlen : keyPageSize = keysPerPage * 8 := rfl
    simp only [if_pos hd,hlen,← Nat.mul_assoc]
    apply h.write
    apply agree_patchPage
    by_cases hr : p * keysPerPage < (size + 7) / 8
    · rw [if_pos hr,if_pos (hiff.mpr hr)]
      exact h.read
    · rw [if_neg hr,if_neg (fun hlt => hr (hiff.mp hlt))]
      exact Agree.zero o keysPerPage
  · rw [if_neg hd,if_neg hd]
    exact words_putKeys items (fun kv => p * keysPerPage + kv.1) h

theorem length_le_of_ascending {n : Nat} {l : List Nat} (hasc : l.Pairwise (· < ·))
    (hlt : ∀ x ∈ l, x < n) : l.length ≤ n := by
  have hnodup : l.Nodup := hasc.imp Nat.ne_of_lt
  have hsub : l ⊆ List.range n := fun x hx => mem_range.mpr (hlt x hx)
  have := (hnodup.subperm hsub).length_le
  rw [length_range] at this
  exact this

theorem sorted_of_inPage (h : Sorted (inPage p items)) : Sorted items := by
  unfold Sorted inPage at h
  rw [List.map_map,pairwise_map] at h
  exact pairwise_map.mpr (h.imp (fun hlt => Nat.lt_of_add_lt_add_left hlt))

theorem words_putKeysLoop (rest : List KeyWriteEntry) : ∀ {f : File UInt8} {w : File UInt64}
    {p : Nat} {items : List KeyWriteEntry}, Words o f w → (∀ kv ∈ items, kv.1 < keysPerPage) →
    Sorted (inPage p items ++ rest) →
    ∃ f', KeyFile.putKeysLoop o size f p items rest = some f' ∧
      Words o f' (Gravel.putKeysLoop ((size + 7) / 8) w p items rest) := by
  induction rest with
  | nil =>
    intro f w p items h _ _
    refine ⟨_,rfl,?_⟩
    rw [Gravel.putKeysLoop]
    split_ifs
    · exact h
    · exact words_flushKeyPage h
  | cons kv rest ih =>
    intro f w p items h hslot hasc
    rw [KeyFile.putKeysLoop,Gravel.putKeysLoop]
    by_cases hpg : kv.1 / keysPerPage ≠ p
    · simp only [if_pos hpg]
      refine ih (words_flushKeyPage h) (slots_snoc (forall_mem_nil _) kv) ?_
      rw [Sorted,map_append] at hasc
      rw [inPage_slot]
      exact (pairwise_append.mp hasc).2.1
    · obtain rfl : kv.1 / keysPerPage = p := not_not.mp hpg
      have hslot' := slots_snoc hslot kv
      rw [← inPage_snoc] at hasc
      have hroom : items.length < keysPerPage := by
        rw [Sorted,map_append] at hasc
        have hsorted := sorted_of_inPage (pairwise_append.mp hasc).1
        have hlen := length_le_of_ascending hsorted (fun x hx => by
          obtain ⟨y,hy,rfl⟩ := List.mem_map.mp hx
          exact hslot' y hy)
        simp only [length_map,length_append,length_singleton] at hlen
        omega
      simp only [if_neg hpg,if_pos hroom]
      exact ih h hslot' hasc

theorem words_putKeysBatch {entries : List KeyWriteEntry} (size : Nat) (h : Words o f w)
    (hs : Sorted entries) :
    ∃ f', KeyFile.dimbinPutKeysBatch o size f entries = some f' ∧
      Words o f' (Gravel.dimbinPutKeysBatch ((size + 7) / 8) w entries) := by
  cases entries with
  | nil => exact ⟨f,rfl,h⟩
  | cons e rest =>
    rw [KeyFile.dimbinPutKeysBatch,Gravel.dimbinPutKeysBatch]
    by_cases hlen : (e :: rest).length < keyCoalesceThresh
    · rw [if_pos hlen,if_pos hlen]
      exact ⟨_,rfl,words_putKeys (e :: rest) Prod.fst h⟩
    · rw [if_neg hlen,if_neg hlen]
      exact words_putKeysLoop (e :: rest) h (by simp) hs

end Refinement

/-- The coalesced writes leave the bytes of the key file as single writes do. -/
theorem coalesced_writes_exact (o : ByteOrder) (f : File UInt8) (entries : List KeyWriteEntry)
    (hs : (entries.map Prod.fst).Pairwise (· < ·)) :
    ∃ f', KeyFile.dimbinPutKeysBatch o f.size f entries = some f' ∧
      (∀ x, f'.cell x = (entries.foldl (fun f kv => dimbinPutKey o f kv.1 kv.2) f).cell x) ∧
      ∀ e ∉ entries.map Prod.fst, ∀ i < 8, f'.cell (e * 8 + i) = f.cell (e * 8 + i) := by
  obtain ⟨w,hw⟩ := exists_words o f
  obtain ⟨f',hbatch,hwords⟩ := words_putKeysBatch f.size hw hs
  have hsingles := words_putKeys entries Prod.fst hw
  have hcell : ∀ x, (Gravel.dimbinPutKeysBatch ((f.size + 7) / 8) w entries).cell x =
      (entries.lookup x).getD (w.cell x) :=
    cell_putKeysBatch hs (fun x hx => w.zero_past x (by rw [hw.size]; exact hx))
  refine ⟨f',hbatch,?_,?_⟩
  · refine hwords.cell_eq hsingles (fun e => ?_)
    rw [hcell,cell_putKeys,patchKeys_lookup hs]
  · intro e he i hi
    have hnone : entries.lookup e = none := by
      rw [lookup_eq_none_iff]
      intro kv hkv
      simp only [bne_iff_ne,ne_eq]
      rintro rfl
      exact he (List.mem_map_of_mem hkv)
    rw [hwords.bytes e i hi,hcell,hnone,hw.bytes e i hi]
    rfl

/-- Five keys of one page in a key file of 20 bytes, which ends in the middle of a key. -/
theorem dense_page_exact :
    ∃ f', KeyFile.dimbinPutKeysBatch littleEndian 20 (File.empty.extend 20)
        [(1,11),(2,12),(3,13),(4,14),(9,19)] = some f' ∧ f'.cell 72 = 19 ∧ f'.cell 5 = 0 := by
  obtain ⟨f',hbatch,hcell,hother⟩ := coalesced_writes_exact littleEndian (File.empty.extend 20)
    [(1,11),(2,12),(3,13),(4,14),(9,19)] (by decide)
  exact ⟨f',hbatch,by rw [hcell]; rfl,hother 0 (by decide) 5 (by decide)⟩

end Gravel.Proofs.KeyFile
