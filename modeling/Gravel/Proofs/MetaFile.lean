import Gravel.Lib.Crc
import Gravel.Proofs.Codecs

namespace Gravel.Proofs.MetaFile
open Wire Crc DumpFormat Codecs List Option Function

/-- The polynomial of `crc32_simple`, lowest power at the highest bit. -/
def crcPoly : BitVec 32 := 0xEDB88320

section Checksum

theorem crc32Bit_eq (crc : UInt32) : (crc32Bit crc).toBitVec = shift crcPoly crc.toBitVec := by
  have hmask : (0 : BitVec 32) - (crc.toBitVec &&& 1) =
      if crc.toBitVec.getLsbD 0 then BitVec.allOnes 32 else 0 := by
    have hand : crc.toBitVec &&& 1 = BitVec.setWidth 32 (BitVec.ofBool (crc.toBitVec.getLsbD 0)) :=
      BitVec.and_one_eq_setWidth_ofBool_getLsbD
    rw [hand]
    cases crc.toBitVec.getLsbD 0 <;> rfl
  have hbit : (crc32Bit crc).toBitVec =
      crc.toBitVec >>> 1 ^^^ (crcPoly &&& ((0 : BitVec 32) - (crc.toBitVec &&& 1))) := rfl
  rw [hbit,hmask,shift]
  cases crc.toBitVec.getLsbD 0 with
  | false => simp
  | true => rw [if_pos rfl,if_pos rfl,BitVec.and_allOnes]

theorem crc32Bits_eq (n : Nat) : ∀ crc : UInt32,
    (Nat.iterate crc32Bit n crc).toBitVec = (shift crcPoly)^[n] crc.toBitVec := by
  induction n with
  | zero => exact fun _ => rfl
  | succ n ih =>
    intro crc
    rw [iterate_succ_apply,ih,crc32Bit_eq,iterate_succ_apply]

theorem word_bits (l : List UInt8) : word 32 (bits l) = BitVec.ofNat 32 (getLE l) := by
  apply BitVec.eq_of_getLsbD_eq
  intro i hi
  rw [getLsbD_word,BitVec.getLsbD_ofNat,getD_eq_getElem?_getD]
  by_cases hin : i < 8 * l.length
  · rw [getElem?_bits l i hin,getD_some]
  · rw [getElem?_eq_none (by simpa using hin),testBit_getLE_of_le (by omega),
      getD_none]

theorem crc32Byte_eq (crc : UInt32) (b : UInt8) :
    (crc32Byte crc b).toBitVec = run crcPoly crc.toBitVec (bits [b]) := by
  have hword : word 32 (bits [b]) = b.toUInt32.toBitVec := by
    rw [word_bits]
    apply BitVec.eq_of_toNat_eq
    have hb := b.toNat_lt
    simp [getLE]
  rw [run_eq_iterate crcPoly _ _ (by simp),hword,length_bits,crc32Byte,crc32Bits_eq]
  rfl

theorem crc32Update_eq (data : List UInt8) : ∀ crc : UInt32,
    (crc32Update crc data).toBitVec = run crcPoly crc.toBitVec (bits data) := by
  induction data with
  | nil => exact fun _ => rfl
  | cons b data ih =>
    intro crc
    have hsplit : bits (b :: data) = bits [b] ++ bits data := bits_append [b] data
    rw [hsplit,run_append,← crc32Byte_eq]
    exact ih (crc32Byte crc b)

end Checksum

section Files

variable {buf junk bytes : List UInt8} {generation : UInt64}

def residue : BitVec 32 := (shift crcPoly)^[32] (BitVec.allOnes 32)

theorem run_checked (hlen : buf.length = wireMetaSize)
    (hcrc : wireGetU32 (buf.drop 12) = crc32Simple (buf.take 12)) :
    run crcPoly (BitVec.allOnes 32) (bits buf) = residue := by
  have hlast : (buf.drop 12).length = 4 := by
    rw [length_drop,hlen]
    rfl
  have hword : word 32 (bits (buf.drop 12)) = (wireGetU32 (buf.drop 12)).toBitVec := by
    rw [word_bits,wireGetU32,take_of_length_le (by omega)]
    rfl
  have hreg := crc32Update_eq (buf.take 12) 0xFFFFFFFF
  have hsum : (crc32Simple (buf.take 12)).toBitVec =
      ~~~ (crc32Update 0xFFFFFFFF (buf.take 12)).toBitVec := rfl
  have hsplit : bits buf = bits (buf.take 12) ++ bits (buf.drop 12) := by
    rw [← bits_append,take_append_drop]
  have hones : (0xFFFFFFFF : UInt32).toBitVec = BitVec.allOnes 32 := by decide
  have hxor (x : BitVec 32) : x ^^^ ~~~ x = BitVec.allOnes 32 := by
    ext i hi
    rw [BitVec.getElem_allOnes,BitVec.getElem_xor,BitVec.getElem_not]
    cases x[i] <;> rfl
  rw [hones] at hreg
  rw [hsplit,run_append,run_eq_iterate crcPoly _ _ (by rw [length_bits,hlast]),hword,hcrc,hsum,hreg,
    length_bits,hlast,hxor]
  rfl

theorem metaBytes_eq (junk : List UInt8) (generation : UInt64) :
    metaBytes junk generation = wireEncodeMeta junk ⟨metaMagic,generation,
      crc32Simple (wirePutU32 metaMagic ++ wirePutU64 generation)⟩ := by
  have hfirst : (store (store junk 0 (wirePutU32 metaMagic)) 4 (wirePutU64 generation)).take 12 =
      wirePutU32 metaMagic ++ wirePutU64 generation := by
    have hmagic : (store junk 0 (wirePutU32 metaMagic)).take 4 = wirePutU32 metaMagic := by
      rw [store,take_zero,nil_append,take_left' (length_wirePutU32 _)]
    rw [store,hmagic,take_left' (by simp)]
  rw [metaBytes,hfirst]
  rfl

theorem read_cases (bytes : List UInt8) (hlen : bytes.length = wireMetaSize) :
    (ckptReadMetaFile (some bytes) = .ok (wireDecodeMeta bytes) ∧
      wireGetU32 (bytes.drop 12) = crc32Simple (bytes.take 12)) ∨
    ckptReadMetaFile (some bytes) = .error .errCorrupt := by
  unfold ckptReadMetaFile
  simp only [take_of_length_le (Nat.le_of_eq hlen)]
  split_ifs with h1 h2 h3
  · exact .inr rfl
  · exact .inr rfl
  · exact .inr rfl
  · exact .inl ⟨rfl,not_not.mp h3⟩

theorem length_metaBytes (hjunk : junk.length = wireMetaSize) (generation : UInt64) :
    (metaBytes junk generation).length = wireMetaSize := by
  rw [metaBytes_eq,encodeMeta_eq hjunk]
  simp [wireMetaSize]

theorem take_metaBytes (hjunk : junk.length = wireMetaSize) (generation : UInt64) :
    (metaBytes junk generation).take 12 = wirePutU32 metaMagic ++ wirePutU64 generation := by
  rw [metaBytes_eq,encodeMeta_eq hjunk,← append_assoc,take_left' (by simp)]

theorem read_metaBytes (hjunk : junk.length = wireMetaSize) (generation : UInt64) :
    ckptReadMetaFile (some (metaBytes junk generation)) = .ok ⟨metaMagic,generation,
      crc32Simple (wirePutU32 metaMagic ++ wirePutU64 generation)⟩ := by
  have hlen := length_metaBytes hjunk generation
  have hdecode : wireDecodeMeta (metaBytes junk generation) = ⟨metaMagic,generation,
      crc32Simple (wirePutU32 metaMagic ++ wirePutU64 generation)⟩ := by
    rw [metaBytes_eq]
    exact meta_bijective.decode_encode junk _ hjunk
  simp [ckptReadMetaFile,take_of_length_le (Nat.le_of_eq hlen),hlen,hdecode,
    take_metaBytes hjunk]

end Files

/-- The meta file gives the generation back that was written into it, and a file in which up to 32
consecutive bits were changed is taken for corrupt. -/
theorem meta_file_integrity (junk : List UInt8) (generation : UInt64)
    (hjunk : junk.length = wireMetaSize) :
    (∀ calls files files',
      ckptPersistMetaFile calls files junk generation = (files',.ok) →
        ∃ m, ckptReadMetaFile files'.final = .ok m ∧ m.generation = generation) ∧
    ∀ bytes, bytes ≠ metaBytes junk generation →
      Confined 32 (bits (metaBytes junk generation)) (bits bytes) →
        ckptReadMetaFile (some bytes) = .error .errCorrupt := by
  have hlen := length_metaBytes hjunk generation
  refine ⟨?_,?_⟩
  · intro calls files files' hpersist
    have hfinal : files'.final = some (metaBytes junk generation) := by
      unfold ckptPersistMetaFile at hpersist
      simp only [take_of_length_le (Nat.le_of_eq hlen)] at hpersist
      split_ifs at hpersist <;> cases hpersist
      rfl
    rw [hfinal]
    exact ⟨_,read_metaBytes hjunk generation,rfl⟩
  · intro bytes hne hburst
    have hbytes : bytes.length = wireMetaSize := by
      have hbits := hburst.1
      simp only [length_bits] at hbits
      omega
    rcases read_cases bytes hbytes with ⟨_,hcrc⟩ | herror
    · -- Both files leave the same register behind.
      have hold := read_cases (metaBytes junk generation) hlen
      rw [read_metaBytes hjunk] at hold
      obtain ⟨_,hold⟩ := hold.resolve_right (by simp)
      have hrun : run crcPoly (BitVec.allOnes 32) (bits bytes) =
          run crcPoly (BitVec.allOnes 32) (bits (metaBytes junk generation)) := by
        rw [run_checked hbytes hcrc,run_checked hlen hold]
      exact absurd (bits_injective (burst_detected (by decide) hburst hrun)) hne
    · exact herror

/-- A meta file of generation 7 is read back, and with its last byte cleared it is refused. -/
theorem seventh_generation_kept :
    (∃ m, ckptReadMetaFile (ckptPersistMetaFile ⟨true,some 16,true,true⟩ ⟨none,none⟩
      (List.replicate 16 0) 7).1.final = .ok m ∧ m.generation = 7) ∧
    ckptReadMetaFile (some ((metaBytes (List.replicate 16 0) 7).set 15 0)) =
      .error .errCorrupt := by
  obtain ⟨hread,hburst⟩ := meta_file_integrity (List.replicate 16 0) 7 rfl
  refine ⟨hread ⟨true,some 16,true,true⟩ ⟨none,none⟩ _ rfl,hburst _ (by decide +kernel)
    ⟨by simp,96,?_⟩⟩
  have hinside : ∀ i < 96, (bits ((metaBytes (List.replicate 16 0) 7).set 15 0))[i]? =
      (bits (metaBytes (List.replicate 16 0) 7))[i]? := by decide +kernel
  rintro i (hi | hi)
  · exact hinside i hi
  · have hlen : (metaBytes (List.replicate 16 0) 7).length = 16 := length_metaBytes rfl 7
    rw [getElem?_eq_none (by rw [length_bits,length_set,hlen]; exact hi),
      getElem?_eq_none (by rw [length_bits,hlen]; exact hi)]

end Gravel.Proofs.MetaFile
