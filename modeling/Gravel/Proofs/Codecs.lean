import Gravel.Model.Codec
import Gravel.Proofs.DeltaReplay

namespace Gravel.Proofs.Codecs
open Wire DumpFormat List

structure Bijective {α : Type} (size : Nat) (encode : List UInt8 → α → List UInt8)
    (decode : List UInt8 → α) : Prop where
  decode_encode : ∀ buf x, buf.length = size → decode (encode buf x) = x
  encode_decode : ∀ buf bytes, buf.length = size → bytes.length = size →
    encode buf (decode bytes) = bytes

section Words

variable {buf : List UInt8}

theorem wirePutU32_get (h : 4 ≤ buf.length) : wirePutU32 (wireGetU32 buf) = buf.take 4 := by
  obtain ⟨hput,hlt⟩ := putLE_getLE_take h
  rw [wirePutU32,wireGetU32,UInt32.toNat_ofNat_of_lt' (by simpa using hlt),hput]

theorem wirePutU64_get (h : 8 ≤ buf.length) : wirePutU64 (wireGetU64 buf) = buf.take 8 := by
  obtain ⟨hput,hlt⟩ := putLE_getLE_take h
  rw [wirePutU64,wireGetU64,UInt64.toNat_ofNat_of_lt' (by simpa using hlt),hput]

theorem wirePutU32Shift_eq (v : UInt32) : wirePutU32Shift v = wirePutU32 v := by
  simp only [wirePutU32Shift,wirePutU32,putLE,List.cons.injEq,and_true]
  refine ⟨?_,?_,?_,?_⟩ <;>
  · apply UInt8.toNat_inj.mp
    simp [Nat.shiftRight_eq_div_pow,Nat.div_div_eq_div_mul]

theorem wirePutU64Shift_eq (v : UInt64) : wirePutU64Shift v = wirePutU64 v := by
  simp only [wirePutU64Shift,wirePutU64,putLE,List.cons.injEq,and_true]
  refine ⟨?_,?_,?_,?_,?_,?_,?_,?_⟩ <;>
  · apply UInt8.toNat_inj.mp
    simp [Nat.shiftRight_eq_div_pow,Nat.div_div_eq_div_mul]

theorem wireGetU32Shift_eq (h : 4 ≤ buf.length) : wireGetU32Shift buf = wireGetU32 buf := by
  match buf,h with
  | b0 :: b1 :: b2 :: b3 :: rest,_ =>
    have hlt : getLE [b0,b1,b2,b3] < 2 ^ 32 := by simpa using getLE_lt [b0,b1,b2,b3]
    obtain ⟨e1,l1⟩ := or_byte b1 b0.toNat_lt (show 8 + 8 ≤ 32 by decide)
    obtain ⟨e2,l2⟩ := or_byte b2 l1 (show 16 + 8 ≤ 32 by decide)
    obtain ⟨e3,_⟩ := or_byte b3 l2 (show 24 + 8 ≤ 32 by decide)
    apply UInt32.toNat_inj.mp
    calc _ = b0.toNat ||| b1.toNat <<< 8 % 2 ^ 32 ||| b2.toNat <<< 16 % 2 ^ 32 |||
          b3.toNat <<< 24 % 2 ^ 32 := by
          simp only [wireGetU32Shift,getD_cons_zero,getD_cons_succ,UInt32.toNat_or]
          rfl
      _ = getLE [b0,b1,b2,b3] := by
          rw [e1,e2,e3]
          simp only [getLE]
          omega
      _ = _ := (UInt32.toNat_ofNat_of_lt' hlt).symm

theorem wireGetU64Shift_eq (h : 8 ≤ buf.length) : wireGetU64Shift buf = wireGetU64 buf := by
  match buf,h with
  | b0 :: b1 :: b2 :: b3 :: b4 :: b5 :: b6 :: b7 :: rest,_ =>
    have hlt : getLE [b0,b1,b2,b3,b4,b5,b6,b7] < 2 ^ 64 := by
      simpa using getLE_lt [b0,b1,b2,b3,b4,b5,b6,b7]
    obtain ⟨e1,l1⟩ := or_byte b1 b0.toNat_lt (show 8 + 8 ≤ 64 by decide)
    obtain ⟨e2,l2⟩ := or_byte b2 l1 (show 16 + 8 ≤ 64 by decide)
    obtain ⟨e3,l3⟩ := or_byte b3 l2 (show 24 + 8 ≤ 64 by decide)
    obtain ⟨e4,l4⟩ := or_byte b4 l3 (show 32 + 8 ≤ 64 by decide)
    obtain ⟨e5,l5⟩ := or_byte b5 l4 (show 40 + 8 ≤ 64 by decide)
    obtain ⟨e6,l6⟩ := or_byte b6 l5 (show 48 + 8 ≤ 64 by decide)
    obtain ⟨e7,_⟩ := or_byte b7 l6 (show 56 + 8 ≤ 64 by decide)
    apply UInt64.toNat_inj.mp
    calc _ = b0.toNat ||| b1.toNat <<< 8 % 2 ^ 64 ||| b2.toNat <<< 16 % 2 ^ 64 |||
          b3.toNat <<< 24 % 2 ^ 64 ||| b4.toNat <<< 32 % 2 ^ 64 ||| b5.toNat <<< 40 % 2 ^ 64 |||
          b6.toNat <<< 48 % 2 ^ 64 ||| b7.toNat <<< 56 % 2 ^ 64 := by
          simp only [wireGetU64Shift,getD_cons_zero,getD_cons_succ,UInt64.toNat_or]
          rfl
      _ = getLE [b0,b1,b2,b3,b4,b5,b6,b7] := by
          rw [e1,e2,e3,e4,e5,e6,e7]
          simp only [getLE]
          omega
      _ = _ := (UInt64.toNat_ofNat_of_lt' hlt).symm

end Words

section Formats

variable {buf : List UInt8}

theorem encodeMeta_eq (h : buf.length = wireMetaSize) (m : BinMeta) : wireEncodeMeta buf m =
    wirePutU32 m.magic ++ (wirePutU64 m.generation ++ wirePutU32 m.checksum) := by
  have hlen : buf.length = 16 := h
  rw [wireEncodeMeta,storeAll_tiles _ 0 buf (by simp [Tiles]) (by simp [hlen])]
  simp

theorem encodeDeltaHdr_eq (h : buf.length = wireDeltaHdrSize) (hdr : DeltaHeader) :
    wireEncodeDeltaHdrInto buf hdr = wireEncodeDeltaHdr hdr := by
  have hlen : buf.length = 40 := h
  rw [wireEncodeDeltaHdrInto,storeAll_tiles _ 0 buf (by simp [Tiles]) (by simp [hlen])]
  simp [wireEncodeDeltaHdr]

theorem encodeDeltaEntry_eq (h : buf.length = wireDeltaEntrySize) (e : DeltaEntry) :
    wireEncodeDeltaEntryInto buf e = wireEncodeDeltaEntry e.pgStart e.pgCount := by
  have hlen : buf.length = 8 := h
  rw [wireEncodeDeltaEntryInto,storeAll_tiles _ 0 buf (by simp [Tiles]) (by simp [hlen])]
  simp [wireEncodeDeltaEntry]

theorem encodeExportHdr_eq (h : buf.length = wireCkptExportHdrSize) (hdr : CkptExportHdr) :
    wireEncodeCkptExportHdrInto buf hdr = wireEncodeCkptExportHdr hdr := by
  have hlen : buf.length = 48 := h
  rw [wireEncodeCkptExportHdrInto,storeAll_tiles _ 0 buf (by simp [Tiles]) (by simp [hlen])]
  simp [wireEncodeCkptExportHdr]

theorem u32_field (bytes : List UInt8) (n : Nat) (h : n + 4 ≤ bytes.length) :
    wirePutU32 (wireGetU32 (bytes.drop n)) ++ bytes.drop (n + 4) = bytes.drop n := by
  rw [wirePutU32_get (by rw [length_drop]; omega),← drop_drop,take_append_drop]

theorem u64_field (bytes : List UInt8) (n : Nat) (h : n + 8 ≤ bytes.length) :
    wirePutU64 (wireGetU64 (bytes.drop n)) ++ bytes.drop (n + 8) = bytes.drop n := by
  rw [wirePutU64_get (by rw [length_drop]; omega),← drop_drop,take_append_drop]

theorem first_field {bytes : List UInt8} (h : 4 ≤ bytes.length) :
    wirePutU32 (wireGetU32 bytes) ++ bytes.drop 4 = bytes := u32_field bytes 0 (by omega)

theorem last_field {bytes : List UInt8} {n : Nat} (h : bytes.length = n + 4) :
    wirePutU32 (wireGetU32 (bytes.drop n)) = bytes.drop n := by
  have hlast := u32_field bytes n (by omega)
  have hend : bytes.drop (n + 4) = [] := drop_eq_nil_of_le (by omega)
  rwa [hend,append_nil] at hlast

theorem meta_bijective : Bijective wireMetaSize wireEncodeMeta wireDecodeMeta := by
  refine ⟨?_,?_⟩
  · intro buf m hbuf
    rw [encodeMeta_eq hbuf]
    simp [wireDecodeMeta,drop_u32]
  · intro buf bytes hbuf hbytes
    have hlen : bytes.length = 12 + 4 := hbytes
    rw [encodeMeta_eq hbuf]
    simp only [wireDecodeMeta]
    rw [last_field hlen,u64_field bytes 4 (by omega),first_field (by omega)]

theorem deltaEntry_bijective :
    Bijective wireDeltaEntrySize wireEncodeDeltaEntryInto wireDecodeDeltaEntry := by
  refine ⟨?_,?_⟩
  · intro buf e hbuf
    rw [encodeDeltaEntry_eq hbuf]
    simp [wireDecodeDeltaEntry,wireEncodeDeltaEntry]
  · intro buf bytes hbuf hbytes
    have hlen : bytes.length = 4 + 4 := hbytes
    rw [encodeDeltaEntry_eq hbuf]
    simp only [wireDecodeDeltaEntry,wireEncodeDeltaEntry]
    rw [last_field hlen,first_field (by omega)]

theorem deltaHdr_bijective :
    Bijective wireDeltaHdrSize wireEncodeDeltaHdrInto wireDecodeDeltaHdr := by
  refine ⟨?_,?_⟩
  · intro buf hdr hbuf
    rw [encodeDeltaHdr_eq hbuf,DeltaReplay.decode_encodeDeltaHdr]
  · intro buf bytes hbuf hbytes
    have hlen : bytes.length = 36 + 4 := hbytes
    rw [encodeDeltaHdr_eq hbuf]
    simp only [wireDecodeDeltaHdr,wireEncodeDeltaHdr,append_assoc]
    rw [last_field hlen,u32_field bytes 32 (by omega),u64_field bytes 24 (by omega),
      u32_field bytes 20 (by omega),u32_field bytes 16 (by omega),u64_field bytes 8 (by omega),
      u32_field bytes 4 (by omega),first_field (by omega)]

theorem exportHdr_bijective :
    Bijective wireCkptExportHdrSize wireEncodeCkptExportHdrInto wireDecodeCkptExportHdr := by
  refine ⟨?_,?_⟩
  · intro buf hdr hbuf
    rw [encodeExportHdr_eq hbuf,decode_encodeHdr]
  · intro buf bytes hbuf hbytes
    have hlen : bytes.length = 44 + 4 := hbytes
    rw [encodeExportHdr_eq hbuf]
    simp only [wireDecodeCkptExportHdr,wireEncodeCkptExportHdr,append_assoc]
    rw [last_field hlen,u64_field bytes 36 (by omega),u64_field bytes 28 (by omega),
      u32_field bytes 24 (by omega),u32_field bytes 20 (by omega),u64_field bytes 12 (by omega),
      u32_field bytes 8 (by omega),u32_field bytes 4 (by omega),first_field (by omega)]

end Formats

section Patches

variable {buf word : List UInt8} {hdr : DeltaHeader}

theorem wirePutU32_word (hword : word.length = 4) : wirePutU32 (wireGetU32 word) = word := by
  rw [wirePutU32_get (by omega),take_of_length_le (by omega)]

theorem patch_numEntries (hword : word.length = 4) :
    store (wireEncodeDeltaHdr hdr) 32 word =
      wireEncodeDeltaHdr { hdr with numEntries := wireGetU32 word } := by
  have hstore := store_middle (wirePutU32 hdr.magic ++ wirePutU32 hdr.version ++
    wirePutU64 hdr.generation ++ wirePutU32 hdr.dim ++ wirePutU32 hdr.entrySize ++
    wirePutU64 hdr.bumpPtr) word (wirePutU32 hdr.numEntries) (wirePutU32 hdr.checksum)
    (by rw [hword,length_wirePutU32])
  simp only [length_append,length_wirePutU32,length_wirePutU64] at hstore
  simp only [wireEncodeDeltaHdr,wirePutU32_word hword]
  exact hstore

theorem patch_checksum (hword : word.length = 4) :
    store (wireEncodeDeltaHdr hdr) 36 word =
      wireEncodeDeltaHdr { hdr with checksum := wireGetU32 word } := by
  have hstore := store_middle (wirePutU32 hdr.magic ++ wirePutU32 hdr.version ++
    wirePutU64 hdr.generation ++ wirePutU32 hdr.dim ++ wirePutU32 hdr.entrySize ++
    wirePutU64 hdr.bumpPtr ++ wirePutU32 hdr.numEntries) word (wirePutU32 hdr.checksum) []
    (by rw [hword,length_wirePutU32])
  simp only [length_append,length_wirePutU32,length_wirePutU64,append_nil] at hstore
  simp only [wireEncodeDeltaHdr,wirePutU32_word hword]
  exact hstore

end Patches

/-- Each of the four codecs is a bijection between its fields and the buffers of its size, the two
patches of `ckpt_dump_delta` change one field each, and the two variants of the word access
agree. -/
theorem codecs_bijective_patchable :
    Bijective wireMetaSize wireEncodeMeta wireDecodeMeta ∧
    Bijective wireDeltaHdrSize wireEncodeDeltaHdrInto wireDecodeDeltaHdr ∧
    Bijective wireDeltaEntrySize wireEncodeDeltaEntryInto wireDecodeDeltaEntry ∧
    Bijective wireCkptExportHdrSize wireEncodeCkptExportHdrInto wireDecodeCkptExportHdr ∧
    (∀ buf hdr word, buf.length = wireDeltaHdrSize → word.length = 4 →
      wireDecodeDeltaHdr (store (wireEncodeDeltaHdrInto buf hdr) 32 word) =
          { hdr with numEntries := wireGetU32 word } ∧
        wireDecodeDeltaHdr (store (wireEncodeDeltaHdrInto buf hdr) 36 word) =
          { hdr with checksum := wireGetU32 word }) ∧
    (∀ v, wirePutU32Shift v = wirePutU32 v) ∧ (∀ v, wirePutU64Shift v = wirePutU64 v) ∧
    (∀ buf, 4 ≤ buf.length → wireGetU32Shift buf = wireGetU32 buf) ∧
    ∀ buf, 8 ≤ buf.length → wireGetU64Shift buf = wireGetU64 buf := by
  refine ⟨meta_bijective,deltaHdr_bijective,deltaEntry_bijective,exportHdr_bijective,?_,
    wirePutU32Shift_eq,wirePutU64Shift_eq,fun _ => wireGetU32Shift_eq,fun _ => wireGetU64Shift_eq⟩
  intro buf hdr word hbuf hword
  rw [encodeDeltaHdr_eq hbuf,patch_numEntries hword,patch_checksum hword]
  exact ⟨DeltaReplay.decode_encodeDeltaHdr _,DeltaReplay.decode_encodeDeltaHdr _⟩

end Gravel.Proofs.Codecs
