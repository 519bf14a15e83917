import Gravel.Model.Dump

namespace Gravel.Proofs.DumpFormat
open Wire List

section Words

variable {rest : List UInt8}

@[simp] theorem length_wirePutU32 (v : UInt32) : (wirePutU32 v).length = 4 := length_putLE 4 _

@[simp] theorem length_wirePutU64 (v : UInt64) : (wirePutU64 v).length = 8 := length_putLE 8 _

@[simp] theorem wireGetU32_put (v : UInt32) (rest : List UInt8) :
    wireGetU32 (wirePutU32 v ++ rest) = v := by
  rw [wireGetU32,take_left' (length_wirePutU32 v),wirePutU32,
    getLE_putLE_of_lt (by simpa using v.toNat_lt),UInt32.ofNat_toNat]

@[simp] theorem wireGetU64_put (v : UInt64) (rest : List UInt8) :
    wireGetU64 (wirePutU64 v ++ rest) = v := by
  rw [wireGetU64,take_left' (length_wirePutU64 v),wirePutU64,
    getLE_putLE_of_lt (by simpa using v.toNat_lt),UInt64.ofNat_toNat]

@[simp] theorem wireGetU32_bare (v : UInt32) : wireGetU32 (wirePutU32 v) = v := by
  have hput := wireGetU32_put v []
  rwa [append_nil] at hput

@[simp] theorem wireGetU64_bare (v : UInt64) : wireGetU64 (wirePutU64 v) = v := by
  have hput := wireGetU64_put v []
  rwa [append_nil] at hput

theorem wireGetU32_key (f : UInt64) : wireGetU32 (wirePutU64 f) = f.toUInt32 := by
  rw [wireGetU32,wirePutU64,take_putLE 4 8 _ (by decide),getLE_putLE]
  apply UInt32.toNat_inj.mp
  rw [UInt32.toNat_ofNat',UInt64.toNat_toUInt32]
  omega

theorem drop_put {front : List UInt8} {n k : Nat} (h : front.length = k) (hk : k ≤ n) :
    (front ++ rest).drop n = rest.drop (n - k) := by
  rw [drop_append,drop_eq_nil_of_le (by omega),nil_append,h]

theorem drop_u32 (v : UInt32) {n : Nat} (h : 4 ≤ n) :
    (wirePutU32 v ++ rest).drop n = rest.drop (n - 4) := drop_put (length_wirePutU32 v) h

theorem drop_u64 (v : UInt64) {n : Nat} (h : 8 ≤ n) :
    (wirePutU64 v ++ rest).drop n = rest.drop (n - 8) := drop_put (length_wirePutU64 v) h

end Words

section Header

variable {info : DumpInfo} {rest : List UInt8}

@[simp] theorem length_encodeHdr (h : CkptExportHdr) :
    (wireEncodeCkptExportHdr h).length = wireCkptExportHdrSize := by
  simp [wireEncodeCkptExportHdr,wireCkptExportHdrSize]

theorem decode_encodeHdr (h : CkptExportHdr) :
    wireDecodeCkptExportHdr (wireEncodeCkptExportHdr h) = h := by
  unfold wireDecodeCkptExportHdr wireEncodeCkptExportHdr
  simp [drop_u32,drop_u64]

def DumpInfo.parsed (info : DumpInfo) : CkptDumpHeader :=
  ⟨info.generation,info.baseGen,0,info.dim,info.entrySize,info.type.api.toNat⟩

theorem parse_header {σ : Type} (emit : σ → CkptEntry → σ × Int) (ctx : σ) :
    graveldbCkptParse (exportHeader info ++ rest) emit ctx =
      (some (DumpInfo.parsed info),parseEntries info.dim info.entrySize emit
        (wireCkptExportHdrSize + rest.length) rest ctx) := by
  have hlen : (exportHeader info).length = wireCkptExportHdrSize := length_encodeHdr _
  have hdecode : wireDecodeCkptExportHdr (exportHeader info) = _ := decode_encodeHdr _
  have htype : intOfWire (info.type.api + 1) - 1 = info.type.api.toNat := by
    cases info.type <;> rfl
  simp only [graveldbCkptParse,take_left' hlen,drop_left' hlen,hdecode,hlen,
    length_append,ne_eq,not_true_eq_false,or_self,if_false,htype]
  rfl

end Header

section Entries

variable {σ : Type} {dim entrySize : UInt32} {emit : σ → CkptEntry → σ × Int} {ctx : σ}
  {e : DumpEntry} {entries : List DumpEntry} {rest : List UInt8} {fuel n : Nat}

def DumpEntry.emitted (dim : UInt32) (e : DumpEntry) : CkptEntry := ⟨e.featId,e.embedding,dim⟩

theorem take_entry (e : DumpEntry) (rest : List UInt8) :
    (exportEntry e ++ rest).take 8 = wirePutU64 e.featId ∧
      (exportEntry e ++ rest).drop 8 = e.embedding ++ rest := by
  rw [exportEntry,append_assoc]
  exact ⟨take_left' (length_wirePutU64 _),drop_left' (length_wirePutU64 _)⟩

theorem parse_stops (h : e.featId.toUInt32 = ckptExportMagic) :
    parseEntries dim entrySize emit (fuel + 1) (exportEntry e ++ rest) ctx =
      (ctx,.status .ok) := by
  obtain ⟨htake,_⟩ := take_entry e rest
  simp [parseEntries,htake,wireGetU32_key,h]

theorem parse_entry (h : e.featId.toUInt32 ≠ ckptExportMagic)
    (hlen : e.embedding.length = entrySize.toNat)
    (hemit : (emit ctx (DumpEntry.emitted dim e)).2 = 0) :
    parseEntries dim entrySize emit (fuel + 1) (exportEntry e ++ rest) ctx =
      parseEntries dim entrySize emit fuel rest (emit ctx (DumpEntry.emitted dim e)).1 := by
  obtain ⟨htake,hdrop⟩ := take_entry e rest
  rw [DumpEntry.emitted] at hemit ⊢
  simp only [parseEntries,htake,hdrop,length_wirePutU64,Nat.lt_irrefl,if_false,wireGetU32_key,h,
    take_left' hlen,drop_left' hlen,hlen,ne_eq,not_true_eq_false,wireGetU64_bare,hemit]

theorem parse_trailer :
    parseEntries dim entrySize emit (fuel + 1) (exportTrailer n) ctx = (ctx,.status .ok) := by
  have hlen : ((exportTrailer n).take 8).length = 8 := by
    simp [exportTrailer]
  have hmagic : wireGetU32 ((exportTrailer n).take 8) = ckptExportMagic := by
    rw [exportTrailer,take_append,take_of_length_le (by simp),wireGetU32_put]
  simp only [parseEntries,hlen,Nat.lt_irrefl,if_false,hmagic,if_true]

theorem parse_entries (hkeys : ∀ e ∈ entries, e.featId.toUInt32 ≠ ckptExportMagic)
    (hlen : ∀ e ∈ entries, e.embedding.length = entrySize.toNat)
    (hemit : ∀ ctx e, (emit ctx e).2 = 0) (fuel : Nat) (ctx : σ) :
    parseEntries dim entrySize emit (fuel + entries.length)
        (entries.flatMap exportEntry ++ rest) ctx =
      parseEntries dim entrySize emit fuel rest
        (entries.foldl (fun ctx e => (emit ctx (DumpEntry.emitted dim e)).1) ctx) := by
  induction entries generalizing ctx with
  | nil => rw [flatMap_nil,nil_append,length_nil,Nat.add_zero,foldl_nil]
  | cons e entries ih =>
    rw [flatMap_cons,append_assoc,length_cons,← Nat.add_assoc,
      parse_entry (hkeys e mem_cons_self) (hlen e mem_cons_self) (hemit _ _)]
    exact ih (fun x hx => hkeys x (mem_cons_of_mem e hx))
      (fun x hx => hlen x (mem_cons_of_mem e hx)) _

theorem length_entries (entries : List DumpEntry) :
    entries.length ≤ (entries.flatMap exportEntry).length := by
  induction entries with
  | nil => exact Nat.le_refl _
  | cons e entries ih =>
    have hone : 8 ≤ (exportEntry e).length := by simp [exportEntry]
    rw [flatMap_cons,length_append,length_cons]
    omega

end Entries

/-- Parsing a dump hands its header and its entries, in order, to every callback that always
goes on. -/
def RoundTrips (info : DumpInfo) (entries : List DumpEntry) : Prop :=
  ∀ (σ : Type) (emit : σ → CkptEntry → σ × Int) (ctx : σ), (∀ ctx e, (emit ctx e).2 = 0) →
    graveldbCkptParse (exportDump info entries) emit ctx =
      (some (DumpInfo.parsed info),
        entries.foldl (fun ctx e => (emit ctx (DumpEntry.emitted info.dim e)).1) ctx,.status .ok)

section RoundTrip

variable {info : DumpInfo} {entries : List DumpEntry}

theorem parse_dump (info : DumpInfo) (entries : List DumpEntry) {σ : Type}
    (emit : σ → CkptEntry → σ × Int) (ctx : σ) :
    ∃ fuel, graveldbCkptParse (exportDump info entries) emit ctx =
      (some (DumpInfo.parsed info),parseEntries info.dim info.entrySize emit
        (fuel + 1 + entries.length)
        (entries.flatMap exportEntry ++ exportTrailer entries.length) ctx) := by
  have hle := length_entries entries
  obtain ⟨fuel,hfuel⟩ := Nat.exists_eq_add_of_le (show entries.length + 1 ≤
    wireCkptExportHdrSize + (entries.flatMap exportEntry ++ exportTrailer entries.length).length by
      rw [length_append,wireCkptExportHdrSize]
      omega)
  refine ⟨fuel,?_⟩
  rw [exportDump,append_assoc,parse_header,hfuel]
  congr 2
  omega

theorem roundTrips_of_keys (hlen : ∀ e ∈ entries, e.embedding.length = info.entrySize.toNat)
    (hkeys : ∀ e ∈ entries, e.featId.toUInt32 ≠ ckptExportMagic) : RoundTrips info entries := by
  intro σ emit ctx hemit
  obtain ⟨fuel,hparse⟩ := parse_dump info entries emit ctx
  rw [hparse,parse_entries hkeys hlen hemit,parse_trailer]

theorem parse_cut {before after : List DumpEntry} {e : DumpEntry}
    (hlen : ∀ e ∈ before, e.embedding.length = info.entrySize.toNat)
    (hkeys : ∀ e ∈ before, e.featId.toUInt32 ≠ ckptExportMagic)
    (he : e.featId.toUInt32 = ckptExportMagic) {σ : Type} (emit : σ → CkptEntry → σ × Int)
    (hemit : ∀ ctx e, (emit ctx e).2 = 0) (ctx : σ) :
    graveldbCkptParse (exportDump info (before ++ e :: after)) emit ctx =
      (some (DumpInfo.parsed info),
        before.foldl (fun ctx e => (emit ctx (DumpEntry.emitted info.dim e)).1) ctx,
        .status .ok) := by
  obtain ⟨fuel,hparse⟩ := parse_dump info (before ++ e :: after) emit ctx
  have hfuel : fuel + 1 + (before ++ e :: after).length =
      fuel + 1 + after.length + 1 + before.length := by
    rw [length_append,length_cons]
    omega
  rw [hparse,hfuel,flatMap_append,flatMap_cons,append_assoc,
    parse_entries hkeys hlen hemit,append_assoc,parse_stops he]

/-- A dump is read back as it was written exactly when no key has the magic number as its low
half. -/
theorem dump_roundTrips_iff (info : DumpInfo) (entries : List DumpEntry)
    (hlen : ∀ e ∈ entries, e.embedding.length = info.entrySize.toNat) :
    RoundTrips info entries ↔ ∀ e ∈ entries, e.featId.toUInt32 ≠ ckptExportMagic := by
  refine ⟨?_,roundTrips_of_keys hlen⟩
  intro hround
  by_contra hbad
  push Not at hbad
  obtain ⟨bad,hmem,hmagic⟩ := hbad
  obtain ⟨e,hfind⟩ : ∃ e, entries.find? (fun e => e.featId.toUInt32 = ckptExportMagic) = some e :=
    Option.isSome_iff_exists.mp (find?_isSome.mpr ⟨bad,hmem,decide_eq_true hmagic⟩)
  obtain ⟨he,before,after,rfl,hbefore⟩ := find?_eq_some_iff_append.mp hfind
  -- A callback that counts sees fewer entries than were written.
  have hcount := hround Nat (fun n _ => (n + 1,0)) 0 (fun _ _ => rfl)
  rw [parse_cut (fun x hx => hlen x (mem_append_left _ hx))
    (fun x hx => by simpa using hbefore x hx) (of_decide_eq_true he) _ (fun _ _ => rfl)] at hcount
  have hfold : ∀ (l : List DumpEntry) (n : Nat), l.foldl (fun n _ => n + 1) n = n + l.length := by
    intro l
    induction l with
    | nil => exact fun n => rfl
    | cons x l ih =>
      intro n
      rw [foldl_cons,ih,length_cons]
      omega
  simp only [Prod.mk.injEq,hfold,length_append,length_cons] at hcount
  omega

/-- Two keys of a bin of one-float vectors. -/
theorem two_keys_roundTrip : RoundTrips ⟨.full,3,1,4,0⟩ [⟨7,[1,2,3,4]⟩,⟨9,[5,6,7,8]⟩] :=
  (dump_roundTrips_iff _ _ (by decide)).mpr (by decide)

/-- The key `0x434B4558` itself is read as the trailer: its entry is lost and the parser reports
success. -/
theorem magic_key_is_lost :
    graveldbCkptParse (exportDump ⟨.full,3,1,4,0⟩ [⟨0x434B4558,[1,2,3,4]⟩])
        (fun (l : List CkptEntry) e => (l ++ [e],0)) [] =
      (some (DumpInfo.parsed ⟨.full,3,1,4,0⟩),[],.status .ok) ∧
    ¬ RoundTrips ⟨.full,3,1,4,0⟩ [⟨0x434B4558,[1,2,3,4]⟩] := by
  have hparse : graveldbCkptParse (exportDump ⟨.full,3,1,4,0⟩ [⟨0x434B4558,[1,2,3,4]⟩])
        (fun (l : List CkptEntry) e => (l ++ [e],0)) [] =
      (some (DumpInfo.parsed ⟨.full,3,1,4,0⟩),[],.status .ok) := by decide +kernel
  refine ⟨hparse,?_⟩
  intro hround
  have := hround (List CkptEntry) (fun l e => (l ++ [e],0)) [] (fun _ _ => rfl)
  rw [hparse] at this
  simp at this

end RoundTrip

end Gravel.Proofs.DumpFormat
