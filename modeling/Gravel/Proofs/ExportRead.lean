import Gravel.Model.ExportRead
import Gravel.Model.Store
import Gravel.Proofs.DumpFormat

namespace Gravel.Proofs.ExportRead


/-- The calls deliver the dump: behind every read the bytes since the last reset are the front of
the file, and a read returns nothing exactly when the whole file was delivered before. -/
def Delivers (e : EndedExport) (got : List UInt8) : List ReadCall → Prop
  | [] => True
  | .reset :: calls => Delivers (graveldbCkptExportReadReset e) [] calls
  | .read len _ :: calls => ∃ e' bytes, graveldbCkptExportRead e len = (e',some bytes) ∧
      got ++ bytes <+: e.file ∧ (bytes = [] ↔ got.length = graveldbCkptExportSize e) ∧
      Delivers e' (got ++ bytes) calls

theorem read_writeOnly {e : EndedExport} (h : e.dumpFd = .writeOnly) (len : Nat) :
    graveldbCkptExportRead e len = (e,none) := by
  unfold graveldbCkptExportRead
  split
  · rfl
  · rw [h]
    rfl

theorem delivers_writeOnly {e : EndedExport} (h : e.dumpFd = .writeOnly) (got : List UInt8)
    (calls : List ReadCall) : Delivers e got calls ↔ ∀ c ∈ calls, c = .reset := by
  induction calls generalizing e got with
  | nil =>
    constructor
    · intro _ c hc
      cases hc
    · intro _
      trivial
  | cons call calls ih =>
    cases call with
    | reset =>
      have hrest : Delivers e got (.reset :: calls) ↔ ∀ c ∈ calls, c = .reset :=
        ih (e := graveldbCkptExportReadReset e) h []
      rw [hrest]
      simp
    | read len hlen =>
      constructor
      · rintro ⟨e',bytes,hread,_⟩
        rw [read_writeOnly h] at hread
        cases hread
      · intro hall
        cases hall (.read len hlen) List.mem_cons_self

/-- The dump file was opened for writing only, and that descriptor serves the reads: an export
delivers its dump through the read interface exactly when nobody reads. -/
theorem export_read_delivers_iff (bin : DimBin) (exp : CkptExport) (calls : List ReadCall) :
    Delivers (graveldbCkptExportEnd bin exp) [] calls ↔ ∀ c ∈ calls, c = .reset :=
  delivers_writeOnly rfl [] calls

def emptyBin : DimBin := (openBin (emptyDir 16) 1 64 4 16 0).get (by decide +kernel)

def emptyExport : CkptExport :=
  (exportUntilDone emptyBin 2 (graveldbCkptExportBegin emptyBin .full 0 0 false (fun _ => 0)
    (fun _ => 0))).get (by decide +kernel)

/-- The dump has sixty bytes, and the first read fails. -/
theorem export_read_refused :
    graveldbCkptExportSize (graveldbCkptExportEnd emptyBin emptyExport) = 60 ∧
      (graveldbCkptExportRead (graveldbCkptExportEnd emptyBin emptyExport) 4096).2 = none ∧
      ¬ Delivers (graveldbCkptExportEnd emptyBin emptyExport) [] [.read 4096 (by decide)] := by
  refine ⟨by decide +kernel,?_,?_⟩
  · rw [read_writeOnly rfl]
  · rintro ⟨e',bytes,hread,_⟩
    rw [read_writeOnly rfl] at hread
    cases hread

end Gravel.Proofs.ExportRead
