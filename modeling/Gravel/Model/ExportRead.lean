import Gravel.Model.Export

namespace Gravel

inductive OpenMode where
  | readOnly
  | writeOnly
  | readWrite
deriving DecidableEq

/-- `pread` on a regular file. `none` is `-1`, which a descriptor that is not open for reading
always gives. -/
def pread (mode : OpenMode) (file : List UInt8) (len offset : Nat) : Option (List UInt8) :=
  match mode with
  | .writeOnly => none
  | .readOnly | .readWrite => some ((file.drop offset).take (min len maxRwCount))

/-- What `GravelDBCkptExport` keeps behind `graveldb_ckpt_export_end`: the open dump file, the
bytes written to it and the read cursor. -/
structure EndedExport where
  dumpFd : OpenMode
  file : List UInt8
  dumpSize : Nat
  readCursor : Nat
deriving DecidableEq

/-- `graveldb_ckpt_export_begin` opens the dump file with `O_WRONLY | O_CREAT | O_TRUNC`. -/
def dumpOpenMode : OpenMode := .writeOnly

/-- `graveldb_ckpt_export_end` of an export that wrote its header. The descriptor of
`graveldb_ckpt_export_begin` stays open; `dump_size` was counted with every write. -/
def graveldbCkptExportEnd (bin : DimBin) (exp : CkptExport) : EndedExport where
  dumpFd := dumpOpenMode
  file := exportFile bin exp
  dumpSize := wireCkptExportHdrSize + exp.dump.length * (8 + bin.geom.entrySize) + 12
  readCursor := 0

def graveldbCkptExportSize (e : EndedExport) : Nat := e.dumpSize

def graveldbCkptExportRead (e : EndedExport) (len : Nat) : EndedExport × Option (List UInt8) :=
  if len = 0 then (e,none)
  else
    match pread e.dumpFd e.file len e.readCursor with
    | none => (e,none)
    | some bytes => ({ e with readCursor := e.readCursor + bytes.length },some bytes)

def graveldbCkptExportReadReset (e : EndedExport) : EndedExport := { e with readCursor := 0 }

/-- A call of the read interface; a read asks for at least one byte. -/
inductive ReadCall where
  | read (len : Nat) (pos : 0 < len)
  | reset

end Gravel
