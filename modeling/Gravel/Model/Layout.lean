import Gravel.Model.Store

namespace Gravel

/-- Page layout of a bin as `dimbin_init` stores it; `entries_per_page` is an `int`. -/
structure BinLayout where
  pageSize : Nat
  entrySize : Nat
  entriesPerPage : Int
deriving DecidableEq

def pageSizeDefault : Nat := 4096

/-- `align_up(dim * sizeof(float), entry_align)`, where `dim` is converted to `size_t`. -/
def entryBytes (dim : Int) (entryAlign : UInt32) : Nat :=
  alignUp (dim * 4 % 2 ^ 64).toNat entryAlign.toNat

/-- The layout part of `dimbin_init` for any `int`. `none` when `page_size / entry_size` or the
later `buffer_size / page_size` divides by zero. -/
def dimbinLayout (dim : Int) (entryAlign pageSize : UInt32) : Option BinLayout :=
  let ps := if pageSize = 0 then pageSizeDefault else pageSize.toNat
  let es := entryBytes dim entryAlign
  if es = 0 then none
  else
    -- The quotient is a `size_t` that is stored in an `int`.
    let epp := Int.bmod (ps / es : Nat) (2 ^ 32)
    if epp = 0 then
      let ps := es % 2 ^ 32
      if ps = 0 then none else some ⟨ps,es,1⟩
    else some ⟨ps,es,epp⟩

/-- What `statvfs` reports for the data directory and, if that is a block device, the device for
`BLKPBSZGET`; `none` when there is no answer. -/
structure BlockSizes where
  frsize : Option UInt64
  physSz : Option UInt32

/-- `detected` before it is clamped. The size of the file system is cut to 32 bits. -/
def reportedSize (b : BlockSizes) : Nat :=
  let detected := match b.frsize with
    | some frsize => frsize.toNat % 2 ^ 32
    | none => 0
  match b.physSz with
  | some phys => if 0 < phys then phys.toNat else detected
  | none => detected

def detectPageSize (b : BlockSizes) : UInt32 :=
  let detected := reportedSize b
  if detected = 0 then UInt32.ofNat pageSizeDefault
  else
    let detected := if detected < 512 then 512 else detected
    let detected := if 65536 < detected then 65536 else detected
    UInt32.ofNat (doubleUntil detected 17 1)

def resolvedPageSize (config : GravelDBConfig) (b : BlockSizes) : UInt32 :=
  if config.pageSize = 0 then detectPageSize b else config.pageSize

def layoutAtOpen (config : GravelDBConfig) (dim : Int) : Option BinLayout :=
  dimbinLayout dim config.entryAlign config.pageSize

/-- The layout of a bin that `create_and_register_bin` makes, from the resolved configuration. -/
def layoutOnDemand (config : GravelDBConfig) (b : BlockSizes) (dim : Int) : Option BinLayout :=
  dimbinLayout dim config.entryAlign (resolvedPageSize config b)

end Gravel
