import Gravel.Model.AsyncFlush
import Gravel.Model.Checkpoint
import Gravel.Model.Server

namespace Gravel

/-- A record of a push as `graveldb_batch_put` gets it. The bytes that follow its vector in the
body are read as zero. -/
def putItemOf (r : PushRecord) : PutItem :=
  ⟨r.featId,r.dim,some (fun p => r.emb.getD p 0)⟩

def graveldbFlushNeeded (db : GravelDB) : Bool := db.bins.any DimBin.flushNeeded

def pullRecordOf (res : GetResult) : PullRecord :=
  ⟨UInt32.ofNat res.dim,(List.range ((UInt32.ofNat res.dim).toNat * 4)).map res.out,by simp⟩

def pullLookup (db : GravelDB) (featId : UInt64) : PullRecord :=
  match graveldbBatchGet db (fun _ => 0) [⟨featId,some (fun _ => 0)⟩] with
  | some (_,res :: _) => pullRecordOf res
  | _ => ⟨0,[],List.length_nil⟩

/-- The store as the server calls it. The page writes that a submitted flush leaves in the ring are
not part of the state. -/
def storeEngine (useUring : Bool) (stats : GravelDB → List UInt8) : Engine GravelDB where
  batchPut db records := graveldbBatchPut db (records.map putItemOf)
  batchDelete := graveldbBatchDelete
  flushNeeded := graveldbFlushNeeded
  flushSubmit db := (graveldbFlushSubmit useUring db).map Prod.fst
  checkpoint := graveldbCheckpoint
  stats := stats
  lookup := pullLookup

end Gravel
