import Gravel.Model.AsyncFlush
import Gravel.Model.Checkpoint

namespace Gravel

/-- Calls of a client, and `land`: the kernel performs a write that an asynchronous flush queued. -/
inductive StoreOp where
  | put (items : List PutItem)
  | delete (featIds : List UInt64)
  | get (junk : Nat → UInt8) (reqs : List GetRequest)
  | flush
  | flushSubmit (useUring : Bool)
  | land (flush write : Nat)
  | flushPoll (flush : Nat)
  | checkpoint
  | checkpointStep (maxPagesPerStep : UInt32)

inductive Answer where
  | done
  | status (rc : Status)
  | found (results : List GetResult)

/-- An open store and the asynchronous flushes that the client has submitted. -/
structure Session where
  db : GravelDB
  flushes : List (Option AsyncFlush)

def landQueued (s : Session) (flush write : Nat) : Option Session :=
  match s.flushes[flush]? with
  | some (some f) =>
    match f.pending[write]? with
    | some w => do
      let db ← landWrite s.db w
      return ⟨db,s.flushes.set flush (some ⟨f.pending.eraseIdx write⟩)⟩
    | none => some s
  | _ => some s

def applyOp (s : Session) : StoreOp → Option (Session × Answer)
  | .put items => do
    let (db,rc) ← graveldbBatchPut s.db items
    return ({ s with db := db },.status rc)
  | .delete featIds => do
    let db ← graveldbBatchDelete s.db featIds
    return ({ s with db := db },.done)
  | .get junk reqs => do
    let (db,results) ← graveldbBatchGet s.db junk reqs
    return ({ s with db := db },.found results)
  | .flush => do
    let db ← graveldbFlush s.db
    return ({ s with db := db },.done)
  | .flushSubmit useUring => do
    let (db,f) ← graveldbFlushSubmit useUring s.db
    return (⟨db,s.flushes ++ [f]⟩,.done)
  | .land flush write => do
    let s ← landQueued s flush write
    return (s,.done)
  | .flushPoll flush => do
    let (db,f,rc) ← graveldbFlushPoll s.db (s.flushes.getD flush none)
    return (⟨db,s.flushes.set flush f⟩,.status rc)
  | .checkpoint => do
    let db ← graveldbCheckpoint s.db
    return ({ s with db := db },.done)
  | .checkpointStep maxPagesPerStep => do
    let db ← graveldbCheckpointStep s.db maxPagesPerStep
    return ({ s with db := db },.done)

def stepSession (s : Session) (op : StoreOp) : Option Session := (applyOp s op).map Prod.fst

end Gravel
