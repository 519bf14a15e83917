import Gravel.Model.AsyncFlush
import Gravel.Model.Durability

namespace Gravel

def uringQueueDepth : Nat := 1024

/-- A request to the kernel. The data file of a bin is named by the bin. -/
inductive IoRequest where
  | write (w : QueuedWrite)
  | fsync (fd : Nat)
deriving DecidableEq

/-- `uring_io_ctx_t` with its ring: requests that are prepared, requests that the kernel has, and
completions that are not reaped yet, each with whether it failed. -/
structure UringIoCtx where
  pending : Nat
  errors : Nat
  fsyncFds : List Nat
  sq : List IoRequest
  inFlight : List IoRequest
  cq : List (IoRequest × Bool)
deriving DecidableEq

def uringIoInit : UringIoCtx := ⟨0,0,[],[],[],[]⟩

/-- An fd that finds no place among the first `URING_MAX_FDS` is dropped. -/
def uringIoTrackFd (ctx : UringIoCtx) (fd : Nat) : UringIoCtx :=
  if fd ∈ ctx.fsyncFds then ctx
  else if ctx.fsyncFds.length < uringMaxFds then { ctx with fsyncFds := ctx.fsyncFds ++ [fd] }
  else ctx

def uringIoReset (ctx : UringIoCtx) : UringIoCtx :=
  { ctx with pending := 0, errors := 0, fsyncFds := [] }

def ioUringSubmit (ctx : UringIoCtx) : UringIoCtx :=
  { ctx with sq := [], inFlight := ctx.inFlight ++ ctx.sq }

/-- The loop over the completions that are there, with the counters in `uint32_t`. -/
def reapCqes (ctx : UringIoCtx) : UringIoCtx :=
  { ctx with
    errors := (ctx.errors + (ctx.cq.filter Prod.snd).length) % 2 ^ 32
    pending := (ctx.pending + (2 ^ 32 - ctx.cq.length % 2 ^ 32)) % 2 ^ 32
    cq := [] }

def prepRequest (ctx : UringIoCtx) (r : IoRequest) : UringIoCtx :=
  { ctx with sq := ctx.sq ++ [r], pending := (ctx.pending + 1) % 2 ^ 32 }

/-- What a call on the ring still has to do. `drain` is the wait inside `uring_io_get_sqe` when
the submission queue is full; `waitCqe` and `pollReap` follow the submission in `uring_io_wait`
and `uring_io_poll`. -/
inductive IoTask where
  | write (w : QueuedWrite)
  | fsync (fd : Nat)
  | fsyncs
  | drain
  | wait
  | waitCqe
  | poll
  | pollReap
deriving DecidableEq

/-- What `uring_io_wait` or `uring_io_poll` tells its caller when it returns. -/
inductive IoReport where
  | silent
  | done
  | again
deriving DecidableEq

structure IoRing where
  ctx : UringIoCtx
  todo : List IoTask
  report : IoReport
deriving DecidableEq

def freshRing : IoRing := ⟨uringIoInit,[],.silent⟩

/-- The next piece of the current call up to the point where the kernel is looked at again; `none`
while it blocks on a completion. `io_uring_submit` and `io_uring_wait_cqe` do not fail. -/
def advanceIo (s : IoRing) : Option IoRing :=
  match s.todo with
  | [] => none
  | .write w :: rest =>
    if s.ctx.sq.length < uringQueueDepth then
      some ⟨uringIoTrackFd (prepRequest s.ctx (.write w)) w.binIdx,rest,.silent⟩
    else some ⟨ioUringSubmit s.ctx,.drain :: .write w :: rest,.silent⟩
  | .fsync fd :: rest =>
    if s.ctx.sq.length < uringQueueDepth then
      some ⟨prepRequest s.ctx (.fsync fd),rest,.silent⟩
    else some ⟨ioUringSubmit s.ctx,.drain :: .fsync fd :: rest,.silent⟩
  | .fsyncs :: rest => some ⟨s.ctx,s.ctx.fsyncFds.map .fsync ++ rest,.silent⟩
  | .drain :: rest => if s.ctx.cq = [] then none else some ⟨reapCqes s.ctx,rest,.silent⟩
  | .wait :: rest =>
    if s.ctx.pending = 0 then some ⟨s.ctx,rest,.done⟩
    else some ⟨ioUringSubmit s.ctx,.waitCqe :: rest,.silent⟩
  | .waitCqe :: rest =>
    if s.ctx.pending = 0 then some ⟨{ s.ctx with pending := 0 },rest,.done⟩
    else if s.ctx.cq = [] then none
    else some ⟨reapCqes s.ctx,.waitCqe :: rest,.silent⟩
  | .poll :: rest =>
    if s.ctx.pending = 0 then some ⟨s.ctx,rest,.done⟩
    else some ⟨ioUringSubmit s.ctx,.pollReap :: rest,.silent⟩
  -- `graveldb_flush_poll` compares the counter as an `int`
  | .pollReap :: rest =>
    some ⟨reapCqes s.ctx,rest,
      if 0 < (reapCqes s.ctx).pending ∧ (reapCqes s.ctx).pending < 2 ^ 31 then .again else .done⟩

/-- Calls on a store that use its ring, the progress of the current call, and the completion of a
request by the kernel. -/
inductive IoEvent where
  | flush (db : GravelDB)
  | flushSubmit (db : GravelDB)
  | flushPoll
  | advance
  | complete (request : Nat) (failed : Bool)

def callRing (s : IoRing) (bins : List DimBin) (last : List IoTask) : Option IoRing := do
  let (_,queue) ← submitWrites 0 bins
  return ⟨uringIoReset s.ctx,queue.map .write ++ .fsyncs :: last,.silent⟩

def stepIo (s : IoRing) : IoEvent → Option IoRing
  | .flush db =>
    if s.todo ≠ [] then none
    else if db.bins = [] then some { s with report := .silent }
    else callRing s (db.bins.map flushKeyPhase) [.wait]
  | .flushSubmit db =>
    if s.todo ≠ [] then none
    else if db.bins = [] then some { s with report := .silent }
    else callRing s (db.bins.map submitKeyPhase) []
  | .flushPoll => if s.todo ≠ [] then none else some { s with todo := [.poll], report := .silent }
  | .advance => advanceIo s
  | .complete request failed => do
    let r ← s.ctx.inFlight[request]?
    return ⟨{ s.ctx with
      inFlight := s.ctx.inFlight.eraseIdx request
      cq := s.ctx.cq ++ [(r,failed)] },s.todo,.silent⟩

end Gravel
