import Gravel.Model.WireProtocol

namespace Gravel
open Records

/-- The calls that the server makes to its store. A lookup that finds nothing has dim 0. -/
structure Engine (σ : Type) where
  batchPut : σ → List PushRecord → Option (σ × Status)
  batchDelete : σ → List UInt64 → Option σ
  flushNeeded : σ → Bool
  flushSubmit : σ → Option σ
  checkpoint : σ → Option σ
  stats : σ → List UInt8
  lookup : σ → UInt64 → PullRecord

/-- What `graveldb_batch_get_poll` returns. Once it is done the vectors have been copied to their
slots: first those of `order`, then the others in turn. -/
inductive Poll where
  | again
  | done (order : List Nat)

/-- How many bytes the socket takes before `writev` returns `EAGAIN`, or fails if it is broken. -/
structure Socket where
  room : Nat
  broken : Bool

structure SendChunk where
  data : List UInt8
  sent : Nat

inductive ConnAsyncState where
  | idle
  | asyncPull
  | asyncStream
deriving DecidableEq, Repr

/-- A pull on its way. `scratch` are the bytes of `chunk_scratch`, `chunk` is what the current get
looked up (its dims are `chunk_dims`), and `arena` counts the resets of the arena before its
buffers were allocated. -/
structure ConnAsyncCtx where
  state : ConnAsyncState
  featIds : List UInt64
  offset : Nat
  scratch : Nat → UInt8
  chunk : List PullRecord
  firstFrame : Bool
  arena : Nat

/-- One call of a handler, with the part of the body that is in `recv_buf`. -/
structure Handled where
  msgType : UInt32
  bodyLen : UInt32
  body : List UInt8
deriving DecidableEq

/-- One call of `arena_reset`: what the connection was at then. -/
structure ArenaReset where
  fdOpen : Bool
  state : ConnAsyncState
  queue : List SendChunk

/-- A connection. `incoming` are the bytes that are still in the socket. The last five fields are
its history. -/
structure ClientConn where
  fdOpen : Bool
  incoming : List UInt8
  recvBuf : List UInt8
  recvCap : Nat
  sendQueue : List SendChunk
  sendCur : Option (List UInt8)
  async : ConnAsyncCtx
  received : List UInt8
  handled : List Handled
  sent : List UInt8
  resets : List ArenaReset
  fault : Bool

structure GravelServerConfig where
  maxRequestSize : Nat
  readonly : Bool

structure GravelServer (σ : Type) where
  db : σ
  flushInFlight : Bool
  conn : ClientConn

def readBufSize : Nat := 16 * 1024 * 1024

def idleCtx : ConnAsyncCtx := ⟨.idle,[],0,fun _ => 0,[],false,0⟩

def clientInit (incoming : List UInt8) : ClientConn where
  fdOpen := true
  incoming := incoming
  recvBuf := []
  recvCap := readBufSize
  sendQueue := []
  sendCur := none
  async := idleCtx
  received := []
  handled := []
  sent := []
  resets := []
  fault := false

def arenaReset (c : ClientConn) : ClientConn :=
  { c with resets := c.resets ++ [⟨c.fdOpen,c.async.state,c.sendQueue⟩] }

/-- The file descriptor is closed and a get in flight is waited for before the arena goes. -/
def clientClose (c : ClientConn) : ClientConn :=
  let c := arenaReset { c with fdOpen := false, async := { c.async with state := .idle } }
  { c with recvBuf := [], sendQueue := [], sendCur := none }

def SendChunk.rest (ch : SendChunk) : List UInt8 := ch.data.drop ch.sent

/-- Takes `remaining` written bytes off the head of the send list. -/
def advanceQueue : Nat → List SendChunk → List SendChunk
  | _, [] => []
  | remaining, head :: rest =>
    if remaining = 0 then head :: rest
    else if head.rest.length ≤ remaining then advanceQueue (remaining - head.rest.length) rest
    else { head with sent := head.sent + remaining } :: rest

/-- 0, 1 and -1. -/
inductive FlushRc where
  | flushed
  | pending
  | failed
deriving DecidableEq, Repr

/-- The loop of `client_flush_send_raw`; each call of `writev` is given 64 chunks at most. It ends
before the fuel does. -/
def flushLoop : Nat → Socket → ClientConn → FlushRc × ClientConn
  | 0, _, c => (.pending,c)
  | fuel + 1, sock, c =>
    if c.sendQueue.isEmpty then (.flushed,c)
    else
      let iov := (c.sendQueue.take 64).flatMap SendChunk.rest
      if iov.length = 0 then (.failed,c)
      else if sock.room = 0 then (if sock.broken then .failed else .pending,c)
      else
        let wr := min sock.room iov.length
        flushLoop fuel { sock with room := sock.room - wr }
          { c with sendQueue := advanceQueue wr c.sendQueue, sent := c.sent ++ iov.take wr }

def clientFlushSendRaw (sock : Socket) (c : ClientConn) : FlushRc × ClientConn :=
  flushLoop (c.sendQueue.length + 1) sock c

/-- The arena is reset once the send list is empty. -/
def clientFlushSend (sock : Socket) (c : ClientConn) : FlushRc × ClientConn :=
  match clientFlushSendRaw sock c with
  | (.flushed,c) => (.flushed,arenaReset c)
  | r => r

def responseBegin (c : ClientConn) (status : WireStatus) : ClientConn :=
  { c with sendCur := some (wireHeader status.code 0) }

def responseAppend (c : ClientConn) (data : List UInt8) : ClientConn :=
  { c with sendCur := c.sendCur.map (· ++ data) }

def enqueue (c : ClientConn) (data : List UInt8) : ClientConn :=
  { c with sendQueue := c.sendQueue ++ [⟨data,0⟩] }

def responseFinish (c : ClientConn) : ClientConn :=
  match c.sendCur with
  | none => c
  | some data =>
    let bodyLen := UInt32.ofNat (data.length - graveldbWireHeaderSize)
    enqueue { c with sendCur := none } (data.take 8 ++ wirePutU32 bodyLen ++ data.drop 12)

def respond (c : ClientConn) (status : WireStatus) (body : List UInt8) : ClientConn :=
  responseFinish (responseAppend (responseBegin c status) body)

def pullChunkSize : Nat := 64

def pullSlotBytes : Nat := 1024 * 4

/-- The engine copies a vector to slot `i`; `none` is a write behind the scratch buffer. -/
def copyToSlot (scratch : Nat → UInt8) (i : Nat) (emb : List UInt8) : Option (Nat → UInt8) :=
  if i * pullSlotBytes + emb.length ≤ pullChunkSize * pullSlotBytes then
    some (fun p => if i * pullSlotBytes ≤ p ∧ p < i * pullSlotBytes + emb.length
      then emb.getD (p - i * pullSlotBytes) 0 else scratch p)
  else none

def copyAll (chunk : List PullRecord) : List Nat → (Nat → UInt8) → Option (Nat → UInt8)
  | [], scratch => some scratch
  | i :: rest, scratch => do
    let scratch ← match chunk[i]? with
      | none => some scratch
      | some r => copyToSlot scratch i r.emb
    copyAll chunk rest scratch

def completeGet (order : List Nat) (chunk : List PullRecord) (scratch : Nat → UInt8) :
    Option (Nat → UInt8) :=
  copyAll chunk (order ++ (List.range chunk.length).filter (fun i => i ∉ order)) scratch

def chunkBytes (chunk : List PullRecord) (scratch : Nat → UInt8) : List UInt8 :=
  chunk.zipIdx.flatMap (fun (r,i) => wirePutU32 r.dim ++
    (List.range (r.dim.toNat * 4)).map (fun p => scratch (i * pullSlotBytes + p)))

def submitGet (lookup : UInt64 → PullRecord) (c : ClientConn) : ClientConn :=
  { c with async := { c.async with
      chunk := ((c.async.featIds.drop c.async.offset).take pullChunkSize).map lookup } }

def finishGet (emit : ClientConn → ClientConn) (order : List Nat) (c : ClientConn) :
    Option ClientConn := do
  let scratch ← completeGet order c.async.chunk c.async.scratch
  let c := emit { c with async := { c.async with scratch := scratch } }
  return { c with async := { c.async with offset := c.async.offset + c.async.chunk.length } }

/-- `pull_submit_next_chunk` and `stream_submit_next_chunk`, until a get is not done at once;
`finalize` ends the response. The flag tells whether a get is in flight. -/
def submitNextChunk (lookup : UInt64 → PullRecord) (emit finalize : ClientConn → ClientConn) :
    List Poll → ClientConn → Option (Bool × ClientConn × List Poll)
  | polls, c =>
    if c.async.featIds.length ≤ c.async.offset then
      let c := finalize c
      some (false,{ c with async := { c.async with state := .idle } },polls)
    else
      let c := submitGet lookup c
      match polls with
      | [] => some (true,c,[])
      | .again :: polls => some (true,c,polls)
      | .done order :: polls => do
        let c ← finishGet emit order c
        submitNextChunk lookup emit finalize polls c

/-- The common course of `pull_resume` and `stream_resume`. The buffers of the request are gone if
the arena was reset since. -/
def resumeGet (lookup : UInt64 → PullRecord) (emit finalize : ClientConn → ClientConn)
    (polls : List Poll) (c : ClientConn) : Option (Bool × ClientConn × List Poll) :=
  match polls with
  | [] => some (true,c,[])
  | .again :: polls => some (true,c,polls)
  | .done order :: polls =>
    if c.async.arena ≠ c.resets.length then none
    else do
      let c ← finishGet emit order c
      submitNextChunk lookup emit finalize polls c

def pullEmit (c : ClientConn) : ClientConn :=
  responseAppend c (chunkBytes c.async.chunk c.async.scratch)

def streamBuildFrame (c : ClientConn) : ClientConn :=
  let count := if c.async.firstFrame then wirePutU32 (UInt32.ofNat c.async.featIds.length) else []
  let payload := count ++ chunkBytes c.async.chunk c.async.scratch
  enqueue { c with async := { c.async with firstFrame := false } }
    (wirePutU32 (UInt32.ofNat payload.length) ++ payload)

def streamSendTerminator (c : ClientConn) : ClientConn := enqueue c (wirePutU32 0)

def pullSubmitNextChunk (lookup : UInt64 → PullRecord) :
    List Poll → ClientConn → Option (Bool × ClientConn × List Poll) :=
  submitNextChunk lookup pullEmit responseFinish

def pullResume (lookup : UInt64 → PullRecord) :
    List Poll → ClientConn → Option (Bool × ClientConn × List Poll) :=
  resumeGet lookup pullEmit responseFinish

def streamSubmitNextChunk (lookup : UInt64 → PullRecord) :
    List Poll → ClientConn → Option (Bool × ClientConn × List Poll) :=
  submitNextChunk lookup streamBuildFrame streamSendTerminator

def streamResume (lookup : UInt64 → PullRecord) :
    List Poll → ClientConn → Option (Bool × ClientConn × List Poll) :=
  resumeGet lookup streamBuildFrame streamSendTerminator

def clientAsyncResume (lookup : UInt64 → PullRecord) (polls : List Poll) (c : ClientConn) :
    Option (Bool × ClientConn × List Poll) :=
  match c.async.state with
  | .idle => some (false,c,polls)
  | .asyncPull => pullResume lookup polls c
  | .asyncStream => streamResume lookup polls c

/-- The ids of a pull request; `none` is `GRAVELDB_WIRE_INVALID`. -/
def pullIds (body : List UInt8) : Option (List UInt64) :=
  if body.length < 4 then none
  else
    let count := (wireGetU32 body).toNat
    if graveldbWireMaxBatch < count ∨ body.length < 4 + count * 8 then none
    else some ((List.range count).map (fun i => wireGetU64 (body.drop (4 + 8 * i))))

def beginPull (state : ConnAsyncState) (featIds : List UInt64) (c : ClientConn) : ClientConn :=
  { c with async := ⟨state,featIds,0,fun _ => 0,[],true,c.resets.length⟩ }

def handlePull (lookup : UInt64 → PullRecord) (polls : List Poll) (c : ClientConn)
    (body : List UInt8) : Option (ClientConn × List Poll) :=
  match pullIds body with
  | none => some (respond c .invalid [],polls)
  | some featIds => do
    let c := responseAppend (responseBegin c .ok) (wirePutU32 (UInt32.ofNat featIds.length))
    let (_,c,polls) ← pullSubmitNextChunk lookup polls (beginPull .asyncPull featIds c)
    return (c,polls)

def handlePullStream (lookup : UInt64 → PullRecord) (polls : List Poll) (c : ClientConn)
    (body : List UInt8) : Option (ClientConn × List Poll) :=
  match pullIds body with
  | none => some (respond c .invalid [],polls)
  | some featIds => do
    let c := enqueue c (wireHeader WireStatus.ok.code graveldbWireStreamSentinel)
    let (_,c,polls) ← streamSubmitNextChunk lookup polls (beginPull .asyncStream featIds c)
    return (c,polls)

/-- One turn of the parsing loop of `handle_push`; `none` is a `break`. -/
def readPushRecord (ptr : List UInt8) : Option (PushRecord × List UInt8) :=
  if ptr.length < 12 then none
  else
    let dim := (wireGetU32 (ptr.drop 8)).toNat
    if h : (ptr.drop 12).length < dim * 4 then none
    else
      let r : PushRecord := ⟨wireGetU64 ptr,dim,(ptr.drop 12).take (dim * 4),by
        rw [List.length_take,Nat.min_eq_left (Nat.not_lt.mp h)]⟩
      some (r,(ptr.drop 12).drop (dim * 4))

/-- The records that `handle_push` finds in a body; `none` is `GRAVELDB_WIRE_INVALID`. -/
def pushRecords (body : List UInt8) : Option (List PushRecord) :=
  if body.length < 4 then none
  else
    let count := (wireGetU32 body).toNat
    if graveldbWireMaxBatch < count then none
    else some (readMany readPushRecord count (body.drop 4)).1

variable {σ : Type}

/-- The batch is put and the flush that it may call for is submitted; the status of the put is not
looked at. -/
def applyPush (E : Engine σ) (srv : GravelServer σ) (records : List PushRecord) :
    Option (GravelServer σ) := do
  if records.isEmpty then return srv
  else
    let (db,_) ← E.batchPut srv.db records
    if !srv.flushInFlight && E.flushNeeded db then
      let db ← E.flushSubmit db
      return { srv with db := db, flushInFlight := true }
    else return { srv with db := db }

def handlePush (E : Engine σ) (srv : GravelServer σ) (body : List UInt8) :
    Option (GravelServer σ × WireStatus) :=
  match pushRecords body with
  | none => some ({ srv with conn := respond srv.conn .invalid [] },.invalid)
  | some records => do
    let srv ← applyPush E srv records
    return ({ srv with conn := respond srv.conn .ok [] },.ok)

def readDeleteId (ptr : List UInt8) : Option (UInt64 × List UInt8) :=
  if ptr.length < 8 then none else some (wireGetU64 ptr,ptr.drop 8)

def handleDelete (E : Engine σ) (srv : GravelServer σ) (body : List UInt8) :
    Option (GravelServer σ) :=
  if body.length < 4 then some { srv with conn := respond srv.conn .invalid [] }
  else do
    let featIds := (readMany readDeleteId (wireGetU32 body).toNat (body.drop 4)).1
    let db ← (if featIds.isEmpty then some srv.db else E.batchDelete srv.db featIds)
    return { srv with db := db, conn := respond srv.conn .ok [] }

/-- `handle_flush` and `handle_checkpoint` are the same. -/
def handleCheckpoint (E : Engine σ) (srv : GravelServer σ) : Option (GravelServer σ) := do
  let db ← E.checkpoint srv.db
  return { srv with db := db, conn := respond srv.conn .ok [] }

def handleStats (E : Engine σ) (srv : GravelServer σ) : GravelServer σ :=
  { srv with conn := respond srv.conn .ok (E.stats srv.db) }

def handlePing (srv : GravelServer σ) : GravelServer σ :=
  { srv with conn := respond srv.conn .ok (wirePutU32 0x504F4E47) }

def dispatch (E : Engine σ) (config : GravelServerConfig) (polls : List Poll) (srv : GravelServer σ)
    (msgType : UInt32) (body : List UInt8) : Option (GravelServer σ × List Poll) :=
  let refuse := some ({ srv with conn := respond srv.conn .invalid [] },polls)
  match msgTypeOf msgType with
  | some .pull => do
    let (c,polls) ← handlePull (E.lookup srv.db) polls srv.conn body
    return ({ srv with conn := c },polls)
  | some .pullStream => do
    let (c,polls) ← handlePullStream (E.lookup srv.db) polls srv.conn body
    return ({ srv with conn := c },polls)
  | some .push =>
    if config.readonly then refuse
    else do
      let (srv,_) ← handlePush E srv body
      return (srv,polls)
  | some .delete =>
    if config.readonly then refuse
    else do
      let srv ← handleDelete E srv body
      return (srv,polls)
  | some .flush | some .checkpoint =>
    if config.readonly then refuse
    else do
      let srv ← handleCheckpoint E srv
      return (srv,polls)
  | some .stats => some (handleStats E srv,polls)
  | some .ping => some (handlePing srv,polls)
  | none => refuse

def readsBody (config : GravelServerConfig) (msgType : UInt32) : Bool :=
  match msgTypeOf msgType with
  | some .pull | some .pullStream => true
  | some .push | some .delete => !config.readonly
  | _ => false

/-- 0, 1 and -1, or the handler runs into undefined behaviour. -/
inductive MessageRc where
  | wait
  | handled
  | bad
  | stuck
deriving DecidableEq, Repr

def messageSize (bodyLen : UInt32) : Nat := (graveldbWireHeaderSize + bodyLen.toNat) % 2 ^ 32

/-- A handler that looks at a body which is not in `recv_buf` reads what was never received. -/
def processMessage (E : Engine σ) (config : GravelServerConfig) (polls : List Poll)
    (srv : GravelServer σ) : MessageRc × GravelServer σ × List Poll :=
  let c := srv.conn
  if c.async.state ≠ .idle ∨ c.recvBuf.length < graveldbWireHeaderSize then (.wait,srv,polls)
  else
    let msgType := wireGetU32 (c.recvBuf.drop 4)
    let bodyLen := wireGetU32 (c.recvBuf.drop 8)
    if wireGetU32 c.recvBuf ≠ graveldbWireMagic then (.bad,srv,polls)
    else if c.recvBuf.length < messageSize bodyLen then (.wait,srv,polls)
    else
      let body := (c.recvBuf.drop graveldbWireHeaderSize).take bodyLen.toNat
      let srv := { srv with
        conn := { c with handled := c.handled ++ [⟨msgType,bodyLen,body⟩] } }
      if readsBody config msgType ∧ body.length < bodyLen.toNat then (.stuck,srv,polls)
      else
        match dispatch E config polls srv msgType body with
        | none => (.stuck,srv,polls)
        | some (srv,polls) =>
          let c := srv.conn
          (.handled,{ srv with
            conn := { c with recvBuf := c.recvBuf.drop (messageSize bodyLen) } },polls)

/-- `while ((rc = process_message(srv, c)) > 0) {}`. The loop is endless if more messages are
handled than there are bytes. -/
def processMessages (E : Engine σ) (config : GravelServerConfig) :
    Nat → List Poll → GravelServer σ → MessageRc × GravelServer σ
  | 0, _, srv => (.stuck,srv)
  | fuel + 1, polls, srv =>
    match processMessage E config polls srv with
    | (.handled,srv,polls) => processMessages E config fuel polls srv
    | (rc,srv,_) => (rc,srv)

def closeConn (srv : GravelServer σ) : GravelServer σ := { srv with conn := clientClose srv.conn }

def failConn (srv : GravelServer σ) : GravelServer σ :=
  { srv with conn := { srv.conn with fault := true } }

def processQueued (E : Engine σ) (config : GravelServerConfig) (polls : List Poll)
    (srv : GravelServer σ) : GravelServer σ :=
  match processMessages E config (srv.conn.recvBuf.length + 1) polls srv with
  | (.bad,srv) => closeConn srv
  | (.stuck,srv) => failConn srv
  | (_,srv) => srv

def flushPending (flush : ClientConn → FlushRc × ClientConn) (srv : GravelServer σ) :
    GravelServer σ :=
  if srv.conn.sendQueue.isEmpty then srv
  else
    match flush srv.conn with
    | (.failed,c) => closeConn { srv with conn := c }
    | (_,c) => { srv with conn := c }

def resumeConn (E : Engine σ) (config : GravelServerConfig) (polls : List Poll) (sock : Socket)
    (srv : GravelServer σ) : GravelServer σ :=
  if srv.conn.fault ∨ ¬ srv.conn.fdOpen ∨ srv.conn.async.state = .idle then srv
  else
    match clientAsyncResume (E.lookup srv.db) polls srv.conn with
    | none => failConn srv
    | some (true,c,_) => flushPending (clientFlushSendRaw sock) { srv with conn := c }
    | some (false,c,polls) =>
      let srv := flushPending (clientFlushSend sock) { srv with conn := c }
      if srv.conn.fdOpen then processQueued E config polls srv else srv

/-- The size of `recv_buf` for the next read; `none` closes the connection. -/
def growRecv (config : GravelServerConfig) (c : ClientConn) : Option Nat :=
  if c.recvBuf.length < c.recvCap then some c.recvCap
  else
    let newCap := min (c.recvCap * 2) config.maxRequestSize
    if newCap ≤ c.recvCap then none else some newCap

def readConn (E : Engine σ) (config : GravelServerConfig) (n : Nat) (polls : List Poll)
    (srv : GravelServer σ) : GravelServer σ :=
  match growRecv config srv.conn with
  | none => closeConn srv
  | some cap =>
    let c := srv.conn
    let rd := min n (min (cap - c.recvBuf.length) c.incoming.length)
    if rd = 0 then closeConn srv
    else
      let c := { c with
        recvCap := cap
        recvBuf := c.recvBuf ++ c.incoming.take rd
        received := c.received ++ c.incoming.take rd
        incoming := c.incoming.drop rd }
      processQueued E config polls { srv with conn := c }

def writeConn (sock : Socket) (srv : GravelServer σ) : GravelServer σ :=
  if srv.conn.fault ∨ ¬ srv.conn.fdOpen then srv
  else flushPending (clientFlushSend sock) srv

/-- What happens to the connection in `server_loop`: its get is polled, an event for it is handled
(with or without something to read), or the server does something else. -/
inductive LoopEvent (σ : Type) where
  | resume (polls : List Poll) (sock : Socket)
  | ready (read : Option Nat) (polls : List Poll) (sock : Socket)
  | others (db : σ) (flushInFlight : Bool)

def readyRead (E : Engine σ) (config : GravelServerConfig) (read : Option Nat) (polls : List Poll)
    (srv : GravelServer σ) : GravelServer σ :=
  if srv.conn.fault ∨ ¬ srv.conn.fdOpen then srv
  else
    match read with
    | none => srv
    | some n => readConn E config n polls srv

def loopStep (E : Engine σ) (config : GravelServerConfig) (srv : GravelServer σ) :
    LoopEvent σ → GravelServer σ
  | .resume polls sock => resumeConn E config polls sock srv
  | .ready read polls sock => writeConn sock (readyRead E config read polls srv)
  | .others db flushInFlight => { srv with db := db, flushInFlight := flushInFlight }

def serveConn (E : Engine σ) (config : GravelServerConfig) (db : σ) (incoming : List UInt8)
    (events : List (LoopEvent σ)) : GravelServer σ :=
  events.foldl (loopStep E config) ⟨db,false,clientInit incoming⟩

end Gravel
