import Gravel.Lib.Framing
import Gravel.Proofs.PullServed

namespace Gravel.Proofs.RequestFraming
open Framing SendQueue ServerFrames ServerOutput ArenaLifetime List Option

def Header (b : List UInt8) : Prop :=
  graveldbWireHeaderSize ≤ b.length ∧ wireGetU32 b = graveldbWireMagic

instance (b : List UInt8) : Decidable (Header b) := inferInstanceAs (Decidable (_ ∧ _))

def requestSize (b : List UInt8) : Nat :=
  graveldbWireHeaderSize + (frontMessage b).bodyLen.toNat

def nextRequest (b : List UInt8) : Option (Handled × Nat) :=
  if Header b ∧ requestSize b ≤ b.length then some (frontMessage b,requestSize b) else none

section Scan

variable {b : List UInt8} {m : Handled} {n : Nat}

theorem wireGetU32_append (h : 4 ≤ b.length) (x : List UInt8) :
    wireGetU32 (b ++ x) = wireGetU32 b := by
  rw [wireGetU32,take_append_of_le_length h,wireGetU32]

theorem wireGetU32_drop {k : Nat} (h : k + 4 ≤ b.length) (x : List UInt8) :
    wireGetU32 ((b ++ x).drop k) = wireGetU32 (b.drop k) := by
  rw [drop_append_of_le_length (by omega),wireGetU32_append (by rw [length_drop]; omega)]

theorem bodyLen_append (h : graveldbWireHeaderSize ≤ b.length) (x : List UInt8) :
    (frontMessage (b ++ x)).bodyLen = (frontMessage b).bodyLen := wireGetU32_drop h x

theorem requestSize_append (h : graveldbWireHeaderSize ≤ b.length) (x : List UInt8) :
    requestSize (b ++ x) = requestSize b := by
  rw [requestSize,bodyLen_append h,requestSize]

theorem frontMessage_append (h : graveldbWireHeaderSize ≤ b.length) (hsize : requestSize b ≤ b.length)
    (x : List UInt8) : frontMessage (b ++ x) = frontMessage b := by
  have hlen : wireGetU32 ((b ++ x).drop 8) = wireGetU32 (b.drop 8) := bodyLen_append h x
  have htype : wireGetU32 ((b ++ x).drop 4) = wireGetU32 (b.drop 4) :=
    wireGetU32_drop (Nat.le_trans (by decide) h) x
  have hbody : ((b ++ x).drop graveldbWireHeaderSize).take (wireGetU32 (b.drop 8)).toNat =
      (b.drop graveldbWireHeaderSize).take (wireGetU32 (b.drop 8)).toNat := by
    change graveldbWireHeaderSize + (wireGetU32 (b.drop 8)).toNat ≤ b.length at hsize
    rw [drop_append_of_le_length h,take_append_of_le_length]
    rw [length_drop]
    omega
  rw [frontMessage,frontMessage,hlen,htype,hbody]

theorem header_append_iff (h : graveldbWireHeaderSize ≤ b.length) (x : List UInt8) :
    Header (b ++ x) ↔ Header b := by
  have hshort : 4 ≤ b.length := Nat.le_trans (by decide) h
  rw [Header,Header,wireGetU32_append hshort,length_append]
  exact and_congr_left' ⟨fun _ => h,fun _ => by omega⟩

theorem nextRequest_eq_some (h : nextRequest b = some (m,n)) :
    Header b ∧ requestSize b ≤ b.length ∧ m = frontMessage b ∧ n = requestSize b := by
  unfold nextRequest at h
  split_ifs at h with hwhole
  cases h
  exact ⟨hwhole.1,hwhole.2,rfl,rfl⟩

theorem nextRequest_extend (h : nextRequest b = some (m,n)) (x : List UInt8) :
    nextRequest (b ++ x) = some (m,n) := by
  obtain ⟨hheader,hsize,rfl,rfl⟩ := nextRequest_eq_some h
  have hlong := hheader.1
  have hwhole : Header (b ++ x) ∧ requestSize (b ++ x) ≤ (b ++ x).length := by
    rw [header_append_iff hlong,requestSize_append hlong,length_append]
    exact ⟨hheader,by omega⟩
  rw [nextRequest,if_pos hwhole,frontMessage_append hlong hsize,requestSize_append hlong]

end Scan

def requests : Scanner UInt8 Handled where
  scan := nextRequest
  fits h := by
    obtain ⟨_,hsize,_,rfl⟩ := nextRequest_eq_some h
    exact ⟨Nat.lt_of_lt_of_le (by decide) (Nat.le_add_right graveldbWireHeaderSize _),hsize⟩
  extend := nextRequest_extend

/-- The length of every request that the stream gets to fits 32 bits. -/
def LengthsFit (stream : List UInt8) : Prop :=
  ∀ ms rest, Cut requests stream ms rest → Header rest → requestSize rest < 2 ^ 32

/-- The handlers were given the first requests of the stream, each with its whole body. While the
connection is open, exactly their bytes were taken from the buffer, and no whole request waits there
without a pull in flight. -/
structure Framed (stream : List UInt8) (c : ClientConn) : Prop where
  stream : c.received ++ c.incoming = stream
  handled : ∃ rest, Cut requests c.received c.handled rest
  consumed : c.fault = false → c.fdOpen = true → Cut requests c.received c.handled c.recvBuf
  waits : c.fault = false → c.fdOpen = true → c.async.state = .idle →
    nextRequest c.recvBuf = none

section Messages

variable {σ : Type} {E : Engine σ} {config : GravelServerConfig} {polls polls' : List Poll}
  {srv srv' : GravelServer σ} {rc : MessageRc} {stream : List UInt8} {c c' : ClientConn}
  {sock : Socket}

theorem messageSize_eq {b : List UInt8} (h : requestSize b < 2 ^ 32) :
    messageSize (frontMessage b).bodyLen = requestSize b := Nat.mod_eq_of_lt h

theorem processMessage_request
    (hfit : Header srv.conn.recvBuf → requestSize srv.conn.recvBuf < 2 ^ 32)
    (h : processMessage E config polls srv = (rc,srv',polls')) :
    (rc = .wait ∧ srv' = srv ∧
        (srv.conn.async.state = .idle → nextRequest srv.conn.recvBuf = none)) ∨
      (rc = .bad ∧ srv' = srv) ∨
      ∃ m n, nextRequest srv.conn.recvBuf = some (m,n) ∧
        srv'.conn.handled = srv.conn.handled ++ [m] ∧
        (rc = .stuck ∨ rc = .handled ∧ srv'.conn.recvBuf = srv.conn.recvBuf.drop n) := by
  cases processMessage_cases h with
  | wait incomplete =>
    refine Or.inl ⟨rfl,rfl,fun hidle => if_neg ?_⟩
    intro hwhole
    have hlong := hwhole.1.1
    rw [← messageSize_eq (hfit hwhole.1)] at hwhole
    rcases incomplete hidle with hlt | hlt
    · omega
    · omega
  | bad => exact Or.inr (Or.inl ⟨rfl,rfl⟩)
  | stuck long magic complete =>
    have hheader : Header srv.conn.recvBuf := ⟨long,magic⟩
    rw [messageSize_eq (hfit hheader)] at complete
    exact Or.inr (Or.inr ⟨_,_,if_pos ⟨hheader,complete⟩,rfl,Or.inl rfl⟩)
  | handled long magic complete run =>
    have hheader : Header srv.conn.recvBuf := ⟨long,magic⟩
    rw [messageSize_eq (hfit hheader)] at complete
    refine Or.inr (Or.inr ⟨_,_,if_pos ⟨hheader,complete⟩,(dispatch_frame run).handled,
      Or.inr ⟨rfl,?_⟩⟩)
    rw [messageSize_eq (hfit hheader)]

theorem processMessages_requests (fuel : Nat) : ∀ (polls : List Poll) (srv : GravelServer σ)
    {rc : MessageRc} {srv' : GravelServer σ},
    LengthsFit srv.conn.recvBuf → processMessages E config fuel polls srv = (rc,srv') →
    ∃ ms rest, Cut requests srv.conn.recvBuf ms rest ∧
      srv'.conn.handled = srv.conn.handled ++ ms ∧ rc ≠ .handled ∧
      (rc ≠ .stuck → srv'.conn.recvBuf = rest) ∧
      (rc = .wait → srv'.conn.async.state = .idle → nextRequest rest = none) := by
  induction fuel with
  | zero =>
    intro polls srv rc srv' _ h
    cases h
    exact ⟨[],_,.nil _,(append_nil _).symm,MessageRc.noConfusion,fun hrc => absurd rfl hrc,
      fun hrc => by cases hrc⟩
  | succ fuel ih =>
    intro polls srv rc srv' hfit h
    obtain ⟨⟨rc1,srv1,polls1⟩,hmsg⟩ : ∃ r, processMessage E config polls srv = r := ⟨_,rfl⟩
    rw [processMessages,hmsg] at h
    rcases processMessage_request (hfit [] _ (.nil _)) hmsg with
      ⟨rfl,rfl,hnone⟩ | ⟨rfl,rfl⟩ | ⟨m,n,hscan,hm,rfl | ⟨rfl,hbuf⟩⟩
    · cases h
      exact ⟨[],_,.nil _,(append_nil _).symm,MessageRc.noConfusion,fun _ => rfl,
        fun _ => hnone⟩
    · cases h
      exact ⟨[],_,.nil _,(append_nil _).symm,MessageRc.noConfusion,fun _ => rfl,
        fun hrc => by cases hrc⟩
    · cases h
      exact ⟨[m],_,.cons hscan (.nil _),hm,MessageRc.noConfusion,fun hrc => absurd rfl hrc,
        fun hrc => by cases hrc⟩
    · have hfit1 : LengthsFit srv1.conn.recvBuf := by
        rw [hbuf]
        exact fun ms rest hcut => hfit (m :: ms) rest (.cons hscan hcut)
      obtain ⟨ms,rest,hcut,hms,hrc,hrest,hnone⟩ := ih polls1 srv1 hfit1 h
      rw [hbuf] at hcut
      exact ⟨m :: ms,rest,.cons hscan hcut,by rw [hms,hm,append_assoc]; rfl,hrc,hrest,hnone⟩

theorem lengthsFit_rest (hfit : LengthsFit stream) (hstream : c.received ++ c.incoming = stream)
    (hcut : Cut requests c.received c.handled c.recvBuf) : LengthsFit c.recvBuf := by
  intro ms rest hms hheader
  have hall := (hcut.trans hms).append c.incoming
  rw [hstream] at hall
  have hlong := hheader.1
  have hsize := hfit _ _ hall ((header_append_iff hlong _).mpr hheader)
  rwa [requestSize_append hlong] at hsize

theorem Framed.ended (hstream : c'.received ++ c'.incoming = stream)
    (hhandled : ∃ rest, Cut requests c'.received c'.handled rest)
    (hend : c'.fault = true ∨ c'.fdOpen = false) : Framed stream c' := by
  refine ⟨hstream,hhandled,?_,?_⟩
  · intro hfault hopen
    rw [hfault,hopen] at hend
    simp at hend
  · intro hfault hopen
    rw [hfault,hopen] at hend
    simp at hend

structure InputKept (c c' : ClientConn) : Prop where
  incoming : c'.incoming = c.incoming
  received : c'.received = c.received
  handled : c'.handled = c.handled
  fault : c'.fault = c.fault
  buffer : c'.fdOpen = true → c.fdOpen = true ∧ c'.recvBuf = c.recvBuf ∧ c'.async = c.async

theorem inputKept_sent (h : SentTo sock c c') : InputKept c c' := by
  refine ⟨?_,?_,?_,?_,fun hopen => ⟨h.fdOpen ▸ hopen,?_,h.async⟩⟩
  all_goals rw [h.same]

theorem inputKept_close (h : SentTo sock c c') : InputKept c (clientClose c') := by
  have hkept := inputKept_sent h
  exact ⟨hkept.incoming,hkept.received,hkept.handled,hkept.fault,fun hopen => by cases hopen⟩

theorem inputKept_raw (hw : Waiting srv.conn.sendQueue) (sock : Socket) :
    InputKept srv.conn (flushPending (clientFlushSendRaw sock) srv).conn := by
  obtain ⟨c',hsent,hrun | hrun⟩ := flushPending_raw srv sock hw
  · rw [hrun]
    exact inputKept_sent hsent
  · rw [hrun]
    exact inputKept_close hsent

theorem inputKept_flush (hw : Waiting srv.conn.sendQueue) (sock : Socket) :
    InputKept srv.conn (flushPending (clientFlushSend sock) srv).conn := by
  obtain ⟨c',hsent,⟨_,hrun | ⟨_,hrun⟩⟩ | ⟨_,_,hrun⟩⟩ := flushPending_send srv sock hw
  · rw [hrun]
    exact inputKept_sent hsent
  · rw [hrun]
    exact inputKept_close hsent
  · have hkept := inputKept_sent hsent
    rw [hrun]
    exact ⟨hkept.incoming,hkept.received,hkept.handled,hkept.fault,hkept.buffer⟩

theorem Framed.kept (h : Framed stream c) (hkept : InputKept c c') : Framed stream c' where
  stream := by rw [hkept.received,hkept.incoming,h.stream]
  handled := by
    rw [hkept.received,hkept.handled]
    exact h.handled
  consumed hfault hopen := by
    obtain ⟨hopen',hbuf,_⟩ := hkept.buffer hopen
    rw [hkept.received,hkept.handled,hbuf]
    exact h.consumed (hkept.fault ▸ hfault) hopen'
  waits hfault hopen hidle := by
    obtain ⟨hopen',hbuf,hasync⟩ := hkept.buffer hopen
    rw [hbuf]
    exact h.waits (hkept.fault ▸ hfault) hopen' (hasync ▸ hidle)

theorem framed_processQueued (hfit : LengthsFit stream)
    (hstream : srv.conn.received ++ srv.conn.incoming = stream)
    (hcut : Cut requests srv.conn.received srv.conn.handled srv.conn.recvBuf) (polls : List Poll) :
    Framed stream (processQueued E config polls srv).conn := by
  obtain ⟨⟨rc,srv'⟩,hrun⟩ :
      ∃ r, processMessages E config (srv.conn.recvBuf.length + 1) polls srv = r := ⟨_,rfl⟩
  have hkept := processMessages_kept _ polls srv hrun
  obtain ⟨ms,rest,hms,hhandled,hrc,hrest,hnone⟩ :=
    processMessages_requests _ polls srv (lengthsFit_rest hfit hstream hcut) hrun
  have hall : Cut requests srv'.conn.received srv'.conn.handled rest := by
    rw [hkept.received,hhandled]
    exact hcut.trans hms
  have hstream' : srv'.conn.received ++ srv'.conn.incoming = stream := by
    rw [hkept.received,hkept.incoming,hstream]
  rw [processQueued,hrun]
  cases rc with
  | wait =>
    have hbuf := hrest MessageRc.noConfusion
    refine ⟨hstream',⟨rest,hall⟩,fun _ _ => ?_,fun _ _ hidle => ?_⟩
    · rw [hbuf]
      exact hall
    · rw [hbuf]
      exact hnone rfl hidle
  | bad => exact .ended hstream' ⟨rest,hall⟩ (Or.inr rfl)
  | stuck => exact .ended hstream' ⟨rest,hall⟩ (Or.inl rfl)
  | handled => exact absurd rfl hrc

theorem framed_resume (hfit : LengthsFit stream) (h : Framed stream srv.conn)
    (hw : Waiting srv.conn.sendQueue) (polls : List Poll) (sock : Socket) :
    Framed stream (resumeConn E config polls sock srv).conn := by
  unfold resumeConn
  split_ifs with hskip
  · exact h
  push Not at hskip
  have hfault : srv.conn.fault = false := by simpa using hskip.1
  have hopen : srv.conn.fdOpen = true := by simpa using hskip.2.1
  cases hrun : clientAsyncResume (E.lookup srv.db) polls srv.conn with
  | none => exact .ended h.stream h.handled (Or.inl rfl)
  | some r =>
    obtain ⟨busy,c,polls'⟩ := r
    have hadv := clientAsyncResume_advanced hrun
    have hframe := hadv.frame
    have hw' := hframe.waiting hw
    have hstream : c.received ++ c.incoming = stream := by
      rw [hframe.received,hframe.incoming,h.stream]
    have hcut : Cut requests c.received c.handled c.recvBuf := by
      rw [hframe.received,hframe.handled,hframe.recvBuf]
      exact h.consumed hfault hopen
    cases busy with
    | true =>
      have hbusy : c.async.state ≠ .idle := by
        rw [hadv.goes_on rfl]
        exact hskip.2.2
      have hc : Framed stream c := ⟨hstream,⟨_,hcut⟩,fun _ _ => hcut,
        fun _ _ hidle => absurd hidle hbusy⟩
      exact hc.kept (@inputKept_raw _ { srv with conn := c } hw' sock)
    | false =>
      have hkept := @inputKept_flush _ { srv with conn := c } hw' sock
      have hstream' : (flushPending (clientFlushSend sock) { srv with conn := c }).conn.received ++
          (flushPending (clientFlushSend sock) { srv with conn := c }).conn.incoming = stream := by
        rw [hkept.received,hkept.incoming,hstream]
      simp only
      split_ifs with hopen'
      · -- the messages that waited for the end of the pull
        refine framed_processQueued hfit hstream' ?_ polls'
        rw [hkept.received,hkept.handled,(hkept.buffer hopen').2.1]
        exact hcut
      · refine .ended hstream' ⟨c.recvBuf,?_⟩ (Or.inr (by simpa using hopen'))
        rw [hkept.received,hkept.handled]
        exact hcut

theorem framed_read (hfit : LengthsFit stream) (h : Framed stream srv.conn) (read : Option Nat)
    (polls : List Poll) : Framed stream (readyRead E config read polls srv).conn := by
  rcases readyRead_cases E config read polls srv with
    heq | heq | ⟨hfault,hopen,cap,bytes,rest,hbytes,heq⟩
  · rw [heq]
    exact h
  · rw [heq]
    exact .ended h.stream h.handled (Or.inr rfl)
  · rw [heq]
    refine framed_processQueued hfit ?_ ((h.consumed hfault hopen).append bytes) polls
    change srv.conn.received ++ bytes ++ rest = stream
    rw [append_assoc,← hbytes,h.stream]

theorem framed_step (hfit : LengthsFit stream) (h : Framed stream srv.conn)
    (hw : Waiting srv.conn.sendQueue) (event : LoopEvent σ) :
    Framed stream (loopStep E config srv event).conn := by
  cases event with
  | resume polls sock => exact framed_resume hfit h hw polls sock
  | others db flushInFlight => exact h
  | ready read polls sock =>
    have hread := @framed_read _ E config _ _ hfit h read polls
    have hw' := (@later_read _ E config _ hw read polls).waiting
    rw [loopStep,writeConn]
    split_ifs
    · exact hread
    · exact hread.kept (inputKept_flush hw' sock)

theorem framed_run (hfit : LengthsFit stream) (events : List (LoopEvent σ)) :
    ∀ srv : GravelServer σ, Framed stream srv.conn → Waiting srv.conn.sendQueue →
      Framed stream (events.foldl (loopStep E config) srv).conn := by
  induction events with
  | nil => exact fun _ h _ => h
  | cons event events ih =>
    intro srv h hw
    exact ih _ (framed_step hfit h hw event) (later_step hw event).waiting

theorem framed_clientInit (stream : List UInt8) : Framed stream (clientInit stream) :=
  ⟨rfl,⟨[],.nil _⟩,fun _ _ => .nil _,fun _ _ _ => rfl⟩

/-- A length that wraps around 32 bits together with the header: the message is handed over as soon
as its header is there. -/
theorem processMessage_wrapped (hidle : srv.conn.async.state = .idle)
    (hheader : Header srv.conn.recvBuf) (hbig : 2 ^ 32 ≤ requestSize srv.conn.recvBuf)
    (h : processMessage E config polls srv = (rc,srv',polls')) :
    srv'.conn.handled = srv.conn.handled ++ [frontMessage srv.conn.recvBuf] ∧
      (rc = .stuck ∨ rc = .handled ∧
        ∃ n < graveldbWireHeaderSize, srv'.conn.recvBuf = srv.conn.recvBuf.drop n) := by
  have hlong := hheader.1
  have hwrapped : messageSize (frontMessage srv.conn.recvBuf).bodyLen < graveldbWireHeaderSize := by
    have hlt := (frontMessage srv.conn.recvBuf).bodyLen.toNat_lt
    rw [requestSize,graveldbWireHeaderSize] at hbig
    rw [messageSize,graveldbWireHeaderSize,Nat.mod_eq_sub_mod hbig,Nat.mod_eq_of_lt (by omega)]
    omega
  cases processMessage_cases h with
  | wait incomplete =>
    rcases incomplete hidle with hlt | hlt
    · omega
    · omega
  | bad _ magic => exact absurd hheader.2 magic
  | stuck => exact ⟨rfl,Or.inl rfl⟩
  | handled _ _ _ run => exact ⟨(dispatch_frame run).handled,Or.inr ⟨rfl,_,hwrapped,rfl⟩⟩

end Messages

/-- In every run of the server, however the stream is split into reads, the handlers get the requests
of the stream. -/
def HandledExactly (stream : List UInt8) : Prop :=
  ∀ (σ : Type) (E : Engine σ) (config : GravelServerConfig) (db : σ) (events : List (LoopEvent σ)),
    Framed stream (serveConn E config db stream events).conn

def AtRest (c : ClientConn) : Prop := c.fault = false ∧ c.fdOpen = true ∧ c.async.state = .idle

/-- Two runs handle the same messages, as far as both get, and all of them once they have read the
same bytes and are at rest. -/
def HandledAlike (stream : List UInt8) : Prop :=
  ∀ (σ σ' : Type) (E : Engine σ) (E' : Engine σ') (config config' : GravelServerConfig) (db : σ)
    (db' : σ') (events : List (LoopEvent σ)) (events' : List (LoopEvent σ')) (c c' : ClientConn),
    (serveConn E config db stream events).conn = c →
    (serveConn E' config' db' stream events').conn = c' →
    (c.handled <+: c'.handled ∨ c'.handled <+: c.handled) ∧
      (AtRest c → AtRest c' → c'.received = c.received → c'.handled = c.handled)

section Streams

variable {stream : List UInt8} {c c' : ClientConn}

theorem handledExactly_of_fit (hfit : LengthsFit stream) : HandledExactly stream :=
  fun _ _ _ _ events => framed_run hfit events _ (framed_clientInit stream) waiting_nil

theorem Framed.of_stream (h : Framed stream c) : ∃ rest, Cut requests stream c.handled rest := by
  obtain ⟨rest,hcut⟩ := h.handled
  have hall := hcut.append c.incoming
  rw [h.stream] at hall
  exact ⟨_,hall⟩

theorem framed_alike (h : Framed stream c) (h' : Framed stream c') :
    (c.handled <+: c'.handled ∨ c'.handled <+: c.handled) ∧
      (AtRest c → AtRest c' → c'.received = c.received → c'.handled = c.handled) := by
  refine ⟨?_,?_⟩
  · obtain ⟨rest,hcut⟩ := h.of_stream
    obtain ⟨rest',hcut'⟩ := h'.of_stream
    rcases hcut.compare hcut' with ⟨more,_,hmore⟩ | ⟨more,_,hmore⟩
    · exact Or.inl ⟨more,hmore.symm⟩
    · exact Or.inr ⟨more,hmore.symm⟩
  · rintro ⟨hfault,hopen,hidle⟩ ⟨hfault',hopen',hidle'⟩ hsame
    have hcut' := h'.consumed hfault' hopen'
    rw [hsame] at hcut'
    exact ((h.consumed hfault hopen).unique hcut' (h.waits hfault hopen hidle)
      (h'.waits hfault' hopen' hidle')).1

end Streams

/-- The handlers get exactly the requests of the stream, in every run and in the same way, if all the
lengths in it fit 32 bits together with the header. A run that gets to one that does not fit hands
over a message that has not arrived. -/
theorem requests_framed (stream : List UInt8) :
    (LengthsFit stream → HandledExactly stream ∧ HandledAlike stream) ∧
      ∀ (σ : Type) (E : Engine σ) (config : GravelServerConfig) (polls polls' : List Poll)
        (srv srv' : GravelServer σ) (rc : MessageRc),
        srv.conn.async.state = .idle → Header srv.conn.recvBuf →
        2 ^ 32 ≤ requestSize srv.conn.recvBuf →
        processMessage E config polls srv = (rc,srv',polls') →
        srv'.conn.handled = srv.conn.handled ++ [frontMessage srv.conn.recvBuf] ∧
          (rc = .stuck ∨ rc = .handled ∧
            ∃ n < graveldbWireHeaderSize, srv'.conn.recvBuf = srv.conn.recvBuf.drop n) := by
  refine ⟨fun hfit => ?_,fun _ _ _ _ _ _ _ _ => processMessage_wrapped⟩
  have h := handledExactly_of_fit hfit
  refine ⟨h,?_⟩
  rintro σ σ' E E' config config' db db' events events' c c' rfl rfl
  exact framed_alike (h σ E config db events) (h σ' E' config' db' events')

theorem lengthsFit_of_next {b : List UInt8} {m : Handled} {n : Nat} (h : nextRequest b = some (m,n))
    (hsize : requestSize b < 2 ^ 32) (hnext : LengthsFit (b.drop n)) : LengthsFit b := by
  intro ms rest hcut hheader
  cases hcut with
  | nil => exact hsize
  | cons front next =>
    cases h.symm.trans front
    exact hnext _ _ next hheader

def twoPings : List UInt8 :=
  wireHeader MsgType.ping.code 0 ++ wireHeader MsgType.ping.code 2 ++ [7,8]

/-- The second ping announces a body of two bytes and has it. -/
theorem twoPings_framed :
    LengthsFit twoPings ∧ HandledExactly twoPings ∧ HandledAlike twoPings := by
  have hend : LengthsFit [] := by
    intro ms rest hcut hheader
    obtain ⟨_,rfl⟩ := hcut.eq_nil (by decide)
    exact absurd hheader (by decide)
  have hlast : LengthsFit (twoPings.drop 12) :=
    lengthsFit_of_next (m := ⟨MsgType.ping.code,2,[7,8]⟩) (n := 14) (by decide) (by decide) hend
  have hfit : LengthsFit twoPings :=
    lengthsFit_of_next (m := ⟨MsgType.ping.code,0,[]⟩) (by decide) (by decide) hlast
  exact ⟨hfit,(requests_framed twoPings).1 hfit⟩

def hugePing : List UInt8 := wireHeader MsgType.ping.code 0xFFFFFFFF

def hugePingConn : ClientConn :=
  (serveConn emptyEngine ⟨65536,false⟩ () hugePing [.ready (some 12) [] ⟨0,false⟩]).conn

/-- It is answered when its header is there, and 11 of the 12 bytes are taken from the buffer. No
request of the stream was there. -/
theorem hugePing_answered :
    hugePingConn.handled = [⟨MsgType.ping.code,0xFFFFFFFF,[]⟩] ∧ hugePingConn.recvBuf.length = 1 ∧
      ¬ HandledExactly hugePing := by
  have hhandled : hugePingConn.handled = [⟨MsgType.ping.code,0xFFFFFFFF,[]⟩] := by decide +kernel
  refine ⟨hhandled,by decide +kernel,fun hexact => ?_⟩
  have hframed : Framed hugePing hugePingConn := hexact Unit emptyEngine _ () _
  obtain ⟨rest,hcut⟩ := hframed.handled
  have hnone : nextRequest hugePingConn.received = none := by decide +kernel
  have hnil := (hcut.eq_nil hnone).1
  rw [hhandled] at hnil
  cases hnil

end Gravel.Proofs.RequestFraming
