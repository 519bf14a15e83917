import Gravel.Model.Server
import Gravel.Proofs.DumpFormat

namespace Gravel.Proofs.SendQueue
open List

def unsent (queue : List SendChunk) : List UInt8 := queue.flatMap SendChunk.rest

def output (c : ClientConn) : List UInt8 := c.sent ++ unsent c.sendQueue

def Waiting (queue : List SendChunk) : Prop := ∀ ch ∈ queue, ch.rest ≠ []

section Queues

variable {queue queue' : List SendChunk} {ch : SendChunk} {k : Nat}

theorem Waiting.tail (h : Waiting (ch :: queue)) : Waiting queue :=
  fun c hc => h c (mem_cons_of_mem _ hc)

theorem Waiting.append (h : Waiting queue) (h' : Waiting queue') : Waiting (queue ++ queue') := by
  intro c hc
  rcases mem_append.mp hc with hc | hc
  · exact h c hc
  · exact h' c hc

theorem waiting_nil : Waiting [] := by
  intro c hc
  cases hc

theorem unsent_cons (ch : SendChunk) (queue : List SendChunk) :
    unsent (ch :: queue) = ch.rest ++ unsent queue := rfl

theorem unsent_append (queue queue' : List SendChunk) :
    unsent (queue ++ queue') = unsent queue ++ unsent queue' := flatMap_append

theorem Waiting.eq_nil_iff (h : Waiting queue) : queue = [] ↔ unsent queue = [] := by
  constructor
  · rintro rfl
    rfl
  · intro hnone
    cases queue with
    | nil => rfl
    | cons ch queue =>
      rw [unsent_cons,append_eq_nil_iff] at hnone
      exact absurd hnone.1 (h ch mem_cons_self)

theorem rest_partly (ch : SendChunk) (k : Nat) :
    ({ ch with sent := ch.sent + k } : SendChunk).rest = ch.rest.drop k := by
  rw [SendChunk.rest,SendChunk.rest,drop_drop]

theorem advanceQueue_spec (queue : List SendChunk) : ∀ k, Waiting queue →
    unsent (advanceQueue k queue) = (unsent queue).drop k ∧ Waiting (advanceQueue k queue) ∧
      (advanceQueue k queue).length ≤ queue.length := by
  induction queue with
  | nil => exact fun k h => ⟨by simp [advanceQueue,unsent],h,Nat.le_refl _⟩
  | cons ch queue ih =>
    intro k h
    rw [advanceQueue]
    split_ifs with hzero hall
    · subst hzero
      exact ⟨rfl,h,Nat.le_refl _⟩
    · obtain ⟨hbytes,hwait,hlen⟩ := ih (k - ch.rest.length) h.tail
      refine ⟨?_,hwait,by rw [length_cons]; omega⟩
      rw [hbytes,unsent_cons,drop_append,drop_of_length_le hall,nil_append]
    · have hpart := rest_partly ch k
      refine ⟨?_,?_,by rw [length_cons,length_cons]⟩
      · rw [unsent_cons,unsent_cons,hpart,drop_append_of_le_length (by omega)]
      · intro c hc
        rcases mem_cons.mp hc with rfl | hc
        · rw [hpart]
          intro hnone
          have hlen := congrArg List.length hnone
          rw [length_drop,length_nil] at hlen
          omega
        · exact h c (mem_cons_of_mem _ hc)

theorem advanceQueue_shrinks (hne : queue ≠ []) (hw : Waiting queue)
    (hk : (unsent (queue.take 64)).length ≤ k) : (advanceQueue k queue).length < queue.length := by
  cases queue with
  | nil => exact absurd rfl hne
  | cons ch queue =>
    have hfirst : ch.rest.length ≤ k := by
      rw [show (ch :: queue).take 64 = ch :: queue.take 63 from rfl,unsent_cons,length_append]
        at hk
      omega
    have hpos : k ≠ 0 := by
      have := length_pos_iff.mpr (hw ch mem_cons_self)
      omega
    rw [advanceQueue,if_neg hpos,if_pos hfirst,length_cons]
    have := (advanceQueue_spec queue (k - ch.rest.length) hw.tail).2.2
    omega

end Queues

section Flush

variable {c : ClientConn} {sock : Socket} {fuel : Nat}

def flushRc (sock : Socket) (total : Nat) : FlushRc :=
  if total ≤ sock.room then .flushed else if sock.broken then .failed else .pending

structure Flushed (sock : Socket) (c : ClientConn) (queue : List SendChunk) : Prop where
  bytes : unsent queue = (unsent c.sendQueue).drop sock.room
  waiting : Waiting queue

theorem unsent_take_length {queue : List SendChunk} (hne : queue ≠ []) (hw : Waiting queue) :
    (unsent (queue.take 64)).length ≠ 0 := by
  cases queue with
  | nil => exact absurd rfl hne
  | cons ch queue =>
    rw [show (ch :: queue).take 64 = ch :: queue.take 63 from rfl,unsent_cons,length_append]
    have := length_pos_iff.mpr (hw ch mem_cons_self)
    omega

theorem flushLoop_full (hne : c.sendQueue ≠ []) (hw : Waiting c.sendQueue) (hroom : sock.room = 0) :
    flushLoop (fuel + 1) sock c = (if sock.broken then .failed else .pending,c) := by
  have hiov : ((c.sendQueue.take 64).flatMap SendChunk.rest).length ≠ 0 := unsent_take_length hne hw
  rw [flushLoop,if_neg (by simpa using hne)]
  simp only [if_neg hiov,hroom,if_true]

theorem flushLoop_write (hne : c.sendQueue ≠ []) (hw : Waiting c.sendQueue) (hroom : sock.room ≠ 0)
    {wr : Nat} (hwr : min sock.room (unsent (c.sendQueue.take 64)).length = wr) :
    flushLoop (fuel + 1) sock c = flushLoop fuel { sock with room := sock.room - wr }
      { c with sendQueue := advanceQueue wr c.sendQueue,
               sent := c.sent ++ (unsent (c.sendQueue.take 64)).take wr } := by
  have hiov : ((c.sendQueue.take 64).flatMap SendChunk.rest).length ≠ 0 := unsent_take_length hne hw
  subst hwr
  rw [flushLoop,if_neg (by simpa using hne)]
  simp only [if_neg hiov,if_neg hroom]
  rfl

theorem flushLoop_spec (fuel : Nat) : ∀ (sock : Socket) (c : ClientConn), Waiting c.sendQueue →
    c.sendQueue.length < fuel → ∃ queue, Flushed sock c queue ∧
      flushLoop fuel sock c = (flushRc sock (unsent c.sendQueue).length,{ c with
        sendQueue := queue, sent := c.sent ++ (unsent c.sendQueue).take sock.room }) := by
  induction fuel with
  | zero =>
    intro sock c _ hlen
    omega
  | succ fuel ih =>
    intro sock c hw hlen
    by_cases hne : c.sendQueue = []
    · have hnone : unsent c.sendQueue = [] := hw.eq_nil_iff.mp hne
      refine ⟨c.sendQueue,⟨by rw [hnone,drop_nil],hw⟩,?_⟩
      rw [flushLoop,if_pos (by simp [hne]),hnone,flushRc,length_nil,if_pos (Nat.zero_le _),
        take_nil,append_nil]
    by_cases hroom : sock.room = 0
    · have hpos : ¬ (unsent c.sendQueue).length ≤ sock.room := by
        rw [hroom,Nat.le_zero,length_eq_zero_iff,← hw.eq_nil_iff]
        exact hne
      refine ⟨c.sendQueue,⟨by rw [hroom,drop_zero],hw⟩,?_⟩
      rw [flushLoop_full hne hw hroom,flushRc,if_neg hpos,hroom,take_zero,append_nil]
    have hsplit : unsent c.sendQueue =
        unsent (c.sendQueue.take 64) ++ unsent (c.sendQueue.drop 64) := by
      rw [← unsent_append,take_append_drop]
    have htotal : (unsent c.sendQueue).length = (unsent (c.sendQueue.take 64)).length +
        (unsent (c.sendQueue.drop 64)).length := by
      rw [hsplit,length_append]
    by_cases hall : (unsent (c.sendQueue.take 64)).length ≤ sock.room
    · -- all that was offered is taken, and the loop goes on with a shorter list
      obtain ⟨hbytes,hwait,-⟩ := advanceQueue_spec c.sendQueue
        (unsent (c.sendQueue.take 64)).length hw
      have hshort := advanceQueue_shrinks hne hw (Nat.le_refl _)
      rw [flushLoop_write hne hw hroom (Nat.min_eq_right hall)]
      obtain ⟨queue,hflushed,hrun⟩ := ih
        { sock with room := sock.room - (unsent (c.sendQueue.take 64)).length }
        { c with
          sendQueue := advanceQueue (unsent (c.sendQueue.take 64)).length c.sendQueue
          sent := c.sent ++ (unsent (c.sendQueue.take 64)).take
            (unsent (c.sendQueue.take 64)).length }
        hwait (by simp only; omega)
      refine ⟨queue,⟨?_,hflushed.waiting⟩,?_⟩
      · rw [hflushed.bytes]
        simp only [hbytes,drop_drop,Nat.add_sub_cancel' hall]
      · have hrc : flushRc { sock with room := sock.room - (unsent (c.sendQueue.take 64)).length }
            (unsent (c.sendQueue.drop 64)).length = flushRc sock (unsent c.sendQueue).length := by
          simp only [flushRc,htotal,Nat.le_sub_iff_add_le hall,Nat.add_comm]
        rw [hrun]
        simp only [hbytes,take_length,append_assoc]
        rw [hsplit,drop_left,take_append,take_of_length_le hall,← hsplit,hrc]
    · -- the socket is full
      have hlt := Nat.not_le.mp hall
      obtain ⟨hbytes,hwait,-⟩ := advanceQueue_spec c.sendQueue sock.room hw
      obtain ⟨more,rfl⟩ : ∃ m, fuel = m + 1 := by
        have := length_pos_iff.mpr hne
        exact ⟨fuel - 1,by omega⟩
      have hleft : advanceQueue sock.room c.sendQueue ≠ [] := by
        rw [Ne,hwait.eq_nil_iff,hbytes,drop_eq_nil_iff]
        omega
      have hmore : ¬ (unsent c.sendQueue).length ≤ sock.room := by omega
      refine ⟨advanceQueue sock.room c.sendQueue,⟨hbytes,hwait⟩,?_⟩
      rw [flushLoop_write hne hw hroom (Nat.min_eq_left (Nat.le_of_lt hlt)),
        flushLoop_full hleft hwait (Nat.sub_self _),flushRc,if_neg hmore,hsplit,
        take_append_of_le_length (Nat.le_of_lt hlt)]

structure SentTo (sock : Socket) (c c' : ClientConn) : Prop where
  same : c' = { c with sendQueue := c'.sendQueue, sent := c'.sent }
  sent : c'.sent = c.sent ++ (unsent c.sendQueue).take sock.room
  bytes : unsent c'.sendQueue = (unsent c.sendQueue).drop sock.room
  waiting : Waiting c'.sendQueue

theorem clientFlushSendRaw_spec (sock : Socket) (hw : Waiting c.sendQueue) :
    ∃ c', SentTo sock c c' ∧
      clientFlushSendRaw sock c = (flushRc sock (unsent c.sendQueue).length,c') := by
  obtain ⟨queue,hflushed,hrun⟩ := flushLoop_spec _ sock c hw (Nat.lt_succ_self _)
  exact ⟨_,⟨rfl,rfl,hflushed.bytes,hflushed.waiting⟩,hrun⟩

variable {c' : ClientConn}

theorem SentTo.resets (h : SentTo sock c c') : c'.resets = c.resets := by
  rw [h.same]

theorem SentTo.fdOpen (h : SentTo sock c c') : c'.fdOpen = c.fdOpen := by
  rw [h.same]

theorem SentTo.async (h : SentTo sock c c') : c'.async = c.async := by
  rw [h.same]

theorem SentTo.output_eq (h : SentTo sock c c') : output c' = output c := by
  rw [output,h.sent,h.bytes,append_assoc,take_append_drop,output]

theorem SentTo.eq_nil_iff (h : SentTo sock c c') :
    c'.sendQueue = [] ↔ (unsent c.sendQueue).length ≤ sock.room := by
  rw [h.waiting.eq_nil_iff,h.bytes,drop_eq_nil_iff]

theorem sentTo_idle (sock : Socket) (h : c.sendQueue = []) : SentTo sock c c := by
  have hnone : unsent c.sendQueue = [] := by
    rw [h]
    rfl
  refine ⟨rfl,by rw [hnone,take_nil,append_nil],by rw [hnone,drop_nil],?_⟩
  rw [h]
  exact waiting_nil

variable {σ : Type} (srv : GravelServer σ) (sock : Socket)

theorem flushPending_raw (hw : Waiting srv.conn.sendQueue) : ∃ c', SentTo sock srv.conn c' ∧
    (flushPending (clientFlushSendRaw sock) srv = { srv with conn := c' } ∨
      flushPending (clientFlushSendRaw sock) srv = closeConn { srv with conn := c' }) := by
  by_cases hempty : srv.conn.sendQueue.isEmpty
  · refine ⟨srv.conn,sentTo_idle sock (List.isEmpty_iff.mp hempty),Or.inl ?_⟩
    rw [flushPending,if_pos hempty]
  obtain ⟨c',hsent,hrun⟩ := clientFlushSendRaw_spec sock hw
  refine ⟨c',hsent,?_⟩
  rw [flushPending,if_neg hempty,hrun]
  cases flushRc sock (unsent srv.conn.sendQueue).length with
  | failed => exact Or.inr rfl
  | flushed | pending => exact Or.inl rfl

/-- What a flush of the pending chunks can do: the arena is reset if the last of them was sent. -/
theorem flushPending_send (hw : Waiting srv.conn.sendQueue) : ∃ c', SentTo sock srv.conn c' ∧
    ((srv.conn.sendQueue = [] ∨ sock.room < (unsent srv.conn.sendQueue).length) ∧
        (flushPending (clientFlushSend sock) srv = { srv with conn := c' } ∨ sock.broken = true ∧
          flushPending (clientFlushSend sock) srv = closeConn { srv with conn := c' }) ∨
      srv.conn.sendQueue ≠ [] ∧ (unsent srv.conn.sendQueue).length ≤ sock.room ∧
        flushPending (clientFlushSend sock) srv = { srv with conn := arenaReset c' }) := by
  by_cases hempty : srv.conn.sendQueue.isEmpty
  · have hnil := List.isEmpty_iff.mp hempty
    refine ⟨srv.conn,sentTo_idle sock hnil,Or.inl ⟨Or.inl hnil,Or.inl ?_⟩⟩
    rw [flushPending,if_pos hempty]
  obtain ⟨c',hsent,hrun⟩ := clientFlushSendRaw_spec sock hw
  refine ⟨c',hsent,?_⟩
  rw [flushPending,if_neg hempty,clientFlushSend,hrun]
  by_cases hall : (unsent srv.conn.sendQueue).length ≤ sock.room
  · refine Or.inr ⟨fun h => hempty (List.isEmpty_iff.mpr h),hall,?_⟩
    rw [flushRc,if_pos hall]
  · refine Or.inl ⟨Or.inr (Nat.not_le.mp hall),?_⟩
    rw [flushRc,if_neg hall]
    split_ifs with hbroken
    · exact Or.inr ⟨hbroken,rfl⟩
    · exact Or.inl rfl

end Flush

end Gravel.Proofs.SendQueue
