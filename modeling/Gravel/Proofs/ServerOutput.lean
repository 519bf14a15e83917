import Gravel.Proofs.ServerFrames

namespace Gravel.Proofs.ServerOutput
open SendQueue ServerFrames

/-- What the event loop does to a connection: while it is open its responses only get longer, and
as long as it is idle and no message is handled nothing happens to them. -/
structure Later (c c' : ClientConn) : Prop where
  waiting : Waiting c'.sendQueue
  handled : c.handled <+: c'.handled
  fdOpen : c'.fdOpen = true → c.fdOpen = true
  grows : c'.fdOpen = true → output c <+: output c'
  idle : c.async.state = .idle → c'.handled = c.handled →
    c'.async.state = .idle ∧ c'.fault = c.fault ∧ (c'.fdOpen = true → output c' = output c)

section Steps

variable {σ : Type} {E : Engine σ} {config : GravelServerConfig} {srv : GravelServer σ}
  {sock : Socket} {c c' c'' : ClientConn}

theorem Later.trans (h : Later c c') (h' : Later c' c'') : Later c c'' where
  waiting := h'.waiting
  handled := h.handled.trans h'.handled
  fdOpen hopen := h.fdOpen (h'.fdOpen hopen)
  grows hopen := (h.grows (h'.fdOpen hopen)).trans (h'.grows hopen)
  idle hidle hsame := by
    have hmid : c'.handled = c.handled := by
      refine (h.handled.eq_of_length_le ?_).symm
      rw [← hsame]
      exact h'.handled.length_le
    obtain ⟨hidle',hfault,hout⟩ := h.idle hidle hmid
    obtain ⟨hidle'',hfault',hout'⟩ := h'.idle hidle' (hsame.trans hmid.symm)
    exact ⟨hidle'',hfault'.trans hfault,
      fun hopen => (hout' hopen).trans (hout (h'.fdOpen hopen))⟩

theorem later_same (hw : Waiting c'.sendQueue) (hhandled : c'.handled = c.handled)
    (hopen : c'.fdOpen = c.fdOpen) (hout : output c' = output c) (hasync : c'.async = c.async)
    (hfault : c'.fault = c.fault) : Later c c' where
  waiting := hw
  handled := by rw [hhandled]
  fdOpen h := hopen ▸ h
  grows _ := by rw [hout]
  idle hidle _ := ⟨by rw [hasync,hidle],hfault,fun _ => hout⟩

theorem Later.refl (hw : Waiting c.sendQueue) : Later c c := later_same hw rfl rfl rfl rfl rfl

theorem later_close (c : ClientConn) : Later c (clientClose c) where
  waiting := waiting_nil
  handled := List.prefix_refl _
  fdOpen h := by cases h
  grows h := by cases h
  idle _ _ := ⟨rfl,rfl,fun h => by cases h⟩

theorem later_sent (h : SentTo sock c c') : Later c c' := by
  refine later_same h.waiting ?_ h.fdOpen h.output_eq h.async ?_
  · rw [h.same]
  · rw [h.same]

theorem output_of_kept (h : Kept c c') : output c <+: output c' := by
  obtain ⟨more,hmore,_⟩ := h.queue
  refine ⟨unsent more,?_⟩
  rw [output,output,h.sent,hmore,unsent_append,List.append_assoc]

theorem later_kept (hw : Waiting c.sendQueue) (h : Kept c c') (hhandled : c.handled <+: c'.handled)
    (hbusy : c.async.state = .idle → c'.handled ≠ c.handled) : Later c c' where
  waiting := h.waiting hw
  handled := hhandled
  fdOpen hopen := h.fdOpen ▸ hopen
  grows _ := output_of_kept h
  idle hidle hsame := absurd hsame (hbusy hidle)

theorem later_fail (hw : Waiting srv.conn.sendQueue)
    (hbusy : srv.conn.async.state ≠ .idle) : Later srv.conn (failConn srv).conn where
  waiting := hw
  handled := List.prefix_refl _
  fdOpen h := h
  grows _ := List.prefix_refl _
  idle hidle := absurd hidle hbusy

theorem later_processQueued (srv : GravelServer σ) (hw : Waiting srv.conn.sendQueue)
    (polls : List Poll) : Later srv.conn (processQueued E config polls srv).conn := by
  obtain ⟨⟨rc,srv'⟩,hrun⟩ :
      ∃ r, processMessages E config (srv.conn.recvBuf.length + 1) polls srv = r := ⟨_,rfl⟩
  obtain ⟨ms,hms,hnone⟩ := processMessages_log _ polls srv hrun
  rw [processQueued,hrun]
  by_cases hnil : ms = []
  · obtain ⟨rfl,rfl | rfl⟩ := hnone (Nat.succ_pos _) hnil
    · exact .refl hw
    · exact later_close _
  · have hkept := processMessages_kept _ polls srv hrun
    have hmore : srv'.conn.handled ≠ srv.conn.handled := by
      rw [hms]
      simpa using hnil
    have hlater : Later srv.conn srv'.conn :=
      later_kept hw hkept ⟨ms,hms.symm⟩ (fun _ => hmore)
    cases rc with
    | bad => exact hlater.trans (later_close _)
    | stuck => exact ⟨hlater.waiting,hlater.handled,hlater.fdOpen,hlater.grows,
        fun _ hsame => absurd hsame hmore⟩
    | wait | handled => exact hlater

theorem later_raw (srv : GravelServer σ) (hw : Waiting srv.conn.sendQueue) (sock : Socket) :
    Later srv.conn (flushPending (clientFlushSendRaw sock) srv).conn := by
  obtain ⟨c',hsent,hrun | hrun⟩ := flushPending_raw srv sock hw
  · rw [hrun]
    exact later_sent hsent
  · rw [hrun]
    exact (later_sent hsent).trans (later_close c')

theorem later_flush (srv : GravelServer σ) (hw : Waiting srv.conn.sendQueue) (sock : Socket) :
    Later srv.conn (flushPending (clientFlushSend sock) srv).conn := by
  obtain ⟨c',hsent,⟨_,hrun | ⟨_,hrun⟩⟩ | ⟨_,_,hrun⟩⟩ := flushPending_send srv sock hw
  · rw [hrun]
    exact later_sent hsent
  · rw [hrun]
    exact (later_sent hsent).trans (later_close c')
  · have hreset : Later c' (arenaReset c') := later_same hsent.waiting rfl rfl rfl rfl rfl
    rw [hrun]
    exact (later_sent hsent).trans hreset

theorem later_resume (hw : Waiting srv.conn.sendQueue) (polls : List Poll) (sock : Socket) :
    Later srv.conn (resumeConn E config polls sock srv).conn := by
  unfold resumeConn
  split_ifs with hskip
  · exact .refl hw
  push Not at hskip
  have hbusy := hskip.2.2
  cases hrun : clientAsyncResume (E.lookup srv.db) polls srv.conn with
  | none => exact later_fail hw hbusy
  | some r =>
    obtain ⟨busy,c,polls'⟩ := r
    have hadv := clientAsyncResume_advanced hrun
    have hlater : Later srv.conn c := later_kept hw hadv.frame.toKept (by rw [hadv.frame.handled])
      (fun hidle => absurd hidle hbusy)
    cases busy with
    | true => exact hlater.trans (later_raw { srv with conn := c } hlater.waiting sock)
    | false =>
      have hflush := hlater.trans (later_flush { srv with conn := c } hlater.waiting sock)
      simp only
      split_ifs
      · exact hflush.trans (later_processQueued _ hflush.waiting polls')
      · exact hflush

theorem later_read (hw : Waiting srv.conn.sendQueue) (read : Option Nat) (polls : List Poll) :
    Later srv.conn (readyRead E config read polls srv).conn := by
  rcases readyRead_cases E config read polls srv with h | h | ⟨_,_,cap,bytes,rest,_,h⟩
  · rw [h]
    exact .refl hw
  · rw [h]
    exact later_close srv.conn
  · have htaken : Later srv.conn (takeBytes srv.conn cap bytes rest) :=
      later_same hw rfl rfl rfl rfl rfl
    rw [h]
    exact htaken.trans
      (later_processQueued { srv with conn := takeBytes srv.conn cap bytes rest } hw polls)

theorem later_write (hw : Waiting srv.conn.sendQueue) (sock : Socket) :
    Later srv.conn (writeConn sock srv).conn := by
  unfold writeConn
  split_ifs
  · exact .refl hw
  · exact later_flush srv hw sock

theorem later_step (hw : Waiting srv.conn.sendQueue) (event : LoopEvent σ) :
    Later srv.conn (loopStep E config srv event).conn := by
  cases event with
  | resume polls sock => exact later_resume hw polls sock
  | ready read polls sock =>
    have hread := @later_read _ E config _ hw read polls
    exact hread.trans (later_write hread.waiting sock)
  | others db flushInFlight => exact .refl hw

end Steps

end Gravel.Proofs.ServerOutput
