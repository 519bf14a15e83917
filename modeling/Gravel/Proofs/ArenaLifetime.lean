import Gravel.Model.Client
import Gravel.Proofs.ServerFrames

namespace Gravel.Proofs.ArenaLifetime
open SendQueue ServerFrames List

/-- The arena of an open connection is reset while no request uses it and nothing is left to send. A
connection that is closed loses its arena with everything else. -/
def SafeReset (r : ArenaReset) : Prop := r.fdOpen = true → r.state = .idle ∧ r.queue = []

variable {σ : Type}

/-- No pull is in flight, or there is nothing to send, or the socket does not take all of it. -/
def SafeWrite (sock : Socket) (srv : GravelServer σ) : Prop :=
  srv.conn.async.state = .idle ∨ srv.conn.sendQueue = [] ∨
    sock.room < (unsent srv.conn.sendQueue).length

def SafeEvent (E : Engine σ) (config : GravelServerConfig) (srv : GravelServer σ) :
    LoopEvent σ → Prop
  | .ready read polls sock =>
    let srv := readyRead E config read polls srv
    srv.conn.fault = false → srv.conn.fdOpen = true → SafeWrite sock srv
  | _ => True

def SafeRun (E : Engine σ) (config : GravelServerConfig) :
    GravelServer σ → List (LoopEvent σ) → Prop
  | _, [] => True
  | srv, event :: events =>
    SafeEvent E config srv event ∧ SafeRun E config (loopStep E config srv event) events

structure Resets (c c' : ClientConn) (safe : Prop) : Prop where
  waiting : Waiting c'.sendQueue
  log : ∃ more, c'.resets = c.resets ++ more ∧ (∀ r ∈ more, r.fdOpen = false → r.state = .idle) ∧
    ((∀ r ∈ more, SafeReset r) ↔ safe)

section Steps

variable {E : Engine σ} {config : GravelServerConfig} {srv : GravelServer σ} {sock : Socket}
  {polls : List Poll} {c c' c'' : ClientConn} {p q : Prop}

theorem Resets.trans (h : Resets c c' p) (h' : Resets c' c'' q) : Resets c c'' (p ∧ q) := by
  obtain ⟨more,hmore,hclosed,hsafe⟩ := h.log
  obtain ⟨more',hmore',hclosed',hsafe'⟩ := h'.log
  refine ⟨h'.waiting,more ++ more',by rw [hmore',hmore,append_assoc],?_,?_⟩
  · intro r hr
    rcases mem_append.mp hr with hr | hr
    · exact hclosed r hr
    · exact hclosed' r hr
  · rw [← hsafe,← hsafe',forall_mem_append]

theorem Resets.congr (h : Resets c c' p) (hpq : p ↔ q) : Resets c c' q := by
  rw [← propext hpq]
  exact h

theorem Resets.then (h : Resets c c' True) (h' : Resets c' c'' p) : Resets c c'' p :=
  (h.trans h').congr (iff_of_eq (true_and p))

theorem resets_none (hw : Waiting c'.sendQueue) (h : c'.resets = c.resets) : Resets c c' True := by
  refine ⟨hw,[],by rw [h,append_nil],?_,?_⟩
  · intro r hr
    cases hr
  · exact iff_of_true (fun r hr => by cases hr) trivial

theorem resets_kept (hw : Waiting c.sendQueue) (h : Kept c c') : Resets c c' True :=
  resets_none (h.waiting hw) h.resets

theorem resets_close (c : ClientConn) : Resets c (clientClose c) True := by
  refine ⟨waiting_nil,[⟨false,.idle,c.sendQueue⟩],rfl,?_,?_⟩
  · intro r hr _
    obtain rfl := mem_singleton.mp hr
    rfl
  · refine iff_of_true ?_ trivial
    intro r hr hopen
    obtain rfl := mem_singleton.mp hr
    cases hopen

theorem resets_processQueued (srv : GravelServer σ) (hw : Waiting srv.conn.sendQueue)
    (polls : List Poll) : Resets srv.conn (processQueued E config polls srv).conn True := by
  obtain ⟨⟨rc,srv'⟩,hrun⟩ :
      ∃ r, processMessages E config (srv.conn.recvBuf.length + 1) polls srv = r := ⟨_,rfl⟩
  have hkept := resets_kept hw (processMessages_kept _ polls srv hrun)
  rw [processQueued,hrun]
  cases rc with
  | bad => exact hkept.then (resets_close srv'.conn)
  | stuck => exact hkept.then (resets_none hkept.waiting rfl)
  | wait | handled => exact hkept

theorem resets_raw (srv : GravelServer σ) (hw : Waiting srv.conn.sendQueue) (sock : Socket) :
    Resets srv.conn (flushPending (clientFlushSendRaw sock) srv).conn True := by
  obtain ⟨c',hsent,hrun⟩ := flushPending_raw srv sock hw
  have hdone : Resets srv.conn c' True := resets_none hsent.waiting hsent.resets
  rcases hrun with hrun | hrun
  · rw [hrun]
    exact hdone
  · rw [hrun]
    exact hdone.then (resets_close c')

theorem resets_flush (srv : GravelServer σ) (hw : Waiting srv.conn.sendQueue)
    (hopen : srv.conn.fdOpen = true) (sock : Socket) :
    Resets srv.conn (flushPending (clientFlushSend sock) srv).conn (SafeWrite sock srv) := by
  obtain ⟨c',hsent,⟨hkeeps,hrun⟩ | ⟨hne,hall,hrun⟩⟩ := flushPending_send srv sock hw
  · have hdone : Resets srv.conn c' True := resets_none hsent.waiting hsent.resets
    have hsafe : SafeWrite sock srv := Or.inr hkeeps
    rcases hrun with hrun | ⟨_,hrun⟩
    · rw [hrun]
      exact hdone.congr (iff_of_true trivial hsafe)
    · rw [hrun]
      exact (hdone.then (resets_close c')).congr (iff_of_true trivial hsafe)
  · rw [hrun]
    refine ⟨hsent.waiting,[⟨c'.fdOpen,c'.async.state,c'.sendQueue⟩],?_,?_,?_⟩
    · change c'.resets ++ _ = _
      rw [hsent.resets]
    · intro r hr hclosed
      obtain rfl := mem_singleton.mp hr
      rw [hsent.fdOpen,hopen] at hclosed
      cases hclosed
    · rw [forall_mem_singleton,SafeReset,SafeWrite]
      simp only [hsent.fdOpen,hopen,hsent.async,hsent.eq_nil_iff.mpr hall,hne,Nat.not_lt.mpr hall,
        and_true,or_false,true_implies]

theorem resets_resume (hw : Waiting srv.conn.sendQueue) (polls : List Poll) (sock : Socket) :
    Resets srv.conn (resumeConn E config polls sock srv).conn True := by
  unfold resumeConn
  split_ifs with hskip
  · exact resets_none hw rfl
  push Not at hskip
  cases hrun : clientAsyncResume (E.lookup srv.db) polls srv.conn with
  | none => exact resets_none hw rfl
  | some r =>
    obtain ⟨busy,c,polls'⟩ := r
    have hadv := clientAsyncResume_advanced hrun
    have hkept := resets_kept hw hadv.frame.toKept
    cases busy with
    | true => exact hkept.then (resets_raw { srv with conn := c } hkept.waiting sock)
    | false =>
      -- the request is over: its buffers may go
      have hopen : c.fdOpen = true := by
        rw [hadv.frame.fdOpen]
        simpa using hskip.2.1
      have hflush := (resets_flush { srv with conn := c } hkept.waiting hopen sock).congr
        (iff_of_true (Or.inl (hadv.done rfl)) trivial)
      simp only
      split_ifs
      · exact (hkept.then hflush).then (resets_processQueued _ hflush.waiting polls')
      · exact hkept.then hflush

theorem resets_read (hw : Waiting srv.conn.sendQueue) (read : Option Nat) (polls : List Poll) :
    Resets srv.conn (readyRead E config read polls srv).conn True := by
  rcases readyRead_cases E config read polls srv with h | h | ⟨_,_,cap,bytes,rest,_,h⟩
  · rw [h]
    exact resets_none hw rfl
  · rw [h]
    exact resets_close srv.conn
  · have htaken : Resets srv.conn (takeBytes srv.conn cap bytes rest) True := resets_none hw rfl
    rw [h]
    exact htaken.then
      (resets_processQueued { srv with conn := takeBytes srv.conn cap bytes rest } hw polls)

theorem resets_write (hw : Waiting srv.conn.sendQueue) (sock : Socket) :
    Resets srv.conn (writeConn sock srv).conn
      (srv.conn.fault = false → srv.conn.fdOpen = true → SafeWrite sock srv) := by
  unfold writeConn
  split_ifs with hskip
  · refine (resets_none hw rfl).congr (iff_of_true trivial ?_)
    intro hfault hopen
    rw [hfault,hopen] at hskip
    simp at hskip
  · push Not at hskip
    have hfault : srv.conn.fault = false := by simpa using hskip.1
    have hopen : srv.conn.fdOpen = true := by simpa using hskip.2
    exact (resets_flush srv hw hopen sock).congr ⟨fun h _ _ => h,fun h => h hfault hopen⟩

theorem resets_step (hw : Waiting srv.conn.sendQueue) (event : LoopEvent σ) :
    Resets srv.conn (loopStep E config srv event).conn (SafeEvent E config srv event) := by
  cases event with
  | resume polls sock => exact resets_resume hw polls sock
  | ready read polls sock =>
    have hread := @resets_read _ E config _ hw read polls
    exact hread.then (resets_write hread.waiting sock)
  | others db flushInFlight => exact resets_none hw rfl

theorem resets_run (events : List (LoopEvent σ)) : ∀ srv : GravelServer σ,
    Waiting srv.conn.sendQueue →
    Resets srv.conn (events.foldl (loopStep E config) srv).conn (SafeRun E config srv events) := by
  induction events with
  | nil => exact fun srv hw => resets_none hw rfl
  | cons event events ih =>
    intro srv hw
    have hstep := @resets_step _ E config _ hw event
    exact hstep.trans (ih _ hstep.waiting)

end Steps

/-- A connection that is closed has no pull in flight when its arena goes. While it is open, its
arena is reset under no request and over no unsent chunk exactly if no write part takes the last
queued byte while a pull is in flight. -/
theorem arena_outlives_request_iff (E : Engine σ) (config : GravelServerConfig) (db : σ)
    (incoming : List UInt8) (events : List (LoopEvent σ)) :
    (∀ r ∈ (serveConn E config db incoming events).conn.resets,
        r.fdOpen = false → r.state = .idle) ∧
      ((∀ r ∈ (serveConn E config db incoming events).conn.resets,
          r.fdOpen = true → r.state = .idle ∧ r.queue = []) ↔
        SafeRun E config ⟨db,false,clientInit incoming⟩ events) := by
  obtain ⟨more,hmore,hclosed,hsafe⟩ :=
    (@resets_run _ E config events ⟨db,false,clientInit incoming⟩ waiting_nil).log
  rw [serveConn,hmore]
  exact ⟨hclosed,hsafe⟩

def emptyEngine : Engine Unit where
  batchPut _ _ := some ((),.ok)
  batchDelete _ _ := some ()
  flushNeeded _ := false
  flushSubmit _ := some ()
  checkpoint _ := some ()
  stats _ := []
  lookup _ _ := ⟨0,[],length_nil⟩

def streamedPull : List UInt8 := sendRequest .pullStream (pullBody [7])

/-- The header of the stream is sent at once, and takes the buffers of the pull with it. -/
theorem header_resets_arena :
    (serveConn emptyEngine ⟨65536,false⟩ () streamedPull
      [.ready (some 24) [] ⟨4096,false⟩]).conn.resets.map (fun r => (r.fdOpen,r.state)) =
        [(true,.asyncStream)] := by
  decide +kernel

end Gravel.Proofs.ArenaLifetime
