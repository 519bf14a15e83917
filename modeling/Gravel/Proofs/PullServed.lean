import Gravel.Proofs.ArenaLifetime
import Gravel.Proofs.PullResponses
import Gravel.Proofs.ServerOutput

namespace Gravel.Proofs.PullServed
open SendQueue ServerFrames ServerOutput ArenaLifetime PullSlots PullCourse PullResponses Spec
  List Function

structure Ready (c : ClientConn) : Prop where
  fdOpen : c.fdOpen = true
  fault : c.fault = false
  idle : c.async.state = .idle
  waiting : Waiting c.sendQueue

/-- A get of the pull is in flight; the records of the chunks before it are in the response, and
its buffers are still allocated. -/
structure InFlight (kind : PullKind) (lookup : UInt64 → PullRecord) (ids : List UInt64)
    (before : List UInt8) (c : ClientConn) : Prop where
  fdOpen : c.fdOpen = true
  fault : c.fault = false
  waiting : Waiting c.sendQueue
  state : c.async.state = kind.state
  arena : c.async.arena = c.resets.length
  parts : ∃ as, Aligned (fun k a => a = chunkAt lookup ids k) ids as ∧
    Submitted lookup ids as.length c ∧ kind.built ids.length before as c

structure Answered (kind : PullKind) (lookup : UInt64 → PullRecord) (ids : List UInt64)
    (before : List UInt8) (c : ClientConn) : Prop extends Ready c where
  response : output c = before ++ kind.response (ids.map lookup)

section Flight

variable {kind : PullKind} {lookup : UInt64 → PullRecord} {ids : List UInt64}
  {before : List UInt8} {c c' : ClientConn}

theorem chunk_fits (h : DimsFit ((ids.map lookup).map PullRecord.dim)) (k : Nat) :
    SlotsFit ((chunkAt lookup ids k).map PullRecord.dim) := by
  by_cases hk : k < (chunksOf pullChunkSize (ids.map lookup)).length
  · refine h _ ?_
    rw [← map_chunksOf]
    exact List.mem_map_of_mem (mem_of_getElem? (chunksOf_ids hk))
  · have hnil : chunkAt lookup ids k = [] := by
      rw [length_chunksOf,length_map] at hk
      apply eq_nil_of_length_eq_zero
      rw [length_chunkAt]
      rw [pullChunkSize] at hk ⊢
      omega
    rw [hnil]
    refine ⟨?_,?_⟩
    · intro i d hd
      cases hd
    · intro i j d d' _ hd
      cases hd

theorem copies_well (h : DimsFit ((ids.map lookup).map PullRecord.dim)) (polls : List Poll) :
    CopiesWell lookup ids (fun k a => a = chunkAt lookup ids k) polls :=
  fun _ _ k _ _ hcomplete => readSlots_complete (chunk_fits h k) hcomplete

theorem InFlight.congr (h : InFlight kind lookup ids before c) (hw : Waiting c'.sendQueue)
    (hopen : c'.fdOpen = c.fdOpen) (hfault : c'.fault = c.fault) (hasync : c'.async = c.async)
    (hresets : c'.resets = c.resets) (hcur : c'.sendCur = c.sendCur) (hout : output c' = output c) :
    InFlight kind lookup ids before c' := by
  obtain ⟨as,hal,hsub,hbuilt⟩ := h.parts
  refine ⟨hopen.trans h.fdOpen,hfault.trans h.fault,hw,?_,?_,as,hal,?_,?_⟩
  · rw [hasync,h.state]
  · rw [hasync,hresets,h.arena]
  · refine ⟨⟨?_,?_⟩,hsub.more,?_⟩
    · rw [hasync,hsub.featIds]
    · rw [hasync,hsub.offset]
    · rw [hasync,hsub.chunk]
  · exact (kind.course ids before).congr hbuilt ⟨hcur,hout,by rw [hasync]⟩

theorem InFlight.sent {sock : Socket} (h : InFlight kind lookup ids before c)
    (hsent : SentTo sock c c') : InFlight kind lookup ids before c' := by
  refine h.congr hsent.waiting hsent.fdOpen ?_ hsent.async hsent.resets ?_ hsent.output_eq
  · rw [hsent.same]
  · rw [hsent.same]

theorem outcome_cases {busy : Bool} {as : List (List PullRecord)} {c1 : ClientConn}
    (hopen : c1.fdOpen = true) (hfault : c1.fault = false) (hw : Waiting c1.sendQueue)
    (hstate : c1.async.state = kind.state) (harena : c1.async.arena = c1.resets.length)
    (hadv : Advanced c1 busy c)
    (h : Outcome lookup ids (kind.built ids.length before) (kind.answer ids.length) before
      (fun k a => a = chunkAt lookup ids k) busy c as) :
    (busy = true → InFlight kind lookup ids before c) ∧
      (busy = false → Answered kind lookup ids before c) := by
  refine ⟨?_,?_⟩
  · intro hbusy
    obtain ⟨hsub,hbuilt⟩ := h.waits hbusy
    exact ⟨hadv.frame.fdOpen.trans hopen,hadv.frame.fault.trans hfault,hadv.frame.waiting hw,
      (hadv.goes_on hbusy).trans hstate,by rw [hadv.arena,hadv.frame.resets,harena],
      as,h.aligned,hsub,hbuilt⟩
  · intro hdone
    obtain ⟨hend,hout⟩ := h.ends hdone
    rw [aligned_eq h.aligned hend,answer_chunks] at hout
    exact ⟨⟨hadv.frame.fdOpen.trans hopen,hadv.frame.fault.trans hfault,hadv.done hdone,
      hadv.frame.waiting hw⟩,hout⟩

/-- A poll of the get in flight is defined, and ends with another get in flight or with the
response. -/
theorem InFlight.resume (hfit : DimsFit ((ids.map lookup).map PullRecord.dim))
    (h : InFlight kind lookup ids before c) (polls : List Poll) : ∃ busy c' polls',
    clientAsyncResume lookup polls c = some (busy,c',polls') ∧ OutputOnly c c' ∧
      (busy = true → InFlight kind lookup ids before c') ∧
      (busy = false → Answered kind lookup ids before c') := by
  have hcourse := kind.course ids before
  obtain ⟨as,hal,hsub,hbuilt⟩ := h.parts
  obtain ⟨⟨busy,c',polls'⟩,hrun⟩ := @resumeGet_defined lookup ids c _ kind.finalize hcourse.emits
    (fun k i => (chunk_fits hfit k).all_inside i) _ hsub h.arena polls
  have hadv := resumeGet_advanced hcourse.emits hcourse.finalizes hrun
  obtain ⟨as',hout⟩ := hcourse.resumeGet (copies_well hfit polls) hal hsub hbuilt hrun
  obtain ⟨hwaits,hends⟩ := outcome_cases h.fdOpen h.fault h.waiting h.state h.arena hadv hout
  refine ⟨busy,c',polls',?_,hadv.frame,hwaits,hends⟩
  rw [kind.resume_eq h.state]
  exact hrun

theorem InFlight.completes (hfit : DimsFit ((ids.map lookup).map PullRecord.dim))
    (h : InFlight kind lookup ids before c) {polls : List Poll}
    (hdone : ∀ poll ∈ polls, poll ≠ .again) (hlen : ids.length ≤ polls.length) :
    ∃ c' polls', clientAsyncResume lookup polls c = some (false,c',polls') := by
  obtain ⟨busy,c',polls',hrun,_⟩ := h.resume hfit polls
  obtain ⟨as,_,hsub,_⟩ := h.parts
  have hbusy : busy = false := by
    rw [kind.resume_eq h.state] at hrun
    exact resumeGet_ends (kind.course ids before).emits hsub hdone hlen hrun
  subst hbusy
  exact ⟨c',polls',hrun⟩

theorem handle_ready (hfit : DimsFit ((ids.map lookup).map PullRecord.dim)) {body : List UInt8}
    (hbody : pullIds body = some ids) (hready : Ready c) (polls : List Poll) : ∃ c' polls',
    kind.handle lookup polls c body = some (c',polls') ∧ OutputOnly c c' ∧
      (InFlight kind lookup ids (output c) c' ∨ Answered kind lookup ids (output c) c') := by
  have hcourse := kind.course ids (output c)
  obtain ⟨c1,hstarted,heq⟩ := handle_eq kind hbody lookup polls c
  obtain ⟨⟨busy,c',polls'⟩,hrun⟩ := @submitNextChunk_defined lookup ids _ kind.finalize
    hcourse.emits (fun k i => (chunk_fits hfit k).all_inside i) polls _ _ hstarted.position
  have hadv := submitNextChunk_advanced hcourse.emits hcourse.finalizes polls _ hrun
  obtain ⟨as,hout⟩ := hcourse.submitNextChunk polls (copies_well hfit polls) aligned_nil
    hstarted.position hstarted.built hrun
  obtain ⟨hwaits,hends⟩ := outcome_cases (hstarted.frame.fdOpen.trans hready.fdOpen)
    (hstarted.frame.fault.trans hready.fault) (hstarted.frame.waiting hready.waiting)
    hstarted.state hstarted.arena hadv hout
  refine ⟨c',polls',by rw [heq,hrun]; rfl,hstarted.frame.trans hadv.frame,?_⟩
  cases busy with
  | true => exact Or.inl (hwaits rfl)
  | false => exact Or.inr (hends rfl)

end Flight

inductive Stage (kind : PullKind) (lookup : UInt64 → PullRecord) (ids : List UInt64)
    (c0 : ClientConn) : ClientConn → Prop
  | flight {c : ClientConn} (flight : InFlight kind lookup ids (output c0) c)
      (log : c.handled = c0.handled) : Stage kind lookup ids c0 c
  | lost {c : ClientConn} (closed : c.fdOpen = false) (fault : c.fault = false)
      (log : c.handled = c0.handled) : Stage kind lookup ids c0 c
  | answered {c1 c : ClientConn} (answer : Answered kind lookup ids (output c0) c1)
      (log : c1.handled = c0.handled) (later : Later c1 c) : Stage kind lookup ids c0 c

section Runs

variable {kind : PullKind} {lookup : UInt64 → PullRecord} {ids : List UInt64} {c0 : ClientConn}
  {σ : Type} {E : Engine σ} {config : GravelServerConfig} {srv : GravelServer σ} {sock : Socket}

theorem loopStep_closed (h : srv.conn.fdOpen = false) (event : LoopEvent σ) :
    (loopStep E config srv event).conn = srv.conn := by
  have hskip : srv.conn.fault ∨ ¬ srv.conn.fdOpen := by
    rw [h]
    exact Or.inr Bool.false_ne_true
  have hskip' : srv.conn.fault ∨ ¬ srv.conn.fdOpen ∨ srv.conn.async.state = .idle := by
    rw [h]
    exact Or.inr (Or.inl Bool.false_ne_true)
  cases event with
  | resume polls sock => rw [loopStep,resumeConn,if_pos hskip']
  | ready read polls sock =>
    have hread : readyRead E config read polls srv = srv := if_pos hskip
    rw [loopStep,hread,writeConn,if_pos hskip]
  | others db flushInFlight => rfl

theorem processQueued_busy (h : srv.conn.async.state ≠ .idle) (polls : List Poll) :
    processQueued E config polls srv = srv := by
  rw [processQueued,processMessages,processMessage_busy h]

theorem stage_raw (h : InFlight kind lookup ids (output c0) srv.conn)
    (hlog : srv.conn.handled = c0.handled) :
    Stage kind lookup ids c0 (flushPending (clientFlushSendRaw sock) srv).conn := by
  obtain ⟨c',hsent,hrun | hrun⟩ := flushPending_raw srv sock h.waiting
  · rw [hrun]
    exact .flight (h.sent hsent) (by rw [← hlog,hsent.same])
  · rw [hrun]
    exact .lost rfl (h.sent hsent).fault (by rw [← hlog]; change c'.handled = _; rw [hsent.same])

theorem stage_write (h : InFlight kind lookup ids (output c0) srv.conn)
    (hlog : srv.conn.handled = c0.handled) (hsafe : SafeWrite sock srv) :
    Stage kind lookup ids c0 (writeConn sock srv).conn := by
  have hnot : ¬ (srv.conn.fault ∨ ¬ srv.conn.fdOpen) := by
    rw [h.fault,h.fdOpen]
    decide
  have hkeeps : srv.conn.sendQueue = [] ∨ sock.room < (unsent srv.conn.sendQueue).length := by
    rcases hsafe with hidle | hkeeps
    · rw [h.state] at hidle
      exact absurd hidle kind.state_ne_idle
    · exact hkeeps
  rw [writeConn,if_neg hnot]
  obtain ⟨c',hsent,⟨_,hrun | ⟨_,hrun⟩⟩ | ⟨hne,hall,_⟩⟩ := flushPending_send srv sock h.waiting
  · rw [hrun]
    exact .flight (h.sent hsent) (by rw [← hlog,hsent.same])
  · rw [hrun]
    exact .lost rfl (h.sent hsent).fault (by rw [← hlog]; change c'.handled = _; rw [hsent.same])
  · rcases hkeeps with hnil | hlt
    · exact absurd hnil hne
    · omega

theorem stage_resume (hfit : DimsFit ((ids.map lookup).map PullRecord.dim))
    (hlookup : E.lookup srv.db = lookup) (h : InFlight kind lookup ids (output c0) srv.conn)
    (hlog : srv.conn.handled = c0.handled) (polls : List Poll) (sock : Socket) :
    Stage kind lookup ids c0 (resumeConn E config polls sock srv).conn := by
  have hnot : ¬ (srv.conn.fault ∨ ¬ srv.conn.fdOpen ∨ srv.conn.async.state = .idle) := by
    rw [h.fault,h.fdOpen,h.state]
    simp [kind.state_ne_idle]
  obtain ⟨busy,c',polls',hrun,hframe,hwaits,hends⟩ := h.resume hfit polls
  have hlog' : c'.handled = c0.handled := hframe.handled.trans hlog
  rw [resumeConn,if_neg hnot,hlookup,hrun]
  cases busy with
  | true => exact @stage_raw _ _ _ _ _ { srv with conn := c' } sock (hwaits rfl) hlog'
  | false =>
    have hanswer := hends rfl
    have hflush := later_flush { srv with conn := c' } hanswer.waiting sock
    simp only
    split_ifs
    · exact .answered hanswer hlog' (hflush.trans (later_processQueued _ hflush.waiting polls'))
    · exact .answered hanswer hlog' hflush

theorem stage_step (hfit : DimsFit ((ids.map lookup).map PullRecord.dim))
    (hlookup : E.lookup srv.db = lookup) (h : Stage kind lookup ids c0 srv.conn)
    {event : LoopEvent σ} (hsafe : SafeEvent E config srv event) :
    Stage kind lookup ids c0 (loopStep E config srv event).conn := by
  cases h with
  | lost closed fault log =>
    rw [loopStep_closed closed]
    exact .lost closed fault log
  | answered answer log later =>
    exact .answered answer log (later.trans (later_step later.waiting event))
  | flight h log =>
    cases event with
    | resume polls sock => exact stage_resume hfit hlookup h log polls sock
    | others db flushInFlight => exact .flight h log
    | ready read polls sock =>
      have hwrite : ∀ srv' : GravelServer σ, InFlight kind lookup ids (output c0) srv'.conn →
          srv'.conn.handled = c0.handled → readyRead E config read polls srv = srv' →
          Stage kind lookup ids c0 (loopStep E config srv (.ready read polls sock)).conn := by
        intro srv' h' hlog' heq
        simp only [SafeEvent,heq] at hsafe
        rw [loopStep,heq]
        exact stage_write h' hlog' (hsafe h'.fault h'.fdOpen)
      rcases readyRead_cases E config read polls srv with heq | heq | ⟨_,_,cap,bytes,rest,_,heq⟩
      · exact hwrite srv h log heq
      · have hclosed : (loopStep E config srv (.ready read polls sock)).conn =
            clientClose srv.conn := by
          have hskip : (closeConn srv).conn.fault ∨ ¬ (closeConn srv).conn.fdOpen :=
            Or.inr Bool.false_ne_true
          rw [loopStep,heq,writeConn,if_pos hskip]
          rfl
        rw [hclosed]
        exact .lost rfl h.fault log
      · have hbusy : (takeBytes srv.conn cap bytes rest).async.state ≠ .idle := by
          change srv.conn.async.state ≠ .idle
          rw [h.state]
          exact kind.state_ne_idle
        rw [@processQueued_busy _ E config
          { srv with conn := takeBytes srv.conn cap bytes rest } hbusy] at heq
        exact hwrite { srv with conn := takeBytes srv.conn cap bytes rest }
          (h.congr h.waiting rfl rfl rfl rfl rfl rfl) log heq

theorem stage_run (hfit : DimsFit ((ids.map lookup).map PullRecord.dim))
    (hlookup : ∀ db, E.lookup db = lookup) (events : List (LoopEvent σ)) :
    ∀ srv : GravelServer σ, Stage kind lookup ids c0 srv.conn → SafeRun E config srv events →
      Stage kind lookup ids c0 (events.foldl (loopStep E config) srv).conn := by
  induction events with
  | nil => exact fun _ h _ => h
  | cons event events ih =>
    intro srv h hsafe
    exact ih _ (stage_step hfit (hlookup _) h hsafe.1) hsafe.2

end Runs

/-- What the pull, whose handler was called at `c0`, has led to at `c`. Undefined behaviour belongs
to a later message. An open connection has the response once the pull is over; until then the gets
still to come are all that it takes. -/
structure Delivered (kind : PullKind) (lookup : UInt64 → PullRecord) (ids : List UInt64)
    (c0 c : ClientConn) : Prop where
  defined : c.fault = true → c.handled ≠ c0.handled
  response : c.fdOpen = true → c.fault = false →
    c.async.state = .idle ∨ c.handled ≠ c0.handled →
    ∃ more, output c = output c0 ++ kind.response (ids.map lookup) ++ more ∧
      (c.handled = c0.handled → more = [])
  completes : c.fdOpen = true → c.async.state ≠ .idle → c.handled = c0.handled →
    ∀ polls, (∀ poll ∈ polls, poll ≠ .again) → ids.length ≤ polls.length →
    ∃ c' polls', clientAsyncResume lookup polls c = some (false,c',polls')

/-- The ids are served with these dims, whatever the vectors are, the connection did before, and
happens to it until the response is sent, as long as no arena is reset under a request. -/
def Served (kind : PullKind) (ids : List UInt64) (dims : UInt64 → UInt32) : Prop :=
  ∀ lookup, (∀ id, (lookup id).dim = dims id) →
    Decodes kind (ids.map lookup) (kind.response (ids.map lookup)) ∧
    ∀ (σ : Type) (E : Engine σ) (config : GravelServerConfig) (srv : GravelServer σ)
      (body : List UInt8) (polls : List Poll), (∀ db, E.lookup db = lookup) → Ready srv.conn →
      pullIds body = some ids →
      ∃ c polls', kind.handle lookup polls srv.conn body = some (c,polls') ∧
        ∀ events, SafeRun E config { srv with conn := c } events →
          Delivered kind lookup ids srv.conn
            (events.foldl (loopStep E config) { srv with conn := c }).conn

section Served

variable {kind : PullKind} {lookup : UInt64 → PullRecord} {ids : List UInt64} {c0 c : ClientConn}
  {dims : UInt64 → UInt32} {σ : Type} {E : Engine σ} {config : GravelServerConfig}
  {srv : GravelServer σ} {sock : Socket}

theorem Stage.delivered (hfit : DimsFit ((ids.map lookup).map PullRecord.dim))
    (h : Stage kind lookup ids c0 c) : Delivered kind lookup ids c0 c := by
  cases h with
  | flight h log =>
    refine ⟨?_,?_,?_⟩
    · intro hfault
      rw [h.fault] at hfault
      cases hfault
    · intro _ _ hover
      rcases hover with hidle | hlog
      · rw [h.state] at hidle
        exact absurd hidle kind.state_ne_idle
      · exact absurd log hlog
    · intro _ _ _ polls hdone hlen
      exact h.completes hfit hdone hlen
  | lost closed fault log =>
    refine ⟨?_,?_,?_⟩
    · intro hfault
      rw [fault] at hfault
      cases hfault
    · intro hopen
      rw [closed] at hopen
      cases hopen
    · intro hopen
      rw [closed] at hopen
      cases hopen
  | answered answer log later =>
    have hquiet := later.idle answer.idle
    rw [log] at hquiet
    refine ⟨?_,?_,?_⟩
    · intro hfault hsame
      rw [(hquiet hsame).2.1,answer.fault] at hfault
      cases hfault
    · intro hopen _ _
      obtain ⟨more,hmore⟩ := later.grows hopen
      rw [answer.response] at hmore
      refine ⟨more,hmore.symm,?_⟩
      intro hsame
      have hout := (hquiet hsame).2.2 hopen
      rw [answer.response,← hmore] at hout
      exact self_eq_append_right.mp hout.symm
    · intro _ hbusy hsame
      exact absurd (hquiet hsame).1 hbusy

theorem served_of_fit (hcount : ids.length ≤ graveldbWireMaxBatch) (hfit : DimsFit (ids.map dims)) :
    Served kind ids dims := by
  intro lookup hdims
  have hfit' : DimsFit ((ids.map lookup).map PullRecord.dim) := by
    rw [List.map_map]
    simpa only [comp_def,hdims] using hfit
  refine ⟨response_decodes kind (by rw [length_map]; exact hcount) hfit',?_⟩
  intro σ E config srv body polls hlookup hready hbody
  obtain ⟨c,polls',hrun,hframe,hstage⟩ := @handle_ready kind _ _ _ hfit' _ hbody hready polls
  refine ⟨c,polls',hrun,?_⟩
  intro events hsafe
  refine (stage_run hfit' hlookup events { srv with conn := c } ?_ hsafe).delivered hfit'
  rcases hstage with h | h
  · exact .flight h hframe.handled
  · exact .answered h hframe.handled (.refl h.waiting)

/-- A write that takes the last byte while a get is in flight: the response is built in memory that
was given back. -/
theorem drained_write_undefined {before : List UInt8} (h : InFlight kind lookup ids before srv.conn)
    (hdrained : ¬ SafeWrite sock srv) (order : List Nat) (polls : List Poll) (sock' : Socket) :
    (resumeConn E config (.done order :: polls) sock' (writeConn sock srv)).conn.fault = true := by
  rw [SafeWrite,not_or,not_or] at hdrained
  obtain ⟨_,hne,hall⟩ := hdrained
  have hnot : ¬ (srv.conn.fault ∨ ¬ srv.conn.fdOpen) := by
    rw [h.fault,h.fdOpen]
    decide
  obtain ⟨c',hsent,⟨hkeeps,_⟩ | ⟨_,_,hrun⟩⟩ := flushPending_send srv sock h.waiting
  · rcases hkeeps with hnil | hlt
    · exact absurd hnil hne
    · exact absurd hlt hall
  have h' := h.sent hsent
  have hnot' : ¬ ((arenaReset c').fault ∨ ¬ (arenaReset c').fdOpen ∨
      (arenaReset c').async.state = .idle) := by
    change ¬ (c'.fault ∨ ¬ c'.fdOpen ∨ c'.async.state = .idle)
    rw [h'.fault,h'.fdOpen,h'.state]
    simp [kind.state_ne_idle]
  have hgone : (arenaReset c').async.arena ≠ (arenaReset c').resets.length := by
    change c'.async.arena ≠ (c'.resets ++ [_]).length
    rw [h'.arena,length_append,length_singleton]
    omega
  have hresume : clientAsyncResume (E.lookup srv.db) (.done order :: polls) (arenaReset c') =
      none := by
    have hstate : (arenaReset c').async.state = kind.state := h'.state
    rw [kind.resume_eq hstate,resumeGet,if_pos hgone]
  rw [writeConn,if_neg hnot,hrun,resumeConn,if_neg hnot']
  simp only [hresume]
  rfl

end Served

/-- A pull is served if all its vectors have room in the slots, and the slots of a chunk give its
vectors back exactly if they have room. -/
theorem pull_served (kind : PullKind) {ids : List UInt64}
    (hcount : ids.length ≤ graveldbWireMaxBatch) (dims : UInt64 → UInt32) :
    (DimsFit (ids.map dims) → Served kind ids dims) ∧
      (∀ chunkDims : List UInt32, SlotsFit chunkDims ↔
        ∀ chunk : List PullRecord, chunk.map PullRecord.dim = chunkDims → ∀ order scratch,
          ∃ scratch', completeGet order chunk scratch = some scratch' ∧
            chunkBytes chunk scratch' = chunk.flatMap pullRecordBytes) ∧
      ∀ {σ : Type} (E : Engine σ) (config : GravelServerConfig) (srv : GravelServer σ)
        (lookup : UInt64 → PullRecord) (before : List UInt8) (sock sock' : Socket)
        (order : List Nat) (polls : List Poll), InFlight kind lookup ids before srv.conn →
        ¬ SafeWrite sock srv →
        (resumeConn E config (.done order :: polls) sock' (writeConn sock srv)).conn.fault = true :=
  ⟨served_of_fit hcount,slotsFit_iff_read_back,
    fun _ _ _ _ _ _ sock' order polls h hdrained => drained_write_undefined h hdrained order polls sock'⟩

theorem dimsFit_of_le {dims : List UInt32} (h : ∀ d ∈ dims, d.toNat ≤ 1024) : DimsFit dims := by
  intro chunk hchunk
  have hlen := (chunksOf_bounds (by decide) hchunk).2
  have hmem : ∀ d ∈ chunk, d.toNat ≤ 1024 := by
    intro d hd
    obtain ⟨k,_,rfl⟩ := List.mem_map.mp hchunk
    exact h d (mem_of_mem_drop (mem_of_mem_take hd))
  rw [pullChunkSize] at hlen
  refine ⟨?_,?_⟩
  · intro i d hd
    obtain ⟨hi,_⟩ := List.getElem?_eq_some_iff.mp hd
    have hle := hmem d (mem_of_getElem? hd)
    have hslot : i * 1024 ≤ 63 * 1024 := Nat.mul_le_mul_right 1024 (by omega)
    calc i * 1024 + d.toNat ≤ 63 * 1024 + 1024 := Nat.add_le_add hslot hle
      _ = 64 * 1024 := rfl
  · intro i j d d' hij hd _ _
    have hle := hmem d (mem_of_getElem? hd)
    have hslot : (i + 1) * 1024 ≤ j * 1024 := Nat.mul_le_mul_right 1024 hij
    omega

theorem two_ids_served : Served .stream [7,9] (fun _ => 1024) :=
  (pull_served .stream (by decide) (fun _ => 1024)).1 (dimsFit_of_le (by simp))

def longAndShort (id : UInt64) : PullRecord :=
  if id = 1 then ⟨1025,List.replicate 4100 1,length_replicate⟩ else ⟨1,[2,2,2,2],rfl⟩

/-- The last float of the long vector is read from the slot of the short one. -/
theorem long_vector_overwritten :
    ((handlePull longAndShort [.done []] (clientInit []) (pullBody [1,2])).map
        (fun r => (output r.1)[4116]?)) = some (some 2) ∧
      (plainResponse ([1,2].map longAndShort))[4116]? = some 1 := by
  decide +kernel

end Gravel.Proofs.PullServed
