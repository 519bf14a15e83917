import Gravel.Proofs.SendQueue

namespace Gravel.Proofs.ServerFrames
open DumpFormat SendQueue List Option

structure Kept (c c' : ClientConn) : Prop where
  fdOpen : c'.fdOpen = c.fdOpen
  incoming : c'.incoming = c.incoming
  recvCap : c'.recvCap = c.recvCap
  received : c'.received = c.received
  sent : c'.sent = c.sent
  resets : c'.resets = c.resets
  fault : c'.fault = c.fault
  queue : ∃ more, c'.sendQueue = c.sendQueue ++ more ∧ Waiting more

structure OutputOnly (c c' : ClientConn) : Prop extends Kept c c' where
  recvBuf : c'.recvBuf = c.recvBuf
  handled : c'.handled = c.handled

section Frames

variable {c c' c'' : ClientConn} {status : WireStatus} {body data : List UInt8}
  {state : ConnAsyncState} {featIds : List UInt64}

theorem Kept.of_eq (hopen : c'.fdOpen = c.fdOpen) (hin : c'.incoming = c.incoming)
    (hcap : c'.recvCap = c.recvCap) (hrec : c'.received = c.received) (hsent : c'.sent = c.sent)
    (hresets : c'.resets = c.resets) (hfault : c'.fault = c.fault)
    (hqueue : c'.sendQueue = c.sendQueue) : Kept c c' :=
  ⟨hopen,hin,hcap,hrec,hsent,hresets,hfault,[],by rw [hqueue,append_nil],waiting_nil⟩

theorem Kept.trans (h : Kept c c') (h' : Kept c' c'') : Kept c c'' where
  fdOpen := h'.fdOpen.trans h.fdOpen
  incoming := h'.incoming.trans h.incoming
  recvCap := h'.recvCap.trans h.recvCap
  received := h'.received.trans h.received
  sent := h'.sent.trans h.sent
  resets := h'.resets.trans h.resets
  fault := h'.fault.trans h.fault
  queue := by
    obtain ⟨more,hmore,hw⟩ := h.queue
    obtain ⟨more',hmore',hw'⟩ := h'.queue
    exact ⟨more ++ more',by rw [hmore',hmore,append_assoc],hw.append hw'⟩

theorem Kept.refl (c : ClientConn) : Kept c c := .of_eq rfl rfl rfl rfl rfl rfl rfl rfl

theorem Kept.waiting (h : Kept c c') (hw : Waiting c.sendQueue) : Waiting c'.sendQueue := by
  obtain ⟨more,hmore,hwait⟩ := h.queue
  rw [hmore]
  exact hw.append hwait

theorem OutputOnly.refl (c : ClientConn) : OutputOnly c c := ⟨.refl c,rfl,rfl⟩

theorem OutputOnly.trans (h : OutputOnly c c') (h' : OutputOnly c' c'') : OutputOnly c c'' :=
  ⟨h.toKept.trans h'.toKept,h'.recvBuf.trans h.recvBuf,h'.handled.trans h.handled⟩

theorem outputOnly_quiet {sendCur : Option (List UInt8)} {async : ConnAsyncCtx} (c : ClientConn) :
    OutputOnly c { c with sendCur := sendCur, async := async } :=
  ⟨.of_eq rfl rfl rfl rfl rfl rfl rfl rfl,rfl,rfl⟩

theorem OutputOnly.async {async : ConnAsyncCtx} (h : OutputOnly c c') :
    OutputOnly c { c' with async := async } :=
  ⟨⟨h.fdOpen,h.incoming,h.recvCap,h.received,h.sent,h.resets,h.fault,h.queue⟩,h.recvBuf,h.handled⟩

theorem outputOnly_append (c : ClientConn) (data : List UInt8) :
    OutputOnly c (responseAppend c data) := outputOnly_quiet c

theorem outputOnly_begin (c : ClientConn) (status : WireStatus) :
    OutputOnly c (responseBegin c status) := outputOnly_quiet c

theorem outputOnly_enqueue (c : ClientConn) (hdata : data ≠ []) :
    OutputOnly c (enqueue c data) := by
  refine ⟨⟨rfl,rfl,rfl,rfl,rfl,rfl,rfl,[⟨data,0⟩],rfl,?_⟩,rfl,rfl⟩
  intro ch hch
  obtain rfl := mem_singleton.mp hch
  exact hdata

theorem put_ne_nil (v : UInt32) (rest : List UInt8) : wirePutU32 v ++ rest ≠ [] := by
  intro h
  have hlen := congrArg List.length h
  rw [length_append,length_wirePutU32,length_nil] at hlen
  omega

theorem outputOnly_finish (c : ClientConn) : OutputOnly c (responseFinish c) := by
  unfold responseFinish
  cases c.sendCur with
  | none => exact .refl c
  | some data =>
    refine (outputOnly_quiet c).trans (outputOnly_enqueue _ ?_)
    rw [append_assoc]
    exact append_ne_nil_of_right_ne_nil _ (put_ne_nil _ _)

theorem outputOnly_respond (c : ClientConn) (status : WireStatus) (body : List UInt8) :
    OutputOnly c (respond c status body) :=
  ((outputOnly_begin c status).trans (outputOnly_append _ body)).trans (outputOnly_finish _)

theorem outputOnly_beginPull (c : ClientConn) (state : ConnAsyncState) (featIds : List UInt64) :
    OutputOnly c (beginPull state featIds c) := outputOnly_quiet c

end Frames

section Gets

variable {lookup : UInt64 → PullRecord} {emit finalize : ClientConn → ClientConn} {c c' : ClientConn}
  {polls polls' : List Poll} {order : List Nat} {busy : Bool}

structure Emits (emit : ClientConn → ClientConn) : Prop where
  frame : ∀ c, OutputOnly c (emit c)
  request : ∀ c, ∃ firstFrame, (emit c).async = { c.async with firstFrame := firstFrame }

theorem pullEmit_emits : Emits pullEmit :=
  ⟨fun c => outputOnly_append c _,fun c => ⟨c.async.firstFrame,rfl⟩⟩

theorem streamBuildFrame_emits : Emits streamBuildFrame :=
  ⟨fun c => (outputOnly_quiet c).trans (outputOnly_enqueue _ (put_ne_nil _ _)),
    fun _ => ⟨false,rfl⟩⟩

theorem outputOnly_terminator (c : ClientConn) : OutputOnly c (streamSendTerminator c) :=
  outputOnly_enqueue c (by decide)

theorem finishGet_frame (hemit : Emits emit) (h : finishGet emit order c = some c') :
    OutputOnly c c' ∧ c'.async.arena = c.async.arena ∧ c'.async.state = c.async.state := by
  obtain ⟨scratch,_,hc'⟩ := bind_eq_some_iff.mp h
  cases hc'
  obtain ⟨_,hrequest⟩ := hemit.request { c with async := { c.async with scratch := scratch } }
  refine ⟨((outputOnly_quiet c).trans (hemit.frame _)).async,?_,?_⟩
  · simp only [hrequest]
  · simp only [hrequest]

structure Advanced (c : ClientConn) (busy : Bool) (c' : ClientConn) : Prop where
  frame : OutputOnly c c'
  arena : c'.async.arena = c.async.arena
  done : busy = false → c'.async.state = .idle
  goes_on : busy = true → c'.async.state = c.async.state

theorem submitNextChunk_end (h : c.async.featIds.length ≤ c.async.offset) (polls : List Poll) :
    submitNextChunk lookup emit finalize polls c = some (false,
      { finalize c with async := { (finalize c).async with state := .idle } },polls) := by
  rw [submitNextChunk,if_pos h]

structure Finalizes (finalize : ClientConn → ClientConn) : Prop where
  frame : ∀ c, OutputOnly c (finalize c)
  request : ∀ c, (finalize c).async = c.async

theorem responseFinish_finalizes : Finalizes responseFinish := by
  refine ⟨outputOnly_finish,?_⟩
  intro c
  rw [responseFinish]
  split
  · rfl
  · rfl

theorem streamSendTerminator_finalizes : Finalizes streamSendTerminator :=
  ⟨outputOnly_terminator,fun _ => rfl⟩

theorem advanced_end (hfinal : Finalizes finalize) (c : ClientConn) :
    Advanced c false { finalize c with async := { (finalize c).async with state := .idle } } :=
  ⟨(hfinal.frame c).async,by simp only [hfinal.request],fun _ => rfl,fun hb => by cases hb⟩

theorem advanced_submitted (lookup : UInt64 → PullRecord) (c : ClientConn) :
    Advanced c true (submitGet lookup c) :=
  ⟨outputOnly_quiet c,rfl,fun hb => (by cases hb),fun _ => rfl⟩

theorem Advanced.next {c1 : ClientConn} (hemit : Emits emit) (hget : finishGet emit order c = some c1)
    (h : Advanced c1 busy c') : Advanced c busy c' := by
  obtain ⟨hframe,harena,hstate⟩ := finishGet_frame hemit hget
  exact ⟨hframe.trans h.frame,h.arena.trans harena,h.done,fun hb => (h.goes_on hb).trans hstate⟩

theorem submitNextChunk_advanced (hemit : Emits emit) (hfinal : Finalizes finalize)
    (polls : List Poll) : ∀ (c : ClientConn) {busy : Bool} {c' : ClientConn} {polls' : List Poll},
    submitNextChunk lookup emit finalize polls c = some (busy,c',polls') → Advanced c busy c' := by
  induction polls with
  | nil =>
    intro c busy c' polls' h
    rw [submitNextChunk] at h
    split_ifs at h
    · cases h
      exact advanced_end hfinal c
    · cases h
      exact advanced_submitted lookup c
  | cons poll polls ih =>
    intro c busy c' polls' h
    rw [submitNextChunk] at h
    split_ifs at h
    · cases h
      exact advanced_end hfinal c
    · cases poll with
      | again =>
        cases h
        exact advanced_submitted lookup c
      | done order =>
        obtain ⟨c1,hget,hnext⟩ := bind_eq_some_iff.mp h
        have hadv := (ih c1 hnext).next hemit hget
        exact ⟨(advanced_submitted lookup c).frame.trans hadv.frame,hadv.arena,hadv.done,
          hadv.goes_on⟩

theorem resumeGet_advanced (hemit : Emits emit) (hfinal : Finalizes finalize)
    (h : resumeGet lookup emit finalize polls c = some (busy,c',polls')) : Advanced c busy c' := by
  unfold resumeGet at h
  cases polls with
  | nil =>
    cases h
    exact ⟨.refl c,rfl,fun hb => (by cases hb),fun _ => rfl⟩
  | cons poll polls =>
    cases poll with
    | again =>
      cases h
      exact ⟨.refl c,rfl,fun hb => (by cases hb),fun _ => rfl⟩
    | done order =>
      simp only at h
      split_ifs at h
      obtain ⟨c1,hget,hnext⟩ := bind_eq_some_iff.mp h
      exact (submitNextChunk_advanced hemit hfinal polls c1 hnext).next hemit hget

theorem clientAsyncResume_advanced
    (h : clientAsyncResume lookup polls c = some (busy,c',polls')) : Advanced c busy c' := by
  unfold clientAsyncResume at h
  cases hstate : c.async.state with
  | idle =>
    rw [hstate] at h
    cases h
    exact ⟨.refl c,rfl,fun _ => hstate,fun hb => by cases hb⟩
  | asyncPull =>
    rw [hstate] at h
    exact resumeGet_advanced pullEmit_emits responseFinish_finalizes h
  | asyncStream =>
    rw [hstate] at h
    exact resumeGet_advanced streamBuildFrame_emits streamSendTerminator_finalizes h

end Gets

section Handlers

variable {σ : Type} {E : Engine σ} {config : GravelServerConfig} {polls polls' : List Poll}
  {srv srv' : GravelServer σ} {msgType : UInt32} {body : List UInt8} {status : WireStatus}
  {c c' : ClientConn} {lookup : UInt64 → PullRecord} {records : List PushRecord}

theorem begunPull_frame {emit finalize : ClientConn → ClientConn} (hemit : Emits emit)
    (hfinal : Finalizes finalize) {c0 : ClientConn} (hbegun : OutputOnly c c0)
    {state : ConnAsyncState} {featIds : List UInt64}
    (h : (submitNextChunk lookup emit finalize polls (beginPull state featIds c0)).bind
      (fun r => some (r.2.1,r.2.2)) = some (c',polls')) : OutputOnly c c' := by
  obtain ⟨⟨busy,c1,polls1⟩,hrun,hc'⟩ := bind_eq_some_iff.mp h
  cases hc'
  have hadv := submitNextChunk_advanced hemit hfinal polls _ hrun
  exact (hbegun.trans (outputOnly_beginPull _ _ _)).trans hadv.frame

theorem handlePull_frame (h : handlePull lookup polls c body = some (c',polls')) :
    OutputOnly c c' := by
  unfold handlePull at h
  split at h
  · cases h
    exact outputOnly_respond c _ _
  · exact begunPull_frame pullEmit_emits responseFinish_finalizes
      ((outputOnly_begin c .ok).trans (outputOnly_append _ _)) h

theorem handlePullStream_frame (h : handlePullStream lookup polls c body = some (c',polls')) :
    OutputOnly c c' := by
  unfold handlePullStream at h
  split at h
  · cases h
    exact outputOnly_respond c _ _
  · exact begunPull_frame streamBuildFrame_emits streamSendTerminator_finalizes
      (outputOnly_enqueue c (put_ne_nil _ _)) h

theorem applyPush_conn (h : applyPush E srv records = some srv') : srv'.conn = srv.conn := by
  unfold applyPush at h
  split_ifs at h
  · cases h
    rfl
  · obtain ⟨⟨db,_⟩,_,h⟩ := bind_eq_some_iff.mp h
    simp only at h
    split_ifs at h
    · obtain ⟨db',_,h⟩ := bind_eq_some_iff.mp h
      cases h
      rfl
    · cases h
      rfl

theorem handlePush_frame (h : handlePush E srv body = some (srv',status)) :
    OutputOnly srv.conn srv'.conn := by
  unfold handlePush at h
  cases hrecords : pushRecords body with
  | none =>
    rw [hrecords] at h
    cases h
    exact outputOnly_respond _ _ _
  | some records =>
    rw [hrecords] at h
    obtain ⟨srv1,happly,h⟩ := bind_eq_some_iff.mp h
    cases h
    rw [← applyPush_conn happly]
    exact outputOnly_respond _ _ _

theorem handleDelete_frame (h : handleDelete E srv body = some srv') :
    OutputOnly srv.conn srv'.conn := by
  unfold handleDelete at h
  split_ifs at h
  · cases h
    exact outputOnly_respond _ _ _
  · obtain ⟨db,_,h⟩ := bind_eq_some_iff.mp h
    cases h
    exact outputOnly_respond _ _ _

theorem handleCheckpoint_frame (h : handleCheckpoint E srv = some srv') :
    OutputOnly srv.conn srv'.conn := by
  obtain ⟨db,_,h⟩ := bind_eq_some_iff.mp h
  cases h
  exact outputOnly_respond _ _ _

theorem dispatch_frame (h : dispatch E config polls srv msgType body = some (srv',polls')) :
    OutputOnly srv.conn srv'.conn := by
  have hrefuse : some (({ srv with conn := respond srv.conn .invalid [] } : GravelServer σ),polls) =
      some (srv',polls') → OutputOnly srv.conn srv'.conn := by
    intro heq
    cases heq
    exact outputOnly_respond _ _ _
  unfold dispatch at h
  cases hmsg : msgTypeOf msgType with
  | none =>
    rw [hmsg] at h
    exact hrefuse h
  | some t =>
    rw [hmsg] at h
    cases t with
    | pull =>
      obtain ⟨⟨c,_⟩,hrun,h⟩ := bind_eq_some_iff.mp h
      cases h
      exact handlePull_frame hrun
    | pullStream =>
      obtain ⟨⟨c,_⟩,hrun,h⟩ := bind_eq_some_iff.mp h
      cases h
      exact handlePullStream_frame hrun
    | push =>
      simp only at h
      split_ifs at h
      · exact hrefuse h
      · obtain ⟨⟨srv1,_⟩,hrun,h⟩ := bind_eq_some_iff.mp h
        cases h
        exact handlePush_frame hrun
    | delete =>
      simp only at h
      split_ifs at h
      · exact hrefuse h
      · obtain ⟨srv1,hrun,h⟩ := bind_eq_some_iff.mp h
        cases h
        exact handleDelete_frame hrun
    | flush | checkpoint =>
      simp only at h
      split_ifs at h
      · exact hrefuse h
      · obtain ⟨srv1,hrun,h⟩ := bind_eq_some_iff.mp h
        cases h
        exact handleCheckpoint_frame hrun
    | stats | ping =>
      cases h
      exact outputOnly_respond _ _ _

end Handlers

section Messages

variable {σ : Type} {E : Engine σ} {config : GravelServerConfig} {polls polls' : List Poll}
  {srv srv' : GravelServer σ} {rc : MessageRc}

/-- The message at the front of `recv_buf`, with as much of its body as is there. -/
def frontMessage (b : List UInt8) : Handled where
  msgType := wireGetU32 (b.drop 4)
  bodyLen := wireGetU32 (b.drop 8)
  body := (b.drop graveldbWireHeaderSize).take (wireGetU32 (b.drop 8)).toNat

def logFront (srv : GravelServer σ) : GravelServer σ :=
  { srv with conn := { srv.conn with
      handled := srv.conn.handled ++ [frontMessage srv.conn.recvBuf] } }

inductive MessageCase (E : Engine σ) (config : GravelServerConfig) (polls : List Poll)
    (srv : GravelServer σ) : MessageRc → GravelServer σ → List Poll → Prop
  | wait (incomplete : srv.conn.async.state = .idle →
      srv.conn.recvBuf.length < graveldbWireHeaderSize ∨
        srv.conn.recvBuf.length < messageSize (frontMessage srv.conn.recvBuf).bodyLen) :
      MessageCase E config polls srv .wait srv polls
  | bad (long : graveldbWireHeaderSize ≤ srv.conn.recvBuf.length)
      (magic : wireGetU32 srv.conn.recvBuf ≠ graveldbWireMagic) :
      MessageCase E config polls srv .bad srv polls
  | stuck (long : graveldbWireHeaderSize ≤ srv.conn.recvBuf.length)
      (magic : wireGetU32 srv.conn.recvBuf = graveldbWireMagic)
      (complete : messageSize (frontMessage srv.conn.recvBuf).bodyLen ≤ srv.conn.recvBuf.length)
      (undefined : (frontMessage srv.conn.recvBuf).body.length <
          (frontMessage srv.conn.recvBuf).bodyLen.toNat ∨
        dispatch E config polls (logFront srv) (frontMessage srv.conn.recvBuf).msgType
          (frontMessage srv.conn.recvBuf).body = none) :
      MessageCase E config polls srv .stuck (logFront srv) polls
  | handled {srv1 : GravelServer σ} {polls1 : List Poll}
      (long : graveldbWireHeaderSize ≤ srv.conn.recvBuf.length)
      (magic : wireGetU32 srv.conn.recvBuf = graveldbWireMagic)
      (complete : messageSize (frontMessage srv.conn.recvBuf).bodyLen ≤ srv.conn.recvBuf.length)
      (run : dispatch E config polls (logFront srv) (frontMessage srv.conn.recvBuf).msgType
        (frontMessage srv.conn.recvBuf).body = some (srv1,polls1)) :
      MessageCase E config polls srv .handled
        { srv1 with
          conn := { srv1.conn with
            recvBuf := srv.conn.recvBuf.drop (messageSize (frontMessage srv.conn.recvBuf).bodyLen) } }
        polls1

theorem processMessage_cases (h : processMessage E config polls srv = (rc,srv',polls')) :
    MessageCase E config polls srv rc srv' polls' := by
  unfold processMessage at h
  simp only at h
  split_ifs at h with hwait hmagic hshort hbody
  · cases h
    refine .wait (fun hidle => ?_)
    rcases hwait with hbusy | hlt
    · exact absurd hidle hbusy
    · exact Or.inl hlt
  · cases h
    push Not at hwait
    exact .bad hwait.2 hmagic
  · cases h
    exact .wait (fun _ => Or.inr hshort)
  all_goals
    push Not at hwait hmagic hshort
  · cases h
    exact .stuck hwait.2 hmagic hshort (Or.inl hbody.2)
  · split at h
    · rename_i hrun
      cases h
      exact .stuck hwait.2 hmagic hshort (Or.inr hrun)
    · rename_i srv1 polls1 hrun
      cases h
      have hframe := dispatch_frame hrun
      simp only [hframe.recvBuf]
      exact .handled hwait.2 hmagic hshort hrun

theorem processMessage_kept (h : processMessage E config polls srv = (rc,srv',polls')) :
    Kept srv.conn srv'.conn := by
  cases processMessage_cases h with
  | wait | bad => exact .refl _
  | stuck => exact .of_eq rfl rfl rfl rfl rfl rfl rfl rfl
  | handled _ _ _ run =>
    have hframe := dispatch_frame run
    exact ⟨hframe.fdOpen,hframe.incoming,hframe.recvCap,hframe.received,hframe.sent,hframe.resets,
      hframe.fault,hframe.queue⟩

theorem processMessages_kept (fuel : Nat) : ∀ (polls : List Poll) (srv : GravelServer σ)
    {rc : MessageRc} {srv' : GravelServer σ},
    processMessages E config fuel polls srv = (rc,srv') → Kept srv.conn srv'.conn := by
  induction fuel with
  | zero =>
    intro polls srv rc srv' h
    cases h
    exact .refl _
  | succ fuel ih =>
    intro polls srv rc srv' h
    obtain ⟨⟨rc1,srv1,polls1⟩,hmsg⟩ : ∃ r, processMessage E config polls srv = r := ⟨_,rfl⟩
    have hkept := processMessage_kept hmsg
    rw [processMessages,hmsg] at h
    cases rc1 with
    | handled => exact hkept.trans (ih polls1 srv1 h)
    | wait | bad | stuck =>
      cases h
      exact hkept

theorem processMessage_log (h : processMessage E config polls srv = (rc,srv',polls')) :
    (srv' = srv ∧ (rc = .wait ∨ rc = .bad)) ∨
      ∃ m, srv'.conn.handled = srv.conn.handled ++ [m] := by
  cases processMessage_cases h with
  | wait => exact Or.inl ⟨rfl,Or.inl rfl⟩
  | bad => exact Or.inl ⟨rfl,Or.inr rfl⟩
  | stuck => exact Or.inr ⟨_,rfl⟩
  | handled _ _ _ run => exact Or.inr ⟨_,(dispatch_frame run).handled⟩

theorem processMessage_busy (h : srv.conn.async.state ≠ .idle) :
    processMessage E config polls srv = (.wait,srv,polls) := by
  simp only [processMessage]
  rw [if_pos (Or.inl h)]

theorem processMessages_log (fuel : Nat) : ∀ (polls : List Poll) (srv : GravelServer σ)
    {rc : MessageRc} {srv' : GravelServer σ},
    processMessages E config fuel polls srv = (rc,srv') →
    ∃ ms, srv'.conn.handled = srv.conn.handled ++ ms ∧
      (0 < fuel → ms = [] → srv' = srv ∧ (rc = .wait ∨ rc = .bad)) := by
  induction fuel with
  | zero =>
    intro polls srv rc srv' h
    cases h
    exact ⟨[],(append_nil _).symm,fun hpos => absurd hpos (Nat.lt_irrefl 0)⟩
  | succ fuel ih =>
    intro polls srv rc srv' h
    obtain ⟨⟨rc1,srv1,polls1⟩,hmsg⟩ : ∃ r, processMessage E config polls srv = r := ⟨_,rfl⟩
    rw [processMessages,hmsg] at h
    rcases processMessage_log hmsg with ⟨rfl,rfl | rfl⟩ | ⟨m,hm⟩
    · cases h
      exact ⟨[],(append_nil _).symm,fun _ _ => ⟨rfl,Or.inl rfl⟩⟩
    · cases h
      exact ⟨[],(append_nil _).symm,fun _ _ => ⟨rfl,Or.inr rfl⟩⟩
    · cases rc1 with
      | handled =>
        obtain ⟨ms,hms,_⟩ := ih polls1 srv1 h
        exact ⟨m :: ms,by rw [hms,hm,append_assoc]; rfl,fun _ hnil => by cases hnil⟩
      | wait | bad | stuck =>
        cases h
        exact ⟨[m],hm,fun _ hnil => by cases hnil⟩

def takeBytes (c : ClientConn) (cap : Nat) (bytes rest : List UInt8) : ClientConn :=
  { c with
    recvCap := cap
    recvBuf := c.recvBuf ++ bytes
    received := c.received ++ bytes
    incoming := rest }

theorem readyRead_cases (E : Engine σ) (config : GravelServerConfig) (read : Option Nat)
    (polls : List Poll) (srv : GravelServer σ) :
    readyRead E config read polls srv = srv ∨ readyRead E config read polls srv = closeConn srv ∨
      (srv.conn.fault = false ∧ srv.conn.fdOpen = true ∧ ∃ cap bytes rest,
        srv.conn.incoming = bytes ++ rest ∧ readyRead E config read polls srv =
          processQueued E config polls { srv with conn := takeBytes srv.conn cap bytes rest }) := by
  unfold readyRead
  split_ifs with hskip
  · exact Or.inl rfl
  push Not at hskip
  cases read with
  | none => exact Or.inl rfl
  | some n =>
    simp only [readConn]
    cases growRecv config srv.conn with
    | none => exact Or.inr (Or.inl rfl)
    | some cap =>
      simp only
      split_ifs
      · exact Or.inr (Or.inl rfl)
      · refine Or.inr (Or.inr ⟨by simpa using hskip.1,by simpa using hskip.2,cap,_,_,?_,rfl⟩)
        exact (take_append_drop _ _).symm

end Messages

end Gravel.Proofs.ServerFrames
