import QuicRecovery.Congestion
import QuicRecovery.AckPacket

/-!
# Loss detection and the loss timer

`njt_quic_detect_lost` scans the head of each context's `sent` queue and
declares the head packet lost when it is at least `NJT_QUIC_PKT_THR` packets
below `largest_ack` or older than the time threshold; `njt_quic_resend_frames`
then takes the whole packet off `sent`, charges `njt_quic_congestion_lost`
once, and re-queues or drops its frames.  `njt_quic_set_lost_timer` arms
`qc->pto` with the lost handler when a head packet is below `largest_ack`, and
with the PTO handler otherwise.

The scan is a total function (`detectLostCtx`, well-founded on the length of
`sent`): every lost packet takes at least one frame off the queue.
-/

namespace NjtQuic

variable {w : Nat}

/-- `njt_quic_lost_threshold`: RFC 9002 kTimeThreshold, 9/8 of the larger of
`latest_rtt` and `avg_rtt`, and at least kGranularity. -/
def lostThreshold (qc : Conn w) : BitVec w :=
  let thr := msecMax qc.latestRtt qc.avgRtt
  let thr := thr + (thr >>> 3)
  msecMax thr (timeGranularity w)

/-- `njt_quic_pto`: RFC 9002 probe timeout of a context, Appendix A.8. -/
def pto (cf : Conf w) (l : Level) (qc : Conn w) : BitVec w :=
  let duration := qc.avgRtt + msecMax (4 * qc.rttvar) (timeGranularity w)
  if l = .application ∧ qc.handshaked then duration + cf.peerMaxAckDelay else duration

/-- `njt_quic_pcg_duration`: RFC 9002, 7.6.1. -/
def pcgDuration (cf : Conf w) (qc : Conn w) : BitVec w :=
  let duration := qc.avgRtt + msecMax (4 * qc.rttvar) (timeGranularity w) + cf.peerMaxAckDelay
  duration * BitVec.ofNat w persistentCongestionThr

/-! ## `njt_quic_resend_frames` -/

/-- The `switch (f->type)` of `njt_quic_resend_frames` for one frame of the
lost packet, taken off `sent` of level `l`. -/
def resendFrame (l : Level) (qc : Conn w) (f : Frame w) : Conn w :=
  let requeue := qc.modifyCtx l fun ctx => { ctx with frames := ctx.frames ++ [f] }
  match f.kind with
  | .ack _ =>
    -- force generation of most recent acknowledgment
    if l = .application then qc.modifyCtx l fun ctx => { ctx with sendAck := maxAckGap } else qc
  | .ping | .pathChallenge | .pathResponse | .connectionClose => qc
  | .maxData _ => queueFrame l { f with kind := .maxData qc.recvMaxData } qc
  | .maxStreams bidi _ =>
    let limit := if bidi then qc.clientMaxStreamsBidi else qc.clientMaxStreamsUni
    queueFrame l { f with kind := .maxStreams bidi limit } qc
  | .maxStreamData id _ =>
    match qc.findStream id with
    | none => qc
    | some qs => queueFrame l { f with kind := .maxStreamData id qs.recvMaxData } qc
  | .stream id =>
    match qc.findStream id with
    | some qs =>
      if qs.sendState = .resetSent ∨ qs.sendState = .resetRecvd then qc else requeue
    | none => requeue
  | .resetStream _ | .other => requeue

/-- `njt_quic_resend_frames` for the packet at the head of `sent` of level `l`,
`start :: rest`: `njt_quic_congestion_lost` for `start`, then every frame of the
packet leaves `sent`.  Returns what is left of `sent` and the connection. -/
def resendFrames (cf : Conf w) (now : BitVec w) (l : Level) (start : Frame w)
    (rest : List (Frame w)) (qc : Conn w) : List (Frame w) × Conn w :=
  let pnum := start.pnum
  let (cg, start, post) := congestionLost cf qc.rstPnum now qc.congestion start
  let qc := { qc with congestion := cg, pushPosted := qc.pushPosted || post }
  let qc := (start :: rest.takeWhile (·.pnum = pnum)).foldl (resendFrame l) qc
  (rest.dropWhile (·.pnum = pnum), if qc.closing then qc else { qc with pushPosted := true })

@[simp] theorem resendFrames_fst (cf : Conf w) (now : BitVec w) (l : Level) (start : Frame w)
    (rest : List (Frame w)) (qc : Conn w) :
    (resendFrames cf now l start rest qc).1 = rest.dropWhile (·.pnum = start.pnum) := by
  simp [resendFrames]

/-! ## `njt_quic_detect_lost` -/

/-- `njt_quic_ack_stat_t`, the send times of the frames an ACK frame
acknowledged: of the frame numbered `max` of the last range (`max_pn`), and
the earliest and latest (`oldest`, `newest`); `NJT_TIMER_INFINITE` for none. -/
structure AckStat (w : Nat) where
  maxPn : BitVec w
  oldest : BitVec w
  newest : BitVec w
  deriving DecidableEq, Repr

/-- The send times of the lost packets sent after `first_rtt`, and their
number: `oldest`, `newest` and `nlost` of `njt_quic_detect_lost`. -/
structure LossStat (w : Nat) where
  oldest : BitVec w
  newest : BitVec w
  nlost : Nat
  deriving DecidableEq, Repr

/-- `oldest = newest = NJT_TIMER_INFINITE; nlost = 0`. -/
def LossStat.init : LossStat w := ⟨timerInfinite w, timerInfinite w, 0⟩

/-- Count one lost packet sent at `t`. -/
def LossStat.note (st : LossStat w) (t : BitVec w) : LossStat w where
  oldest := if st.oldest = timerInfinite w ∨ t < st.oldest then t else st.oldest
  newest := if st.newest = timerInfinite w ∨ t > st.newest then t else st.newest
  nlost := st.nlost + 1

/-- Whether the scan of `njt_quic_detect_lost` stops at a head frame that is
not lost: "`(njt_msec_int_t) wait > 0 && ctx->largest_ack - start->pnum <
NJT_QUIC_PKT_THR`", with `wait = start->send_time + thr - now`. -/
def lossWait (now thr : BitVec w) (la : Nat) (start : Frame w) : Bool :=
  decide (0 < (start.sendTime + thr - now).toInt ∧ la - start.pnum < pktThr)

/-- Whether the loss scan of a queue with `largest_ack = la` takes the packet
of `start` when it reaches it: the tests the `while` loop of
`njt_quic_detect_lost` makes before it calls `njt_quic_resend_frames`. -/
def scanLost (now thr : BitVec w) (la : Nat) (start : Frame w) : Bool :=
  decide (start.pnum ≤ la) && !lossWait now thr la start

/-- Whether the loss scan takes the head packet of a queue. -/
def headLost (now thr : BitVec w) (la : Nat) : List (Frame w) → Bool
  | [] => false
  | start :: _ => scanLost now thr la start

/-- The `while (!njt_queue_empty(&ctx->sent))` loop of `njt_quic_detect_lost`
for the context of level `l` with `largest_ack = la`.  Returns what is left of
`sent`, the connection and the loss statistics.  Semireducible, so that the
model runs on concrete queues. -/
@[semireducible] def detectLostCtx (cf : Conf w) (now thr : BitVec w) (l : Level) (la : Nat) :
    List (Frame w) → Conn w → LossStat w → List (Frame w) × Conn w × LossStat w
  | [], qc, ls => ([], qc, ls)
  | start :: rest, qc, ls =>
    if start.pnum > la then (start :: rest, qc, ls)
    else if lossWait now thr la start then (start :: rest, qc, ls)
    else
      let ls := if start.sendTime > qc.firstRtt then ls.note start.sendTime else ls
      let r := resendFrames cf now l start rest qc
      detectLostCtx cf now thr l la r.1 r.2 ls
termination_by sent => sent.length
decreasing_by
  simp only [resendFrames_fst, List.length_cons]
  exact Nat.lt_succ_of_le (List.dropWhile_suffix _).length_le

/-- The `for` loop of `njt_quic_detect_lost` over the send contexts. -/
def detectLostLevels (cf : Conf w) (now thr : BitVec w) :
    List Level → Conn w × LossStat w → Conn w × LossStat w
  | [], s => s
  | l :: ls, (qc, st) =>
    let ctx := qc.ctx l
    if ctx.largestAck = unsetPn then detectLostLevels cf now thr ls (qc, st)
    else
      let (sent, qc, st) := detectLostCtx cf now thr l ctx.largestAck ctx.sent qc st
      detectLostLevels cf now thr ls (qc.modifyCtx l fun ctx => { ctx with sent }, st)

/-! ## `njt_quic_set_lost_timer` -/

/-- The delay of the lost timer the context of level `l` asks for in the loop
of `njt_quic_set_lost_timer`, when `largest_ack` is set and the head packet is
at or below it: until `send_time + thr`, or none when that has passed or the
head is `NJT_QUIC_PKT_THR` packets below `largest_ack`. -/
def lostDelay (now : BitVec w) (qc : Conn w) (l : Level) : Option Int :=
  let ctx := qc.ctx l
  match ctx.sent with
  | [] => none
  | f :: _ =>
    if ctx.largestAck ≠ unsetPn ∧ f.pnum ≤ ctx.largestAck then
      let w := (f.sendTime + lostThreshold qc - now).toInt
      some (if w < 0 ∨ ctx.largestAck - f.pnum ≥ pktThr then 0 else w)
    else none

/-- The delay of the PTO timer the context of level `l` asks for when its
queue is not empty: until the probe timeout, backed off `pto_count` times, has
passed since its last packet was sent. -/
def ptoDelay (cf : Conf w) (now : BitVec w) (qc : Conn w) (l : Level) : Option Int :=
  match (qc.ctx l).sent.getLast? with
  | none => none
  | some f =>
    let w := (f.sendTime + (pto cf l qc <<< qc.ptoCount) - now).toInt
    some (if w < 0 then 0 else w)

/-- `if (x == -1 || w < x) x = w`: the smallest delay so far, `-1` for none. -/
def minDelay (x : Int) : Option Int → Int
  | none => x
  | some v => if x = -1 ∨ v < x then v else x

/-- One context of the loop of `njt_quic_set_lost_timer`: the smallest delays
so far of the lost timer and the PTO timer. -/
def lostTimerStep (cf : Conf w) (now : BitVec w) (qc : Conn w) (acc : Int × Int) (l : Level) :
    Int × Int :=
  (minDelay acc.1 (lostDelay now qc l), minDelay acc.2 (ptoDelay cf now qc l))

/-- `njt_quic_set_lost_timer`: re-arm `qc->pto`, with the lost handler if a
lost timer is due, else with the PTO handler if anything is in flight. -/
def setLostTimer (cf : Conf w) (now : BitVec w) (qc : Conn w) : Conn w :=
  let (lost, ptoW) := levels.foldl (lostTimerStep cf now qc) (-1, -1)
  let qc := { qc with ptoTimer := none }
  if lost ≠ -1 then { qc with ptoTimer := some (.lost, lost.toNat) }
  else if ptoW ≠ -1 then { qc with ptoTimer := some (.pto, ptoW.toNat) }
  else qc

/-- `njt_quic_detect_lost`, with the statistics `st` of the ACK frame being
handled, or none when the lost timer fires. -/
def detectLost (cf : Conf w) (now : BitVec w) (st : Option (AckStat w)) (qc : Conn w) :
    Conn w :=
  let (qc, ls) := detectLostLevels cf now (lostThreshold qc) levels (qc, LossStat.init)
  let qc :=
    match st with
    | some st =>
      if 2 ≤ ls.nlost ∧ (st.newest < ls.oldest ∨ st.oldest > ls.newest) ∧
          ls.newest - ls.oldest > pcgDuration cf qc then
        { qc with congestion := persistentCongestion cf now qc.congestion }
      else qc
    | none => qc
  setLostTimer cf now qc

/-- `njt_quic_lost_handler`: the lost timer fired. -/
def lostHandler (cf : Conf w) (now : BitVec w) (qc : Conn w) : Conn w :=
  detectLost cf now none qc

/-! ## `njt_quic_pto_handler` -/

/-- Modelled from the spec: `njt_quic_frame_sendto` (`njt_event_quic_output.c`,
not in src), "emit a frame immediately": the frame goes out alone in packet
`ctx->pnum`, stamped `now` and `len` bytes long; an ack-eliciting frame of a
connection that is not closing stays in `sent` and counts in `in_flight`. -/
def frameSendto (l : Level) (now : BitVec w) (len : Nat) (kind : FrameKind)
    (ignoreCongestion : Bool) (qc : Conn w) : Conn w :=
  let f : Frame w := ⟨(qc.ctx l).pnum, now, len, kind, ignoreCongestion⟩
  let qc := qc.modifyCtx l fun ctx => { ctx with pnum := ctx.pnum + 1 }
  if kind.ackEliciting && !qc.closing then
    { qc with congestion := { qc.congestion with
        inFlight := qc.congestion.inFlight + BitVec.ofNat w len } }.modifyCtx
      l fun ctx => { ctx with sent := ctx.sent ++ [f] }
  else qc

/-- Whether the PTO handler probes the context of level `l`: its last packet
is not acknowledged and its probe timeout has expired. -/
def ptoDue (cf : Conf w) (now : BitVec w) (qc : Conn w) (l : Level) : Bool :=
  let ctx := qc.ctx l
  match ctx.sent.getLast? with
  | none => false
  | some f =>
    !(f.pnum ≤ ctx.largestAck && ctx.largestAck != unsetPn) &&
      !(0 < (f.sendTime + (pto cf l qc <<< qc.ptoCount) - now).toInt)

/-- `njt_quic_pto_handler`: probe every due context with two PING frames of
`probeLen` bytes each, then back off and re-arm the timer. -/
def ptoHandler (cf : Conf w) (now : BitVec w) (probeLen : Nat) (qc : Conn w) : Conn w :=
  let qc := levels.foldl (fun qc' l =>
    if ptoDue cf now qc l then
      frameSendto l now probeLen .ping true (frameSendto l now probeLen .ping true qc')
    else qc') qc
  setLostTimer cf now { qc with ptoCount := qc.ptoCount + 1 }

/-- What every pair of probes keeps, the probe loop of `njt_quic_pto_handler`
keeps, whichever contexts are due. -/
theorem ptoProbes_induction (P : Conn w → Prop) (due : Level → Bool) (now : BitVec w)
    (len : Nat) (hstep : ∀ q m, due m = true → P q →
      P (frameSendto m now len .ping true (frameSendto m now len .ping true q))) :
    ∀ (ls : List Level) (q : Conn w), P q → P (ls.foldl (fun q' m => if due m then
      frameSendto m now len .ping true (frameSendto m now len .ping true q') else q') q)
  | [], _, hq => hq
  | m :: ls, q, hq => by
    rw [List.foldl_cons]
    refine ptoProbes_induction P due now len hstep ls _ ?_
    split_ifs with hd
    · exact hstep q m hd hq
    · exact hq

/-! ## What the loss machinery leaves alone -/

/-- Two connections that agree on everything the loss scan and the timers
read besides the `sent` queues and the congestion controller: the RTT state,
`pto_count`, `rst_pnum`, the handshake and closing flags, and each context's
`pnum` and `largest_ack`.  Resending a frame only re-queues it, so it keeps
this. -/
structure Conn.SameFlight (qc qc' : Conn w) : Prop where
  rstPnum : qc'.rstPnum = qc.rstPnum
  closing : qc'.closing = qc.closing
  handshaked : qc'.handshaked = qc.handshaked
  latestRtt : qc'.latestRtt = qc.latestRtt
  avgRtt : qc'.avgRtt = qc.avgRtt
  rttvar : qc'.rttvar = qc.rttvar
  firstRtt : qc'.firstRtt = qc.firstRtt
  ptoCount : qc'.ptoCount = qc.ptoCount
  pnum : ∀ l, (qc'.ctx l).pnum = (qc.ctx l).pnum
  largestAck : ∀ l, (qc'.ctx l).largestAck = (qc.ctx l).largestAck

namespace Conn.SameFlight

theorem refl (qc : Conn w) : qc.SameFlight qc :=
  ⟨rfl, rfl, rfl, rfl, rfl, rfl, rfl, rfl, fun _ => rfl, fun _ => rfl⟩

theorem trans {qc qc' qc'' : Conn w} (h : qc.SameFlight qc') (h' : qc'.SameFlight qc'') :
    qc.SameFlight qc'' :=
  ⟨h'.1.trans h.1, h'.2.trans h.2, h'.3.trans h.3, h'.4.trans h.4, h'.5.trans h.5, h'.6.trans h.6,
    h'.7.trans h.7, h'.8.trans h.8, fun l => (h'.pnum l).trans (h.pnum l),
    fun l => (h'.largestAck l).trans (h.largestAck l)⟩

end Conn.SameFlight

section Frame

variable (qc : Conn w) (l : Level)

theorem sameFlight_modifyCtx {f : SendCtx w → SendCtx w}
    (hf : ∀ c, (f c).pnum = c.pnum ∧ (f c).largestAck = c.largestAck) :
    qc.SameFlight (qc.modifyCtx l f) := by
  refine ⟨by simp [Conn.modifyCtx], by simp [Conn.modifyCtx], by simp [Conn.modifyCtx],
    by simp [Conn.modifyCtx], by simp [Conn.modifyCtx], by simp [Conn.modifyCtx],
    by simp [Conn.modifyCtx], by simp [Conn.modifyCtx], fun m => ?_, fun m => ?_⟩ <;>
  · by_cases h : m = l
    · subst h; simp [hf]
    · simp [h]

theorem sameFlight_pushPosted (b : Bool) : qc.SameFlight { qc with pushPosted := b } :=
  ⟨rfl, rfl, rfl, rfl, rfl, rfl, rfl, rfl, fun l => by cases l <;> rfl, fun l => by cases l <;> rfl⟩

theorem sameFlight_congestion (cg : Congestion w) : qc.SameFlight { qc with congestion := cg } :=
  ⟨rfl, rfl, rfl, rfl, rfl, rfl, rfl, rfl, fun l => by cases l <;> rfl, fun l => by cases l <;> rfl⟩

theorem sameFlight_queueFrame (f : Frame w) : qc.SameFlight (queueFrame l f qc) :=
  (sameFlight_pushPosted qc _).trans (sameFlight_modifyCtx _ l fun _ => ⟨rfl, rfl⟩)

theorem resendFrame_sameFlight (f : Frame w) : qc.SameFlight (resendFrame l qc f) := by
  unfold resendFrame
  dsimp only
  repeat' split
  all_goals first
    | exact .refl _
    | exact sameFlight_queueFrame _ _ _
    | exact sameFlight_modifyCtx _ _ fun _ => ⟨rfl, rfl⟩

@[simp] theorem resendFrame_congestion (f : Frame w) :
    (resendFrame l qc f).congestion = qc.congestion := by
  unfold resendFrame
  dsimp only
  repeat' split
  all_goals simp [queueFrame, Conn.modifyCtx]

@[simp] theorem resendFrame_sent (f : Frame w) (m : Level) :
    ((resendFrame l qc f).ctx m).sent = (qc.ctx m).sent := by
  unfold resendFrame
  dsimp only
  repeat' split
  all_goals simp only [queueFrame, Conn.ctx_modifyCtx, Conn.ctx_with_pushPosted]
  all_goals split_ifs <;> simp_all

theorem foldl_resendFrame : ∀ (fs : List (Frame w)) (qc : Conn w),
    (fs.foldl (resendFrame l) qc).congestion = qc.congestion ∧
      (∀ m, ((fs.foldl (resendFrame l) qc).ctx m).sent = (qc.ctx m).sent) ∧
      qc.SameFlight (fs.foldl (resendFrame l) qc)
  | [], qc => ⟨rfl, fun _ => rfl, .refl qc⟩
  | f :: fs, qc => by
    obtain ⟨h1, h2, h3⟩ := foldl_resendFrame fs (resendFrame l qc f)
    exact ⟨h1.trans (resendFrame_congestion qc l f), fun m => (h2 m).trans (resendFrame_sent qc l f m),
      (resendFrame_sameFlight qc l f).trans h3⟩

/-- A lost packet costs the controller one `njt_quic_congestion_lost` of its
first frame, and nothing else. -/
theorem resendFrames_snd (cf : Conf w) (now : BitVec w) (start : Frame w) (rest : List (Frame w)) :
    (resendFrames cf now l start rest qc).2.congestion =
        (congestionLost cf qc.rstPnum now qc.congestion start).1 ∧
      (∀ m, ((resendFrames cf now l start rest qc).2.ctx m).sent = (qc.ctx m).sent) ∧
      qc.SameFlight (resendFrames cf now l start rest qc).2 := by
  simp only [resendFrames]
  generalize congestionLost cf qc.rstPnum now qc.congestion start = r
  obtain ⟨cg, start', post⟩ := r
  dsimp only
  obtain ⟨h1, h2, h3⟩ := foldl_resendFrame l (start' :: rest.takeWhile (·.pnum = start.pnum))
    { qc with congestion := cg, pushPosted := qc.pushPosted || post }
  have h0 : qc.SameFlight { qc with congestion := cg, pushPosted := qc.pushPosted || post } :=
    (sameFlight_congestion qc cg).trans (sameFlight_pushPosted _ _)
  have hs : ∀ m, (({ qc with congestion := cg, pushPosted := qc.pushPosted || post } : Conn w).ctx
      m).sent = (qc.ctx m).sent := fun m => by cases m <;> rfl
  split
  · exact ⟨h1, fun m => (h2 m).trans (hs m), h0.trans h3⟩
  · refine ⟨h1, fun m => ?_, (h0.trans h3).trans (sameFlight_pushPosted _ _)⟩
    simp only [Conn.ctx_with_pushPosted]; exact (h2 m).trans (hs m)

end Frame

/-! ## What `njt_quic_detect_lost` leaves alone -/

section Keeps

variable {α : Type} (g : Conn w → α) (cf : Conf w) (now : BitVec w)
  (hres : ∀ l qc f, g (resendFrame l qc f) = g qc)
  (hcg : ∀ (qc : Conn w) cg b, g { qc with congestion := cg, pushPosted := b } = g qc)
  (hsent : ∀ (qc : Conn w) l s, g (qc.modifyCtx l fun ctx => { ctx with sent := s }) = g qc)
  (htimer : ∀ qc, g (setLostTimer cf now qc) = g qc)
include hres

theorem foldl_resendFrame_keeps (l : Level) :
    ∀ (fs : List (Frame w)) (qc : Conn w), g (fs.foldl (resendFrame l) qc) = g qc
  | [], _ => rfl
  | f :: fs, qc => (foldl_resendFrame_keeps l fs _).trans (hres l qc f)

include hcg

theorem resendFrames_keeps (l : Level) (start : Frame w) (rest : List (Frame w)) (qc : Conn w) :
    g (resendFrames cf now l start rest qc).2 = g qc := by
  have h := foldl_resendFrame_keeps g hres l
  simp only [resendFrames]
  split
  · exact (h _ _).trans (hcg _ _ _)
  · exact (hcg _ _ true).trans ((h _ _).trans (hcg _ _ _))

theorem detectLostCtx_keeps (thr : BitVec w) (l : Level) (la : Nat) :
    ∀ (sent : List (Frame w)) (qc : Conn w) (ls : LossStat w),
      g (detectLostCtx cf now thr l la sent qc ls).2.1 = g qc := by
  intro sent qc ls
  induction sent, qc, ls using detectLostCtx.induct cf now thr l la with
  | case1 => rw [detectLostCtx]
  | case2 _ _ _ _ hgt => rw [detectLostCtx, if_pos hgt]
  | case3 _ _ _ _ hle hw => rw [detectLostCtx, if_neg hle, if_pos hw]
  | case4 start rest qc _ hle hw _ _ ih =>
    rw [detectLostCtx, if_neg hle, if_neg hw]
    exact ih.trans (resendFrames_keeps g cf now hres hcg l start rest qc)

include hsent

theorem detectLostLevels_keeps (thr : BitVec w) :
    ∀ (ls : List Level) (qc : Conn w) (st : LossStat w),
      g (detectLostLevels cf now thr ls (qc, st)).1 = g qc
  | [], _, _ => rfl
  | l :: ls, qc, st => by
    rw [detectLostLevels]
    split_ifs
    · exact detectLostLevels_keeps thr ls qc st
    · exact (detectLostLevels_keeps thr ls _ _).trans
        ((hsent _ _ _).trans (detectLostCtx_keeps g cf now hres hcg thr l _ _ qc st))

include htimer

/-- `njt_quic_detect_lost` leaves alone whatever resending a frame, an update
of the controller and of `push`, an update of a `sent` queue and
`njt_quic_set_lost_timer` leave alone. -/
theorem detectLost_keeps (st : Option (AckStat w)) (qc : Conn w) :
    g (detectLost cf now st qc) = g qc := by
  unfold detectLost
  have h := detectLostLevels_keeps g cf now hres hcg hsent (lostThreshold qc) levels qc LossStat.init
  generalize detectLostLevels cf now (lostThreshold qc) levels (qc, LossStat.init) = r at h
  obtain ⟨q, ls⟩ := r
  rw [htimer, ← h]
  split
  · split_ifs
    · exact hcg _ _ _
    · rfl
  · rfl

end Keeps

/-! ## The loss rule -/

/-- The loss rule of RFC 9002, 6.1, in unbounded integers: a packet at or
below `largest_ack` is lost when it is `kPacketThreshold` packets below it, or
was sent at least `thr` before `now`. -/
def LossRule (thr now : BitVec w) (la : Nat) (f : Frame w) : Prop :=
  f.pnum ≤ la ∧ (pktThr ≤ la - f.pnum ∨ f.sendTime.toNat + thr.toNat ≤ now.toNat)

instance (thr now : BitVec w) (la : Nat) (f : Frame w) : Decidable (LossRule thr now la f) := by
  unfold LossRule; infer_instance

/-- A `sent` queue as the sender builds it: ordered by packet number, with
non-decreasing send times, and the frames of one packet sharing its send
time. -/
def SentOrdered (sent : List (Frame w)) : Prop :=
  sent.Pairwise fun f g => f.pnum ≤ g.pnum ∧ f.sendTime.toNat ≤ g.sendTime.toNat ∧
    (f.pnum = g.pnum → f.sendTime = g.sendTime)

instance (sent : List (Frame w)) : Decidable (SentOrdered sent) := by
  unfold SentOrdered; infer_instance

/-- The wrapping difference `send_time + thr - now` is within half the range
of `njt_msec_t`, so that its signed reading is the true difference. -/
def TimeInRange (thr now : BitVec w) (f : Frame w) : Prop :=
  now.toNat ≤ f.sendTime.toNat + thr.toNat + 2 ^ (w - 1) ∧
    f.sendTime.toNat + thr.toNat < now.toNat + 2 ^ (w - 1)

instance (thr now : BitVec w) (f : Frame w) : Decidable (TimeInRange thr now f) := by
  unfold TimeInRange; infer_instance

/-- Within half the range, the signed reading of `s + t - n` is the true
difference. -/
theorem toInt_add_sub (s t n : BitVec w)
    (h1 : n.toNat ≤ s.toNat + t.toNat + 2 ^ (w - 1))
    (h2 : s.toNat + t.toNat < n.toNat + 2 ^ (w - 1)) :
    (s + t - n).toInt = (s.toNat : Int) + t.toNat - n.toNat := by
  have hs := s.isLt; have ht := t.isLt; have hn := n.isLt
  rcases Nat.eq_zero_or_pos w with rfl | hw
  · simp only [Nat.pow_zero, Nat.lt_one_iff] at hs ht hn
    simp [BitVec.toInt, hs, ht, hn]
  have hM : 2 ^ w = 2 * 2 ^ (w - 1) := by rw [← Nat.pow_succ']; congr 1; omega
  rw [BitVec.toInt, BitVec.toNat_sub, BitVec.toNat_add]
  generalize s.toNat = S at *
  generalize t.toNat = T at *
  generalize n.toNat = N at *
  generalize 2 ^ (w - 1) = H at *
  generalize 2 ^ w = M at *
  have hmod : ∀ X, X < 2 * M → X % M = if X < M then X else X - M := by
    intro X hX
    split_ifs with h
    · exact Nat.mod_eq_of_lt h
    · rw [Nat.mod_eq_sub_mod (by omega), Nat.mod_eq_of_lt (by omega)]
  rcases Nat.lt_or_ge (S + T) M with h3 | h3
  · rw [Nat.mod_eq_of_lt h3, hmod (M - N + (S + T)) (by omega)]
    split_ifs <;> omega
  · rw [Nat.mod_eq_sub_mod h3, Nat.mod_eq_of_lt (show S + T - M < M by omega),
      hmod (M - N + (S + T - M)) (by omega)]
    split_ifs <;> omega

/-- Within half the range, the scan's test is the loss rule: a head frame at
or below `largest_ack` is kept exactly when the rule does not hold for it. -/
theorem lossWait_eq_false_iff {thr now : BitVec w} {la : Nat} {f : Frame w}
    (hr : TimeInRange thr now f) (hle : f.pnum ≤ la) :
    lossWait now thr la f = false ↔ LossRule thr now la f := by
  have := toInt_add_sub f.sendTime thr now hr.1 hr.2
  simp only [lossWait, decide_eq_false_iff_not, LossRule, this, pktThr]
  omega

/-- The rule holds of every earlier frame of an ordered queue once it holds of
a later one. -/
theorem LossRule.of_le {thr now : BitVec w} {la : Nat} {f g : Frame w}
    (h : LossRule thr now la g) (hp : f.pnum ≤ g.pnum) (ht : f.sendTime.toNat ≤ g.sendTime.toNat) :
    LossRule thr now la f := by
  unfold LossRule at *; omega

/-! ## What `njt_quic_detect_lost` removes -/

section ListFacts

variable {α : Type} {p q : α → Bool}

theorem dropWhile_dropWhile_of_imp : ∀ {l : List α}, (∀ x ∈ l, p x → q x) →
    (l.dropWhile p).dropWhile q = l.dropWhile q
  | [], _ => rfl
  | a :: l, h => by
    by_cases hp : p a
    · rw [List.dropWhile_cons_of_pos hp, dropWhile_dropWhile_of_imp fun x hx => h x (.tail _ hx),
        List.dropWhile_cons_of_pos (h a (.head _) hp)]
    · rw [List.dropWhile_cons_of_neg hp]

theorem takeWhile_dropWhile_of_imp : ∀ {l : List α}, (∀ x ∈ l, p x → q x) →
    (l.takeWhile q).dropWhile p = (l.dropWhile p).takeWhile q
  | [], _ => rfl
  | a :: l, h => by
    by_cases hp : p a
    · rw [List.takeWhile_cons_of_pos (h a (.head _) hp), List.dropWhile_cons_of_pos hp,
        List.dropWhile_cons_of_pos hp, takeWhile_dropWhile_of_imp fun x hx => h x (.tail _ hx)]
    · rw [List.dropWhile_cons_of_neg hp]
      by_cases hq : q a
      · rw [List.takeWhile_cons_of_pos hq, List.dropWhile_cons_of_neg hp]
      · rw [List.takeWhile_cons_of_neg hq]; rfl

/-- `dropWhile` keeps every element its test rejects. -/
theorem mem_dropWhile_of_not {x : α} : ∀ {l : List α}, x ∈ l → p x = false → x ∈ l.dropWhile p
  | a :: l, hx, hp => by
    by_cases ha : p a
    · rw [List.dropWhile_cons_of_pos ha]
      exact mem_dropWhile_of_not ((List.mem_cons.1 hx).resolve_left fun h => by simp_all) hp
    · rw [List.dropWhile_cons_of_neg ha]; exact hx

end ListFacts

/-- The first frame of each packet of a queue whose packets are contiguous:
the frames `njt_quic_resend_frames` hands to `njt_quic_congestion_lost`. -/
@[semireducible] def packetHeads : List (Frame w) → List (Frame w)
  | [] => []
  | f :: fs => f :: packetHeads (fs.dropWhile (·.pnum = f.pnum))
termination_by l => l.length
decreasing_by
  simp only [List.length_cons]
  exact Nat.lt_succ_of_le (List.dropWhile_suffix _).length_le

section Scan

variable (cf : Conf w) (now thr : BitVec w) (l : Level) (la : Nat)

/-- The loss scan of one context returns a suffix of the queue it scanned, and
leaves every stored `sent` queue and everything `Conn.SameFlight` compares
alone. -/
theorem detectLostCtx_frame :
    ∀ (sent : List (Frame w)) (qc : Conn w) (ls : LossStat w),
      (detectLostCtx cf now thr l la sent qc ls).1 <:+ sent ∧
      (∀ m, ((detectLostCtx cf now thr l la sent qc ls).2.1.ctx m).sent = (qc.ctx m).sent) ∧
      qc.SameFlight (detectLostCtx cf now thr l la sent qc ls).2.1 := by
  intro sent qc ls
  induction sent, qc, ls using detectLostCtx.induct cf now thr l la with
  | case1 qc ls => simp [detectLostCtx, Conn.SameFlight.refl]
  | case2 start rest qc ls hgt => simp [detectLostCtx, hgt, Conn.SameFlight.refl]
  | case3 start rest qc ls hle hw => simp [detectLostCtx, hle, hw, Conn.SameFlight.refl]
  | case4 start rest qc ls hle hw ls' r ih =>
    obtain ⟨h1, h2, h3⟩ := ih
    obtain ⟨-, hsent, hs⟩ := resendFrames_snd qc l cf now start rest
    rw [detectLostCtx, if_neg hle, if_neg hw]
    refine ⟨h1.trans ?_, fun m => (h2 m).trans (hsent m), hs.trans h3⟩
    rw [resendFrames_fst]
    exact (List.dropWhile_suffix _).trans (List.suffix_cons _ _)

/-- A scan whose first test keeps the head packet changes nothing. -/
theorem detectLostCtx_of_not_headLost {sent : List (Frame w)} (qc : Conn w) (ls : LossStat w)
    (h : headLost now thr la sent = false) :
    detectLostCtx cf now thr l la sent qc ls = (sent, qc, ls) := by
  cases sent with
  | nil => simp [detectLostCtx]
  | cons start rest =>
    simp only [headLost, scanLost, Bool.and_eq_false_iff, decide_eq_false_iff_not,
      Bool.not_eq_false'] at h
    rw [detectLostCtx]
    by_cases hgt : start.pnum > la
    · rw [if_pos hgt]
    · rw [if_neg hgt, if_pos (h.resolve_left (by omega))]

/-- A scan whose first test takes the head packet shortens the queue. -/
theorem detectLostCtx_length_lt {sent : List (Frame w)} (qc : Conn w) (ls : LossStat w)
    (h : headLost now thr la sent = true) :
    (detectLostCtx cf now thr l la sent qc ls).1.length < sent.length := by
  cases sent with
  | nil => simp [headLost] at h
  | cons start rest =>
    simp only [headLost, scanLost, Bool.and_eq_true, decide_eq_true_eq, Bool.not_eq_true'] at h
    rw [detectLostCtx, if_neg (by omega), if_neg (by simp [h.2])]
    refine Nat.lt_of_le_of_lt (detectLostCtx_frame cf now thr l la _ _ _).1.length_le ?_
    rw [resendFrames_fst]
    exact Nat.lt_succ_of_le (List.dropWhile_suffix _).length_le

/-- The loss scan of one context, on a queue whose packets are contiguous with
one send time each: it takes off the longest prefix of packets its test takes,
charging `njt_quic_congestion_lost` once per packet, with the packet's first
frame. -/
theorem detectLostCtx_scan :
    ∀ (sent : List (Frame w)) (qc : Conn w) (ls : LossStat w), SentOrdered sent →
      (detectLostCtx cf now thr l la sent qc ls).1 = sent.dropWhile (scanLost now thr la) ∧
      (detectLostCtx cf now thr l la sent qc ls).2.1.congestion =
        ccRun cf qc.congestion
          ((packetHeads (sent.takeWhile (scanLost now thr la))).map (.lost qc.rstPnum now)) := by
  intro sent qc ls
  induction sent, qc, ls using detectLostCtx.induct cf now thr l la with
  | case1 qc ls => intro _; simp [detectLostCtx, packetHeads]
  | case2 start rest qc ls hgt =>
    intro _
    have hn : scanLost now thr la start = false := by simp [scanLost]; omega
    simp [detectLostCtx, hgt, hn, packetHeads]
  | case3 start rest qc ls hle hw =>
    intro _
    have hn : scanLost now thr la start = false := by simp [scanLost, hw]
    simp [detectLostCtx, hle, hw, hn, packetHeads]
  | case4 start rest qc ls hle hw ls' r ih =>
    intro hord
    have hrule : scanLost now thr la start = true := by simp [scanLost]; simp_all
    obtain ⟨hrel, hrest⟩ := List.pairwise_cons.1 hord
    have himp : ∀ x ∈ rest, decide (x.pnum = start.pnum) = true → scanLost now thr la x = true :=
      fun x hx hp => by
        have hp : x.pnum = start.pnum := by simpa using hp
        rw [← hrule, scanLost, scanLost, lossWait, lossWait, hp, (hrel x hx).2.2 hp.symm]
    obtain ⟨h1, h2⟩ := ih (hrest.sublist (List.dropWhile_suffix _).sublist)
    obtain ⟨hc, -, hs⟩ := resendFrames_snd qc l cf now start rest
    rw [detectLostCtx, if_neg hle, if_neg hw]
    refine ⟨h1.trans ?_, h2.trans ?_⟩
    · rw [resendFrames_fst, dropWhile_dropWhile_of_imp himp, List.dropWhile_cons_of_pos hrule]
    · rw [hc, hs.rstPnum, List.takeWhile_cons_of_pos hrule, packetHeads,
        resendFrames_fst, takeWhile_dropWhile_of_imp himp]
      rfl

end Scan

/-- Within half the clock range, the scan's test is the loss rule. -/
theorem scanLost_eq_decide {thr now : BitVec w} {la : Nat} {f : Frame w}
    (hr : TimeInRange thr now f) : scanLost now thr la f = decide (LossRule thr now la f) := by
  by_cases hle : f.pnum ≤ la
  · have hw : lossWait now thr la f = false ↔ LossRule thr now la f :=
      lossWait_eq_false_iff hr hle
    cases h : lossWait now thr la f <;> simp_all [scanLost]
  · simp [scanLost, LossRule, hle]

/-- On an ordered queue, a test that agrees with the loss rule takes the
packets the rule holds of: they form a prefix. -/
theorem SentOrdered.dropWhile_eq_filter {thr now : BitVec w} {la : Nat} {p : Frame w → Bool} :
    ∀ {sent : List (Frame w)}, SentOrdered sent →
      (∀ f ∈ sent, p f = decide (LossRule thr now la f)) →
      sent.dropWhile p = sent.filter (¬ LossRule thr now la ·)
  | [], _, _ => rfl
  | a :: l, h, hp => by
    obtain ⟨hrel, hl⟩ := List.pairwise_cons.1 h
    have hpl := fun f hf => hp f (.tail _ hf)
    by_cases ha : LossRule thr now la a
    · rw [List.dropWhile_cons_of_pos (by simpa [hp a (.head _)] using ha),
        SentOrdered.dropWhile_eq_filter hl hpl, List.filter_cons_of_neg (by simpa using ha)]
    · rw [List.dropWhile_cons_of_neg (by simpa [hp a (.head _)] using ha),
        List.filter_cons_of_pos (by simpa using ha),
        List.filter_eq_self.2 fun x hx => by
          simpa using fun hx' => ha (hx'.of_le (hrel x hx).1 (hrel x hx).2.1)]

theorem SentOrdered.takeWhile_eq_filter {thr now : BitVec w} {la : Nat} {p : Frame w → Bool} :
    ∀ {sent : List (Frame w)}, SentOrdered sent →
      (∀ f ∈ sent, p f = decide (LossRule thr now la f)) →
      sent.takeWhile p = sent.filter (LossRule thr now la ·)
  | [], _, _ => rfl
  | a :: l, h, hp => by
    obtain ⟨hrel, hl⟩ := List.pairwise_cons.1 h
    have hpl := fun f hf => hp f (.tail _ hf)
    by_cases ha : LossRule thr now la a
    · rw [List.takeWhile_cons_of_pos (by simpa [hp a (.head _)] using ha),
        SentOrdered.takeWhile_eq_filter hl hpl, List.filter_cons_of_pos (by simpa using ha)]
    · rw [List.takeWhile_cons_of_neg (by simpa [hp a (.head _)] using ha),
        List.filter_cons_of_neg (by simpa using ha), eq_comm, List.filter_eq_nil_iff]
      exact fun x hx => by simpa using fun hx' => ha (hx'.of_le (hrel x hx).1 (hrel x hx).2.1)

/-- After the scan of an ordered queue, no frame is `kPacketThreshold` packets
below `largest_ack`: the scan stops only at a packet above `largest_ack` or
within the threshold, and every later packet is numbered higher. -/
theorem SentOrdered.dropWhile_scanLost_pktThr {thr now : BitVec w} {la : Nat} :
    ∀ {sent : List (Frame w)}, SentOrdered sent →
      ∀ f ∈ sent.dropWhile (scanLost now thr la), la < f.pnum + pktThr
  | [], _, _, hf => nomatch hf
  | a :: l, h, f, hf => by
    obtain ⟨hrel, hl⟩ := List.pairwise_cons.1 h
    by_cases ha : scanLost now thr la a
    · rw [List.dropWhile_cons_of_pos ha] at hf
      exact SentOrdered.dropWhile_scanLost_pktThr hl f hf
    · rw [List.dropWhile_cons_of_neg ha] at hf
      have hb : la < a.pnum + pktThr := by
        simp only [scanLost, lossWait, Bool.and_eq_true, decide_eq_true_eq, Bool.not_eq_true',
          decide_eq_false_iff_not, not_and, not_not] at ha
        by_cases hle : a.pnum ≤ la
        · have := ha hle; simp only [decide_eq_true_eq] at this; omega
        · omega
      rcases List.mem_cons.1 hf with rfl | hf
      · exact hb
      · have := (hrel f hf).1; omega

/-- The calls the scan of a context with `largest_ack = la` makes into the
controller: one `njt_quic_congestion_lost` per packet it takes, of its first
frame. -/
def scanEvents (now thr : BitVec w) (rstPnum la : Nat) (sent : List (Frame w)) :
    List (CcEvent w) :=
  if la = unsetPn then []
  else (packetHeads (sent.takeWhile (scanLost now thr la))).map (.lost rstPnum now)

/-- The calls the loss rule asks for: one `njt_quic_congestion_lost` per lost
packet, of its first frame. -/
def lostEvents (thr now : BitVec w) (rstPnum la : Nat) (sent : List (Frame w)) : List (CcEvent w) :=
  if la = unsetPn then [] else (packetHeads (sent.filter (LossRule thr now la ·))).map (.lost rstPnum now)

/-- The loop of `njt_quic_detect_lost` over the send contexts. -/
theorem detectLostLevels_scan (cf : Conf w) (now thr : BitVec w) :
    ∀ (ls : List Level) (qc : Conn w) (st : LossStat w), ls.Nodup →
      (∀ l ∈ ls, (qc.ctx l).largestAck ≠ unsetPn → SentOrdered (qc.ctx l).sent) →
      (∀ l, ((detectLostLevels cf now thr ls (qc, st)).1.ctx l).sent =
        if l ∈ ls ∧ (qc.ctx l).largestAck ≠ unsetPn then
          (qc.ctx l).sent.dropWhile (scanLost now thr (qc.ctx l).largestAck)
        else (qc.ctx l).sent) ∧
      (detectLostLevels cf now thr ls (qc, st)).1.congestion = ccRun cf qc.congestion
        (ls.flatMap fun l => scanEvents now thr qc.rstPnum (qc.ctx l).largestAck (qc.ctx l).sent) ∧
      qc.SameFlight (detectLostLevels cf now thr ls (qc, st)).1
  | [], qc, st, _, _ => ⟨fun l => by simp [detectLostLevels], rfl, .refl qc⟩
  | l :: ls, qc, st, hnd, hyp => by
    obtain ⟨hl, hnd⟩ := List.nodup_cons.1 hnd
    by_cases hu : (qc.ctx l).largestAck = unsetPn
    · obtain ⟨h1, h2, h3⟩ := detectLostLevels_scan cf now thr ls qc st hnd
        fun m hm => hyp m (.tail _ hm)
      rw [detectLostLevels, if_pos hu]
      refine ⟨fun m => ?_, by simp [h2, scanEvents, hu], h3⟩
      rw [h1 m]
      by_cases hm : m = l
      · subst hm; simp [hu]
      · simp [hm]
    obtain ⟨c1, c2⟩ := detectLostCtx_scan cf now thr l (qc.ctx l).largestAck (qc.ctx l).sent
      qc st (hyp l (.head _) hu)
    obtain ⟨-, c3, c4⟩ := detectLostCtx_frame cf now thr l (qc.ctx l).largestAck (qc.ctx l).sent qc st
    generalize hs : detectLostCtx cf now thr l (qc.ctx l).largestAck (qc.ctx l).sent qc st = s at c1 c2 c3 c4
    obtain ⟨sent, qc1, st1⟩ := s
    dsimp only at c1 c2 c3 c4
    have hne : ∀ m ∈ ls, m ≠ l := fun m hm h => hl (h ▸ hm)
    have hq : qc.SameFlight (qc1.modifyCtx l fun ctx => { ctx with sent }) :=
      c4.trans (sameFlight_modifyCtx _ _ fun _ => ⟨rfl, rfl⟩)
    have hsent : ∀ m ∈ ls, ((qc1.modifyCtx l fun ctx => { ctx with sent }).ctx m).sent =
        (qc.ctx m).sent := fun m hm => by rw [Conn.ctx_modifyCtx_of_ne _ _ (hne m hm), c3]
    obtain ⟨h1, h2, h3⟩ := detectLostLevels_scan cf now thr ls
      (qc1.modifyCtx l fun ctx => { ctx with sent }) st1 hnd
      fun m hm => by rw [hsent m hm, hq.largestAck m]; exact hyp m (.tail _ hm)
    rw [detectLostLevels]
    simp only [if_neg hu, hs]
    refine ⟨fun m => ?_, ?_, hq.trans h3⟩
    · rw [h1 m]
      by_cases hm : m = l
      · subst hm
        simp [hl, hu, c1]
      · simp only [hq.largestAck m, List.mem_cons, hm, false_or, Conn.ctx_modifyCtx_of_ne _ _ hm, c3,
          c4.largestAck m]
    · rw [h2, hq.rstPnum, show (qc1.modifyCtx l fun ctx => { ctx with sent }).congestion =
          qc1.congestion from Conn.setCtx_congestion _ _ _, c2, List.flatMap_cons, ccRun_append]
      congr 1
      · simp [scanEvents, hu]
      · exact List.flatMap_congr fun m hm => by rw [hsent m hm, hq.largestAck m]

/-- When no context's first test takes its head packet, the loop of
`njt_quic_detect_lost` over the contexts changes nothing. -/
theorem detectLostLevels_of_not_headLost (cf : Conf w) (now thr : BitVec w) :
    ∀ (ls : List Level) (qc : Conn w) (st : LossStat w),
      (∀ l ∈ ls, (qc.ctx l).largestAck ≠ unsetPn →
        headLost now thr (qc.ctx l).largestAck (qc.ctx l).sent = false) →
      detectLostLevels cf now thr ls (qc, st) = (qc, st)
  | [], _, _, _ => rfl
  | l :: ls, qc, st, h => by
    have ih := detectLostLevels_of_not_headLost cf now thr ls qc st fun m hm => h m (.tail _ hm)
    rw [detectLostLevels]
    split_ifs with hu
    · exact ih
    · rw [detectLostCtx_of_not_headLost cf now thr l _ qc st (h l (.head _) hu)]
      exact (congrArg (detectLostLevels cf now thr ls ⟨·, st⟩) (Conn.setCtx_ctx_self qc l)).trans ih

/-- No queue grows in the loop of `njt_quic_detect_lost`, and the queue of a
context whose first test takes its head packet shrinks. -/
theorem detectLostLevels_sent_length (cf : Conf w) (now thr : BitVec w) :
    ∀ (ls : List Level) (qc : Conn w) (st : LossStat w), ls.Nodup → ∀ m,
      ((detectLostLevels cf now thr ls (qc, st)).1.ctx m).sent.length ≤ (qc.ctx m).sent.length ∧
      (m ∈ ls → (qc.ctx m).largestAck ≠ unsetPn →
        headLost now thr (qc.ctx m).largestAck (qc.ctx m).sent = true →
        ((detectLostLevels cf now thr ls (qc, st)).1.ctx m).sent.length < (qc.ctx m).sent.length)
  | [], _, _, _, _ => ⟨le_rfl, fun h => absurd h (List.not_mem_nil _)⟩
  | l :: ls, qc, st, hnd, m => by
    obtain ⟨hl, hnd⟩ := List.nodup_cons.1 hnd
    rw [detectLostLevels]
    split_ifs with hu
    · obtain ⟨h1, h2⟩ := detectLostLevels_sent_length cf now thr ls qc st hnd m
      refine ⟨h1, fun hm hum => h2 ((List.mem_cons.1 hm).resolve_left ?_) hum⟩
      rintro rfl; exact hum hu
    · obtain ⟨hsuf, c3, c4⟩ :=
        detectLostCtx_frame cf now thr l (qc.ctx l).largestAck (qc.ctx l).sent qc st
      have hlt := @detectLostCtx_length_lt w cf now thr l (qc.ctx l).largestAck (qc.ctx l).sent qc st
      generalize detectLostCtx cf now thr l (qc.ctx l).largestAck (qc.ctx l).sent qc st = r
        at hsuf c3 c4 hlt
      obtain ⟨sent, qc1, st1⟩ := r
      dsimp only at hsuf c3 c4 hlt ⊢
      obtain ⟨h1, h2⟩ := detectLostLevels_sent_length cf now thr ls
        (qc1.modifyCtx l fun ctx => { ctx with sent }) st1 hnd m
      by_cases hm : m = l
      · subst hm
        simp only [Conn.ctx_modifyCtx_self] at h1
        exact ⟨h1.trans hsuf.length_le, fun _ _ hh => lt_of_le_of_lt h1 (hlt hh)⟩
      · simp only [Conn.ctx_modifyCtx_of_ne _ _ hm, c3, c4.largestAck m] at h1 h2
        exact ⟨h1, fun hmem => h2 ((List.mem_cons.1 hmem).resolve_left hm)⟩

@[simp] theorem setLostTimer_ctx (cf : Conf w) (now : BitVec w) (qc : Conn w) (l : Level) :
    (setLostTimer cf now qc).ctx l = qc.ctx l := by
  unfold setLostTimer; dsimp only; split_ifs <;> simp

@[simp] theorem setLostTimer_congestion (cf : Conf w) (now : BitVec w) (qc : Conn w) :
    (setLostTimer cf now qc).congestion = qc.congestion := by
  unfold setLostTimer; dsimp only; split_ifs <;> rfl

@[simp] theorem setLostTimer_rstPnum (cf : Conf w) (now : BitVec w) (qc : Conn w) :
    (setLostTimer cf now qc).rstPnum = qc.rstPnum := by
  unfold setLostTimer; dsimp only; split_ifs <;> rfl

/-- `njt_quic_detect_lost` is the scan over the contexts, then, for an ACK
frame, at most one persistent congestion, then the timer. -/
theorem detectLost_of_scan (cf : Conf w) (now : BitVec w) (st : Option (AckStat w)) (qc : Conn w) :
    (∀ l, ((detectLost cf now st qc).ctx l).sent =
      (((detectLostLevels cf now (lostThreshold qc) levels (qc, LossStat.init)).1.ctx l).sent)) ∧
    ∃ pc : List (CcEvent w), (pc = [] ∨ st.isSome ∧ pc = [.persistent now]) ∧
      (detectLost cf now st qc).congestion =
        ccRun cf (detectLostLevels cf now (lostThreshold qc) levels (qc, LossStat.init)).1.congestion pc := by
  unfold detectLost
  generalize detectLostLevels cf now (lostThreshold qc) levels (qc, LossStat.init) = r
  obtain ⟨qc1, ls⟩ := r
  rcases st with _ | st
  · exact ⟨fun l => by simp, [], .inl rfl, by simp⟩
  · dsimp only
    split_ifs
    · exact ⟨fun l => by simp, [.persistent now], .inr ⟨rfl, rfl⟩, by simp [ccRun_cons, ccStep]⟩
    · exact ⟨fun l => by simp, [], .inl rfl, by simp⟩

/-- What `njt_quic_detect_lost` does to ordered queues at any clock value: in
each context with `largest_ack` set it takes a prefix of `sent`, leaving no
frame `kPacketThreshold` packets below `largest_ack` and every frame above
it. -/
structure DetectLostScan (qc qc' : Conn w) : Prop where
  suffix : ∀ l, (qc'.ctx l).sent <:+ (qc.ctx l).sent
  pktThr : ∀ l, (qc.ctx l).largestAck ≠ unsetPn →
    ∀ f ∈ (qc'.ctx l).sent, (qc.ctx l).largestAck < f.pnum + pktThr
  above : ∀ l, ∀ f ∈ (qc.ctx l).sent, (qc.ctx l).largestAck < f.pnum → f ∈ (qc'.ctx l).sent

/-- What `njt_quic_detect_lost` does to the queues and the controller when the
clock readings are true differences: in every context with `largest_ack` set,
exactly the frames the loss rule holds of leave `sent`; the controller sees one
`njt_quic_congestion_lost` per lost packet, context by context, and then at
most one persistent congestion, only when an ACK frame's statistics were
given. -/
structure DetectLostSpec (cf : Conf w) (now : BitVec w) (st : Option (AckStat w))
    (qc qc' : Conn w) : Prop where
  sent : ∀ l, (qc'.ctx l).sent =
    if (qc.ctx l).largestAck ≠ unsetPn then
      (qc.ctx l).sent.filter (¬ LossRule (lostThreshold qc) now (qc.ctx l).largestAck ·)
    else (qc.ctx l).sent
  congestion : ∃ pc : List (CcEvent w), (pc = [] ∨ st.isSome ∧ pc = [.persistent now]) ∧
    qc'.congestion = ccRun cf qc.congestion
      (levels.flatMap (fun l => lostEvents (lostThreshold qc) now qc.rstPnum (qc.ctx l).largestAck
        (qc.ctx l).sent) ++ pc)

section Ordered

variable (cf : Conf w) (now : BitVec w) (st : Option (AckStat w)) (qc : Conn w)
  (hord : ∀ l, (qc.ctx l).largestAck ≠ unsetPn → SentOrdered (qc.ctx l).sent)
include hord

/-- On ordered queues `njt_quic_detect_lost` leaves each context with
`largest_ack` set what its scan does not take. -/
theorem detectLost_sent (l : Level) :
    ((detectLost cf now st qc).ctx l).sent =
      if (qc.ctx l).largestAck ≠ unsetPn then
        (qc.ctx l).sent.dropWhile (scanLost now (lostThreshold qc) (qc.ctx l).largestAck)
      else (qc.ctx l).sent := by
  obtain ⟨h1, -, -⟩ := detectLostLevels_scan cf now (lostThreshold qc) levels qc LossStat.init
    (by decide) fun l _ hu => hord l hu
  simpa [mem_levels] using ((detectLost_of_scan cf now st qc).1 l).trans (h1 l)

theorem detectLost_scan : DetectLostScan qc (detectLost cf now st qc) := by
  have hsent := detectLost_sent cf now st qc hord
  refine ⟨fun l => ?_, fun l hu f hf => ?_, fun l f hf hlt => ?_⟩
  · rw [hsent l]; split_ifs
    · exact List.dropWhile_suffix _
    · exact List.suffix_refl _
  · rw [hsent l, if_pos hu] at hf
    exact (hord l hu).dropWhile_scanLost_pktThr f hf
  · rw [hsent l]; split_ifs
    · exact mem_dropWhile_of_not hf (by simp [scanLost]; omega)
    · exact hf

theorem detectLost_spec
    (hr : ∀ l, (qc.ctx l).largestAck ≠ unsetPn →
      ∀ f ∈ (qc.ctx l).sent, TimeInRange (lostThreshold qc) now f) :
    DetectLostSpec cf now st qc (detectLost cf now st qc) := by
  obtain ⟨-, h2, -⟩ := detectLostLevels_scan cf now (lostThreshold qc) levels qc LossStat.init
    (by decide) fun l _ hu => hord l hu
  obtain ⟨pc, hpc, hc⟩ := (detectLost_of_scan cf now st qc).2
  refine ⟨fun l => ?_, pc, hpc, ?_⟩
  · rw [detectLost_sent cf now st qc hord l]; split_ifs with hu
    · exact (hord l hu).dropWhile_eq_filter fun f hf => scanLost_eq_decide (hr l hu f hf)
    · rfl
  · rw [hc, h2, ccRun_append]
    congr 2
    refine List.flatMap_congr fun l _ => ?_
    unfold scanEvents lostEvents
    split_ifs with hu
    · rfl
    · rw [(hord l hu).takeWhile_eq_filter fun f hf => scanLost_eq_decide (hr l hu f hf)]

end Ordered

/-- `njt_quic_detect_lost` terminates and, on ordered queues, takes every
packet `kPacketThreshold` below `largest_ack` and none above it, at any clock
value; when the send times are within half the clock range of `now`, it
removes exactly the packets the loss rule declares lost, whole packets at a
time, charging `njt_quic_congestion_lost` once per lost packet. -/
theorem detectLost_removes_lost (cf : Conf w) (now : BitVec w) (st : Option (AckStat w))
    (qc : Conn w) (hord : ∀ l, (qc.ctx l).largestAck ≠ unsetPn → SentOrdered (qc.ctx l).sent) :
    DetectLostScan qc (detectLost cf now st qc) ∧
      ((∀ l, (qc.ctx l).largestAck ≠ unsetPn →
          ∀ f ∈ (qc.ctx l).sent, TimeInRange (lostThreshold qc) now f) →
        DetectLostSpec cf now st qc (detectLost cf now st qc)) :=
  ⟨detectLost_scan cf now st qc hord, detectLost_spec cf now st qc hord⟩

/-- A connection of a 32-bit build with one packet in flight at the
application level, sent at time 0, and `largest_ack = 1`. -/
def oneOldPacket : Conn 32 :=
  { (default : Conn 32) with
    congestion := ⟨12000, 12000, 1200, 0⟩
    application := { (default : SendCtx 32) with
      sent := [⟨0, 0, 1200, .ping, false⟩], pnum := 2, largestAck := 1 } }

/-- `2^31 + 10` ms after packet 0 was sent, the loss rule holds of it in
integers, but `send_time + thr - now` wraps to a positive `njt_msec_int_t` and
the scan keeps the packet. -/
theorem detectLost_misses_wrapped_loss :
    LossRule (lostThreshold oneOldPacket) (BitVec.ofNat 32 (2 ^ 31 + 10)) 1 ⟨0, 0, 1200, .ping, false⟩ ∧
      ((detectLost (default : Conf 32) (BitVec.ofNat 32 (2 ^ 31 + 10)) none oneOldPacket).ctx
        .application).sent = [⟨0, 0, 1200, .ping, false⟩] := by
  decide

theorem detectLost_removes_lost_oneOldPacket :
    (∀ l, (oneOldPacket.ctx l).largestAck ≠ unsetPn → SentOrdered (oneOldPacket.ctx l).sent) ∧
    (∀ l, (oneOldPacket.ctx l).largestAck ≠ unsetPn →
      ∀ f ∈ (oneOldPacket.ctx l).sent, TimeInRange (lostThreshold oneOldPacket) 100 f) ∧
    DetectLostScan oneOldPacket (detectLost (default : Conf 32) 100 none oneOldPacket) ∧
    DetectLostSpec (default : Conf 32) 100 none oneOldPacket (detectLost (default : Conf 32) 100 none oneOldPacket) :=
  have hord : ∀ l, (oneOldPacket.ctx l).largestAck ≠ unsetPn → SentOrdered (oneOldPacket.ctx l).sent :=
    fun l _ => by cases l <;> decide
  have hrange : ∀ l, (oneOldPacket.ctx l).largestAck ≠ unsetPn →
      ∀ f ∈ (oneOldPacket.ctx l).sent, TimeInRange (lostThreshold oneOldPacket) 100 f :=
    fun l _ => by cases l <;> decide
  ⟨hord, hrange, (detectLost_removes_lost _ _ _ _ hord).1,
    (detectLost_removes_lost _ _ _ _ hord).2 hrange⟩

end NjtQuic
