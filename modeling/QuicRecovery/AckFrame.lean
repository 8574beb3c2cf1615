import QuicRecovery.Loss

/-!
# Handling a received ACK frame: `njt_quic_handle_ack_frame`

The frame's ranges are decoded one after the other, largest first, and each
decoded interval `[min, max]` goes to `njt_quic_handle_ack_frame_range`, which
takes the frames numbered in it off `sent`, charges
`njt_quic_congestion_ack` for each and remembers their send times.  An RTT
sample is taken when the largest acknowledged number is new, and the loss
detector runs last.

The decoding loop is `ackRangesLoop`, written for any handler of the decoded
intervals; `njt_quic_handle_ack_frame` is its instance for
`njt_quic_handle_ack_frame_range`.
-/

namespace NjtQuic

variable {w : Nat}

/-- What a rejected ACK frame leaves in `qc->error`: `FRAME_ENCODING_ERROR`
for a range below zero, or `PROTOCOL_VIOLATION` with `error_ftype` ACK and an
`error_reason`. -/
inductive AckError where
  | frameEncodingError
  | protocolViolation (reason : String)
  deriving DecidableEq, Repr

/-- `njt_quic_rtt_sample`: RFC 9002, 5.3, from the send time of the largest
newly acknowledged frame.  The ACK Delay field is `uint64_t`, shifted and
divided in 64 bits and then stored in an `njt_msec_t`. -/
def rttSample (cf : Conf w) (now : BitVec w) (ack : AckFrame) (sendTime : BitVec w)
    (qc : Conn w) : Conn w :=
  let latestRtt := now - sendTime
  let qc := { qc with latestRtt }
  if qc.minRtt = timerInfinite w then
    { qc with minRtt := latestRtt, avgRtt := latestRtt, rttvar := latestRtt / 2, firstRtt := now }
  else
    let minRtt := msecMin qc.minRtt latestRtt
    let ackDelay : BitVec w :=
      BitVec.ofNat w ((ack.delay <<< cf.peerAckDelayExponent) % 2 ^ 64 / 1000)
    let ackDelay := if qc.handshaked then msecMin ackDelay cf.peerMaxAckDelay else ackDelay
    let adjustedRtt := if minRtt + ackDelay < latestRtt then latestRtt - ackDelay else latestRtt
    let diff := qc.avgRtt - adjustedRtt
    let rttvarSample := if 0 ≤ diff.toInt then diff else -diff
    { qc with
      minRtt
      rttvar := qc.rttvar + ((rttvarSample >>> 2) - (qc.rttvar >>> 2))
      avgRtt := qc.avgRtt + ((adjustedRtt >>> 3) - (qc.avgRtt >>> 3)) }

/-- The bookkeeping of `njt_quic_handle_ack_frame_range` for one acknowledged
frame of level `l`: the congestion controller, the range database for an
acknowledged ACK frame, and `njt_quic_handle_stream_ack` (`streamAck`, not in
src) for STREAM and RESET_STREAM frames. -/
def ackedFrame (streamAck : Frame w → List (Nat × Stream) → List (Nat × Stream))
    (cf : Conf w) (now : BitVec w) (l : Level) (qc : Conn w) (f : Frame w) : Conn w :=
  let (cg, post) := congestionAck cf qc.rstPnum now qc.congestion f
  let qc := { qc with congestion := cg, pushPosted := qc.pushPosted || post }
  match f.kind with
  | .ack a => qc.modifyCtx l (dropAckRanges a.largest)
  | .stream _ | .resetStream _ => { qc with streams := streamAck f qc.streams }
  | _ => qc

/-- Record the send time of an acknowledged frame in the statistics, for a
range whose largest number is `max`. -/
def AckStat.note (st : AckStat w) (max : Nat) (f : Frame w) : AckStat w where
  maxPn := if f.pnum = max then f.sendTime else st.maxPn
  -- save earliest and latest send times of frames ack'ed
  oldest := if st.oldest = timerInfinite w ∨ f.sendTime < st.oldest then f.sendTime else st.oldest
  newest := if st.newest = timerInfinite w ∨ f.sendTime > st.newest then f.sendTime else st.newest

/-- The walk of `njt_quic_handle_ack_frame_range` over `sent`: frames numbered
in `[min, max]` are acknowledged and taken off, and the walk stops at the first
frame numbered above `max`.  Returns the frames that stay, and the connection,
statistics and `found` flag. -/
def ackRangeFrames (streamAck : Frame w → List (Nat × Stream) → List (Nat × Stream))
    (cf : Conf w) (now : BitVec w) (l : Level) (min max : Nat) :
    List (Frame w) → Conn w × AckStat w × Bool → List (Frame w) × Conn w × AckStat w × Bool
  | [], s => ([], s)
  | f :: fs, (qc, st, found) =>
    if f.pnum > max then (f :: fs, qc, st, found)
    else if f.pnum ≥ min then
      ackRangeFrames streamAck cf now l min max fs (ackedFrame streamAck cf now l qc f, st.note max f, true)
    else
      let r := ackRangeFrames streamAck cf now l min max fs (qc, st, found)
      (f :: r.1, r.2)

/-- `njt_quic_handle_ack_frame_range` for the context of level `l`.  The path
MTU hook of the application level (`njt_quic_handle_path_mtu`, not in src)
works on path state this model does not contain and is taken to succeed. -/
def handleAckFrameRange (streamAck : Frame w → List (Nat × Stream) → List (Nat × Stream))
    (cf : Conf w) (now : BitVec w) (l : Level) (min max : Nat) (s : Conn w × AckStat w) :
    Except AckError (Conn w × AckStat w) :=
  let (qc, st) := s
  let r := ackRangeFrames streamAck cf now l min max (qc.ctx l).sent
    (qc, { st with maxPn := timerInfinite w }, false)
  let (kept, qc', st, found) := r
  let qc' := qc'.modifyCtx l fun ctx => { ctx with sent := kept }
  if !found then
    -- duplicate ACK or ACK for non-ack-eliciting frame
    if max < (qc.ctx l).pnum then .ok (qc', st)
    else .error (.protocolViolation "unknown packet number")
  else
    let qc' := if qc'.pushTimer.isNone then { qc' with pushPosted := true } else qc'
    .ok ({ qc' with ptoCount := 0 }, st)

/-- The `for (i = 0; i < ack->range_count; i++)` loop of
`njt_quic_handle_ack_frame`, for a handler `range` of the decoded intervals:
each `(gap, range)` pair is checked against the smallest number so far and
decoded into the next interval below it.  The pairs come already parsed
(`njt_quic_parse_ack_range`, not in src). -/
def ackRangesLoop {σ : Type} (range : Nat → Nat → σ → Except AckError σ) :
    Nat → List AckRange → σ → Except AckError σ
  | _, [], s => .ok s
  | min, r :: rs, s =>
    if r.gap + 2 > min then .error .frameEncodingError
    else
      let max := min - r.gap - 2
      if r.range > max then .error .frameEncodingError
      else
        let min := max - r.range
        match range min max s with
        | .error e => .error e
        | .ok s => ackRangesLoop range min rs s

/-- RFC 9000, 13.2.4 and RFC 9002, 5.1, after the first range: a new largest
acknowledged number goes to `largest_ack`, and gives an RTT sample when a
newly acknowledged frame was numbered `largest`. -/
def ackLargest (cf : Conf w) (now : BitVec w) (l : Level) (ack : AckFrame)
    (s : Conn w × AckStat w) : Conn w × AckStat w :=
  let (qc, st) := s
  let ctx := qc.ctx l
  if ctx.largestAck < ack.largest ∨ ctx.largestAck = unsetPn then
    let qc := qc.modifyCtx l fun ctx => { ctx with largestAck := ack.largest }
    (if st.maxPn ≠ timerInfinite w then rttSample cf now ack st.maxPn qc else qc, st)
  else (qc, st)

/-- `njt_quic_handle_ack_frame` for an ACK frame received at level `l`. -/
def handleAckFrame (streamAck : Frame w → List (Nat × Stream) → List (Nat × Stream))
    (cf : Conf w) (now : BitVec w) (l : Level) (ack : AckFrame) (qc : Conn w) :
    Except AckError (Conn w) :=
  if ack.firstRange > ack.largest then .error .frameEncodingError
  else
    let min := ack.largest - ack.firstRange
    let max := ack.largest
    let st : AckStat w := ⟨timerInfinite w, timerInfinite w, timerInfinite w⟩
    match handleAckFrameRange streamAck cf now l min max (qc, st) with
    | .error e => .error e
    | .ok s =>
      match ackRangesLoop (handleAckFrameRange streamAck cf now l) min ack.ranges
          (ackLargest cf now l ack s) with
      | .error e => .error e
      | .ok (qc, st) => .ok (detectLost cf now (some st) qc)

@[simp] theorem ackLargest_snd (cf : Conf w) (now : BitVec w) (l : Level) (ack : AckFrame)
    (s : Conn w × AckStat w) : (ackLargest cf now l ack s).2 = s.2 := by
  obtain ⟨qc, st⟩ := s
  unfold ackLargest; dsimp only; split_ifs <;> rfl

/-! ## Decoding the ranges -/

/-- RFC 9000, 19.3.1, in integers: below a range whose smallest number is
`smallest`, a `(gap, range)` pair stands for `[largest - range, largest]`,
`largest = smallest - gap - 2`. -/
def rfcRanges (smallest : Int) : List AckRange → List (Int × Int)
  | [] => []
  | r :: rs =>
    let largest := smallest - r.gap - 2
    (largest - r.range, largest) :: rfcRanges (largest - r.range) rs

/-- RFC 9000, 19.3.1: the First ACK Range stands for
`[largest - first_range, largest]`. -/
def AckFrame.firstInterval (ack : AckFrame) : Int × Int :=
  ((ack.largest : Int) - ack.firstRange, ack.largest)

/-- Every interval an ACK frame stands for, largest first. -/
def AckFrame.intervals (ack : AckFrame) : List (Int × Int) :=
  ack.firstInterval :: rfcRanges ack.firstInterval.1 ack.ranges

/-- What RFC 9000, 19.3.1 asks of the decoding loop, in the words of the
spec: hand the decoded ranges to `range` in order, and stop with
FRAME_ENCODING_ERROR at the first one with a negative bound. -/
def processDecoded {σ : Type} (range : Nat → Nat → σ → Except AckError σ) :
    List (Int × Int) → σ → Except AckError σ
  | [], s => .ok s
  | (lo, hi) :: ivs, s =>
    if lo < 0 ∨ hi < 0 then .error .frameEncodingError
    else
      match range lo.toNat hi.toNat s with
      | .error e => .error e
      | .ok s => processDecoded range ivs s

/-- `njt_quic_handle_ack_frame` as the spec describes it: the intervals of the
frame go to `njt_quic_handle_ack_frame_range` in order, the first one followed
by the update of `largest_ack`, and the first with a negative bound stops the
frame with FRAME_ENCODING_ERROR; then the loss detector runs. -/
def handleAckIntervals (streamAck : Frame w → List (Nat × Stream) → List (Nat × Stream))
    (cf : Conf w) (now : BitVec w) (l : Level) (ack : AckFrame) (qc : Conn w) :
    Except AckError (Conn w) :=
  let (lo, hi) := ack.firstInterval
  if lo < 0 ∨ hi < 0 then .error .frameEncodingError
  else
    match handleAckFrameRange streamAck cf now l lo.toNat hi.toNat
        (qc, ⟨timerInfinite w, timerInfinite w, timerInfinite w⟩) with
    | .error e => .error e
    | .ok s =>
      match processDecoded (handleAckFrameRange streamAck cf now l) (rfcRanges lo ack.ranges)
          (ackLargest cf now l ack s) with
      | .error e => .error e
      | .ok (qc, st) => .ok (detectLost cf now (some st) qc)

section Decoding

variable {σ : Type} (range : Nat → Nat → σ → Except AckError σ)

/-- The source's loop is the RFC decoding: it checks `gap + 2 ≤ min` and
`range ≤ max` exactly where the RFC bounds would go negative. -/
theorem ackRangesLoop_eq_processDecoded :
    ∀ (smallest : Nat) (rs : List AckRange) (s : σ),
      ackRangesLoop range smallest rs s = processDecoded range (rfcRanges smallest rs) s
  | _, [], _ => rfl
  | smallest, r :: rs, s => by
    simp only [ackRangesLoop, rfcRanges, processDecoded]
    by_cases h1 : r.gap + 2 > smallest
    · rw [if_pos h1, if_pos (.inr (by omega))]
    rw [if_neg h1]
    by_cases h2 : r.range > smallest - r.gap - 2
    · rw [if_pos h2, if_pos (.inl (by omega))]
    rw [if_neg h2, if_neg (by omega)]
    have hlo : ((smallest : Int) - r.gap - 2 - r.range).toNat = smallest - r.gap - 2 - r.range := by
      omega
    have hhi : ((smallest : Int) - r.gap - 2).toNat = smallest - r.gap - 2 := by omega
    rw [hlo, hhi]
    cases range (smallest - r.gap - 2 - r.range) (smallest - r.gap - 2) s with
    | error e => rfl
    | ok s' =>
      simp only
      rw [ackRangesLoop_eq_processDecoded, show ((smallest : Int) - r.gap - 2 - r.range) =
        ((smallest - r.gap - 2 - r.range : Nat) : Int) by omega]

/-- On intervals with no negative bound, the decoding fails only where
`range` does. -/
theorem processDecoded_error (P : AckError → Prop)
    (hr : ∀ lo hi s e, range lo hi s = .error e → P e) :
    ∀ (ivs : List (Int × Int)) (s : σ) (e : AckError), (∀ iv ∈ ivs, 0 ≤ iv.1 ∧ 0 ≤ iv.2) →
      processDecoded range ivs s = .error e → P e
  | [], _, _, _, h => nomatch h
  | (lo, hi) :: ivs, s, e, hn, h => by
    have h0 := hn _ (.head _)
    simp only [processDecoded] at h
    rw [if_neg (by simp only at h0; omega)] at h
    split at h
    · cases h; exact hr _ _ _ _ ‹_›
    · exact processDecoded_error P hr ivs _ e (fun iv hiv => hn iv (.tail _ hiv)) h

end Decoding

/-- Each decoded range is an interval at least two below `smallest`, and at
least one number below the one before it. -/
theorem rfcRanges_chain : ∀ (smallest top : Int) (rs : List AckRange),
    (∀ iv ∈ rfcRanges smallest rs, iv.1 ≤ iv.2 ∧ iv.2 + 2 ≤ smallest) ∧
      List.Chain (fun a b : Int × Int => b.2 + 2 ≤ a.1) (smallest, top) (rfcRanges smallest rs)
  | _, _, [] => ⟨fun _ h => absurd h (List.not_mem_nil _), .nil⟩
  | smallest, _, r :: rs => by
    obtain ⟨ih1, ih2⟩ := rfcRanges_chain (smallest - r.gap - 2 - r.range) (smallest - r.gap - 2) rs
    refine ⟨fun iv h => ?_, .cons (by simp only; omega) ih2⟩
    rcases List.mem_cons.1 h with rfl | h
    · simp only; omega
    · have := ih1 iv h; omega

/-- The ranges of a database that fit decode to its blocks below block 0. -/
theorem rfcRanges_blocksBelow : ∀ (smallest : Nat) (rs : List AckRange), Fits smallest rs →
    rfcRanges smallest rs = (blocksBelow smallest rs).map fun b => ((b.1 : Int), (b.2 : Int))
  | _, [], _ => rfl
  | smallest, r :: rs, ⟨hr, hf⟩ => by
    rw [rfcRanges, blocksBelow_cons, List.map_cons, show ((smallest : Int) - r.gap - 2 - r.range) =
      ((smallest - r.gap - 2 - r.range : Nat) : Int) by omega, rfcRanges_blocksBelow _ rs hf]
    congr 2; omega

/-- `njt_quic_handle_ack_frame_range` fails only on a packet number never
sent. -/
theorem handleAckFrameRange_error {streamAck : Frame w → List (Nat × Stream) → List (Nat × Stream)}
    {cf : Conf w} {now : BitVec w} {l : Level} {min max : Nat} {s : Conn w × AckStat w}
    {e : AckError} (h : handleAckFrameRange streamAck cf now l min max s = .error e) :
    e = .protocolViolation "unknown packet number" := by
  obtain ⟨qc, st⟩ := s
  unfold handleAckFrameRange at h
  dsimp only at h
  split_ifs at h
  exact (Except.error.inj h).symm

/-- The source's loop over the ranges is the spec's decoding: the first range
is checked and handled the same way, and the rest go through
`ackRangesLoop_eq_processDecoded`. -/
theorem handleAckFrame_eq_handleAckIntervals
    (streamAck : Frame w → List (Nat × Stream) → List (Nat × Stream)) (cf : Conf w)
    (now : BitVec w) (l : Level) (ack : AckFrame) (qc : Conn w) :
    handleAckFrame streamAck cf now l ack qc = handleAckIntervals streamAck cf now l ack qc := by
  unfold handleAckFrame handleAckIntervals AckFrame.firstInterval
  dsimp only
  by_cases h : ack.firstRange > ack.largest
  · rw [if_pos h, if_pos (.inl (by omega))]
  · rw [if_neg h, if_neg (by omega), show ((ack.largest : Int) - ack.firstRange) =
      ((ack.largest - ack.firstRange : Nat) : Int) by omega, Int.toNat_ofNat, Int.toNat_ofNat]
    simp only [ackRangesLoop_eq_processDecoded]

/-- The intervals of an ACK frame lie at or below `largest`, each at least one
number below the one before. -/
theorem AckFrame.intervals_chain (ack : AckFrame) :
    (∀ iv ∈ ack.intervals, iv.1 ≤ iv.2 ∧ iv.2 ≤ ack.largest) ∧
      List.Chain' (fun a b : Int × Int => b.2 + 2 ≤ a.1) ack.intervals := by
  obtain ⟨h1, h2⟩ := rfcRanges_chain ack.firstInterval.1 ack.firstInterval.2 ack.ranges
  refine ⟨fun iv hiv => ?_, h2⟩
  rcases List.mem_cons.1 hiv with rfl | hiv
  · simp only [AckFrame.firstInterval]; omega
  · have := h1 iv hiv; simp only [AckFrame.firstInterval] at this; omega

/-- The ACK frame of a well-formed database stands for its blocks. -/
theorem RangeDb.WF.intervals {m : Nat} {db : RangeDb} (hwf : db.WF m)
    (hne : db.largestRange ≠ unsetPn) (delay : Nat) :
    (AckFrame.mk db.largestRange delay db.firstRange db.ranges).intervals =
      db.blocks.map (fun b => ((b.1 : Int), (b.2 : Int))) := by
  obtain ⟨hle, hfit⟩ := hwf.fits hne
  simp only [AckFrame.intervals, AckFrame.firstInterval, RangeDb.blocks, if_neg hne, List.map_cons]
  rw [show ((db.largestRange : Int) - db.firstRange) = ((db.largestRange - db.firstRange : Nat) : Int)
    by omega, rfcRanges_blocksBelow _ _ hfit]

/-- When no interval of the frame has a negative bound, the spec's reading
fails only where `njt_quic_handle_ack_frame_range` does. -/
theorem handleAckIntervals_error
    {streamAck : Frame w → List (Nat × Stream) → List (Nat × Stream)} {cf : Conf w}
    {now : BitVec w} {l : Level} {ack : AckFrame} {qc : Conn w} {e : AckError}
    (hn : ∀ iv ∈ ack.intervals, 0 ≤ iv.1 ∧ 0 ≤ iv.2)
    (he : handleAckIntervals streamAck cf now l ack qc = .error e) :
    e = .protocolViolation "unknown packet number" := by
  have h0 := hn _ (.head _)
  have ht : ∀ iv ∈ rfcRanges ack.firstInterval.1 ack.ranges, 0 ≤ iv.1 ∧ 0 ≤ iv.2 :=
    fun iv h => hn iv (.tail _ h)
  unfold handleAckIntervals at he
  simp only [AckFrame.firstInterval] at he h0 ht
  rw [if_neg (by omega)] at he
  split at he
  · cases he; exact handleAckFrameRange_error ‹_›
  · split at he
    · cases he
      exact processDecoded_error _ (· = .protocolViolation "unknown packet number")
        (fun _ _ _ _ h => handleAckFrameRange_error h) _ _ _ ht ‹_›
    · cases he

/-- `njt_quic_handle_ack_frame` decodes the ranges of an ACK frame as RFC
9000, 19.3.1 does, stopping with FRAME_ENCODING_ERROR at the first range with
a negative bound; the intervals it hands on lie at or below `largest`, each at
least one number below the one before.  The ACK frame of a well-formed range
database (largest `largest_range`, first range `first_range`, then its
`ranges[]`) stands for exactly the database's blocks and never fails to
decode. -/
theorem handleAckFrame_decodes
    (streamAck : Frame w → List (Nat × Stream) → List (Nat × Stream)) (cf : Conf w)
    (now : BitVec w) (l : Level) (ack : AckFrame) (qc : Conn w) :
    handleAckFrame streamAck cf now l ack qc = handleAckIntervals streamAck cf now l ack qc ∧
    (∀ iv ∈ ack.intervals, iv.1 ≤ iv.2 ∧ iv.2 ≤ ack.largest) ∧
    List.Chain' (fun a b : Int × Int => b.2 + 2 ≤ a.1) ack.intervals ∧
    ∀ (maxRanges : Nat) (db : RangeDb) (delay : Nat), db.WF maxRanges →
      db.largestRange ≠ unsetPn →
      (AckFrame.mk db.largestRange delay db.firstRange db.ranges).intervals =
          db.blocks.map (fun b => ((b.1 : Int), (b.2 : Int))) ∧
        ∀ e, handleAckFrame streamAck cf now l ⟨db.largestRange, delay, db.firstRange, db.ranges⟩ qc =
          .error e → e ≠ .frameEncodingError := by
  refine ⟨handleAckFrame_eq_handleAckIntervals streamAck cf now l ack qc, ack.intervals_chain.1,
    ack.intervals_chain.2, fun maxRanges db delay hwf hne => ⟨hwf.intervals hne delay, fun e he => ?_⟩⟩
  -- the frame's intervals are the database's blocks, which have no negative bound
  have hn : ∀ iv ∈ (AckFrame.mk db.largestRange delay db.firstRange db.ranges).intervals,
      0 ≤ iv.1 ∧ 0 ≤ iv.2 := by
    rw [hwf.intervals hne delay]
    simp only [List.mem_map]
    rintro _ ⟨b, -, rfl⟩
    exact ⟨by omega, by omega⟩
  rw [handleAckFrame_eq_handleAckIntervals] at he
  rw [handleAckIntervals_error hn he]
  decide

/-! ## An accepted frame -/

/-- What `njt_quic_handle_ack_frame` did when it accepts a frame: the first
range went through `njt_quic_handle_ack_frame_range`, `largest_ack` and the
RTT estimate were updated or not, the range loop went through, and the loss
detector ran on the result with the statistics of all ranges. -/
theorem handleAckFrame_ok {streamAck : Frame w → List (Nat × Stream) → List (Nat × Stream)}
    {cf : Conf w} {now : BitVec w} {l : Level} {ack : AckFrame} {qc qc' : Conn w}
    (h : handleAckFrame streamAck cf now l ack qc = .ok qc') :
    ∃ qa sa qb qc₁ st,
      handleAckFrameRange streamAck cf now l (ack.largest - ack.firstRange) ack.largest
        (qc, ⟨timerInfinite w, timerInfinite w, timerInfinite w⟩) = .ok (qa, sa) ∧
      (qb = qa ∨ qb = qa.modifyCtx l (fun ctx => { ctx with largestAck := ack.largest }) ∨
        sa.maxPn ≠ timerInfinite w ∧ qb = rttSample cf now ack sa.maxPn
          (qa.modifyCtx l fun ctx => { ctx with largestAck := ack.largest })) ∧
      ackRangesLoop (handleAckFrameRange streamAck cf now l) (ack.largest - ack.firstRange)
        ack.ranges (qb, sa) = .ok (qc₁, st) ∧
      qc' = detectLost cf now (some st) qc₁ := by
  unfold handleAckFrame at h
  split at h
  · cases h
  dsimp only at h
  split at h
  · cases h
  next s hq =>
    obtain ⟨qa, sa⟩ := s
    split at h
    · cases h
    next qc₁ st hl =>
      cases h
      refine ⟨qa, sa, (ackLargest cf now l ack (qa, sa)).1, qc₁, st, hq, ?_, ?_, rfl⟩
      · unfold ackLargest
        dsimp only
        split_ifs with _ hs
        · exact .inr (.inr ⟨hs, rfl⟩)
        · exact .inr (.inl rfl)
        · exact .inl rfl
      · rwa [show ackLargest cf now l ack (qa, sa) = ((ackLargest cf now l ack (qa, sa)).1, sa) from
          Prod.ext rfl (ackLargest_snd cf now l ack _)] at hl

/-! ## An ACK for a packet never sent -/

/-- A connection that has sent one 1200-byte packet, number 0, at the
application level, and has no acknowledgment for it yet. -/
def sentOnePacket : Conn 64 :=
  { (default : Conn 64) with
    congestion := ⟨12000, BitVec.allOnes 64, 1200, 0⟩
    application := { (default : SendCtx 64) with
      sent := [⟨0, 0, 1200, .ping, false⟩], pnum := 1, largestAck := unsetPn } }

/-- An ACK of `[0, 5]` covers the packet sent and four never sent: it is
accepted, and `largest_ack` becomes 5 although the next packet number is 1. -/
theorem handleAckFrame_accepts_unsent :
    (sentOnePacket.ctx .application).pnum = 1 ∧
      ((handleAckFrame (fun _ s => s) (default : Conf 64) 10 .application ⟨5, 0, 5, []⟩
        sentOnePacket).toOption.map fun qc => (qc.ctx .application).largestAck) = some 5 := by
  decide

/-- Handled a second time, the same ACK frame finds nothing left to remove
and fails with PROTOCOL_VIOLATION, "unknown packet number". -/
theorem handleAckFrame_replay_fails :
    (match handleAckFrame (fun _ s => s) (default : Conf 64) 10 .application ⟨5, 0, 5, []⟩
        sentOnePacket with
      | .ok qc =>
        match handleAckFrame (fun _ s => s) (default : Conf 64) 10 .application ⟨5, 0, 5, []⟩ qc with
        | .error e => decide (e = .protocolViolation "unknown packet number")
        | .ok _ => false
      | .error _ => false) = true := by
  decide

end NjtQuic
