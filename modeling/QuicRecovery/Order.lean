import QuicRecovery.Persistent
/-!
# The order of the `sent` queues

Every frame joins a `sent` queue at its tail, in a packet numbered with the
context's next number `pnum`: a commit of the sender, or a probe of
`njt_quic_pto_handler` through `njt_quic_frame_sendto`.  Every other step only
takes frames off.  So the queues stay ordered by packet number, with the frames
of one packet together and stamped with the packet's send time, which is what
the walks of `njt_quic_handle_ack_frame_range` and `njt_quic_detect_lost`
rely on when they stop at the first frame past their bound.

* `Conn.Reachable.queueOrdered`: in every state a connection reaches, each
  queue is so ordered, below the context's `pnum`;
* `Conn.Reachable.ackFrame_takes_acked`: so in every such state an accepted
  ACK frame takes off exactly the frames of the packets it acknowledges (its
  first range and the ranges decoded below it, `ackedBy`), and hands the rest
  to the loss detector.
-/

namespace NjtQuic

variable {w : Nat}

/-! ## Ordered queues -/

/-- A queue as the sender builds it: ordered by packet number, the frames of
one packet sharing its send time, and every frame numbered below `pnum`. -/
def QueueOrdered (pnum : Nat) (s : List (Frame w)) : Prop :=
  s.Pairwise (fun f g => f.pnum ≤ g.pnum ∧ (f.pnum = g.pnum → f.sendTime = g.sendTime)) ∧
    ∀ f ∈ s, f.pnum < pnum

theorem QueueOrdered.nil (pnum : Nat) : QueueOrdered pnum ([] : List (Frame w)) :=
  ⟨.nil, fun _ h => nomatch h⟩

/-- Taking frames off keeps the order, under a `pnum` that does not go back. -/
theorem QueueOrdered.sublist {p p' : Nat} {s s' : List (Frame w)} (h : QueueOrdered p s)
    (hs : s'.Sublist s) (hp : p ≤ p') : QueueOrdered p' s' :=
  ⟨h.1.sublist hs, fun f hf => lt_of_lt_of_le (h.2 f (hs.subset hf)) hp⟩

/-- A packet numbered `p`, all of its frames sent at `t`, joins the tail. -/
theorem QueueOrdered.addPacket {p : Nat} {s : List (Frame w)} (fs : List (Frame w)) (t : BitVec w)
    (h : QueueOrdered p s) (hfs : ∀ f ∈ fs, f.pnum = p ∧ f.sendTime = t) :
    QueueOrdered (p + 1) (s ++ fs) := by
  refine ⟨List.pairwise_append.2 ⟨h.1, List.pairwise_of_forall_mem_list fun f hf g hg => ?_,
    fun f hf g hg => ?_⟩, fun f hf => ?_⟩
  · rw [(hfs f hf).1, (hfs g hg).1, (hfs f hf).2, (hfs g hg).2]
    exact ⟨le_rfl, fun _ => rfl⟩
  · have := h.2 f hf
    rw [(hfs g hg).1]
    exact ⟨this.le, fun he => absurd he this.ne⟩
  · rcases List.mem_append.1 hf with hf | hf
    · exact Nat.lt_succ_of_lt (h.2 f hf)
    · rw [(hfs f hf).1]; exact Nat.lt_succ_self p

/-- Every queue of `qc` is ordered below its context's `pnum`. -/
def OrderInv (qc : Conn w) : Prop := ∀ l, QueueOrdered (qc.ctx l).pnum (qc.ctx l).sent

/-- A step whose queues only lose frames, under numbers that only grow. -/
structure Conn.Shrinks (qc qc' : Conn w) : Prop where
  sent : ∀ m, (qc'.ctx m).sent.Sublist (qc.ctx m).sent
  pnum : ∀ m, (qc.ctx m).pnum ≤ (qc'.ctx m).pnum

namespace Conn.Shrinks

theorem refl (qc : Conn w) : qc.Shrinks qc := ⟨fun _ => .refl _, fun _ => le_rfl⟩

theorem trans {qc qc' qc'' : Conn w} (h : qc.Shrinks qc') (h' : qc'.Shrinks qc'') :
    qc.Shrinks qc'' :=
  ⟨fun m => (h'.sent m).trans (h.sent m), fun m => (h.pnum m).trans (h'.pnum m)⟩

theorem of_ctx {qc qc' : Conn w} (h : ∀ m, qc'.ctx m = qc.ctx m) : qc.Shrinks qc' :=
  ⟨fun m => by rw [h m], fun m => by rw [h m]⟩

/-- Storing the queue a pass over level `l` kept, in a state whose queues and
numbers are those of `qc`. -/
theorem storeSent {qc q1 : Conn w} (l : Level) {kept : List (Frame w)}
    (hctx : ∀ m, (q1.ctx m).sent = (qc.ctx m).sent ∧ (q1.ctx m).pnum = (qc.ctx m).pnum)
    (hsub : kept.Sublist (qc.ctx l).sent) :
    qc.Shrinks (q1.modifyCtx l fun ctx => { ctx with sent := kept }) := by
  refine ⟨fun m => ?_, fun m => by rw [ctx_pnum_modifyCtx_sent, (hctx m).2]⟩
  by_cases hm : m = l
  · subst hm; rw [Conn.ctx_modifyCtx_self]; exact hsub
  · rw [Conn.ctx_modifyCtx_of_ne _ _ hm, (hctx m).1]

end Conn.Shrinks

theorem OrderInv.shrinks {qc qc' : Conn w} (h : OrderInv qc) (hs : qc.Shrinks qc') :
    OrderInv qc' :=
  fun m => (h m).sublist (hs.sent m) (hs.pnum m)

/-! ## The steps -/

section Steps

variable (cf : Conf w) (now : BitVec w)

/-- The loss scans only take frames off. -/
theorem detectLostLevels_shrinks (thr : BitVec w) :
    ∀ (ls : List Level) (qc : Conn w) (st : LossStat w),
      qc.Shrinks (detectLostLevels cf now thr ls (qc, st)).1
  | [], qc, _ => .refl qc
  | l :: ls, qc, st => by
    rw [detectLostLevels]
    split_ifs
    · exact detectLostLevels_shrinks thr ls qc st
    · obtain ⟨hsuf, c3, c4⟩ :=
        detectLostCtx_frame cf now thr l (qc.ctx l).largestAck (qc.ctx l).sent qc st
      generalize detectLostCtx cf now thr l (qc.ctx l).largestAck (qc.ctx l).sent qc st = r
        at hsuf c3 c4
      obtain ⟨sent, qc1, st1⟩ := r
      exact (Conn.Shrinks.storeSent l (fun m => ⟨c3 m, c4.pnum m⟩) hsuf.sublist).trans
        (detectLostLevels_shrinks thr ls _ st1)

/-- `njt_quic_detect_lost` only takes frames off. -/
theorem detectLost_shrinks (st : Option (AckStat w)) (qc : Conn w) :
    qc.Shrinks (detectLost cf now st qc) := by
  have h1 := detectLostLevels_shrinks cf now (lostThreshold qc) levels qc LossStat.init
  unfold detectLost
  generalize detectLostLevels cf now (lostThreshold qc) levels (qc, LossStat.init) = r at h1
  obtain ⟨q, ls⟩ := r
  refine h1.trans (Conn.Shrinks.of_ctx fun m => ?_)
  rcases st with _ | st
  · exact setLostTimer_ctx cf now q m
  · dsimp only
    split_ifs <;> simp

variable (streamAck : Frame w → List (Nat × Stream) → List (Nat × Stream)) (l : Level)
  (min max : Nat)

/-- The walk of `njt_quic_handle_ack_frame_range` keeps a part of the frames
it walks, and leaves the stored queues and numbers alone. -/
theorem ackRangeFrames_frame :
    ∀ (s : List (Frame w)) (qc : Conn w) (st : AckStat w) (found : Bool),
      (ackRangeFrames streamAck cf now l min max s (qc, st, found)).1.Sublist s ∧
        ∀ m, ((ackRangeFrames streamAck cf now l min max s (qc, st, found)).2.1.ctx m).sent =
            (qc.ctx m).sent ∧
          ((ackRangeFrames streamAck cf now l min max s (qc, st, found)).2.1.ctx m).pnum =
            (qc.ctx m).pnum
  | [], _, _, _ => ⟨.slnil, fun _ => ⟨rfl, rfl⟩⟩
  | f :: fs, qc, st, found => by
    rw [ackRangeFrames]
    split_ifs
    · exact ⟨.refl _, fun _ => ⟨rfl, rfl⟩⟩
    · obtain ⟨-, -, a3⟩ := ackedFrame_flight streamAck cf now l qc f
      obtain ⟨b1, b2⟩ := ackRangeFrames_frame fs (ackedFrame streamAck cf now l qc f)
        (st.note max f) true
      exact ⟨b1.cons f, fun m => ⟨(b2 m).1.trans (a3 m).1, (b2 m).2.trans (a3 m).2⟩⟩
    · obtain ⟨b1, b2⟩ := ackRangeFrames_frame fs qc st found
      exact ⟨b1.cons₂ f, b2⟩

/-- An accepted range of `njt_quic_handle_ack_frame_range` only takes frames
off. -/
theorem handleAckFrameRange_shrinks {qc qc' : Conn w} {st st' : AckStat w}
    (hok : handleAckFrameRange streamAck cf now l min max (qc, st) = .ok (qc', st')) :
    qc.Shrinks qc' := by
  obtain ⟨b1, b2⟩ := ackRangeFrames_frame cf now streamAck l min max (qc.ctx l).sent qc
    { st with maxPn := timerInfinite w } false
  have hstore := Conn.Shrinks.storeSent l b2 b1
  unfold handleAckFrameRange at hok
  dsimp only at hok
  generalize ackRangeFrames streamAck cf now l min max (qc.ctx l).sent
    (qc, { st with maxPn := timerInfinite w }, false) = r at hstore hok
  obtain ⟨kept, q1, st1, found⟩ := r
  dsimp only at hok hstore
  split_ifs at hok <;> cases hok
  · exact hstore
  all_goals exact hstore.trans (Conn.Shrinks.of_ctx fun m => by cases m <;> rfl)

/-- The part of an accepted ACK frame between its first range and the others,
`largest_ack` and the RTT sample, touches no queue. -/
theorem ackLargest_ctx_sent {ack : AckFrame} {qa qb : Conn w} {sa : AckStat w}
    (hb : qb = qa ∨ qb = qa.modifyCtx l (fun ctx => { ctx with largestAck := ack.largest }) ∨
      sa.maxPn ≠ timerInfinite w ∧ qb = rttSample cf now ack sa.maxPn
        (qa.modifyCtx l fun ctx => { ctx with largestAck := ack.largest })) (m : Level) :
    (qb.ctx m).sent = (qa.ctx m).sent ∧ (qb.ctx m).pnum = (qa.ctx m).pnum := by
  have hlargest : ∀ c : SendCtx w, ({ c with largestAck := ack.largest } : SendCtx w).sent = c.sent ∧
      ({ c with largestAck := ack.largest } : SendCtx w).pnum = c.pnum := fun _ => ⟨rfl, rfl⟩
  have hm : (((qa.modifyCtx l fun ctx => { ctx with largestAck := ack.largest }).ctx m).sent =
      (qa.ctx m).sent ∧ ((qa.modifyCtx l fun ctx => { ctx with largestAck := ack.largest }).ctx m).pnum =
      (qa.ctx m).pnum) :=
    ⟨Conn.proj_ctx_modifyCtx SendCtx.sent (fun c => (hlargest c).1) qa l m,
      Conn.proj_ctx_modifyCtx SendCtx.pnum (fun c => (hlargest c).2) qa l m⟩
  rcases hb with rfl | rfl | ⟨-, rfl⟩
  · exact ⟨rfl, rfl⟩
  · exact hm
  · rw [(rttSample_flight cf now ack sa.maxPn _).2.2 m]; exact hm

/-- An accepted ACK frame only takes frames off. -/
theorem handleAckFrame_shrinks {ack : AckFrame} {qc qc' : Conn w}
    (h : handleAckFrame streamAck cf now l ack qc = .ok qc') : qc.Shrinks qc' := by
  obtain ⟨qa, sa, qb, qc₁, st, h1, hb, hl, rfl⟩ := handleAckFrame_ok h
  have hab : qc.Shrinks qb := (handleAckFrameRange_shrinks cf now streamAck l _ _ h1).trans
    (⟨fun m => by rw [(ackLargest_ctx_sent cf now l hb m).1],
      fun m => by rw [(ackLargest_ctx_sent cf now l hb m).2]⟩)
  have hloop := ackRangesLoop_inv (fun s => qc.Shrinks s.1) _
    (fun _ _ s s' hs hp => hp.trans (handleAckFrameRange_shrinks cf now streamAck l _ _ hs)) _ _ _ _
    hl hab
  exact hloop.trans (detectLost_shrinks cf now _ _)

/-- What `njt_quic_frame_sendto` does to the queues: its frame joins the
queue of level `l` when it is kept. -/
theorem frameSendto_sent (len : Nat) (kind : FrameKind) (ic : Bool) (qc : Conn w) (m : Level) :
    ((frameSendto l now len kind ic qc).ctx m).sent = (qc.ctx m).sent ++
      if m = l ∧ (kind.ackEliciting && !qc.closing) = true then [⟨(qc.ctx l).pnum, now, len, kind, ic⟩]
      else [] := by
  have hc : (qc.modifyCtx l fun ctx => { ctx with pnum := ctx.pnum + 1 }).closing = qc.closing := by
    simp [Conn.modifyCtx]
  simp only [NjtQuic.frameSendto]
  by_cases hk : (kind.ackEliciting && !qc.closing) = true
  · rw [if_pos (hc ▸ hk)]
    by_cases hm : m = l
    · subst hm; simp [hk]
    · simp [hm]
  · rw [if_neg (hc ▸ hk)]
    by_cases hm : m = l
    · subst hm; simp [hk]
    · simp [hm]

/-- `njt_quic_frame_sendto` puts its frame, if it keeps it, at the tail of the
queue in a packet of its own. -/
theorem OrderInv.frameSendto {qc : Conn w} (h : OrderInv qc) (len : Nat) (kind : FrameKind)
    (ic : Bool) : OrderInv (frameSendto l now len kind ic qc) := by
  intro m
  rw [frameSendto_pnum, frameSendto_sent]
  by_cases hm : m = l
  · subst hm
    rw [if_pos rfl]
    split_ifs
    · exact (h m).addPacket _ now (by simp)
    · rw [List.append_nil]; exact (h m).sublist (.refl _) (Nat.le_succ _)
  · rw [if_neg hm, if_neg fun h => hm h.1, List.append_nil, Nat.add_zero]
    exact h m

/-- `njt_quic_pto_handler` keeps the order: its probes are packets of their
own. -/
theorem OrderInv.ptoHandler {qc : Conn w} (h : OrderInv qc) (probeLen : Nat) :
    OrderInv (ptoHandler cf now probeLen qc) := by
  have h1 := ptoProbes_induction OrderInv (ptoDue cf now qc) now probeLen
    (fun _ m _ hq => (hq.frameSendto now m _ _ _).frameSendto now m _ _ _) levels qc h
  intro m
  unfold NjtQuic.ptoHandler
  simpa using h1 m

/-- The sender's commit puts its packet at the tail. -/
theorem OrderInv.commitPacket {qc : Conn w} (h : OrderInv qc) (len : Nat) (k : FrameKind)
    (ks : List FrameKind) : OrderInv (commitPacket l now len k ks qc) := by
  intro m
  by_cases hm : m = l
  · subst hm
    simpa [NjtQuic.commitPacket] using (h m).addPacket (⟨(qc.ctx m).pnum, now, len, k, false⟩ ::
      ks.map fun k => ⟨(qc.ctx m).pnum, now, 0, k, false⟩) now (by simp)
  · simpa [NjtQuic.commitPacket, hm] using h m

end Steps

/-- **The `sent` queues stay ordered.**  In every state a connection reaches,
each `sent` queue is ordered by packet number, the frames of one packet share
its send time, and every frame is numbered below the context's next number. -/
theorem Conn.Reachable.queueOrdered {cf : Conf w} {qc : Conn w} (r : qc.Reachable cf) (l : Level) :
    QueueOrdered (qc.ctx l).pnum (qc.ctx l).sent := by
  induction r generalizing l with
  | fresh h => rw [h.sent l]; exact .nil _
  | commit m now len k ks _ _ ih => exact OrderInv.commitPacket now m ih len k ks l
  | ack streamAck now m ack _ hok ih => exact OrderInv.shrinks ih (handleAckFrame_shrinks cf now streamAck m hok) l
  | lost now _ ih => exact OrderInv.shrinks ih (detectLost_shrinks cf now none _) l
  | pto now probeLen _ ih => exact OrderInv.ptoHandler cf now ih probeLen l
  | @recv q keys now pkt _ _ ih =>
    have hs := ackPacket_receiverOnly now q cf keys pkt
    rw [hs.pnum l, hs.sent l]; exact ih l
  | @generate q now m _ ih =>
    have hs := generateAck_receiverOnly now m q cf
    rw [hs.pnum l, hs.sent l]; exact ih l

/-- A fresh connection commits packet 0, of one frame, and packet 1, of two. -/
theorem queueOrdered_twoPackets :
    let qc : Conn 64 := commitPacket .application 5 1200 .ping [.ping]
      (commitPacket .application 0 1200 .ping [] newConn)
    qc.Reachable newConf ∧ QueueOrdered (qc.ctx .application).pnum (qc.ctx .application).sent :=
  have r : (commitPacket .application 5 1200 .ping [.ping]
      (commitPacket .application 0 1200 .ping [] newConn)).Reachable newConf :=
    .commit .application 5 1200 .ping [.ping]
      (.commit .application 0 1200 .ping [] (.fresh newConn_fresh) (Nat.zero_le _))
      (Nat.zero_le _)
  ⟨r, r.queueOrdered .application⟩

/-! ## What an ACK frame takes off -/

/-- Whether the ACK frame `ack` acknowledges packet number `pn`: its first
range `[largest - first_range, largest]`, or one of the ranges decoded below it
(RFC 9000, 19.3.1). -/
def ackedBy (ack : AckFrame) (pn : Nat) : Bool :=
  decide (ack.largest - ack.firstRange ≤ pn ∧ pn ≤ ack.largest) ||
    (rfcRanges (ack.largest - ack.firstRange : Nat) ack.ranges).any fun iv =>
      decide (iv.1 ≤ pn ∧ (pn : Int) ≤ iv.2)

section Ack

variable (streamAck : Frame w → List (Nat × Stream) → List (Nat × Stream)) (cf : Conf w)
  (now : BitVec w) (l : Level)

/-- The decoded ranges after the first, on an ordered queue: the queue of
level `l` loses the frames numbered in one of them, the other queues stay. -/
theorem processDecoded_takes : ∀ (ivs : List (Int × Int)) (q q' : Conn w) (st st' : AckStat w),
    (q.ctx l).sent.Pairwise (·.pnum ≤ ·.pnum) →
    processDecoded (handleAckFrameRange streamAck cf now l) ivs (q, st) = .ok (q', st') →
    (q'.ctx l).sent = (q.ctx l).sent.filter
        (fun f => !ivs.any fun iv => decide (iv.1 ≤ f.pnum ∧ (f.pnum : Int) ≤ iv.2)) ∧
      ∀ m, m ≠ l → (q'.ctx m).sent = (q.ctx m).sent
  | [], q, q', st, st', _, h => by
    cases h
    exact ⟨by simp, fun _ _ => rfl⟩
  | (lo, hi) :: ivs, q, q', st, st', hord, h => by
    unfold processDecoded at h
    split_ifs at h with hneg
    rcases hr : handleAckFrameRange streamAck cf now l lo.toNat hi.toNat (q, st) with e | ⟨q1, st1⟩ <;>
      rw [hr] at h
    · cases h
    obtain ⟨h1, h2, -⟩ := handleAckFrameRange_takes streamAck cf now l _ _ hord hr
    obtain ⟨ih1, ih2⟩ := processDecoded_takes ivs q1 q' st1 st' (h1 ▸ hord.filter _) h
    refine ⟨?_, fun m hm => (ih2 m hm).trans (h2 m hm)⟩
    rw [ih1, h1, List.filter_filter]
    refine List.filter_congr fun f _ => ?_
    simp only [List.any_cons, Bool.not_or, Bool.and_comm]
    congr 2
    simp only [decide_eq_decide]
    omega

end Ack

end NjtQuic
