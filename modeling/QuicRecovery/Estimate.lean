import QuicRecovery.Rtt
import QuicRecovery.InFlight
/-!
# The RTT estimate across the handlers

`njt_quic_rtt_sample` is the only writer of `min_rtt`, `avg_rtt` and `rttvar`.
The range walk of `njt_quic_handle_ack_frame_range`, the loss scans of
`njt_quic_detect_lost`, the timers, the PTO probes and the commit of a packet
leave the estimate alone, and `njt_quic_handle_ack_frame` takes at most one
sample, at the send time of a frame the same frame acknowledged.

So the bounds of `QuicRecovery.Rtt` hold of the estimate of the connection
itself: every accepted ACK frame keeps "no estimate yet, or within `M`", with
`M` raised to the age of the frames it may acknowledge, and every run whose
ACK frames acknowledge frames at most `L` ms old ends with an estimate within
`L`.
-/

namespace NjtQuic

variable {w : Nat}

/-- The RTT estimate of a connection, with the handshake flag that decides how
the ACK delay is read: all that `njt_quic_rtt_sample` reads besides the
sample. -/
def Conn.rttEst (qc : Conn w) : BitVec w × BitVec w × BitVec w × Bool :=
  (qc.minRtt, qc.avgRtt, qc.rttvar, qc.handshaked)

@[simp] theorem Conn.rttEst_modifyCtx (qc : Conn w) (l : Level) (f : SendCtx w → SendCtx w) :
    (qc.modifyCtx l f).rttEst = qc.rttEst := by
  simp [Conn.rttEst, Conn.modifyCtx]

/-! ## What leaves the estimate alone -/

section Untouched

variable (cf : Conf w) (now : BitVec w)

theorem ackedFrame_rttEst (streamAck : Frame w → List (Nat × Stream) → List (Nat × Stream))
    (l : Level) (qc : Conn w) (f : Frame w) :
    (ackedFrame streamAck cf now l qc f).rttEst = qc.rttEst := by
  unfold ackedFrame
  repeat' split
  all_goals first | rfl | exact Conn.rttEst_modifyCtx _ _ _

theorem resendFrame_rttEst (l : Level) (qc : Conn w) (f : Frame w) :
    (resendFrame l qc f).rttEst = qc.rttEst := by
  unfold resendFrame queueFrame
  repeat' split
  all_goals first | rfl | exact Conn.rttEst_modifyCtx _ _ _

theorem setLostTimer_rttEst (qc : Conn w) : (setLostTimer cf now qc).rttEst = qc.rttEst := by
  unfold setLostTimer
  dsimp only
  split_ifs <;> rfl

theorem detectLost_rttEst (st : Option (AckStat w)) (qc : Conn w) :
    (detectLost cf now st qc).rttEst = qc.rttEst :=
  detectLost_keeps Conn.rttEst cf now resendFrame_rttEst (fun _ _ _ => rfl)
    (fun q l _ => Conn.rttEst_modifyCtx q l _) (setLostTimer_rttEst cf now) st qc

theorem lostHandler_rttEst (qc : Conn w) : (lostHandler cf now qc).rttEst = qc.rttEst :=
  detectLost_rttEst cf now none qc

theorem frameSendto_rttEst (l : Level) (len : Nat) (kind : FrameKind) (ic : Bool) (qc : Conn w) :
    (frameSendto l now len kind ic qc).rttEst = qc.rttEst := by
  simp only [frameSendto]
  split_ifs
  · exact (Conn.rttEst_modifyCtx _ _ _).trans (Conn.rttEst_modifyCtx _ _ _)
  · exact Conn.rttEst_modifyCtx _ _ _

theorem ptoHandler_rttEst (len : Nat) (qc : Conn w) : (ptoHandler cf now len qc).rttEst = qc.rttEst :=
  (setLostTimer_rttEst cf now _).trans <| ptoProbes_induction (fun q => q.rttEst = qc.rttEst)
    (ptoDue cf now qc) now len
    (fun _ _ _ hq => (frameSendto_rttEst now _ _ _ _ _).trans ((frameSendto_rttEst now _ _ _ _ _).trans hq))
    levels qc rfl

/-- The receiving side leaves the estimate alone. -/
theorem Conn.ReceiverOnly.rttEst {l : Level} {qc qc' : Conn w} (h : qc.ReceiverOnly l qc') :
    qc'.rttEst = qc.rttEst := by
  simp only [Conn.rttEst, h.minRtt, h.avgRtt, h.rttvar, h.handshaked]

theorem commitPacket_rttEst (l : Level) (len : Nat) (k : FrameKind) (ks : List FrameKind)
    (qc : Conn w) : (commitPacket l now len k ks qc).rttEst = qc.rttEst :=
  Conn.rttEst_modifyCtx _ _ _

end Untouched

/-! ## An ACK frame takes at most one sample -/

section Ack

variable (streamAck : Frame w → List (Nat × Stream) → List (Nat × Stream)) (cf : Conf w)
  (now : BitVec w) (l : Level)

/-- The walk over `sent` leaves the estimate alone, and the `max_pn` it notes is
the one it started with or the send time of a frame it went over. -/
theorem ackRangeFrames_rttEst (min max : Nat) :
    ∀ (s : List (Frame w)) (qc : Conn w) (st : AckStat w) (found : Bool),
      (ackRangeFrames streamAck cf now l min max s (qc, st, found)).2.1.rttEst = qc.rttEst ∧
        ((ackRangeFrames streamAck cf now l min max s (qc, st, found)).2.2.1.maxPn = st.maxPn ∨
          ∃ f ∈ s, (ackRangeFrames streamAck cf now l min max s (qc, st, found)).2.2.1.maxPn = f.sendTime)
  | [], _, _, _ => ⟨rfl, .inl rfl⟩
  | f :: fs, qc, st, found => by
    rw [ackRangeFrames]
    split_ifs
    · exact ⟨rfl, .inl rfl⟩
    · obtain ⟨e1, e2⟩ := ackRangeFrames_rttEst min max fs (ackedFrame streamAck cf now l qc f)
        (st.note max f) true
      refine ⟨e1.trans (ackedFrame_rttEst cf now streamAck l qc f), ?_⟩
      rcases e2 with e2 | ⟨g, hg, e2⟩
      · by_cases hf : f.pnum = max
        · exact .inr ⟨f, .head _, by rw [e2]; simp [AckStat.note, hf]⟩
        · exact .inl (by rw [e2]; simp [AckStat.note, hf])
      · exact .inr ⟨g, .tail _ hg, e2⟩
    · obtain ⟨e1, e2⟩ := ackRangeFrames_rttEst min max fs qc st found
      exact ⟨e1, e2.imp_right fun ⟨g, hg, e⟩ => ⟨g, .tail _ hg, e⟩⟩

/-- One range leaves the estimate alone, and its `max_pn` is unset or the send
time of a frame of the queue. -/
theorem handleAckFrameRange_rttEst {min max : Nat} {qc qc' : Conn w} {st st' : AckStat w}
    (h : handleAckFrameRange streamAck cf now l min max (qc, st) = .ok (qc', st')) :
    qc'.rttEst = qc.rttEst ∧
      (st'.maxPn = timerInfinite w ∨ ∃ f ∈ (qc.ctx l).sent, st'.maxPn = f.sendTime) := by
  obtain ⟨e1, e2⟩ := ackRangeFrames_rttEst streamAck cf now l min max (qc.ctx l).sent qc
    { st with maxPn := timerInfinite w } false
  unfold handleAckFrameRange at h
  dsimp only at h
  generalize ackRangeFrames streamAck cf now l min max (qc.ctx l).sent
    (qc, { st with maxPn := timerInfinite w }, false) = r at h e1 e2
  obtain ⟨kept, q1, st1, found⟩ := r
  dsimp only at h e1 e2
  split_ifs at h <;> cases h <;> exact ⟨(Conn.rttEst_modifyCtx _ _ _).trans e1, e2⟩

/-- A sample reads no more of the connection than its estimate. -/
theorem rttSample_rttEst_congr (ack : AckFrame) (t : BitVec w) {qc qc' : Conn w}
    (h : qc'.rttEst = qc.rttEst) :
    (rttSample cf now ack t qc').rttEst = (rttSample cf now ack t qc).rttEst := by
  simp only [Conn.rttEst, Prod.mk.injEq] at h
  obtain ⟨h1, h2, h3, h4⟩ := h
  by_cases h0 : qc.minRtt = timerInfinite w
  · rw [rttSample_of_minRtt_eq cf now ack t qc h0, rttSample_of_minRtt_eq cf now ack t qc' (h1.trans h0)]
    simp only [Conn.rttEst, h4]
  · rw [rttSample_of_minRtt_ne cf now ack t qc h0,
      rttSample_of_minRtt_ne cf now ack t qc' (h1.trans_ne h0)]
    simp only [Conn.rttEst, adjustedRtt, h1, h2, h3, h4]

/-- **An accepted ACK frame takes at most one RTT sample.**  The estimate it
leaves is the one it found, or the one `njt_quic_rtt_sample` makes from it at
the send time of a frame of the queue of level `l`. -/
theorem handleAckFrame_rttEst (ack : AckFrame) {qc qc' : Conn w}
    (h : handleAckFrame streamAck cf now l ack qc = .ok qc') :
    qc'.rttEst = qc.rttEst ∨
      ∃ f ∈ (qc.ctx l).sent, qc'.rttEst = (rttSample cf now ack f.sendTime qc).rttEst := by
  obtain ⟨qa, sa, qb, qc₁, st, h1, hb, hl, rfl⟩ := handleAckFrame_ok h
  obtain ⟨ea, hmax⟩ := handleAckFrameRange_rttEst streamAck cf now l h1
  -- the other ranges and the loss detector leave the estimate alone
  have e : (detectLost cf now (some st) qc₁).rttEst = qb.rttEst :=
    (detectLost_rttEst cf now _ qc₁).trans <| ackRangesLoop_inv (fun s => s.1.rttEst = qb.rttEst) _
      (fun _ _ _ _ hs hp => (handleAckFrameRange_rttEst streamAck cf now l hs).1.trans hp)
      _ _ _ _ hl rfl
  have ea' := (Conn.rttEst_modifyCtx qa l fun ctx => { ctx with largestAck := ack.largest }).trans ea
  rcases hb with rfl | rfl | ⟨hne, rfl⟩
  · exact .inl (e.trans ea)
  · exact .inl (e.trans ea')
  · obtain ⟨f, hf, hft⟩ := hmax.resolve_left hne
    exact .inr ⟨f, hf, e.trans (hft ▸ rttSample_rttEst_congr cf now ack _ ea')⟩

end Ack

/-! ## The bounds the estimate keeps -/

/-- What the estimate of a connection keeps: no sample yet (`min_rtt` still
`NJT_TIMER_INFINITE`), or the bounds `RttBounds` within `M`. -/
def RttInv (M : Nat) (qc : Conn w) : Prop :=
  qc.minRtt = timerInfinite w ∨ RttBounds M qc

theorem RttBounds.mono {M M' : Nat} {qc : Conn w} (hb : RttBounds M qc) (h : M ≤ M') :
    RttBounds M' qc :=
  ⟨hb.1, hb.2.trans h, hb.3.trans h⟩

theorem RttInv.mono {M M' : Nat} {qc : Conn w} (hi : RttInv M qc) (h : M ≤ M') : RttInv M' qc :=
  hi.imp_right (·.mono h)

theorem RttInv.of_rttEst {M : Nat} {qc qc' : Conn w} (hi : RttInv M qc)
    (e : qc'.rttEst = qc.rttEst) : RttInv M qc' := by
  simp only [Conn.rttEst, Prod.mk.injEq] at e
  obtain ⟨h1, h2, h3, -⟩ := e
  unfold RttInv
  rw [h1]
  refine hi.imp_right fun hb => ⟨?_, ?_, ?_⟩
  · rw [h1, h2]; exact hb.1
  · rw [h2]; exact hb.2
  · rw [h3]; exact hb.3

/-- **An accepted ACK frame keeps the estimate bounded.**  From an estimate
with no sample or within `M`, an ACK frame that may only acknowledge frames at
most `L` ms old and reads an ACK delay of at most half the clock leaves an
estimate with no sample or within the larger of `M` and `L`. -/
theorem handleAckFrame_rttInv (hw : 0 < w) {M L : Nat}
    {streamAck : Frame w → List (Nat × Stream) → List (Nat × Stream)} {cf : Conf w}
    {now : BitVec w} {l : Level} {ack : AckFrame} {qc qc' : Conn w}
    (hM : M < 2 ^ (w - 1)) (hL : L < 2 ^ (w - 1))
    (hage : ∀ f ∈ (qc.ctx l).sent, (now - f.sendTime).toNat ≤ L)
    (hdelay : (ackDelayOf cf ack qc.handshaked).toNat ≤ 2 ^ (w - 1))
    (hi : RttInv M qc) (h : handleAckFrame streamAck cf now l ack qc = .ok qc') :
    RttInv (max M L) qc' := by
  rcases handleAckFrame_rttEst streamAck cf now l ack h with e | ⟨f, hf, e⟩
  · exact (hi.mono (le_max_left M L)).of_rttEst e
  refine RttInv.of_rttEst (.inr ?_) e
  have hLf := hage f hf
  rcases hi with h0 | hb
  · exact (rttSample_first cf now ack f.sendTime qc h0).mono (by omega)
  · have hm := toNat_msecMin qc.minRtt (now - f.sendTime)
    exact (rttSample_bounds cf now ack f.sendTime qc hw hb hM (by omega)
      (by rw [two_pow_eq_two_mul hw]; omega)).mono (max_le_max le_rfl hLf)

/-! ## Runs whose samples fit -/

/-- The runs of `Conn.Reachable` from a connection with no RTT sample yet in
which every accepted ACK frame may only acknowledge frames sent at most `L` ms
before it is handled, and reads an ACK delay of at most half the clock. -/
inductive Conn.FitRun (cf : Conf w) (L : Nat) : Conn w → Prop where
  | fresh {qc : Conn w} : qc.Fresh cf → Conn.FitRun cf L qc
  | commit {qc : Conn w} (l : Level) (now : BitVec w) (len : Nat) (k : FrameKind)
      (ks : List FrameKind) : Conn.FitRun cf L qc → qc.rstPnum ≤ (qc.ctx l).pnum →
      Conn.FitRun cf L (commitPacket l now len k ks qc)
  | ack {qc qc' : Conn w} (streamAck : Frame w → List (Nat × Stream) → List (Nat × Stream))
      (now : BitVec w) (l : Level) (ack : AckFrame) : Conn.FitRun cf L qc →
      (∀ f ∈ (qc.ctx l).sent, (now - f.sendTime).toNat ≤ L) →
      (ackDelayOf cf ack qc.handshaked).toNat ≤ 2 ^ (w - 1) →
      handleAckFrame streamAck cf now l ack qc = .ok qc' → Conn.FitRun cf L qc'
  | lost {qc : Conn w} (now : BitVec w) : Conn.FitRun cf L qc →
      Conn.FitRun cf L (lostHandler cf now qc)
  | pto {qc : Conn w} (now : BitVec w) (probeLen : Nat) : Conn.FitRun cf L qc →
      Conn.FitRun cf L (ptoHandler cf now probeLen qc)
  | recv {qc : Conn w} (keys : Bool) (now : BitVec w) (pkt : Header w) : Conn.FitRun cf L qc →
      Conn.FitRun cf L (ackPacket cf keys now pkt qc)
  | generate {qc : Conn w} (now : BitVec w) (l : Level) : Conn.FitRun cf L qc →
      Conn.FitRun cf L (generateAck cf now l qc)

end NjtQuic
