import QuicRecovery.AckFrame

/-!
# One ACK range: `njt_quic_handle_ack_frame_range`

On a `sent` queue ordered by packet number, the walk of
`njt_quic_handle_ack_frame_range` is a filter (`ackRangeFrames_eq`).  It
takes off exactly the frames numbered in `[min, max]`, because the early exit
at the first frame above `max` loses none.  It acknowledges them in queue
order, and it folds their send times into the statistics.
`handleAckFrameRange_removes_range` reads off from this what the function
returns.

The statistics use `NJT_TIMER_INFINITE` both for "unset" and as a clock value.
A frame sent at that instant and followed by another acknowledged frame drops
out of `newest` (`handleAckFrameRange_misses_infinite_sendTime`).
-/

namespace NjtQuic

variable {w : Nat}

/-! ## The walk is a filter -/

section Walk

variable (streamAck : Frame w → List (Nat × Stream) → List (Nat × Stream))
  (cf : Conf w) (now : BitVec w) (l : Level) (min max : Nat)

/-- On a queue ordered by packet number the walk of
`njt_quic_handle_ack_frame_range` keeps the frames outside `[min, max]` in
their order, acknowledges those inside it one after the other, notes their
send times, and raises `found` when there is one. -/
theorem ackRangeFrames_eq :
    ∀ (s : List (Frame w)) (qc : Conn w) (st : AckStat w) (found : Bool),
      s.Pairwise (·.pnum ≤ ·.pnum) →
      ackRangeFrames streamAck cf now l min max s (qc, st, found) =
        (s.filter (fun f => !decide (min ≤ f.pnum ∧ f.pnum ≤ max)),
          (s.filter fun f => decide (min ≤ f.pnum ∧ f.pnum ≤ max)).foldl
            (ackedFrame streamAck cf now l) qc,
          (s.filter fun f => decide (min ≤ f.pnum ∧ f.pnum ≤ max)).foldl
            (fun st f => st.note max f) st,
          found || !(s.filter fun f => decide (min ≤ f.pnum ∧ f.pnum ≤ max)).isEmpty)
  | [], _, _, _, _ => by simp [ackRangeFrames]
  | f :: fs, qc, st, found, hord => by
    obtain ⟨hrel, hfs⟩ := List.pairwise_cons.1 hord
    rw [ackRangeFrames]
    by_cases hgt : f.pnum > max
    · -- the early exit: every later frame is numbered above `max` too
      have hout : ∀ g ∈ f :: fs, ¬ (min ≤ g.pnum ∧ g.pnum ≤ max) := fun g hg => by
        rcases List.mem_cons.1 hg with rfl | hg
        · omega
        · have := hrel g hg; omega
      rw [if_pos hgt, List.filter_eq_self.2 fun g hg => by
          simpa only [Bool.not_eq_true', decide_eq_false_iff_not] using hout g hg,
        List.filter_eq_nil_iff.2 fun g hg => by simpa only [decide_eq_true_eq] using hout g hg]
      simp
    rw [if_neg hgt]
    by_cases hmin : f.pnum ≥ min
    · rw [if_pos hmin, ackRangeFrames_eq fs _ _ _ hfs,
        List.filter_cons_of_neg (by simp only [not_not, decide_eq_true_eq, Bool.not_eq_true',
          decide_eq_false_iff_not]; omega),
        List.filter_cons_of_pos (by simp only [decide_eq_true_eq]; omega)]
      simp
    · rw [if_neg hmin, ackRangeFrames_eq fs _ _ _ hfs,
        List.filter_cons_of_pos (by simp only [Bool.not_eq_true', decide_eq_false_iff_not]; omega),
        List.filter_cons_of_neg (by simp only [decide_eq_true_eq]; omega)]

/-- Acknowledging a frame charges `njt_quic_congestion_ack` for it and keeps
`rst_pnum`. -/
theorem ackedFrame_congestion (qc : Conn w) (f : Frame w) :
    (ackedFrame streamAck cf now l qc f).congestion =
        (congestionAck cf qc.rstPnum now qc.congestion f).1 ∧
      (ackedFrame streamAck cf now l qc f).rstPnum = qc.rstPnum := by
  unfold ackedFrame
  generalize congestionAck cf qc.rstPnum now qc.congestion f = r
  obtain ⟨cg, post⟩ := r
  dsimp only
  split <;> simp [Conn.modifyCtx]

/-- Acknowledging frames one after the other charges
`njt_quic_congestion_ack` once for each, in order. -/
theorem foldl_ackedFrame_congestion : ∀ (fs : List (Frame w)) (qc : Conn w),
    (fs.foldl (ackedFrame streamAck cf now l) qc).congestion =
      fs.foldl (fun cg f => (congestionAck cf qc.rstPnum now cg f).1) qc.congestion
  | [], _ => rfl
  | f :: fs, qc => by
    obtain ⟨h1, h2⟩ := ackedFrame_congestion streamAck cf now l qc f
    rw [List.foldl_cons, foldl_ackedFrame_congestion fs, h1, h2, List.foldl_cons]

end Walk

/-! ## The statistics -/

section Stat

variable (max : Nat)

/-- `max_pn` ends as the send time of the last frame numbered `max`. -/
theorem foldl_note_maxPn : ∀ (fs : List (Frame w)) (st : AckStat w),
    (fs.foldl (fun st f => st.note max f) st).maxPn =
      (((fs.filter fun f => decide (f.pnum = max)).getLast?).map (·.sendTime)).getD st.maxPn
  | [], _ => rfl
  | f :: fs, st => by
    rw [List.foldl_cons, foldl_note_maxPn fs]
    by_cases h : f.pnum = max
    · rw [List.filter_cons_of_pos (by simpa using h), List.getLast?_cons]
      cases (fs.filter fun f => decide (f.pnum = max)).getLast? <;> simp [AckStat.note, h]
    · rw [List.filter_cons_of_neg (by simpa using h)]
      simp [AckStat.note, h]

/-- One noted send time: `oldest` only goes down, to at most that time. -/
theorem note_oldest (st : AckStat w) (f : Frame w) :
    (st.note max f).oldest ≤ st.oldest ∧ (st.note max f).oldest ≤ f.sendTime := by
  have := f.sendTime.isLt; have := st.oldest.isLt
  simp only [AckStat.note, BitVec.le_def, BitVec.lt_def, timerInfinite, BitVec.toNat_eq,
    BitVec.toNat_allOnes]
  split_ifs <;> omega

/-- One noted send time other than `NJT_TIMER_INFINITE`: `newest` is set
afterwards, at least that time, and no lower than a `newest` that was set. -/
theorem note_newest (st : AckStat w) (f : Frame w) (hf : f.sendTime ≠ timerInfinite w) :
    (st.note max f).newest ≠ timerInfinite w ∧ f.sendTime ≤ (st.note max f).newest ∧
      (st.newest ≠ timerInfinite w → st.newest ≤ (st.note max f).newest) := by
  have := f.sendTime.isLt; have := st.newest.isLt
  simp only [ne_eq, AckStat.note, BitVec.le_def, BitVec.lt_def, timerInfinite, BitVec.toNat_eq,
    BitVec.toNat_allOnes] at hf ⊢
  split_ifs <;> omega

/-- Noting send times never raises `oldest`. -/
theorem foldl_note_oldest_le : ∀ (fs : List (Frame w)) (st : AckStat w),
    (fs.foldl (fun st f => st.note max f) st).oldest ≤ st.oldest
  | [], st => BitVec.le_refl st.oldest
  | f :: fs, st => BitVec.le_trans (foldl_note_oldest_le fs _) (note_oldest max st f).1

/-- Noting send times other than `NJT_TIMER_INFINITE` keeps a set `newest` set
and never lowers it, and covers every time noted by `[oldest, newest]`. -/
theorem foldl_note_covers : ∀ (fs : List (Frame w)) (st : AckStat w),
    (∀ f ∈ fs, f.sendTime ≠ timerInfinite w) →
    (st.newest ≠ timerInfinite w →
        st.newest ≤ (fs.foldl (fun st f => st.note max f) st).newest ∧
          (fs.foldl (fun st f => st.note max f) st).newest ≠ timerInfinite w) ∧
      ∀ f ∈ fs, (fs.foldl (fun st f => st.note max f) st).oldest ≤ f.sendTime ∧
        f.sendTime ≤ (fs.foldl (fun st f => st.note max f) st).newest
  | [], st, _ => ⟨fun h => ⟨BitVec.le_refl _, h⟩, fun _ h => absurd h (List.not_mem_nil _)⟩
  | f :: fs, st, hf => by
    obtain ⟨n1, n2, n3⟩ := note_newest max st f (hf f (.head _))
    obtain ⟨i2, i3⟩ := foldl_note_covers fs (st.note max f) fun g hg => hf g (.tail _ hg)
    simp only [List.foldl_cons, List.mem_cons, forall_eq_or_imp]
    exact ⟨fun hn => ⟨BitVec.le_trans (n3 hn) (i2 n1).1, (i2 n1).2⟩,
      ⟨BitVec.le_trans (foldl_note_oldest_le max fs _) (note_oldest max st f).2,
        BitVec.le_trans n2 (i2 n1).1⟩, i3⟩

end Stat

/-! ## What the function returns -/

/-- What `njt_quic_handle_ack_frame_range` returns, read off its walk: it fails
exactly when the walk found nothing and `max ≥ ctx.pnum`, and otherwise it
stores the frames the walk kept and returns the walk's statistics, with the
controller as the walk left it. -/
theorem handleAckFrameRange_cases
    (streamAck : Frame w → List (Nat × Stream) → List (Nat × Stream)) (cf : Conf w)
    (now : BitVec w) (l : Level) (min max : Nat) (qc : Conn w) (st : AckStat w) :
    ((∃ e, handleAckFrameRange streamAck cf now l min max (qc, st) = .error e) ↔
        (ackRangeFrames streamAck cf now l min max (qc.ctx l).sent
          (qc, { st with maxPn := timerInfinite w }, false)).2.2.2 = false ∧
          (qc.ctx l).pnum ≤ max) ∧
      ∀ qc' st', handleAckFrameRange streamAck cf now l min max (qc, st) = .ok (qc', st') →
        (qc'.ctx l).sent = (ackRangeFrames streamAck cf now l min max (qc.ctx l).sent
            (qc, { st with maxPn := timerInfinite w }, false)).1 ∧
          qc'.congestion = (ackRangeFrames streamAck cf now l min max (qc.ctx l).sent
            (qc, { st with maxPn := timerInfinite w }, false)).2.1.congestion ∧
          st' = (ackRangeFrames streamAck cf now l min max (qc.ctx l).sent
            (qc, { st with maxPn := timerInfinite w }, false)).2.2.1 := by
  unfold handleAckFrameRange
  dsimp only
  generalize ackRangeFrames streamAck cf now l min max (qc.ctx l).sent
    (qc, { st with maxPn := timerInfinite w }, false) = r
  obtain ⟨kept, q1, st1, found⟩ := r
  dsimp only
  cases found with
  | false =>
    by_cases hlt : max < (qc.ctx l).pnum
    · simp only [Bool.not_false, if_true, if_pos hlt]
      refine ⟨by simp; omega, fun qc' st' h => ?_⟩
      cases h
      exact ⟨by cases l <;> rfl, by cases l <;> rfl, rfl⟩
    · simp only [Bool.not_false, if_true, if_neg hlt]
      exact ⟨by simp; omega, fun _ _ h => absurd h (by simp)⟩
  | true =>
    simp only [Bool.not_true, Bool.false_eq_true, if_false]
    refine ⟨by simp, fun qc' st' h => ?_⟩
    cases h
    split <;> exact ⟨by cases l <;> rfl, by cases l <;> rfl, rfl⟩

/-- **`njt_quic_handle_ack_frame_range` on a queue ordered by packet number.**
Call `acked` the frames of `sent` numbered in `[min, max]`.  The function fails
exactly when `acked` is empty and `max ≥ ctx.pnum`.  When it succeeds:
- `sent` keeps the other frames in their order;
- `njt_quic_congestion_ack` has run once for each frame of `acked`, in order;
- `max_pn` is the send time of the last frame numbered `max`, or
  `NJT_TIMER_INFINITE` when there is none;
- `oldest` has not gone up.
When no frame of `acked` was sent at `NJT_TIMER_INFINITE`, `[oldest, newest]`
has also widened to cover the send time of every frame of `acked`. -/
theorem handleAckFrameRange_removes_range
    (streamAck : Frame w → List (Nat × Stream) → List (Nat × Stream)) (cf : Conf w)
    (now : BitVec w) (l : Level) (min max : Nat) (qc : Conn w) (st : AckStat w)
    (hord : (qc.ctx l).sent.Pairwise (·.pnum ≤ ·.pnum)) :
    ((∃ e, handleAckFrameRange streamAck cf now l min max (qc, st) = .error e) ↔
        (qc.ctx l).sent.filter (fun f => decide (min ≤ f.pnum ∧ f.pnum ≤ max)) = [] ∧
          (qc.ctx l).pnum ≤ max) ∧
      ∀ qc' st', handleAckFrameRange streamAck cf now l min max (qc, st) = .ok (qc', st') →
        (qc'.ctx l).sent = (qc.ctx l).sent.filter (fun f => !decide (min ≤ f.pnum ∧ f.pnum ≤ max)) ∧
        qc'.congestion =
          ((qc.ctx l).sent.filter fun f => decide (min ≤ f.pnum ∧ f.pnum ≤ max)).foldl
            (fun cg f => (congestionAck cf qc.rstPnum now cg f).1) qc.congestion ∧
        st'.maxPn = (((((qc.ctx l).sent.filter fun f => decide (min ≤ f.pnum ∧ f.pnum ≤ max)).filter
          fun f => decide (f.pnum = max)).getLast?).map (·.sendTime)).getD (timerInfinite w) ∧
        st'.oldest ≤ st.oldest ∧
        ((∀ f ∈ (qc.ctx l).sent.filter (fun f => decide (min ≤ f.pnum ∧ f.pnum ≤ max)),
            f.sendTime ≠ timerInfinite w) →
          (st.newest ≠ timerInfinite w → st.newest ≤ st'.newest) ∧
          ∀ f ∈ (qc.ctx l).sent.filter (fun f => decide (min ≤ f.pnum ∧ f.pnum ≤ max)),
            st'.oldest ≤ f.sendTime ∧ f.sendTime ≤ st'.newest) := by
  obtain ⟨herr, hok⟩ := handleAckFrameRange_cases streamAck cf now l min max qc st
  rw [ackRangeFrames_eq streamAck cf now l min max _ qc _ false hord] at herr hok
  dsimp only at herr hok
  refine ⟨herr.trans (by simp), fun qc' st' h => ?_⟩
  obtain ⟨h1, h2, rfl⟩ := hok qc' st' h
  refine ⟨h1, h2.trans (foldl_ackedFrame_congestion streamAck cf now l _ qc),
    foldl_note_maxPn max _ _, foldl_note_oldest_le max _ _, fun hf => ?_⟩
  obtain ⟨h3, h4⟩ := foldl_note_covers max _ { st with maxPn := timerInfinite w } hf
  exact ⟨fun hn => (h3 hn).1, h4⟩

theorem handleAckFrameRange_removes_range_onePacket :
    let streamAck : Frame 64 → List (Nat × Stream) → List (Nat × Stream) := fun _ ss => ss
    let cf : Conf 64 := default
    let qc := sentOnePacket
    let st : AckStat 64 := ⟨timerInfinite 64, timerInfinite 64, timerInfinite 64⟩
    (qc.ctx .application).sent.Pairwise (·.pnum ≤ ·.pnum) ∧
    ((∃ e, handleAckFrameRange streamAck cf 10 .application 0 0 (qc, st) = .error e) ↔
        (qc.ctx .application).sent.filter (fun f => decide (0 ≤ f.pnum ∧ f.pnum ≤ 0)) = [] ∧
          (qc.ctx .application).pnum ≤ 0) ∧
      ∀ qc' st', handleAckFrameRange streamAck cf 10 .application 0 0 (qc, st) = .ok (qc', st') →
        (qc'.ctx .application).sent =
          (qc.ctx .application).sent.filter (fun f => !decide (0 ≤ f.pnum ∧ f.pnum ≤ 0)) ∧
        qc'.congestion =
          ((qc.ctx .application).sent.filter fun f => decide (0 ≤ f.pnum ∧ f.pnum ≤ 0)).foldl
            (fun cg f => (congestionAck cf qc.rstPnum 10 cg f).1) qc.congestion ∧
        st'.maxPn = (((((qc.ctx .application).sent.filter
          fun f => decide (0 ≤ f.pnum ∧ f.pnum ≤ 0)).filter
            fun f => decide (f.pnum = 0)).getLast?).map (·.sendTime)).getD (timerInfinite 64) ∧
        st'.oldest ≤ st.oldest ∧
        ((∀ f ∈ (qc.ctx .application).sent.filter (fun f => decide (0 ≤ f.pnum ∧ f.pnum ≤ 0)),
            f.sendTime ≠ timerInfinite 64) →
          (st.newest ≠ timerInfinite 64 → st.newest ≤ st'.newest) ∧
          ∀ f ∈ (qc.ctx .application).sent.filter (fun f => decide (0 ≤ f.pnum ∧ f.pnum ≤ 0)),
            st'.oldest ≤ f.sendTime ∧ f.sendTime ≤ st'.newest) :=
  ⟨by decide, handleAckFrameRange_removes_range _ _ _ _ _ _ _ _ (by decide)⟩

/-- The queue of the example: a frame sent at `NJT_TIMER_INFINITE`, then one
sent at 5 (the clock has wrapped), both acknowledged by the range `[1, 2]`. -/
def infiniteThenFive : Conn 32 :=
  (default : Conn 32).modifyCtx .application fun c =>
    { c with sent := [⟨1, timerInfinite 32, 0, .ping, false⟩, ⟨2, 5, 0, .ping, false⟩], pnum := 3 }

/-- A frame sent at `NJT_TIMER_INFINITE` and acknowledged before a later frame
is not covered: `newest` reads its send time as "unset" and then takes the
later frame's time, 5. -/
theorem handleAckFrameRange_misses_infinite_sendTime :
    (infiniteThenFive.ctx .application).sent.Pairwise (·.pnum ≤ ·.pnum) ∧
      ∃ qc' st', handleAckFrameRange (fun _ ss => ss) default 0 .application 1 2
          (infiniteThenFive, ⟨timerInfinite 32, timerInfinite 32, timerInfinite 32⟩) =
          .ok (qc', st') ∧
        st'.newest < timerInfinite 32 :=
  ⟨by decide, _, _, rfl, by decide⟩

end NjtQuic
