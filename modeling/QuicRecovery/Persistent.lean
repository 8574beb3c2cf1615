import QuicRecovery.AckRange
import QuicRecovery.InFlight
/-!
# Persistent congestion after an ACK frame

After its loss scans, `njt_quic_detect_lost` declares persistent congestion
(RFC 9002, 7.6) when at least two packets sent after `first_rtt` were lost,
the span of their send times `[oldest, newest]` is disjoint from the span
`[st.oldest, st.newest]` of the frames the ACK frame took off `sent`, and
`newest - oldest` exceeds `njt_quic_pcg_duration`.

`PcgCollapse` is that test, and `detectLost_congestion` says it is exactly
what decides whether the congestion controller collapses.

Both spans are kept with `NJT_TIMER_INFINITE` standing for "no time yet", and
`njt_quic_handle_ack_frame_range` records a frame sent at that very time as no
time at all.  `handleAckFrame_collapses_across_acked` is a run across the
32-bit wrap of `njt_msec_t` where a frame acknowledged by the ACK frame was
sent between the two lost packets, at `NJT_TIMER_INFINITE`, and the connection
collapses all the same.
-/

namespace NjtQuic

variable {w : Nat}

/-- The test of `njt_quic_detect_lost` that calls
`njt_quic_persistent_congestion`, on the statistics `st` of the ACK frame and
the connection and loss statistics `ls` its scans leave. -/
def PcgCollapse (cf : Conf w) (st : AckStat w) (qc : Conn w) (ls : LossStat w) : Prop :=
  2 ≤ ls.nlost ∧ (st.newest < ls.oldest ∨ st.oldest > ls.newest) ∧
    ls.newest - ls.oldest > pcgDuration cf qc

instance (cf : Conf w) (st : AckStat w) (qc : Conn w) (ls : LossStat w) :
    Decidable (PcgCollapse cf st qc ls) :=
  inferInstanceAs (Decidable (_ ∧ _ ∧ _))

/-- After an ACK frame, the controller collapses exactly when `PcgCollapse`
holds after the loss scans. -/
theorem detectLost_congestion (cf : Conf w) (now : BitVec w) (st : AckStat w) (qc : Conn w) :
    (detectLost cf now (some st) qc).congestion =
      let r := detectLostLevels cf now (lostThreshold qc) levels (qc, LossStat.init)
      if PcgCollapse cf st r.1 r.2 then persistentCongestion cf now r.1.congestion
      else r.1.congestion := by
  unfold detectLost PcgCollapse
  simp only [setLostTimer_congestion]
  split_ifs <;> rfl

/-! ## The span of the lost packets -/

theorem ne_timerInfinite_of_le {a b : BitVec w} (h : a ≤ b) (hb : b ≠ timerInfinite w) :
    a ≠ timerInfinite w := by
  rintro rfl
  apply hb
  apply BitVec.eq_of_toNat_eq
  have := b.isLt
  simp only [BitVec.le_def, timerInfinite, BitVec.toNat_allOnes] at h ⊢
  omega

/-- The loss statistics after noting the send times `S`: unset while `S` is
empty, and otherwise `oldest ≤ newest`, both among `S`. -/
def LossSpan (S : List (BitVec w)) (ls : LossStat w) : Prop :=
  (S = [] ∧ ls.oldest = timerInfinite w ∧ ls.newest = timerInfinite w) ∨
    (ls.oldest ∈ S ∧ ls.newest ∈ S ∧ ls.oldest ≤ ls.newest ∧ ls.newest ≠ timerInfinite w)

/-- Noting a time other than `NJT_TIMER_INFINITE` keeps the span. -/
theorem LossSpan.note {S : List (BitVec w)} {ls : LossStat w} {t : BitVec w} (h : LossSpan S ls)
    (ht : t ≠ timerInfinite w) : LossSpan (t :: S) (ls.note t) := by
  right
  rcases h with ⟨-, ho, hn⟩ | ⟨ho, hn, hle, hni⟩
  · have e1 : (ls.note t).oldest = t := by simp [LossStat.note, ho]
    have e2 : (ls.note t).newest = t := by simp [LossStat.note, hn]
    rw [e1, e2]
    exact ⟨.head _, .head _, BitVec.le_refl t, ht⟩
  · have e1 : (ls.note t).oldest = if t < ls.oldest then t else ls.oldest := by
      simp [LossStat.note, ne_timerInfinite_of_le hle hni]
    have e2 : (ls.note t).newest = if t > ls.newest then t else ls.newest := by
      simp [LossStat.note, hni]
    rw [e1, e2]
    refine ⟨?_, ?_, ?_, ?_⟩
    · split
      · exact .head _
      · exact .tail _ ho
    · split
      · exact .head _
      · exact .tail _ hn
    · simp only [BitVec.le_def, BitVec.lt_def] at hle ⊢
      split_ifs <;> simp only [BitVec.lt_def] at * <;> omega
    · split
      · exact ht
      · exact hni

theorem LossSpan.foldl : ∀ (ts : List (BitVec w)) {S : List (BitVec w)} {ls : LossStat w},
    LossSpan S ls → (∀ t ∈ ts, t ≠ timerInfinite w) →
      LossSpan (ts.reverse ++ S) (ts.foldl LossStat.note ls)
  | [], _, _, h, _ => h
  | t :: ts, S, ls, h, ht => by
    rw [List.foldl_cons, List.reverse_cons, List.append_assoc, List.singleton_append]
    exact LossSpan.foldl ts (h.note (ht t (.head _))) fun t' h' => ht t' (.tail _ h')

/-! ## What the loss scans count -/

/-- After the frames of a packet leave an ordered queue, none of its frames is
left. -/
theorem pnum_ne_of_mem_dropWhile {start : Frame w} :
    ∀ {rest : List (Frame w)}, (start :: rest).Pairwise (·.pnum ≤ ·.pnum) →
      ∀ g ∈ rest.dropWhile (·.pnum = start.pnum), g.pnum ≠ start.pnum
  | [], _, g, hg => absurd hg (List.not_mem_nil g)
  | x :: xs, h, g, hg => by
    obtain ⟨h1, h2⟩ := List.pairwise_cons.1 h
    obtain ⟨h3, h4⟩ := List.pairwise_cons.1 h2
    by_cases hx : x.pnum = start.pnum
    · rw [List.dropWhile_cons_of_pos (by simpa using hx)] at hg
      exact pnum_ne_of_mem_dropWhile (List.pairwise_cons.2 ⟨fun y hy => h1 y (.tail _ hy), h4⟩) g hg
    · rw [List.dropWhile_cons_of_neg (by simpa using hx)] at hg
      have hsx := h1 x (.head _)
      rcases List.mem_cons.1 hg with rfl | hg
      · exact hx
      · have := h3 g hg; omega

section Scan

variable (cf : Conf w) (now thr : BitVec w)

/-- The scan of one ordered queue counts the send times, after `first_rtt`, of
packets it takes off the queue whole. -/
theorem detectLostCtx_noted (l : Level) (la : Nat) :
    ∀ (sent : List (Frame w)) (qc : Conn w) (ls : LossStat w), sent.Pairwise (·.pnum ≤ ·.pnum) →
      ∃ ts : List (BitVec w), (detectLostCtx cf now thr l la sent qc ls).2.2 = ts.foldl LossStat.note ls ∧
        ∀ t ∈ ts, ∃ f ∈ sent, f.sendTime = t ∧ qc.firstRtt < t ∧
          ∀ g ∈ (detectLostCtx cf now thr l la sent qc ls).1, g.pnum ≠ f.pnum := by
  intro sent qc ls
  induction sent, qc, ls using detectLostCtx.induct cf now thr l la with
  | case1 qc ls => exact fun _ => ⟨[], by simp [detectLostCtx], by simp⟩
  | case2 start rest qc ls hgt => exact fun _ => ⟨[], by simp [detectLostCtx, hgt], by simp⟩
  | case3 start rest qc ls hle hw => exact fun _ => ⟨[], by simp [detectLostCtx, hle, hw], by simp⟩
  | case4 start rest qc ls hle hw ls' r ih =>
    intro hord
    have hr1 : r.1 = rest.dropWhile (·.pnum = start.pnum) := resendFrames_fst ..
    obtain ⟨ts, hts, hmem⟩ := ih ((List.pairwise_cons.1 hord).2.sublist
      (hr1 ▸ (List.dropWhile_suffix _).sublist))
    obtain ⟨hsuf, -, -⟩ := detectLostCtx_frame cf now thr l la r.1 r.2 ls'
    have hfirst := (resendFrames_snd qc l cf now start rest).2.2.firstRtt
    have hstep : detectLostCtx cf now thr l la (start :: rest) qc ls =
        detectLostCtx cf now thr l la r.1 r.2 ls' := by
      rw [detectLostCtx, if_neg hle, if_neg hw]; rfl
    rw [hstep]
    have hgone : ∀ g ∈ (detectLostCtx cf now thr l la r.1 r.2 ls').1, g.pnum ≠ start.pnum :=
      fun g hg => pnum_ne_of_mem_dropWhile hord g (hr1 ▸ hsuf.subset hg)
    -- the times noted further down are of frames of `rest`
    have hrest : ∀ t ∈ ts, ∃ f ∈ start :: rest, f.sendTime = t ∧ qc.firstRtt < t ∧
        ∀ g ∈ (detectLostCtx cf now thr l la r.1 r.2 ls').1, g.pnum ≠ f.pnum := fun t h =>
      let ⟨f, hf, h1, h2, h3⟩ := hmem t h
      ⟨f, .tail _ ((List.dropWhile_suffix _).subset (hr1 ▸ hf)), h1, hfirst ▸ h2, h3⟩
    by_cases ht : start.sendTime > qc.firstRtt
    · refine ⟨start.sendTime :: ts, by rw [hts]; simp [ls', ht], fun t h => ?_⟩
      rcases List.mem_cons.1 h with rfl | h
      · exact ⟨start, .head _, rfl, ht, hgone⟩
      · exact hrest t h
    · exact ⟨ts, by rw [hts]; simp [ls', ht], hrest⟩

/-- The loop over the send contexts changes only the queues it scans. -/
theorem detectLostLevels_frame : ∀ (ls : List Level) (qc : Conn w) (st : LossStat w),
    (∀ m, m ∉ ls → ((detectLostLevels cf now thr ls (qc, st)).1.ctx m).sent = (qc.ctx m).sent) ∧
      qc.SameFlight (detectLostLevels cf now thr ls (qc, st)).1
  | [], qc, _ => ⟨fun _ _ => rfl, .refl qc⟩
  | l :: ls, qc, st => by
    by_cases hu : (qc.ctx l).largestAck = unsetPn
    · obtain ⟨h1, h2⟩ := detectLostLevels_frame ls qc st
      rw [detectLostLevels, if_pos hu]
      exact ⟨fun m hm => h1 m fun h => hm (.tail _ h), h2⟩
    · obtain ⟨-, c3, c4⟩ := detectLostCtx_frame cf now thr l (qc.ctx l).largestAck (qc.ctx l).sent qc st
      generalize hs : detectLostCtx cf now thr l (qc.ctx l).largestAck (qc.ctx l).sent qc st = s at c3 c4
      obtain ⟨sent, qc1, st1⟩ := s
      obtain ⟨h1, h2⟩ := detectLostLevels_frame ls (qc1.modifyCtx l fun ctx => { ctx with sent }) st1
      have hq : qc.SameFlight (qc1.modifyCtx l fun ctx => { ctx with sent }) :=
        c4.trans (sameFlight_modifyCtx _ _ fun _ => ⟨rfl, rfl⟩)
      rw [detectLostLevels]
      simp only [if_neg hu, hs]
      refine ⟨fun m hm => ?_, hq.trans h2⟩
      have hml : m ≠ l := fun h => hm (h ▸ .head _)
      rw [h1 m fun h => hm (.tail _ h), Conn.ctx_modifyCtx_of_ne _ _ hml, c3]

/-- The loop over the send contexts counts the send times, after `first_rtt`,
of packets it takes off the queue of a context it scans. -/
theorem detectLostLevels_noted : ∀ (ls : List Level) (qc : Conn w) (st : LossStat w), ls.Nodup →
    (∀ l ∈ ls, (qc.ctx l).sent.Pairwise (·.pnum ≤ ·.pnum)) →
    ∃ ts : List (BitVec w), (detectLostLevels cf now thr ls (qc, st)).2 = ts.foldl LossStat.note st ∧
      ∀ t ∈ ts, ∃ l ∈ ls, ∃ f ∈ (qc.ctx l).sent, f.sendTime = t ∧ qc.firstRtt < t ∧
        ∀ g ∈ ((detectLostLevels cf now thr ls (qc, st)).1.ctx l).sent, g.pnum ≠ f.pnum
  | [], _, st, _, _ => ⟨[], rfl, by simp⟩
  | l :: ls, qc, st, hnd, hord => by
    obtain ⟨hl, hnd⟩ := List.nodup_cons.1 hnd
    by_cases hu : (qc.ctx l).largestAck = unsetPn
    · obtain ⟨ts, h1, h2⟩ := detectLostLevels_noted ls qc st hnd fun m hm => hord m (.tail _ hm)
      rw [detectLostLevels, if_pos hu]
      exact ⟨ts, h1, fun t ht => let ⟨m, hm, hf⟩ := h2 t ht; ⟨m, .tail _ hm, hf⟩⟩
    · obtain ⟨ts₁, n1, n2⟩ := detectLostCtx_noted cf now thr l (qc.ctx l).largestAck (qc.ctx l).sent
        qc st (hord l (.head _))
      obtain ⟨-, c3, c4⟩ := detectLostCtx_frame cf now thr l (qc.ctx l).largestAck (qc.ctx l).sent qc st
      generalize hs : detectLostCtx cf now thr l (qc.ctx l).largestAck (qc.ctx l).sent qc st = s
        at n1 n2 c3 c4
      obtain ⟨sent, qc1, st1⟩ := s
      dsimp only at n1 n2
      have hne : ∀ m ∈ ls, m ≠ l := fun m hm h => hl (h ▸ hm)
      have hsent : ∀ m ∈ ls, ((qc1.modifyCtx l fun ctx => { ctx with sent }).ctx m).sent =
          (qc.ctx m).sent := fun m hm => by rw [Conn.ctx_modifyCtx_of_ne _ _ (hne m hm), c3]
      have hq : qc.SameFlight (qc1.modifyCtx l fun ctx => { ctx with sent }) :=
        c4.trans (sameFlight_modifyCtx _ _ fun _ => ⟨rfl, rfl⟩)
      obtain ⟨ts₂, m1, m2⟩ := detectLostLevels_noted ls (qc1.modifyCtx l fun ctx => { ctx with sent })
        st1 hnd fun m hm => hsent m hm ▸ hord m (.tail _ hm)
      obtain ⟨f1, -⟩ := detectLostLevels_frame cf now thr ls (qc1.modifyCtx l fun ctx => { ctx with sent }) st1
      rw [detectLostLevels]
      simp only [if_neg hu, hs]
      refine ⟨ts₁ ++ ts₂, by rw [m1, n1, List.foldl_append], fun t ht => ?_⟩
      rcases List.mem_append.1 ht with ht | ht
      · obtain ⟨f, hf, hft, hfr, hg⟩ := n2 t ht
        refine ⟨l, .head _, f, hf, hft, hfr, fun g hg' => hg g ?_⟩
        rwa [f1 l hl, Conn.ctx_modifyCtx_self] at hg'
      · obtain ⟨m, hm, f, hf, hft, hfr, hg⟩ := m2 t ht
        exact ⟨m, .tail _ hm, f, hsent m hm ▸ hf, hft, hq.firstRtt ▸ hfr, hg⟩

/-- When the scans of ordered queues, none holding a frame sent at
`NJT_TIMER_INFINITE`, count two losses or more, `oldest` and `newest` are the
send times of two packets they took off, both sent after `first_rtt`. -/
theorem detectLostLevels_span {qc : Conn w} (hord : ∀ m, (qc.ctx m).sent.Pairwise (·.pnum ≤ ·.pnum))
    (hinf : ∀ m, ∀ f ∈ (qc.ctx m).sent, f.sendTime ≠ timerInfinite w)
    (hn : 2 ≤ (detectLostLevels cf now thr levels (qc, LossStat.init)).2.nlost) :
    let r := detectLostLevels cf now thr levels (qc, LossStat.init)
    ∃ mp, ∃ p ∈ (qc.ctx mp).sent, ∃ mq, ∃ q ∈ (qc.ctx mq).sent,
      (∀ g ∈ (r.1.ctx mp).sent, g.pnum ≠ p.pnum) ∧ (∀ g ∈ (r.1.ctx mq).sent, g.pnum ≠ q.pnum) ∧
      qc.firstRtt < p.sendTime ∧ qc.firstRtt < q.sendTime ∧
      p.sendTime = r.2.oldest ∧ q.sendTime = r.2.newest ∧ r.2.oldest ≤ r.2.newest := by
  obtain ⟨ts, hts, hmem⟩ := detectLostLevels_noted cf now thr levels qc LossStat.init (by decide)
    fun m _ => hord m
  have hspan := LossSpan.foldl ts (.inl ⟨rfl, rfl, rfl⟩ : LossSpan [] (LossStat.init : LossStat w))
    fun t ht => by
      obtain ⟨m, -, f, hf, rfl, -⟩ := hmem t ht
      exact hinf m f hf
  rw [← hts, List.append_nil] at hspan
  -- two losses: the scans noted some time, so the span is not empty
  rcases hspan with ⟨hnil, -, -⟩ | ⟨ho, hn', hle, -⟩
  · rw [List.reverse_eq_nil_iff] at hnil
    subst hnil
    rw [hts] at hn
    simp [LossStat.init] at hn
  obtain ⟨mp, -, p, hp, hpt, hpr, hpg⟩ := hmem _ (List.mem_reverse.1 ho)
  obtain ⟨mq, -, q, hq, hqt, hqr, hqg⟩ := hmem _ (List.mem_reverse.1 hn')
  exact ⟨mp, p, hp, mq, q, hq, hpg, hqg, hpt ▸ hpr, hqt ▸ hqr, hpt, hqt, hle⟩

end Scan

/-! ## What the ACK frame took off -/

section Ack

variable (streamAck : Frame w → List (Nat × Stream) → List (Nat × Stream)) (cf : Conf w)
  (now : BitVec w) (l : Level)

theorem foldl_ackedFrame_sent : ∀ (fs : List (Frame w)) (qc : Conn w) (m : Level),
    ((fs.foldl (ackedFrame streamAck cf now l) qc).ctx m).sent = (qc.ctx m).sent
  | [], _, _ => rfl
  | f :: fs, qc, m => by
    rw [List.foldl_cons, foldl_ackedFrame_sent fs, ((ackedFrame_flight streamAck cf now l qc f).2.2 m).1]

/-- Noting at least one send time other than `NJT_TIMER_INFINITE` sets
`newest`. -/
theorem foldl_note_newest_ne (max : Nat) : ∀ (fs : List (Frame w)) (st : AckStat w),
    (∀ f ∈ fs, f.sendTime ≠ timerInfinite w) → fs ≠ [] →
      (fs.foldl (fun st f => st.note max f) st).newest ≠ timerInfinite w
  | [], _, _, h => absurd rfl h
  | f :: fs, st, hf, _ => by
    rw [List.foldl_cons]
    exact ((foldl_note_covers max fs (st.note max f) fun g hg => hf g (.tail _ hg)).1
      (note_newest max st f (hf f (.head _))).1).2

/-- One range on an ordered queue: the queue of level `l` loses the frames
numbered in `[min, max]`, the other queues stay, and the statistics note the
frames taken off. -/
theorem handleAckFrameRange_takes (min max : Nat) {qc qc' : Conn w} {st st' : AckStat w}
    (hord : (qc.ctx l).sent.Pairwise (·.pnum ≤ ·.pnum))
    (h : handleAckFrameRange streamAck cf now l min max (qc, st) = .ok (qc', st')) :
    (qc'.ctx l).sent = (qc.ctx l).sent.filter (fun f => !decide (min ≤ f.pnum ∧ f.pnum ≤ max)) ∧
      (∀ m, m ≠ l → (qc'.ctx m).sent = (qc.ctx m).sent) ∧
      st' = ((qc.ctx l).sent.filter fun f => decide (min ≤ f.pnum ∧ f.pnum ≤ max)).foldl
        (fun st f => st.note max f) { st with maxPn := timerInfinite w } := by
  obtain ⟨-, hok⟩ := handleAckFrameRange_cases streamAck cf now l min max qc st
  have hw := ackRangeFrames_eq streamAck cf now l min max _ qc
    { st with maxPn := timerInfinite w } false hord
  obtain ⟨h1, -, h3⟩ := hok qc' st' h
  rw [hw] at h1 h3
  refine ⟨h1, fun m hm => ?_, h3⟩
  have hq : ∀ q, q = (ackRangeFrames streamAck cf now l min max (qc.ctx l).sent
      (qc, { st with maxPn := timerInfinite w }, false)).2.1 → (q.ctx m).sent = (qc.ctx m).sent :=
    fun q hq => by rw [hq, hw]; exact foldl_ackedFrame_sent streamAck cf now l _ qc m
  unfold handleAckFrameRange at h
  dsimp only at h
  generalize ackRangeFrames streamAck cf now l min max (qc.ctx l).sent
    (qc, { st with maxPn := timerInfinite w }, false) = r at h hq
  obtain ⟨kept, q1, st1, found⟩ := r
  have hq1 := hq q1 rfl
  dsimp only at h
  rw [← hq1]
  split_ifs at h <;> cases h <;> cases l <;> cases m <;> first | rfl | exact absurd rfl hm

theorem foldl_ackedFrame_firstRtt : ∀ (fs : List (Frame w)) (qc : Conn w),
    (fs.foldl (ackedFrame streamAck cf now l) qc).firstRtt = qc.firstRtt
  | [], _ => rfl
  | f :: fs, qc => by
    rw [List.foldl_cons, foldl_ackedFrame_firstRtt fs]
    unfold ackedFrame
    dsimp only
    split <;> simp [Conn.modifyCtx]

/-- One range on an ordered queue leaves `first_rtt` alone. -/
theorem handleAckFrameRange_firstRtt (min max : Nat) {qc qc' : Conn w} {st st' : AckStat w}
    (hord : (qc.ctx l).sent.Pairwise (·.pnum ≤ ·.pnum))
    (h : handleAckFrameRange streamAck cf now l min max (qc, st) = .ok (qc', st')) :
    qc'.firstRtt = qc.firstRtt := by
  have hq : (ackRangeFrames streamAck cf now l min max (qc.ctx l).sent
      (qc, { st with maxPn := timerInfinite w }, false)).2.1.firstRtt = qc.firstRtt := by
    rw [ackRangeFrames_eq streamAck cf now l min max _ qc _ false hord]
    exact foldl_ackedFrame_firstRtt streamAck cf now l _ qc
  unfold handleAckFrameRange at h
  dsimp only at h
  generalize ackRangeFrames streamAck cf now l min max (qc.ctx l).sent
    (qc, { st with maxPn := timerInfinite w }, false) = r at h hq
  obtain ⟨kept, q1, st1, found⟩ := r
  dsimp only at h hq
  split_ifs at h <;> cases h <;> simp [Conn.modifyCtx, hq]

theorem rttSample_firstRtt (ack : AckFrame) (t : BitVec w) (qc : Conn w) :
    (rttSample cf now ack t qc).firstRtt = qc.firstRtt ∨ (rttSample cf now ack t qc).firstRtt = now := by
  unfold rttSample
  dsimp only
  split
  · exact .inr rfl
  · exact .inl rfl

/-- What holds after each range of an ACK frame for level `l` on `qc`: the
queue of level `l` is an ordered part of the one of `qc`, the other queues are
those of `qc`, and the statistics cover the send time of every frame taken off
so far. -/
structure AckCover (qc q : Conn w) (st : AckStat w) : Prop where
  ordered : (q.ctx l).sent.Pairwise (·.pnum ≤ ·.pnum)
  sublist : (q.ctx l).sent.Sublist (qc.ctx l).sent
  others : ∀ m, m ≠ l → (q.ctx m).sent = (qc.ctx m).sent
  covers : ∀ f ∈ (qc.ctx l).sent, f ∉ (q.ctx l).sent →
    st.oldest ≤ f.sendTime ∧ f.sendTime ≤ st.newest ∧ st.newest ≠ timerInfinite w

variable {l}

theorem AckCover.congr {qc q q' : Conn w} {st : AckStat w} (h : AckCover l qc q st)
    (hs : ∀ m, (q'.ctx m).sent = (q.ctx m).sent) : AckCover l qc q' st :=
  ⟨hs l ▸ h.ordered, hs l ▸ h.sublist, fun m hm => (hs m).trans (h.others m hm),
    fun f hf hf' => h.covers f hf (hs l ▸ hf')⟩

/-- The step lemma: one more range keeps the cover, when no frame of the queue
was sent at `NJT_TIMER_INFINITE`. -/
theorem AckCover.range {qc q q' : Conn w} {st st' : AckStat w} {min max : Nat}
    (hc : AckCover l qc q st) (hinf : ∀ f ∈ (qc.ctx l).sent, f.sendTime ≠ timerInfinite w)
    (h : handleAckFrameRange streamAck cf now l min max (q, st) = .ok (q', st')) :
    AckCover l qc q' st' := by
  obtain ⟨h1, h2, rfl⟩ := handleAckFrameRange_takes streamAck cf now l min max hc.ordered h
  have hinf' : ∀ f ∈ (q.ctx l).sent.filter (fun f => decide (min ≤ f.pnum ∧ f.pnum ≤ max)),
      f.sendTime ≠ timerInfinite w :=
    fun f hf => hinf f (hc.sublist.subset (List.mem_of_mem_filter hf))
  obtain ⟨c1, c2⟩ := foldl_note_covers max _ { st with maxPn := timerInfinite w } hinf'
  refine ⟨h1 ▸ hc.ordered.filter _, h1 ▸ (List.filter_sublist _).trans hc.sublist,
    fun m hm => (h2 m hm).trans (hc.others m hm), fun f hf hf' => ?_⟩
  by_cases hq : f ∈ (q.ctx l).sent
  · -- taken off by this range
    have hfa : f ∈ (q.ctx l).sent.filter fun f => decide (min ≤ f.pnum ∧ f.pnum ≤ max) := by
      rw [h1, List.mem_filter] at hf'
      have hin : min ≤ f.pnum ∧ f.pnum ≤ max := by
        by_contra hc
        exact hf' ⟨hq, by simp only [Bool.not_eq_true', decide_eq_false_iff_not]; exact hc⟩
      exact List.mem_filter.2 ⟨hq, by simpa using hin⟩
    exact ⟨(c2 f hfa).1, (c2 f hfa).2,
      foldl_note_newest_ne max _ _ hinf' (List.ne_nil_of_mem hfa)⟩
  · -- taken off before: the span only widens
    obtain ⟨d1, d2, d3⟩ := hc.covers f hf hq
    obtain ⟨e1, e2⟩ := c1 d3
    exact ⟨BitVec.le_trans (foldl_note_oldest_le max _ _) d1, BitVec.le_trans d2 e1, e2⟩

/-- A queue of a covered connection holds frames of the same queue of `qc`. -/
theorem AckCover.mem {qc q : Conn w} {st : AckStat w} (hc : AckCover l qc q st) {m : Level}
    {f : Frame w} (hf : f ∈ (q.ctx m).sent) : f ∈ (qc.ctx m).sent := by
  by_cases hm : m = l
  · subst hm; exact hc.sublist.subset hf
  · rwa [hc.others m hm] at hf

theorem AckCover.pairwise {qc q : Conn w} {st : AckStat w} (hc : AckCover l qc q st)
    (hord : ∀ m, (qc.ctx m).sent.Pairwise (·.pnum ≤ ·.pnum)) (m : Level) :
    (q.ctx m).sent.Pairwise (·.pnum ≤ ·.pnum) := by
  by_cases hm : m = l
  · subst hm; exact hc.ordered
  · rw [hc.others m hm]; exact hord m

/-- The run lemma: an accepted ACK frame hands the loss detector a connection
covered by the statistics of all its ranges. -/
theorem handleAckFrame_cover (ack : AckFrame) {qc qc' : Conn w}
    (hord : (qc.ctx l).sent.Pairwise (·.pnum ≤ ·.pnum))
    (hinf : ∀ f ∈ (qc.ctx l).sent, f.sendTime ≠ timerInfinite w)
    (h : handleAckFrame streamAck cf now l ack qc = .ok qc') :
    ∃ qc₁ st, qc' = detectLost cf now (some st) qc₁ ∧ AckCover l qc qc₁ st ∧
      (qc₁.firstRtt = qc.firstRtt ∨ qc₁.firstRtt = now) := by
  obtain ⟨qa, sa, qb, qc₁, st, h1, hb, hl, rfl⟩ := handleAckFrame_ok h
  have c1 : AckCover l qc qa sa := AckCover.range streamAck cf now
    ⟨hord, .refl _, fun _ _ => rfl, fun f hf hf' => absurd hf hf'⟩ hinf h1
  -- `first_rtt` changes only with the first RTT sample
  have f1 := handleAckFrameRange_firstRtt streamAck cf now l _ _ hord h1
  have f2 : qb.firstRtt = qc.firstRtt ∨ qb.firstRtt = now := by
    rcases hb with rfl | rfl | ⟨-, rfl⟩
    · exact .inl f1
    · exact .inl (by simpa [Conn.modifyCtx] using f1)
    · exact (rttSample_firstRtt cf now ack _ _).imp_left
        fun e => e.trans (by simpa [Conn.modifyCtx] using f1)
  -- setting `largest_ack` and taking the RTT sample leave every queue alone
  have hlargest : ∀ m, ((qa.modifyCtx l fun ctx => { ctx with largestAck := ack.largest }).ctx m).sent =
      (qa.ctx m).sent :=
    Conn.proj_ctx_modifyCtx SendCtx.sent
      (fun c => show ({ c with largestAck := ack.largest } : SendCtx w).sent = c.sent from rfl) qa l
  have c2 : AckCover l qc qb sa := c1.congr fun m => by
    rcases hb with rfl | rfl | ⟨-, rfl⟩
    · rfl
    · exact hlargest m
    · rw [(rttSample_flight cf now ack sa.maxPn _).2.2 m]; exact hlargest m
  obtain ⟨c3, f3⟩ := ackRangesLoop_inv (fun s => AckCover l qc s.1 s.2 ∧ s.1.firstRtt = qb.firstRtt) _
    (fun _ _ s s' hs hp => ⟨AckCover.range streamAck cf now hp.1 hinf hs,
      (handleAckFrameRange_firstRtt streamAck cf now l _ _ hp.1.ordered hs).trans hp.2⟩)
    _ _ _ _ hl ⟨c2, rfl⟩
  exact ⟨qc₁, st, rfl, c3, f3 ▸ f2⟩

end Ack

/-! ## A justified collapse -/

/-- The milliseconds from `b` to `t` on the wrapping `njt_msec_t` clock: the
real time elapsed since `b` for a reading taken less than one clock period
after it. -/
def msecSince (b t : BitVec w) : Nat := (t - b).toNat

/-- With no wrap between `b` and `t`, the elapsed time is the difference of
the readings. -/
theorem msecSince_of_le {b t : BitVec w} (h : b ≤ t) : msecSince b t = t.toNat - b.toNat :=
  BitVec.toNat_sub_of_le h

/-- Readings at or after `b` compare as their elapsed times do. -/
theorem msecSince_le_iff {b x y : BitVec w} (hx : b ≤ x) (hy : b ≤ y) :
    msecSince b x ≤ msecSince b y ↔ x ≤ y := by
  have := BitVec.le_def.1 hx
  have := BitVec.le_def.1 hy
  rw [msecSince_of_le hx, msecSince_of_le hy, BitVec.le_def]
  omega

theorem msecSince_lt_iff {b x y : BitVec w} (hx : b ≤ x) (hy : b ≤ y) :
    msecSince b x < msecSince b y ↔ x < y := by
  have := BitVec.le_def.1 hx
  have := BitVec.le_def.1 hy
  rw [msecSince_of_le hx, msecSince_of_le hy, BitVec.lt_def]
  omega

/-- Between two readings at or after `b`, the elapsed time is their
difference on the clock. -/
theorem msecSince_sub {b x y : BitVec w} (hx : b ≤ x) (hxy : x ≤ y) :
    msecSince b y - msecSince b x = (y - x).toNat := by
  have := BitVec.le_def.1 hx
  have := BitVec.le_def.1 hxy
  rw [msecSince_of_le hx, msecSince_of_le (BitVec.le_def.2 (by omega)), BitVec.toNat_sub_of_le hxy]
  omega

/-- A peer whose maximum datagram is 1200 bytes. -/
def wrapConf : Conf 32 := { (default : Conf 32) with maxUdpPayloadSize := 1200 }

/-- The application context holds packets 0, 1 and 6, sent at 100, 200 and
300 ms; the RTT estimate is 5 ms, taken at 50 ms. -/
def spreadLoss : Conn 32 :=
  { (default : Conn 32) with
    latestRtt := 5, minRtt := 5, avgRtt := 5, rttvar := 2, firstRtt := 50
    congestion := ⟨12000, BitVec.allOnes 32, 3600, 0⟩
    application := { (default : SendCtx 32) with
      sent := [⟨0, 100, 1200, .ping, false⟩, ⟨1, 200, 1200, .ping, false⟩,
        ⟨6, 300, 1200, .ping, false⟩], pnum := 7, largestAck := unsetPn } }

/-- There the collapse does happen: packets 0 and 1 are lost 100 ms apart
against a `pcg_duration` of 78 ms, after packet 6, and the window drops to
two datagrams rather than to the 6600 bytes of the loss reduction. -/
example : (handleAckFrame (fun _ s => s) wrapConf 320 .application ⟨6, 0, 0, []⟩
    spreadLoss).toOption.map (·.congestion.window) = some 2400 := by
  decide

/-! ## A collapse across an acknowledged packet -/

/-- Packet 0, sent 100 ms before the 32-bit clock wraps. -/
def lostEarly : Frame 32 := ⟨0, 4294967196, 1200, .ping, false⟩

/-- Packet 1, sent at the last millisecond before the wrap,
`NJT_TIMER_INFINITE`. -/
def lostLate : Frame 32 := ⟨1, timerInfinite 32, 1200, .ping, false⟩

/-- Packet 2, sent in the same millisecond as packet 1. -/
def ackedInfinite : Frame 32 := ⟨2, timerInfinite 32, 1200, .ping, false⟩

/-- Packet 6, sent 5 ms after the wrap. -/
def ackedAfterWrap : Frame 32 := ⟨6, 5, 1200, .ping, false⟩

/-- The application context holds packets 0, 1, 2 and 6; the RTT estimate is
5 ms, taken 1000 ms before the wrap. -/
def wrapLoss : Conn 32 :=
  { (default : Conn 32) with
    latestRtt := 5, minRtt := 5, avgRtt := 5, rttvar := 2, firstRtt := 4294966296
    congestion := ⟨12000, BitVec.allOnes 32, 4800, 0⟩
    application := { (default : SendCtx 32) with
      sent := [lostEarly, lostLate, ackedInfinite, ackedAfterWrap], pnum := 7,
      largestAck := unsetPn } }

/-- An ACK frame of the range `[2, 6]`. -/
def wrapAck : AckFrame := ⟨6, 0, 4, []⟩

/-- The connection once the ACK frame has taken packets 2 and 6 off `sent`
and an RTT sample of 15 ms is in. -/
def wrapAcked : Conn 32 :=
  rttSample wrapConf 20 wrapAck 5
    { wrapLoss with
      congestion := ⟨13200, BitVec.allOnes 32, 2400, 20⟩
      pushPosted := true
      application := { wrapLoss.application with
        sent := [lostEarly, lostLate], largestAck := 6 } }

/-- The ACK frame of `[2, 6]` at time 20 takes packets 2 and 6 off `sent`,
and its statistics are `oldest = newest = 5`: packet 2, sent at
`NJT_TIMER_INFINITE`, left no trace.  The scan then declares packets 0 and 1
lost, 99 ms apart against a `pcg_duration` of 66 ms, and the test collapses
the controller, although the only pair of lost packets that far apart was sent
around packet 2, which the same frame acknowledged. -/
theorem handleAckFrame_collapses_across_acked :
    handleAckFrame (fun _ s => s) wrapConf 20 .application wrapAck wrapLoss =
        .ok (detectLost wrapConf 20 (some ⟨5, 5, 5⟩) wrapAcked) ∧
      (wrapAcked.ctx .application).sent = [lostEarly, lostLate] ∧
      let r := detectLostLevels wrapConf 20 (lostThreshold wrapAcked) levels (wrapAcked, .init)
      (r.1.ctx .application).sent = [] ∧ PcgCollapse wrapConf ⟨5, 5, 5⟩ r.1 r.2 ∧
      ∀ p ∈ [lostEarly, lostLate], ∀ q ∈ [lostEarly, lostLate],
        (pcgDuration wrapConf r.1).toNat < q.sendTime.toNat - p.sendTime.toNat →
          p.sendTime ≤ ackedInfinite.sendTime ∧ ackedInfinite.sendTime ≤ q.sendTime :=
  ⟨rfl, rfl, by decide, by decide, by decide⟩

end NjtQuic
