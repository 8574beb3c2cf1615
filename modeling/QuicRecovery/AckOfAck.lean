import QuicRecovery.Order
import QuicRecovery.Retransmit

/-!
# Acknowledged acknowledgments

The sending and the receiving side of a context meet in
`njt_quic_handle_ack_frame_range`: when the peer acknowledges a packet that
carried one of our ACK frames, `njt_quic_drop_ack_ranges` lets the range
database forget every number up to that frame's largest one, which the peer
now knows we received (RFC 9000, 13.2.4).

* `Conn.Reachable.ackFrame_prunes_db`: in every state a connection reaches,
  an ACK frame for level `l` that `njt_quic_handle_ack_frame` accepts leaves
  in the database of level `l` exactly the numbers it held that lie above the
  largest number of every ACK frame it acknowledged, and leaves the databases
  of the other levels as they were.
-/

namespace NjtQuic

variable {w : Nat}

/-! ## What the loss machinery does not touch -/

@[simp] theorem resendFrame_db (l : Level) (qc : Conn w) (f : Frame w) (m : Level) :
    ((resendFrame l qc f).ctx m).db = (qc.ctx m).db := by
  unfold resendFrame
  repeat' split
  all_goals simp [queueFrame, Conn.proj_ctx_modifyCtx SendCtx.db]

/-- Loss detection leaves every range database alone. -/
theorem detectLost_db (cf : Conf w) (now : BitVec w) (st : Option (AckStat w)) (qc : Conn w)
    (m : Level) : ((detectLost cf now st qc).ctx m).db = (qc.ctx m).db :=
  detectLost_keeps (fun q => (q.ctx m).db) cf now (fun l q f => resendFrame_db l q f m)
    (fun _ _ _ => by cases m <;> rfl)
    (fun q l s => Conn.proj_ctx_modifyCtx SendCtx.db
      (fun c => (rfl : ({ c with sent := s } : SendCtx w).db = c.db)) q l m)
    (fun q => by simp) st qc

theorem commitPacket_db (l : Level) (now : BitVec w) (len : Nat) (k : FrameKind)
    (ks : List FrameKind) (qc : Conn w) (m : Level) :
    ((commitPacket l now len k ks qc).ctx m).db = (qc.ctx m).db := by
  unfold commitPacket
  cases l <;> cases m <;> rfl

theorem frameSendto_db (l : Level) (now : BitVec w) (len : Nat) (kind : FrameKind) (ic : Bool)
    (qc : Conn w) (m : Level) : ((frameSendto l now len kind ic qc).ctx m).db = (qc.ctx m).db := by
  unfold frameSendto
  dsimp only
  split <;> cases l <;> cases m <;> rfl

/-- The probes of `njt_quic_pto_handler` leave every range database alone. -/
theorem ptoHandler_db (cf : Conf w) (now : BitVec w) (len : Nat) (qc : Conn w) (m : Level) :
    ((ptoHandler cf now len qc).ctx m).db = (qc.ctx m).db := by
  have h1 := ptoProbes_induction (fun q => (q.ctx m).db = (qc.ctx m).db) (ptoDue cf now qc) now len
    (fun q l _ hq => by simp only [frameSendto_db, hq]) levels qc rfl
  unfold ptoHandler
  simpa using h1

/-! ## Databases that fit in `njt_uint_t` -/

/-- A well-formed database whose numbers all fit in `w` bits, as the
`njt_uint_t` locals of `njt_quic_drop_ack_ranges` hold them. -/
structure RangeDb.Fit (w maxRanges : Nat) (db : RangeDb) : Prop where
  wf : db.WF maxRanges
  lt : ∀ x, db.Acked x → x < 2 ^ w

section Fit

variable {mr : Nat} {db : RangeDb}

theorem RangeDb.fit_empty (w mr : Nat) : RangeDb.empty.Fit w mr :=
  ⟨RangeDb.wf_empty mr, fun x hx => absurd hx (RangeDb.not_acked_of_unset rfl x)⟩

theorem RangeDb.Fit.largestRange_lt (h : db.Fit w mr) :
    db.largestRange ≠ unsetPn → db.largestRange < 2 ^ w :=
  fun hu => h.lt _ (RangeDb.acked_largestRange hu)

theorem RangeDb.Fit.dropAckRanges (h : db.Fit w mr) (pn : Nat) : (db.dropAckRanges w pn).Fit w mr :=
  ⟨h.wf.dropAckRanges w pn, fun x hx => h.lt x (RangeDb.acked_of_dropAckRanges h.wf w pn x hx).1⟩

theorem RangeDb.Fit.acked_dropAckRanges (h : db.Fit w mr) (pn x : Nat) :
    (db.dropAckRanges w pn).Acked x ↔ db.Acked x ∧ pn < x :=
  RangeDb.acked_dropAckRanges h.wf h.largestRange_lt pn x

/-- Recording a packet number keeps the database fitting, on a 64-bit build. -/
theorem RangeDb.Fit.record (hw : 62 ≤ w) (h : db.Fit w mr) {pn : Nat} (hpn : pn < 2 ^ 62) :
    (db.record mr pn).Fit w mr := by
  have h62 : 2 ^ 62 ≤ 2 ^ w := Nat.pow_le_pow_right (by decide) hw
  have hs := RangeDb.record_spec h.wf (lt_of_lt_of_le hpn (by decide))
  refine ⟨hs.wf, fun x hx => ?_⟩
  have hor : db.Acked x ∨ x = pn := by
    by_cases hr : db.HasRoom mr pn
    · exact (hs.adds hr x).1 hx
    by_cases hi : db.largestRange ≠ unsetPn ∧ pn + 1 < db.smallest
    · exact .inl ((hs.ignores hr hi.1 hi.2 x).1 hx)
    · exact ((hs.evicts hr hi x).1 hx).1
  rcases hor with hx | rfl
  · exact h.lt x hx
  · omega

end Fit

/-- What one range asks of the frames it takes, and the later ranges of the
frames it leaves, is what all of them ask of the frames any of them takes. -/
theorem forall_filter_split {α : Type} (s : List α) (p : α → Prop) [DecidablePred p]
    (r q : α → Prop) :
    ((∀ f ∈ s, p f → q f) ∧ ∀ f ∈ s.filter (fun f => !decide (p f)), r f → q f) ↔
      ∀ f ∈ s, p f ∨ r f → q f := by
  refine ⟨fun ⟨hin, hout⟩ f hf hpr => ?_, fun h =>
    ⟨fun f hf hp => h f hf (.inl hp), fun f hf hr => h f (List.mem_filter.1 hf).1 (.inr hr)⟩⟩
  by_cases hp : p f
  · exact hin f hf hp
  · exact hout f (List.mem_filter.2 ⟨hf, by simpa using hp⟩) (hpr.resolve_left hp)

section Ack

variable (streamAck : Frame w → List (Nat × Stream) → List (Nat × Stream)) (cf : Conf w)
  (now : BitVec w) (l : Level)

/-! ## One acknowledged frame -/

/-- An acknowledged ACK frame of level `l` drops the numbers up to its largest
one from the database of level `l`; no frame touches another level's
database. -/
theorem ackedFrame_db {mr : Nat} (qc : Conn w) (f : Frame w) (hd : (qc.ctx l).db.Fit w mr) :
    ((ackedFrame streamAck cf now l qc f).ctx l).db.Fit w mr ∧
    (∀ x, ((ackedFrame streamAck cf now l qc f).ctx l).db.Acked x ↔
      (qc.ctx l).db.Acked x ∧ ∀ a, f.kind = .ack a → a.largest < x) ∧
    ∀ m, m ≠ l → ((ackedFrame streamAck cf now l qc f).ctx m).db = (qc.ctx m).db := by
  unfold ackedFrame
  generalize congestionAck cf qc.rstPnum now qc.congestion f = r
  obtain ⟨cg, post⟩ := r
  have hc : ∀ m, ({ qc with congestion := cg, pushPosted := qc.pushPosted || post } : Conn w).ctx m =
      qc.ctx m := fun m => by cases m <;> rfl
  have hs : ∀ m ss, ({ qc with
      congestion := cg, pushPosted := qc.pushPosted || post, streams := ss } : Conn w).ctx m =
      qc.ctx m := fun m _ => by cases m <;> rfl
  cases hk : f.kind <;>
    exact ⟨by simp [hc, hs, hd, hd.dropAckRanges], fun x => by simp [hc, hs, hd.acked_dropAckRanges],
      fun m hm => by simp [hc, hs, hm]⟩

theorem foldl_ackedFrame_db {mr : Nat} : ∀ (fs : List (Frame w)) (qc : Conn w),
    (qc.ctx l).db.Fit w mr →
    ((fs.foldl (ackedFrame streamAck cf now l) qc).ctx l).db.Fit w mr ∧
    (∀ x, ((fs.foldl (ackedFrame streamAck cf now l) qc).ctx l).db.Acked x ↔
      (qc.ctx l).db.Acked x ∧ ∀ f ∈ fs, ∀ a, f.kind = .ack a → a.largest < x) ∧
    ∀ m, m ≠ l → ((fs.foldl (ackedFrame streamAck cf now l) qc).ctx m).db = (qc.ctx m).db
  | [], _, hd => ⟨hd, fun _ => by simp, fun _ _ => rfl⟩
  | f :: fs, qc, hd => by
    obtain ⟨a0, a1, a2⟩ := ackedFrame_db streamAck cf now l qc f hd
    obtain ⟨h0, h1, h2⟩ := foldl_ackedFrame_db fs (ackedFrame streamAck cf now l qc f) a0
    refine ⟨h0, fun x => ?_, fun m hm => (h2 m hm).trans (a2 m hm)⟩
    rw [List.foldl_cons, h1, a1]
    simp only [List.mem_cons, forall_eq_or_imp, and_assoc]

/-! ## One range, then all of them -/

variable {min max : Nat}

theorem handleAckFrameRange_db {qc qc' : Conn w} {st st' : AckStat w}
    (h : handleAckFrameRange streamAck cf now l min max (qc, st) = .ok (qc', st')) (m : Level) :
    (qc'.ctx m).db = ((ackRangeFrames streamAck cf now l min max (qc.ctx l).sent
      (qc, { st with maxPn := timerInfinite w }, false)).2.1.ctx m).db := by
  unfold handleAckFrameRange at h
  dsimp only at h
  generalize ackRangeFrames streamAck cf now l min max (qc.ctx l).sent
    (qc, { st with maxPn := timerInfinite w }, false) = r at h ⊢
  obtain ⟨kept, q1, st1, found⟩ := r
  dsimp only at h ⊢
  split_ifs at h <;> cases h <;> cases l <;> cases m <;> rfl

/-- On an ordered queue, a range `[min, max]` drops from the database of level
`l` the numbers up to the largest number of every ACK frame it acknowledges. -/
theorem handleAckFrameRange_acked {mr : Nat} {qc qc' : Conn w} {st st' : AckStat w}
    (hord : (qc.ctx l).sent.Pairwise (·.pnum ≤ ·.pnum)) (hd : (qc.ctx l).db.Fit w mr)
    (h : handleAckFrameRange streamAck cf now l min max (qc, st) = .ok (qc', st')) :
    (qc'.ctx l).db.Fit w mr ∧
    (∀ x, (qc'.ctx l).db.Acked x ↔ (qc.ctx l).db.Acked x ∧
      ∀ f ∈ (qc.ctx l).sent, min ≤ f.pnum ∧ f.pnum ≤ max → ∀ a, f.kind = .ack a → a.largest < x) ∧
    ∀ m, m ≠ l → (qc'.ctx m).db = (qc.ctx m).db := by
  have hw := ackRangeFrames_eq streamAck cf now l min max _ qc
    { st with maxPn := timerInfinite w } false hord
  obtain ⟨h0, h1, h2⟩ := foldl_ackedFrame_db streamAck cf now l
    ((qc.ctx l).sent.filter fun f => decide (min ≤ f.pnum ∧ f.pnum ≤ max)) qc hd
  refine ⟨?_, fun x => ?_, fun m hm => ?_⟩
  · rw [handleAckFrameRange_db streamAck cf now l h, hw]; exact h0
  · rw [handleAckFrameRange_db streamAck cf now l h, hw, h1]
    simp only [List.mem_filter, decide_eq_true_eq, and_imp]
  · rw [handleAckFrameRange_db streamAck cf now l h, hw, h2 m hm]

/-- The decoded ranges after the first, on an ordered queue. -/
theorem processDecoded_acked {mr : Nat} :
    ∀ (ivs : List (Int × Int)) (q q' : Conn w) (st st' : AckStat w),
    (q.ctx l).sent.Pairwise (·.pnum ≤ ·.pnum) → (q.ctx l).db.Fit w mr →
    processDecoded (handleAckFrameRange streamAck cf now l) ivs (q, st) = .ok (q', st') →
    (q'.ctx l).db.Fit w mr ∧
    (∀ x, (q'.ctx l).db.Acked x ↔ (q.ctx l).db.Acked x ∧ ∀ f ∈ (q.ctx l).sent,
      (ivs.any fun iv => decide (iv.1 ≤ f.pnum ∧ (f.pnum : Int) ≤ iv.2)) = true →
        ∀ a, f.kind = .ack a → a.largest < x) ∧
    ∀ m, m ≠ l → (q'.ctx m).db = (q.ctx m).db
  | [], q, q', st, st', _, hd, h => by
    cases h
    exact ⟨hd, fun x => by simp, fun _ _ => rfl⟩
  | (lo, hi) :: ivs, q, q', st, st', hord, hd, h => by
    unfold processDecoded at h
    split_ifs at h with hneg
    rcases hr : handleAckFrameRange streamAck cf now l lo.toNat hi.toNat (q, st) with e | ⟨q1, st1⟩ <;>
      rw [hr] at h
    · cases h
    obtain ⟨a0, a1, a2⟩ := handleAckFrameRange_acked streamAck cf now l hord hd hr
    obtain ⟨t1, -, -⟩ := handleAckFrameRange_takes streamAck cf now l _ _ hord hr
    obtain ⟨ih0, ih1, ih2⟩ := processDecoded_acked ivs q1 q' st1 st' (t1 ▸ hord.filter _) a0 h
    refine ⟨ih0, fun x => ?_, fun m hm => (ih2 m hm).trans (a2 m hm)⟩
    rw [ih1, a1, t1, and_assoc]
    refine and_congr_right fun _ => (forall_filter_split _ _ _ _).trans
      (forall₂_congr fun f _ => imp_congr_left ?_)
    simp only [List.any_cons, Bool.or_eq_true, decide_eq_true_eq]
    exact or_congr_left (by omega)

/-! ## The whole frame -/

theorem ackLargest_ctx_db {ack : AckFrame} {qa qb : Conn w} {sa : AckStat w}
    (hb : qb = qa ∨ qb = qa.modifyCtx l (fun ctx => { ctx with largestAck := ack.largest }) ∨
      sa.maxPn ≠ timerInfinite w ∧ qb = rttSample cf now ack sa.maxPn
        (qa.modifyCtx l fun ctx => { ctx with largestAck := ack.largest })) (m : Level) :
    (qb.ctx m).db = (qa.ctx m).db := by
  have hlargest := Conn.proj_ctx_modifyCtx SendCtx.db
    (fun c => (rfl : ({ c with largestAck := ack.largest } : SendCtx w).db = c.db)) qa l m
  rcases hb with rfl | rfl | ⟨-, rfl⟩
  · rfl
  · exact hlargest
  · rw [(rttSample_flight cf now ack _ _).2.2 m]
    exact hlargest

/-- An accepted ACK frame for level `l`, on an ordered queue, leaves in the
database of level `l` the numbers it held above the largest number of every
ACK frame in the packets it acknowledges, and leaves the other levels'
databases as they were. -/
theorem handleAckFrame_db {mr : Nat} {ack : AckFrame} {qc qc' : Conn w}
    (hord : (qc.ctx l).sent.Pairwise (·.pnum ≤ ·.pnum)) (hd : (qc.ctx l).db.Fit w mr)
    (h : handleAckFrame streamAck cf now l ack qc = .ok qc') :
    (qc'.ctx l).db.Fit w mr ∧
    (∀ x, (qc'.ctx l).db.Acked x ↔ (qc.ctx l).db.Acked x ∧
      ∀ f ∈ (qc.ctx l).sent, ackedBy ack f.pnum = true → ∀ a, f.kind = .ack a → a.largest < x) ∧
    ∀ m, m ≠ l → (qc'.ctx m).db = (qc.ctx m).db := by
  obtain ⟨qa, sa, qb, qc₁, st, h1, hb, hl, rfl⟩ := handleAckFrame_ok h
  obtain ⟨a0, a1, a2⟩ := handleAckFrameRange_acked streamAck cf now l hord hd h1
  obtain ⟨t1, -, -⟩ := handleAckFrameRange_takes streamAck cf now l _ _ hord h1
  have hdb := ackLargest_ctx_db cf now l hb
  have hsent : (qb.ctx l).sent = (qa.ctx l).sent := (ackLargest_ctx_sent cf now l hb l).1
  rw [ackRangesLoop_eq_processDecoded] at hl
  obtain ⟨b0, b1, b2⟩ := processDecoded_acked streamAck cf now l _ qb qc₁ sa st
    (by rw [hsent, t1]; exact hord.filter _) (by rw [hdb]; exact a0) hl
  refine ⟨by rw [detectLost_db]; exact b0, fun x => ?_,
    fun m hm => by rw [detectLost_db, b2 m hm, hdb, a2 m hm]⟩
  rw [detectLost_db, b1, hdb, a1, hsent, t1, and_assoc]
  refine and_congr_right fun _ => (forall_filter_split _ _ _ _).trans
    (forall₂_congr fun f _ => imp_congr_left ?_)
  simp only [ackedBy, Bool.or_eq_true, decide_eq_true_eq]

end Ack

/-- On a 64-bit build, every range database of a reachable connection fits in
`njt_uint_t`: it starts empty, `njt_quic_ack_packet` records numbers below
2^62, and drops only remove numbers. -/
theorem Conn.Reachable.dbFit (hw : 62 ≤ w) {cf : Conf w} {qc : Conn w} (r : qc.Reachable cf)
    (m : Level) : (qc.ctx m).db.Fit w cf.maxRanges := by
  induction r generalizing m with
  | fresh h => rw [h.db m]; exact RangeDb.fit_empty w _
  | commit l now len k ks _ _ ih => rw [commitPacket_db]; exact ih m
  | @ack q q' streamAck now l ack r' hok ih =>
    obtain ⟨h0, -, h2⟩ := handleAckFrame_db streamAck cf now l
      ((r'.queueOrdered l).1.imp fun h => h.1) (ih l) hok
    by_cases hm : m = l
    · subst hm; exact h0
    · rw [h2 m hm]; exact ih m
  | lost now _ ih => rw [lostHandler, detectLost_db]; exact ih m
  | pto now probeLen _ ih => rw [ptoHandler_db]; exact ih m
  | @recv q keys now pkt _ hpn ih =>
    by_cases hm : m = pkt.level
    · subst hm
      cases keys
      · simpa [ackPacket] using ih pkt.level
      · rw [ackPacket_db]; exact (ih pkt.level).record hw hpn
    · rw [(ackPacket_receiverOnly now q cf keys pkt).others m hm]; exact ih m
  | generate now l _ ih => rw [generateAck_db]; exact ih m

section Ack

variable (streamAck : Frame w → List (Nat × Stream) → List (Nat × Stream)) (cf : Conf w)
  (now : BitVec w) (l : Level)

/-- **An acknowledged ACK frame is not acknowledged again.**  In every state a
connection of a 64-bit build reaches, an ACK frame for level `l` that
`njt_quic_handle_ack_frame` accepts leaves in the range database of level `l`
exactly the numbers it held above the largest number of every ACK frame in the
packets it acknowledges, and leaves the other levels' databases as they
were. -/
theorem Conn.Reachable.ackFrame_prunes_db (hw : 62 ≤ w) {ack : AckFrame} {qc qc' : Conn w}
    (r : qc.Reachable cf) (h : handleAckFrame streamAck cf now l ack qc = .ok qc') :
    (∀ x, (qc'.ctx l).db.Acked x ↔ (qc.ctx l).db.Acked x ∧
      ∀ f ∈ (qc.ctx l).sent, ackedBy ack f.pnum = true → ∀ a, f.kind = .ack a → a.largest < x) ∧
    ∀ m, m ≠ l → (qc'.ctx m).db = (qc.ctx m).db :=
  (handleAckFrame_db streamAck cf now l ((r.queueOrdered l).1.imp fun h => h.1) (r.dbFit hw l) h).2

/-- Packet 0 of the peer arrives; our packet 0 carries a PING and an ACK frame
for it; when the peer acknowledges our packet 0, its number 0 leaves the
database. -/
theorem ackFrame_prunes_db_ackOfAck :
    let qc : Conn 64 := commitPacket .application 0 1200 .ping [.ack ⟨0, 0, 0, []⟩]
      (ackPacket newConf true 0 ⟨.application, 0, true, 0⟩ newConn)
    62 ≤ 64 ∧ qc.Reachable newConf ∧ ∃ qc', handleAckFrame (fun _ s => s) newConf 10 .application
      ⟨0, 0, 0, []⟩ qc = .ok qc' ∧
      (∀ x, (qc'.ctx .application).db.Acked x ↔ (qc.ctx .application).db.Acked x ∧
        ∀ f ∈ (qc.ctx .application).sent, ackedBy ⟨0, 0, 0, []⟩ f.pnum = true →
          ∀ a, f.kind = .ack a → a.largest < x) ∧
      ∀ m, m ≠ .application → (qc'.ctx m).db = (qc.ctx m).db :=
  have r : (commitPacket .application 0 1200 .ping [.ack ⟨0, 0, 0, []⟩]
      (ackPacket newConf true 0 ⟨.application, 0, true, 0⟩ newConn)).Reachable newConf :=
    .commit .application 0 1200 .ping [.ack ⟨0, 0, 0, []⟩]
      (.recv true 0 ⟨.application, 0, true, 0⟩ (.fresh newConn_fresh) (by decide)) (Nat.zero_le _)
  ⟨by decide, r, _, rfl,
    Conn.Reachable.ackFrame_prunes_db (fun _ s => s) newConf 10 .application (by decide) r rfl⟩

/-- Before the acknowledgment the database held 0; after it, nothing. -/
example : ((commitPacket .application 0 1200 .ping [.ack ⟨0, 0, 0, []⟩]
    (ackPacket newConf true 0 ⟨.application, 0, true, 0⟩ newConn)).ctx .application).db.blocks =
      [(0, 0)] ∧
    ((handleAckFrame (fun _ s => s) newConf 10 .application ⟨0, 0, 0, []⟩
      (commitPacket .application 0 1200 .ping [.ack ⟨0, 0, 0, []⟩]
        (ackPacket newConf true 0 ⟨.application, 0, true, 0⟩ newConn))).toOption.map
      fun qc => (qc.ctx .application).db.blocks) = some [] := by
  decide

end Ack

end NjtQuic
