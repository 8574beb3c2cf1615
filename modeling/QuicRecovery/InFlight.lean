import QuicRecovery.AckFrame
import QuicRecovery.Timer

/-!
# The bytes in flight

`congestion.in_flight` is kept by hand: the sender's commit adds a packet's
length, and every frame that leaves a `sent` queue through
`njt_quic_handle_ack_frame` (`njt_quic_congestion_ack`), the loss scan
(`njt_quic_congestion_lost` in `njt_quic_resend_frames`) or a probe of
`njt_quic_pto_handler` takes its own share off again.  The main result,
`inFlight_balance`, is the balance: in every state reached from a fresh
connection, `in_flight` is the sum of `plen` over the frames of the three
`sent` queues numbered at or above `rst_pnum` (`Conn.sentBytes`).  So every
frame `njt_quic_congestion_ack` or `njt_quic_congestion_lost` is called with
has its bytes in `in_flight`, the subtractions never go below zero, and a
frame's bytes leave `in_flight` exactly when the frame leaves `sent`.

The balance needs three facts of the queues, kept alongside it in
`InFlightInv`: every frame is numbered below its context's `pnum`; only the
first frame of a packet carries its length (`njt_quic_resend_frames` charges
a lost packet once, for its first frame, and takes all of its frames off);
and a context with frames in flight numbers its packets at or above
`rst_pnum`.
-/

namespace NjtQuic

variable {w : Nat}

/-! ## Counting bytes -/

/-- The bytes a frame stands for in `in_flight`: its `plen`, when its packet
number is at or above `rst_pnum`. -/
def Frame.bytes (rst : Nat) (f : Frame w) : Nat := if rst ≤ f.pnum then f.plen else 0

/-- The bytes a queue of frames stands for. -/
def queueBytes (rst : Nat) (s : List (Frame w)) : Nat := (s.map (Frame.bytes rst)).sum

@[simp] theorem queueBytes_nil (rst : Nat) : queueBytes rst ([] : List (Frame w)) = 0 := rfl

@[simp] theorem queueBytes_cons (rst : Nat) (f : Frame w) (s : List (Frame w)) :
    queueBytes rst (f :: s) = f.bytes rst + queueBytes rst s := by
  simp [queueBytes]

@[simp] theorem queueBytes_append (rst : Nat) (s t : List (Frame w)) :
    queueBytes rst (s ++ t) = queueBytes rst s + queueBytes rst t := by
  simp [queueBytes]

theorem le_queueBytes_of_mem {rst : Nat} {f : Frame w} :
    ∀ {s : List (Frame w)}, f ∈ s → f.bytes rst ≤ queueBytes rst s
  | _ :: _, .head _ => by simp
  | _ :: _, .tail _ h => by
    have : f.bytes rst ≤ queueBytes rst _ := le_queueBytes_of_mem h
    simp only [queueBytes_cons]; omega

theorem queueBytes_eq_zero {rst : Nat} :
    ∀ {s : List (Frame w)}, (∀ f ∈ s, f.plen = 0) → queueBytes rst s = 0
  | [], _ => rfl
  | f :: s, h => by
    rw [queueBytes_cons, queueBytes_eq_zero fun g hg => h g (.tail _ hg)]
    simp [Frame.bytes, h f (.head _)]

/-- The right-hand side of the balance: the bytes of the three `sent` queues. -/
def Conn.sentBytes (qc : Conn w) : Nat :=
  (levels.map fun l => queueBytes qc.rstPnum (qc.ctx l).sent).sum

/-- Changing the queue of one level changes `sentBytes` by the difference. -/
theorem Conn.sentBytes_update {qc qc' : Conn w} (l : Level) (hr : qc'.rstPnum = qc.rstPnum)
    (hs : ∀ m, m ≠ l → (qc'.ctx m).sent = (qc.ctx m).sent) :
    qc'.sentBytes + queueBytes qc.rstPnum (qc.ctx l).sent =
      qc.sentBytes + queueBytes qc.rstPnum (qc'.ctx l).sent := by
  cases l <;> simp [Conn.sentBytes, levels, hr, hs] <;> omega

/-- The guards of `njt_quic_congestion_ack` and `njt_quic_congestion_lost`
take exactly the frame's bytes off `in_flight`. -/
theorem ite_sub_plen_eq_sub_bytes (rst : Nat) (x : BitVec w) (f : Frame w) :
    (if f.plen = 0 ∨ f.pnum < rst then x else x - BitVec.ofNat w f.plen) =
      x - BitVec.ofNat w (f.bytes rst) := by
  unfold Frame.bytes
  by_cases h : rst ≤ f.pnum
  · rw [if_pos h]
    split_ifs with h1
    · rcases h1 with h1 | h1
      · simp [h1]
      · omega
    · rfl
  · rw [if_neg h, if_pos (.inr (by omega))]; simp

/-- What the controller takes off `in_flight` for an acknowledged frame, and
for the first frame of a lost packet: the frame's bytes, in `size_t`. -/
theorem congestionAck_inFlight_bytes (cf : Conf w) (rst : Nat) (now : BitVec w)
    (cg : Congestion w) (f : Frame w) :
    (congestionAck cf rst now cg f).1.inFlight = cg.inFlight - BitVec.ofNat w (f.bytes rst) := by
  rw [congestionAck_inFlight, ite_sub_plen_eq_sub_bytes]

theorem congestionLost_inFlight_bytes (cf : Conf w) (rst : Nat) (now : BitVec w)
    (cg : Congestion w) (f : Frame w) :
    (congestionLost cf rst now cg f).1.inFlight = cg.inFlight - BitVec.ofNat w (f.bytes rst) := by
  rw [congestionLost_inFlight, ite_sub_plen_eq_sub_bytes]

/-- When the bytes a step took off `in_flight` are the bytes that left the
queues, the balance carries over, modulo `2^w` as `size_t` keeps it. -/
theorem ofNat_balance {a a' : BitVec w} {S S' q q' : Nat} (h : a = BitVec.ofNat w S)
    (hS : S' + q = S + q') (ha : a' + BitVec.ofNat w q = a + BitVec.ofNat w q') :
    a' = BitVec.ofNat w S' := by
  have hb := congrArg (BitVec.ofNat w) hS
  rw [BitVec.ofNat_add, BitVec.ofNat_add, ← h] at hb
  exact add_right_cancel (ha.trans hb.symm)

/-! ## The invariant -/

/-- Only the first frame of each packet of a queue carries the packet's
length. -/
def FirstOnly (s : List (Frame w)) : Prop :=
  s.Pairwise fun f g => f.pnum = g.pnum → g.plen = 0

/-- The balance of `in_flight` (`I2`), in `size_t`, with the facts of the
queues it rests on. -/
structure InFlightInv (qc : Conn w) : Prop where
  inFlight : qc.congestion.inFlight = BitVec.ofNat w qc.sentBytes
  below : ∀ l, ∀ f ∈ (qc.ctx l).sent, f.pnum < (qc.ctx l).pnum
  firstOnly : ∀ l, FirstOnly (qc.ctx l).sent
  fromRst : ∀ l, (qc.ctx l).sent ≠ [] → qc.rstPnum ≤ (qc.ctx l).pnum

/-- A connection as it is created: in each context nothing sent, nothing
acknowledged and an empty range database; nothing in flight, the initial
window of ten datagrams, no slow-start threshold (`NJT_MAX_SIZE_T_VALUE`) and
no RTT sample. -/
structure Conn.Fresh (cf : Conf w) (qc : Conn w) : Prop where
  sent : ∀ l, (qc.ctx l).sent = []
  largestAck : ∀ l, (qc.ctx l).largestAck = unsetPn
  db : ∀ l, (qc.ctx l).db = .empty
  inFlight : qc.congestion.inFlight = 0
  window : qc.congestion.window = BitVec.ofNat w (10 * cf.maxUdpPayloadSize)
  ssthresh : qc.congestion.ssthresh = BitVec.allOnes w
  minRtt : qc.minRtt = timerInfinite w

/-- A fresh connection, with nothing in flight, keeps the balance. -/
theorem InFlightInv.fresh {cf : Conf w} {qc : Conn w} (h : qc.Fresh cf) : InFlightInv qc where
  inFlight := by simp [Conn.sentBytes, levels, h.sent, h.inFlight]
  below l := by simp [h.sent l]
  firstOnly l := by simp [FirstOnly, h.sent l]
  fromRst l hne := absurd (h.sent l) hne

/-- A step that keeps `rst_pnum`, moves no context's `pnum` back, takes frames
off the queue of one level only, and takes their bytes off `in_flight`, keeps
the balance. -/
theorem InFlightInv.update {qc qc' : Conn w} (l : Level) (h : InFlightInv qc)
    (hr : qc'.rstPnum = qc.rstPnum) (hp : ∀ m, (qc.ctx m).pnum ≤ (qc'.ctx m).pnum)
    (hs : ∀ m, m ≠ l → (qc'.ctx m).sent = (qc.ctx m).sent)
    (hsub : List.Sublist (qc'.ctx l).sent (qc.ctx l).sent)
    (hin : qc'.congestion.inFlight + BitVec.ofNat w (queueBytes qc.rstPnum (qc.ctx l).sent) =
      qc.congestion.inFlight + BitVec.ofNat w (queueBytes qc.rstPnum (qc'.ctx l).sent)) :
    InFlightInv qc' := by
  have hsub' : ∀ m, List.Sublist (qc'.ctx m).sent (qc.ctx m).sent := fun m => by
    by_cases hm : m = l
    · exact hm ▸ hsub
    · rw [hs m hm]
  refine ⟨?_, fun m f hf => lt_of_lt_of_le (h.below m f ((hsub' m).subset hf)) (hp m),
    fun m => (h.firstOnly m).sublist (hsub' m), fun m hne => hr ▸ (h.fromRst m ?_).trans (hp m)⟩
  · exact ofNat_balance h.inFlight (Conn.sentBytes_update l hr hs) hin
  · rintro he
    exact hne (List.eq_nil_of_sublist_nil (he ▸ hsub' m))

/-- A step that changes none of what the balance reads, but may move a
context's `pnum` on, keeps it. -/
theorem InFlightInv.congr {qc qc' : Conn w} (h : InFlightInv qc)
    (hi : qc'.congestion.inFlight = qc.congestion.inFlight) (hr : qc'.rstPnum = qc.rstPnum)
    (hp : ∀ m, (qc.ctx m).pnum ≤ (qc'.ctx m).pnum) (hs : ∀ m, (qc'.ctx m).sent = (qc.ctx m).sent) :
    InFlightInv qc' :=
  h.update .initial hr hp (fun m _ => hs m) (by rw [hs]) (by rw [hi, hs])

/-- No queue stands for more than the three together. -/
theorem Conn.queueBytes_le_sentBytes (qc : Conn w) (l : Level) :
    queueBytes qc.rstPnum (qc.ctx l).sent ≤ qc.sentBytes := by
  cases l <;> simp [Conn.sentBytes, levels] <;> omega

theorem ctx_pnum_modifyCtx_sent (qc : Conn w) (l m : Level) (s : List (Frame w)) :
    ((qc.modifyCtx l fun ctx => { ctx with sent := s }).ctx m).pnum = (qc.ctx m).pnum :=
  @Conn.proj_ctx_modifyCtx _ _ SendCtx.pnum (fun ctx => { ctx with sent := s }) (fun _ => rfl) qc l m

/-- Storing the queue a pass over level `l` kept: the pass left a sublist of
the queue, took exactly the bytes of what it took off `in_flight`, and left
everything else the balance reads alone. -/
theorem InFlightInv.storeSent {qc q1 : Conn w} (l : Level) {kept : List (Frame w)}
    (h : InFlightInv qc) (hr : q1.rstPnum = qc.rstPnum)
    (hctx : ∀ m, (q1.ctx m).sent = (qc.ctx m).sent ∧ (q1.ctx m).pnum = (qc.ctx m).pnum)
    (hsub : List.Sublist kept (qc.ctx l).sent)
    (hin : q1.congestion.inFlight + BitVec.ofNat w (queueBytes qc.rstPnum (qc.ctx l).sent) =
      qc.congestion.inFlight + BitVec.ofNat w (queueBytes qc.rstPnum kept)) :
    InFlightInv (q1.modifyCtx l fun ctx => { ctx with sent := kept }) := by
  refine h.update l (by simp [Conn.modifyCtx, hr]) (fun m => ?_) (fun m hm => ?_) ?_ ?_
  · rw [ctx_pnum_modifyCtx_sent, (hctx m).2]
  · rw [Conn.ctx_modifyCtx_of_ne _ _ hm, (hctx m).1]
  · rw [Conn.ctx_modifyCtx_self]; exact hsub
  · simpa [Conn.modifyCtx] using hin

/-! ## The loss scan -/

/-- The frames after a packet's first that share its number stand for no
bytes. -/
theorem queueBytes_takeWhile_same (rst p : Nat) :
    ∀ {s : List (Frame w)}, (∀ g ∈ s, g.pnum = p → g.plen = 0) →
      queueBytes rst (s.takeWhile (·.pnum = p)) = 0
  | [], _ => rfl
  | g :: s, h => by
    by_cases hg : g.pnum = p
    · rw [List.takeWhile_cons_of_pos (by simpa using hg), queueBytes_cons,
        queueBytes_takeWhile_same rst p fun x hx => h x (.tail _ hx)]
      simp [Frame.bytes, h g (.head _) hg]
    · rw [List.takeWhile_cons_of_neg (by simpa using hg)]; rfl

/-- The loss scan of one context takes a lost packet's bytes off `in_flight`
together with its frames: `njt_quic_congestion_lost` for its first frame, and
nothing for the others, which carry none. -/
theorem detectLostCtx_bytes (cf : Conf w) (now thr : BitVec w) (l : Level) (la : Nat) :
    ∀ (sent : List (Frame w)) (qc : Conn w) (ls : LossStat w) (R : BitVec w), FirstOnly sent →
      qc.congestion.inFlight = BitVec.ofNat w (queueBytes qc.rstPnum sent) + R →
      (detectLostCtx cf now thr l la sent qc ls).2.1.congestion.inFlight =
        BitVec.ofNat w (queueBytes qc.rstPnum (detectLostCtx cf now thr l la sent qc ls).1) + R := by
  intro sent qc ls
  induction sent, qc, ls using detectLostCtx.induct cf now thr l la with
  | case1 qc ls => intro R _ h; simpa [detectLostCtx] using h
  | case2 start rest qc ls hgt => intro R _ h; simpa [detectLostCtx, hgt] using h
  | case3 start rest qc ls hle hw => intro R _ h; simpa [detectLostCtx, hle, hw] using h
  | case4 start rest qc ls hle hw ls' r ih =>
    intro R hfo h
    obtain ⟨hrel, hrest⟩ := List.pairwise_cons.1 hfo
    obtain ⟨hc, -, hs⟩ := resendFrames_snd qc l cf now start rest
    have hsame : queueBytes qc.rstPnum (rest.takeWhile (·.pnum = start.pnum)) = 0 :=
      queueBytes_takeWhile_same _ _ fun g hg hp => hrel g hg hp.symm
    have hsplit := congrArg (queueBytes qc.rstPnum)
      (List.takeWhile_append_dropWhile (·.pnum = start.pnum) rest)
    rw [queueBytes_append, hsame, Nat.zero_add] at hsplit
    have hfo' : FirstOnly r.1 := by
      show FirstOnly (resendFrames cf now l start rest qc).1
      rw [resendFrames_fst]
      exact hrest.sublist (List.dropWhile_suffix _).sublist
    have hin : r.2.congestion.inFlight = BitVec.ofNat w (queueBytes r.2.rstPnum r.1) + R := by
      show (resendFrames cf now l start rest qc).2.congestion.inFlight =
        BitVec.ofNat w (queueBytes (resendFrames cf now l start rest qc).2.rstPnum
          (resendFrames cf now l start rest qc).1) + R
      rw [hc, congestionLost_inFlight_bytes, hs.rstPnum, resendFrames_fst, h, queueBytes_cons,
        hsplit, BitVec.ofNat_add]
      ring
    rw [detectLostCtx, if_neg hle, if_neg hw]
    exact (ih R hfo' hin).trans (by rw [hs.rstPnum]; rfl)

/-- The loop of `njt_quic_detect_lost` over the contexts keeps the balance. -/
theorem detectLostLevels_inv (cf : Conf w) (now thr : BitVec w) :
    ∀ (ls : List Level) (qc : Conn w) (st : LossStat w), InFlightInv qc →
      InFlightInv (detectLostLevels cf now thr ls (qc, st)).1
  | [], _, _, h => h
  | l :: ls, qc, st, h => by
    rw [detectLostLevels]
    split_ifs with hu
    · exact detectLostLevels_inv cf now thr ls qc st h
    · obtain ⟨hsuf, c3, c4⟩ :=
        detectLostCtx_frame cf now thr l (qc.ctx l).largestAck (qc.ctx l).sent qc st
      have hb := detectLostCtx_bytes cf now thr l (qc.ctx l).largestAck (qc.ctx l).sent qc st
        (qc.congestion.inFlight - BitVec.ofNat w (queueBytes qc.rstPnum (qc.ctx l).sent))
        (h.firstOnly l) (by ring)
      generalize detectLostCtx cf now thr l (qc.ctx l).largestAck (qc.ctx l).sent qc st = r
        at hsuf c3 c4 hb
      obtain ⟨sent, qc1, st1⟩ := r
      dsimp only at hsuf c3 c4 hb ⊢
      exact detectLostLevels_inv cf now thr ls _ st1 (h.storeSent l c4.rstPnum
        (fun m => ⟨c3 m, c4.pnum m⟩) hsuf.sublist (by rw [hb]; ring))

/-- `njt_quic_detect_lost` keeps the balance, whether it runs for an ACK frame
(and may collapse the window) or for the lost timer. -/
theorem detectLost_inv (cf : Conf w) (now : BitVec w) (st : Option (AckStat w)) {qc : Conn w}
    (h : InFlightInv qc) : InFlightInv (detectLost cf now st qc) := by
  have h1 := detectLostLevels_inv cf now (lostThreshold qc) levels qc LossStat.init h
  unfold detectLost
  generalize detectLostLevels cf now (lostThreshold qc) levels (qc, LossStat.init) = r at h1
  obtain ⟨q, ls⟩ := r
  dsimp only at h1 ⊢
  have hset : ∀ q' : Conn w, q'.congestion.inFlight = q.congestion.inFlight →
      q'.rstPnum = q.rstPnum → (∀ m, q'.ctx m = q.ctx m) → InFlightInv (setLostTimer cf now q') :=
    fun q' hi hr hc => h1.congr (by simpa using hi) (by simpa using hr) (fun m => by simp [hc m])
      (fun m => by simp [hc m])
  rcases st with _ | st
  · exact hset q rfl rfl fun _ => rfl
  · dsimp only
    split_ifs
    · exact hset _ rfl rfl fun m => Conn.ctx_with_congestion q _ m
    · exact hset q rfl rfl fun _ => rfl

theorem lostHandler_inv (cf : Conf w) (now : BitVec w) {qc : Conn w} (h : InFlightInv qc) :
    InFlightInv (lostHandler cf now qc) :=
  detectLost_inv cf now none h

/-! ## Acknowledgments -/

@[simp] theorem dropAckRanges_sent (pn : Nat) (ctx : SendCtx w) :
    (dropAckRanges pn ctx).sent = ctx.sent := by
  unfold dropAckRanges; split_ifs <;> rfl

@[simp] theorem dropAckRanges_pnum (pn : Nat) (ctx : SendCtx w) :
    (dropAckRanges pn ctx).pnum = ctx.pnum := by
  unfold dropAckRanges; split_ifs <;> rfl

/-- A change of every context that keeps its queue and does not move its
`pnum` back keeps the balance. -/
theorem InFlightInv.modifyCtx {qc : Conn w} (h : InFlightInv qc) (l : Level)
    (f : SendCtx w → SendCtx w) (hs : ∀ c, (f c).sent = c.sent) (hp : ∀ c, c.pnum ≤ (f c).pnum) :
    InFlightInv (qc.modifyCtx l f) := by
  refine h.congr (by simp [Conn.modifyCtx]) (by simp [Conn.modifyCtx]) (fun m => ?_) (fun m => ?_) <;>
    rw [Conn.ctx_modifyCtx] <;> split_ifs with hm
  · exact hm ▸ hp _
  · exact le_rfl
  · exact hm ▸ hs _
  · rfl

/-- Acknowledging one frame takes its bytes off `in_flight` and touches no
queue: the range database of an acknowledged ACK frame and the streams are
all it writes besides the controller. -/
theorem ackedFrame_flight (streamAck : Frame w → List (Nat × Stream) → List (Nat × Stream))
    (cf : Conf w) (now : BitVec w) (l : Level) (qc : Conn w) (f : Frame w) :
    (ackedFrame streamAck cf now l qc f).congestion.inFlight =
        qc.congestion.inFlight - BitVec.ofNat w (f.bytes qc.rstPnum) ∧
      (ackedFrame streamAck cf now l qc f).rstPnum = qc.rstPnum ∧
      ∀ m, ((ackedFrame streamAck cf now l qc f).ctx m).sent = (qc.ctx m).sent ∧
        ((ackedFrame streamAck cf now l qc f).ctx m).pnum = (qc.ctx m).pnum := by
  have hin := congestionAck_inFlight_bytes cf qc.rstPnum now qc.congestion f
  unfold ackedFrame
  generalize congestionAck cf qc.rstPnum now qc.congestion f = r at hin
  obtain ⟨cg, post⟩ := r
  dsimp only at hin ⊢
  split
  · refine ⟨by simpa [Conn.modifyCtx] using hin, by simp [Conn.modifyCtx], fun m => ?_⟩
    rw [Conn.ctx_modifyCtx]
    split_ifs with hm
    · subst hm
      simp only [dropAckRanges_sent, dropAckRanges_pnum]
      cases m <;> exact ⟨rfl, rfl⟩
    · cases m <;> exact ⟨rfl, rfl⟩
  all_goals exact ⟨hin, rfl, fun m => by cases m <;> exact ⟨rfl, rfl⟩⟩

/-- The walk of `njt_quic_handle_ack_frame_range` takes each acknowledged
frame's bytes off `in_flight` as it takes the frame off the queue, and leaves
the stored queues and packet numbers alone. -/
theorem ackRangeFrames_flight (streamAck : Frame w → List (Nat × Stream) → List (Nat × Stream))
    (cf : Conf w) (now : BitVec w) (l : Level) (min max : Nat) :
    ∀ (s : List (Frame w)) (qc : Conn w) (st : AckStat w) (found : Bool) (R : BitVec w),
      qc.congestion.inFlight = BitVec.ofNat w (queueBytes qc.rstPnum s) + R →
      (ackRangeFrames streamAck cf now l min max s (qc, st, found)).2.1.congestion.inFlight =
          BitVec.ofNat w (queueBytes qc.rstPnum
            (ackRangeFrames streamAck cf now l min max s (qc, st, found)).1) + R ∧
        (ackRangeFrames streamAck cf now l min max s (qc, st, found)).2.1.rstPnum = qc.rstPnum ∧
        List.Sublist (ackRangeFrames streamAck cf now l min max s (qc, st, found)).1 s ∧
        ∀ m, ((ackRangeFrames streamAck cf now l min max s (qc, st, found)).2.1.ctx m).sent =
            (qc.ctx m).sent ∧
          ((ackRangeFrames streamAck cf now l min max s (qc, st, found)).2.1.ctx m).pnum =
            (qc.ctx m).pnum
  | [], _, _, _, _, h => ⟨h, rfl, .slnil, fun _ => ⟨rfl, rfl⟩⟩
  | f :: fs, qc, st, found, R, h => by
    rw [queueBytes_cons, BitVec.ofNat_add] at h
    rw [ackRangeFrames]
    split_ifs with h1 h2
    · refine ⟨?_, rfl, .refl _, fun _ => ⟨rfl, rfl⟩⟩
      dsimp only; rw [queueBytes_cons, BitVec.ofNat_add, h]
    · -- acknowledged: its bytes leave with it
      obtain ⟨a1, a2, a3⟩ := ackedFrame_flight streamAck cf now l qc f
      obtain ⟨b1, b2, b3, b4⟩ := ackRangeFrames_flight streamAck cf now l min max fs _
        (st.note max f) true R (by rw [a1, a2, h]; ring)
      exact ⟨b1.trans (by rw [a2]), b2.trans a2, b3.cons f,
        fun m => ⟨(b4 m).1.trans (a3 m).1, (b4 m).2.trans (a3 m).2⟩⟩
    · -- below the range: it stays
      obtain ⟨b1, b2, b3, b4⟩ := ackRangeFrames_flight streamAck cf now l min max fs qc st found
        (BitVec.ofNat w (f.bytes qc.rstPnum) + R) (by rw [h]; ring)
      dsimp only
      exact ⟨by rw [b1, queueBytes_cons, BitVec.ofNat_add]; ring, b2, b3.cons₂ f, b4⟩

/-- `njt_quic_handle_ack_frame_range`, when it accepts its range, keeps the
balance. -/
theorem handleAckFrameRange_inv (streamAck : Frame w → List (Nat × Stream) → List (Nat × Stream))
    (cf : Conf w) (now : BitVec w) (l : Level) (min max : Nat) {qc qc' : Conn w}
    {st st' : AckStat w} (h : InFlightInv qc)
    (hok : handleAckFrameRange streamAck cf now l min max (qc, st) = .ok (qc', st')) :
    InFlightInv qc' := by
  obtain ⟨b1, b2, b3, b4⟩ := ackRangeFrames_flight streamAck cf now l min max (qc.ctx l).sent qc
    { st with maxPn := timerInfinite w } false
    (qc.congestion.inFlight - BitVec.ofNat w (queueBytes qc.rstPnum (qc.ctx l).sent)) (by ring)
  have hstore := h.storeSent l b2 b4 b3 (by rw [b1]; ring)
  unfold handleAckFrameRange at hok
  dsimp only at hok
  generalize ackRangeFrames streamAck cf now l min max (qc.ctx l).sent
    (qc, { st with maxPn := timerInfinite w }, false) = r at hstore hok
  obtain ⟨kept, q1, st1, found⟩ := r
  dsimp only at hok hstore
  split_ifs at hok <;> cases hok
  · exact hstore
  all_goals exact hstore.congr rfl rfl (fun m => by cases m <;> exact le_rfl) (fun m => by cases m <;> rfl)

/-- The decoding loop keeps whatever each accepted range keeps. -/
theorem ackRangesLoop_inv {σ : Type} (P : σ → Prop) (range : Nat → Nat → σ → Except AckError σ)
    (hr : ∀ min max s s', range min max s = .ok s' → P s → P s') :
    ∀ (min : Nat) (rs : List AckRange) (s s' : σ), ackRangesLoop range min rs s = .ok s' →
      P s → P s'
  | _, [], s, s', h, hp => by
    simp only [ackRangesLoop, Except.ok.injEq] at h
    exact h ▸ hp
  | min, r :: rs, s, s', h, hp => by
    unfold ackRangesLoop at h
    dsimp only at h
    split at h
    · exact absurd h (by simp)
    split at h
    · exact absurd h (by simp)
    split at h
    · exact absurd h (by simp)
    next s1 hs1 => exact ackRangesLoop_inv P range hr _ rs s1 s' h (hr _ _ _ _ hs1 hp)

theorem rttSample_flight (cf : Conf w) (now : BitVec w) (ack : AckFrame) (t : BitVec w)
    (qc : Conn w) :
    (rttSample cf now ack t qc).congestion = qc.congestion ∧
      (rttSample cf now ack t qc).rstPnum = qc.rstPnum ∧
      ∀ m, (rttSample cf now ack t qc).ctx m = qc.ctx m := by
  unfold rttSample
  dsimp only
  split <;> exact ⟨rfl, rfl, fun m => by cases m <;> rfl⟩

/-- `njt_quic_handle_ack_frame`, when it accepts the frame, keeps the
balance. -/
theorem handleAckFrame_inv (streamAck : Frame w → List (Nat × Stream) → List (Nat × Stream))
    (cf : Conf w) (now : BitVec w) (l : Level) (ack : AckFrame) {qc qc' : Conn w}
    (h : InFlightInv qc) (hok : handleAckFrame streamAck cf now l ack qc = .ok qc') :
    InFlightInv qc' := by
  have hrange : ∀ min max (s s' : Conn w × AckStat w),
      handleAckFrameRange streamAck cf now l min max s = .ok s' → InFlightInv s.1 →
        InFlightInv s'.1 := fun min max s s' hs hp => by
    obtain ⟨q, st⟩ := s; obtain ⟨q', st'⟩ := s'
    exact handleAckFrameRange_inv streamAck cf now l min max hp hs
  obtain ⟨q, st, qb, qc₁, st₁, hq, hb, hl, rfl⟩ := handleAckFrame_ok hok
  have h1 := hrange _ _ _ _ hq h
  refine detectLost_inv cf now _ (ackRangesLoop_inv (fun s => InFlightInv s.1) _ hrange _ _ _ _ hl ?_)
  -- the new `largest_ack` and the RTT sample touch neither queue nor controller
  have h3 := h1.modifyCtx l (fun ctx => { ctx with largestAck := ack.largest })
    (fun _ => rfl) (fun _ => le_rfl)
  rcases hb with rfl | rfl | ⟨-, rfl⟩
  · exact h1
  · exact h3
  · obtain ⟨r1, r2, r3⟩ := rttSample_flight cf now ack st.maxPn
      (q.modifyCtx l fun ctx => { ctx with largestAck := ack.largest })
    exact h3.congr (by rw [r1]) r2 (fun m => by rw [r3]) (fun m => by rw [r3])

/-! ## Probes and commits -/

/-- Committing one packet to level `l`: its frames, all numbered the context's
`pnum` and only the first carrying bytes, join `sent`, their bytes join
`in_flight`, and `pnum` moves on. -/
theorem InFlightInv.addPacket {qc qc' : Conn w} (l : Level) (fs : List (Frame w))
    (h : InFlightInv qc) (hrst : qc.rstPnum ≤ (qc.ctx l).pnum)
    (hfs : ∀ f ∈ fs, f.pnum = (qc.ctx l).pnum) (hfo : FirstOnly fs)
    (hr : qc'.rstPnum = qc.rstPnum) (hl : (qc'.ctx l).sent = (qc.ctx l).sent ++ fs)
    (hp : (qc'.ctx l).pnum = (qc.ctx l).pnum + 1) (hm : ∀ m, m ≠ l → qc'.ctx m = qc.ctx m)
    (hin : qc'.congestion.inFlight =
      qc.congestion.inFlight + BitVec.ofNat w (queueBytes qc.rstPnum fs)) :
    InFlightInv qc' := by
  refine ⟨ofNat_balance h.inFlight (Conn.sentBytes_update l hr fun m hm' => by rw [hm m hm'])
      (by rw [hin, hl, queueBytes_append, BitVec.ofNat_add]; ring),
    fun m => ?_, fun m => ?_, fun m => ?_⟩ <;> by_cases hml : m = l
  · subst hml
    rw [hl, hp]
    intro g hg
    rcases List.mem_append.1 hg with hg | hg
    · exact Nat.lt_succ_of_lt (h.below m g hg)
    · rw [hfs g hg]; exact Nat.lt_succ_self _
  · rw [hm m hml]; exact h.below m
  · subst hml
    rw [hl]
    refine List.pairwise_append.2 ⟨h.firstOnly m, hfo, fun a ha b hb hab => absurd hab ?_⟩
    have := h.below m a ha
    rw [hfs b hb]; omega
  · rw [hm m hml]; exact h.firstOnly m
  · subst hml
    intro _; rw [hr, hp]; omega
  · rw [hm m hml, hr]; exact h.fromRst m

theorem frameSendto_rstPnum (l : Level) (now : BitVec w) (len : Nat) (kind : FrameKind) (ic : Bool)
    (qc : Conn w) : (frameSendto l now len kind ic qc).rstPnum = qc.rstPnum := by
  simp only [frameSendto]; split_ifs <;> simp [Conn.modifyCtx]

/-- A frame sent on its own by `njt_quic_frame_sendto`, in a context numbering
at or above `rst_pnum`, keeps the balance. -/
theorem frameSendto_inv (l : Level) (now : BitVec w) (len : Nat) (kind : FrameKind) (ic : Bool)
    {qc : Conn w} (h : InFlightInv qc) (hrst : qc.rstPnum ≤ (qc.ctx l).pnum) :
    InFlightInv (frameSendto l now len kind ic qc) := by
  simp only [frameSendto]
  split_ifs
  · refine h.addPacket l [⟨(qc.ctx l).pnum, now, len, kind, ic⟩] hrst (by simp) (by simp [FirstOnly])
      (by simp [Conn.modifyCtx]) (by simp) (by simp) (fun m hm => by simp [hm])
      (by simp [Conn.modifyCtx, Frame.bytes, hrst])
  · exact h.modifyCtx l _ (fun _ => rfl) (fun _ => Nat.le_succ _)

theorem sent_ne_nil_of_ptoDue {cf : Conf w} {now : BitVec w} {qc : Conn w} {l : Level}
    (h : ptoDue cf now qc l = true) : (qc.ctx l).sent ≠ [] := by
  intro hs
  simp [ptoDue, hs] at h

/-- `njt_quic_pto_handler` keeps the balance: it probes only contexts with
frames in flight, which number their packets at or above `rst_pnum`. -/
theorem ptoHandler_inv (cf : Conf w) (now : BitVec w) (len : Nat) {qc : Conn w}
    (h : InFlightInv qc) : InFlightInv (ptoHandler cf now len qc) := by
  have h1 := ptoProbes_induction (fun q => InFlightInv q ∧ q.rstPnum = qc.rstPnum ∧
      ∀ m, (qc.ctx m).pnum ≤ (q.ctx m).pnum) (ptoDue cf now qc) now len
    (fun q m hd ⟨hq, hr, hp⟩ => by
      have hm : q.rstPnum ≤ (q.ctx m).pnum :=
        hr ▸ (h.fromRst m (sent_ne_nil_of_ptoDue hd)).trans (hp m)
      refine ⟨frameSendto_inv m now len .ping true (frameSendto_inv m now len .ping true hq hm) ?_,
        ?_, fun k => (hp k).trans ?_⟩
      · rw [frameSendto_rstPnum, frameSendto_pnum]; omega
      · rw [frameSendto_rstPnum, frameSendto_rstPnum, hr]
      · rw [frameSendto_pnum, frameSendto_pnum]; omega)
    levels qc ⟨h, rfl, fun _ => le_rfl⟩
  unfold ptoHandler
  exact h1.1.congr (by simp) (by simp) (fun m => by simp) (fun m => by simp)

/-! ## The sender's commit and the runs of a connection -/

/-- Modelled from the spec: the sender's record of one ack-eliciting packet of
level `l` on the wire (`njt_quic_commit_send`, outside src).  Its frames, of
kinds `k :: ks`, get the context's `pnum` and the send time `now`; the first
carries the packet's length `len` and the others none; they join `sent`, `len`
joins `in_flight`, and `pnum` moves on. -/
def commitPacket (l : Level) (now : BitVec w) (len : Nat) (k : FrameKind) (ks : List FrameKind)
    (qc : Conn w) : Conn w :=
  let pnum := (qc.ctx l).pnum
  let fs : List (Frame w) := ⟨pnum, now, len, k, false⟩ :: ks.map fun k => ⟨pnum, now, 0, k, false⟩
  { qc with congestion := { qc.congestion with
      inFlight := qc.congestion.inFlight + BitVec.ofNat w len } }.modifyCtx
    l fun ctx => { ctx with sent := ctx.sent ++ fs, pnum := ctx.pnum + 1 }

/-- A commit into a context numbering at or above `rst_pnum` keeps the
balance. -/
theorem commitPacket_inv (l : Level) (now : BitVec w) (len : Nat) (k : FrameKind)
    (ks : List FrameKind) {qc : Conn w} (h : InFlightInv qc) (hrst : qc.rstPnum ≤ (qc.ctx l).pnum) :
    InFlightInv (commitPacket l now len k ks qc) := by
  have hrest : ∀ g ∈ ks.map (fun k => (⟨(qc.ctx l).pnum, now, 0, k, false⟩ : Frame w)), g.plen = 0 := by
    simp
  refine h.addPacket l (⟨(qc.ctx l).pnum, now, len, k, false⟩ :: ks.map fun k =>
      ⟨(qc.ctx l).pnum, now, 0, k, false⟩) hrst (by simp) ?_ (by simp [commitPacket, Conn.modifyCtx])
    (by simp [commitPacket]) (by simp [commitPacket]) (fun m hm => by simp [commitPacket, hm]) ?_
  · exact List.pairwise_cons.2 ⟨fun g hg _ => hrest g hg,
      List.pairwise_of_forall_mem_list fun _ _ b hb _ => hrest b hb⟩
  · simp [commitPacket, Conn.modifyCtx, queueBytes_eq_zero hrest, Frame.bytes, hrst]

/-- The states a connection reaches from a fresh one by the sender's commits,
the three handlers of this code on the sending side, none of which moves
`rst_pnum` (an accepted ACK frame, the lost timer and the PTO timer), and the
receiving side: packets recorded by `njt_quic_ack_packet`, with numbers below
2^62, and `njt_quic_generate_ack`.  A commit numbers its packet at or above
`rst_pnum`: `rst_pnum` is taken from the application context's next number
when the path is reset, and the other contexts, discarded by then, send
nothing more. -/
inductive Conn.Reachable (cf : Conf w) : Conn w → Prop where
  | fresh {qc : Conn w} : qc.Fresh cf → Conn.Reachable cf qc
  | commit {qc : Conn w} (l : Level) (now : BitVec w) (len : Nat) (k : FrameKind)
      (ks : List FrameKind) : Conn.Reachable cf qc → qc.rstPnum ≤ (qc.ctx l).pnum →
      Conn.Reachable cf (commitPacket l now len k ks qc)
  | ack {qc qc' : Conn w} (streamAck : Frame w → List (Nat × Stream) → List (Nat × Stream))
      (now : BitVec w) (l : Level) (ack : AckFrame) : Conn.Reachable cf qc →
      handleAckFrame streamAck cf now l ack qc = .ok qc' → Conn.Reachable cf qc'
  | lost {qc : Conn w} (now : BitVec w) : Conn.Reachable cf qc →
      Conn.Reachable cf (lostHandler cf now qc)
  | pto {qc : Conn w} (now : BitVec w) (probeLen : Nat) : Conn.Reachable cf qc →
      Conn.Reachable cf (ptoHandler cf now probeLen qc)
  | recv {qc : Conn w} (keys : Bool) (now : BitVec w) (pkt : Header w) : Conn.Reachable cf qc →
      pkt.pn < 2 ^ 62 → Conn.Reachable cf (ackPacket cf keys now pkt qc)
  | generate {qc : Conn w} (now : BitVec w) (l : Level) : Conn.Reachable cf qc →
      Conn.Reachable cf (generateAck cf now l qc)

/-- The receiving side keeps the balance: it touches neither queue nor
controller. -/
theorem InFlightInv.receiverOnly {l : Level} {qc qc' : Conn w} (h : InFlightInv qc)
    (hs : qc.ReceiverOnly l qc') :
    InFlightInv qc' :=
  h.congr (by rw [hs.congestion]) hs.rstPnum (fun m => (hs.pnum m).ge) hs.sent

theorem Conn.Reachable.inv {cf : Conf w} {qc : Conn w} (r : qc.Reachable cf) : InFlightInv qc := by
  induction r with
  | fresh h => exact .fresh h
  | commit l now len k ks _ hrst ih => exact commitPacket_inv l now len k ks ih hrst
  | ack streamAck now l ack _ hok ih => exact handleAckFrame_inv streamAck cf now l ack ih hok
  | lost now _ ih => exact lostHandler_inv cf now ih
  | pto now probeLen _ ih => exact ptoHandler_inv cf now probeLen ih
  | recv keys now pkt _ _ ih => exact ih.receiverOnly (ackPacket_receiverOnly now _ cf keys pkt)
  | generate now l _ ih => exact ih.receiverOnly (generateAck_receiverOnly now l _ cf)

/-- A connection of a 64-bit build as it is created, with a path MTU of 1200
bytes. -/
def newConn : Conn 64 :=
  { (default : Conn 64) with
    congestion := ⟨12000, BitVec.allOnes 64, 0, 0⟩
    minRtt := timerInfinite 64
    initial := { (default : SendCtx 64) with largestAck := unsetPn, db := .empty }
    handshake := { (default : SendCtx 64) with largestAck := unsetPn, db := .empty }
    application := { (default : SendCtx 64) with largestAck := unsetPn, db := .empty } }

/-- The configuration of `newConn`. -/
def newConf : Conf 64 := { (default : Conf 64) with maxUdpPayloadSize := 1200, maxRanges := 7 }

theorem newConn_fresh : newConn.Fresh newConf :=
  ⟨fun l => by cases l <;> rfl, fun l => by cases l <;> rfl, fun l => by cases l <;> rfl,
    rfl, rfl, rfl, rfl⟩

end NjtQuic
