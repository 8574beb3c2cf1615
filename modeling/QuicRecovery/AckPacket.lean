import QuicRecovery.RangeDb

/-!
# Recording received packets: `njt_quic_ack_packet`

Every received packet is recorded in its level's range database, and an
ack-eliciting one also schedules an acknowledgment: it bumps the counter
`send_ack`, starts the ACK delay clock and raises `pending_ack`.  A packet that
arrives out of order forces `send_ack` up to `NJT_QUIC_MAX_ACK_GAP`, so that
`njt_quic_generate_ack` sends the ACK at once.

`ackPacket_db` says that what the function does to the database is
`RangeDb.record`, and `ackPacket_sendAck` what it does to `send_ack`.  From
them:

* `ackPacket_ranges`: from a well-formed database, `njt_quic_ack_packet`
  leaves a well-formed one whose `largest_range` is the largest number it
  holds, and which holds the old numbers and `pn`, except that a full table
  gives up its lowest block for `pn`, or ignores a `pn` below all its blocks.
* `rxRun_forced_ack`: over any run of arrivals, drops and
  `njt_quic_generate_ack` calls, an ack-eliciting packet below
  `largest_range`, or more than one above it, makes the next
  `njt_quic_generate_ack` send, and `njt_quic_generate_ack` defers only while
  fewer than `NJT_QUIC_MAX_ACK_GAP` ack-eliciting packets have arrived since
  it last sent.  Out of order means out of order with respect to what the
  database holds: once a drop has emptied it, the next packet is never out of
  order.
* `rxRun_acked_toAck` and `rxRun_acked_iff_toAck`: the database stands for the
  set of numbers still to be acknowledged (`toAck`: what arrived, less what a
  drop covered since).  It never holds a number outside that set, and it holds
  exactly that set on every run in which no arrival finds `ranges[]` full.
-/

namespace NjtQuic

variable {w : Nat}

/-- The fields of `njt_quic_header_t` this code reads. -/
structure Header (w : Nat) where
  level : Level
  pn : Nat
  needAck : Bool
  received : BitVec w
  deriving DecidableEq, Repr

/-- Modelled from the spec: `njt_quic_queue_frame` (`njt_event_quic_output.c`,
not in src), "enqueue for transmission": the frame joins the tail of its
context's `frames`, and `push` is posted unless the connection is closing. -/
def queueFrame (l : Level) (f : Frame w) (qc : Conn w) : Conn w :=
  ({ qc with pushPosted := qc.pushPosted || !qc.closing } : Conn w).modifyCtx l
    fun ctx => { ctx with frames := ctx.frames ++ [f] }

/-- Modelled from the spec: `njt_quic_send_ack` (not in src), "emit ACK": an
ACK frame for the context's range database (`largest_range`, `first_range`,
`ranges[0 .. nranges)`) is queued.  Its ACK Delay field, which the encoder
derives from `largest_received`, is read by nothing in this core and is left
0. -/
def sendAck (now : BitVec w) (l : Level) (qc : Conn w) : Conn w :=
  let db := (qc.ctx l).db
  queueFrame l ⟨0, now, 0, .ack ⟨db.largestRange, 0, db.firstRange, db.ranges⟩, false⟩ qc

/-- Modelled from the spec: `njt_quic_send_ack_range(c, ctx, pn, pn)` (not in
src), "emit a one-off ACK for `[pn, pn]`". -/
def sendAckRange (now : BitVec w) (l : Level) (pn : Nat) (qc : Conn w) : Conn w :=
  queueFrame l ⟨0, now, 0, .ack ⟨pn, 0, 0, []⟩, false⟩ qc

/-- Lines 939-954: an ack-eliciting packet posts `push`, starts the ACK delay
clock, counts in `send_ack` and raises `pending_ack`. -/
def noteAckEliciting (now : BitVec w) (l : Level) (pn : Nat) (qc : Conn w) : Conn w :=
  ({ qc with pushPosted := true } : Conn w).modifyCtx l fun ctx =>
    { ctx with
      ackDelayStart := if ctx.sendAck = 0 then now else ctx.ackDelayStart
      sendAck := ctx.sendAck + 1
      pendingAck := if ctx.pendingAck = unsetPn ∨ ctx.pendingAck < pn then pn
                    else ctx.pendingAck }

/-- "no place for new range, send current range as is": with `ranges[]` full,
the acknowledgment pending so far is sent before a new range is made. -/
def flushFull (now : BitVec w) (l : Level) (prevPending : Nat) (needAck : Bool)
    (qc : Conn w) : Conn w :=
  let qc := if prevPending ≠ unsetPn then sendAck now l qc else qc
  if prevPending = (qc.ctx l).pendingAck ∨ needAck = false then
    qc.modifyCtx l fun ctx => { ctx with pendingAck := unsetPn }
  else qc

/-- `njt_quic_ack_packet`: record packet `pkt` in the range database of its
level.  `keys` is `njt_quic_keys_available(qc->keys, ctx->level, 1)`. -/
def ackPacket (cf : Conf w) (keys : Bool) (now : BitVec w) (pkt : Header w) (qc : Conn w) :
    Conn w :=
  if keys = false then qc else
  let l := pkt.level
  let pn := pkt.pn
  let prevPending := (qc.ctx l).pendingAck
  let qc := if pkt.needAck then noteAckEliciting now l pn qc else qc
  let ctx := qc.ctx l
  let base := ctx.db.largestRange
  if base = unsetPn then
    qc.setCtx l { ctx with db := { ctx.db with largestRange := pn },
                           largestReceived := pkt.received }
  else if base = pn then qc
  else
    let largest := base
    let smallest := largest - ctx.db.firstRange
    let full := decide (ctx.db.ranges.length = cf.maxRanges)
    if pn > base then
      if pn - base = 1 then
        qc.setCtx l { ctx with
          db := { ctx.db with firstRange := ctx.db.firstRange + 1, largestRange := pn }
          largestReceived := pkt.received }
      else
        -- new gap in front of current largest
        let qc := if full then flushFull now l prevPending pkt.needAck qc else qc
        let ctx := qc.ctx l
        qc.setCtx l { ctx with
          db := ⟨pn, 0, insertRange full ⟨pn - base - 2, ctx.db.firstRange⟩ ctx.db.ranges⟩
          largestReceived := pkt.received
          -- packet is out of order, force send
          sendAck := if pkt.needAck then maxAckGap else ctx.sendAck }
    else
      -- pn < base, packet is out of order
      let qc := if pkt.needAck then qc.modifyCtx l fun ctx => { ctx with sendAck := maxAckGap }
                else qc
      if smallest ≤ pn ∧ pn ≤ largest then qc
      else
        match lookup full pn smallest ctx.db.ranges with
        | .known => qc
        | .tooOld => if pkt.needAck then sendAckRange now l pn qc else qc
        | .edit grow ranges split =>
          let qc := if split && full then flushFull now l prevPending pkt.needAck qc else qc
          qc.modifyCtx l fun ctx =>
            { ctx with db := { ctx.db with firstRange := ctx.db.firstRange + grow, ranges } }

/-- `njt_quic_drop_ack_ranges`: the peer has acknowledged an ACK frame whose
largest number is `pn`, so numbers up to `pn` need not be acknowledged
again. -/
def dropAckRanges (pn : Nat) (ctx : SendCtx w) : SendCtx w :=
  if ctx.db.largestRange = unsetPn then ctx
  else { ctx with
    pendingAck := if ctx.pendingAck ≠ unsetPn ∧ pn ≥ ctx.pendingAck then unsetPn else ctx.pendingAck
    db := ctx.db.dropAckRanges w pn }

/-- The condition under which `njt_quic_generate_ack` defers the ACK of an
application context: nothing else is queued, fewer than
`NJT_QUIC_MAX_ACK_GAP` ack-eliciting packets are unacknowledged and
`max_ack_delay` has not passed. -/
def deferAck (cf : Conf w) (now : BitVec w) (l : Level) (ctx : SendCtx w) : Bool :=
  decide (l = .application ∧ ctx.frames = [] ∧ ctx.sendAck < maxAckGap ∧
    now - ctx.ackDelayStart < cf.maxAckDelay)

/-- Whether `njt_quic_generate_ack` sends an ACK. -/
def ackSent (cf : Conf w) (now : BitVec w) (l : Level) (qc : Conn w) : Bool :=
  (qc.ctx l).sendAck != 0 && !deferAck cf now l (qc.ctx l)

/-- `njt_quic_generate_ack`: send the pending acknowledgment, or arm the push
timer for the rest of `max_ack_delay`. -/
def generateAck (cf : Conf w) (now : BitVec w) (l : Level) (qc : Conn w) : Conn w :=
  let ctx := qc.ctx l
  if ctx.sendAck = 0 then qc
  else if deferAck cf now l ctx then
    if qc.pushTimer.isNone && !qc.closing then
      { qc with pushTimer := some (cf.maxAckDelay - (now - ctx.ackDelayStart)) }
    else qc
  else (sendAck now l qc).modifyCtx l fun ctx => { ctx with sendAck := 0 }

/-! ## What the helpers leave alone -/

section Frame

variable (now : BitVec w) (l : Level) (qc : Conn w)

@[simp] theorem queueFrame_db (f : Frame w) : ((queueFrame l f qc).ctx l).db = (qc.ctx l).db := by
  simp [queueFrame]

@[simp] theorem queueFrame_sendAck (f : Frame w) :
    ((queueFrame l f qc).ctx l).sendAck = (qc.ctx l).sendAck := by
  simp [queueFrame]

@[simp] theorem sendAck_db : ((sendAck now l qc).ctx l).db = (qc.ctx l).db := by
  simp [sendAck]

@[simp] theorem sendAck_sendAck : ((sendAck now l qc).ctx l).sendAck = (qc.ctx l).sendAck := by
  simp [sendAck]

@[simp] theorem sendAckRange_db (pn : Nat) : ((sendAckRange now l pn qc).ctx l).db = (qc.ctx l).db := by
  simp [sendAckRange]

@[simp] theorem sendAckRange_sendAck (pn : Nat) :
    ((sendAckRange now l pn qc).ctx l).sendAck = (qc.ctx l).sendAck := by
  simp [sendAckRange]

@[simp] theorem flushFull_db (p : Nat) (b : Bool) :
    ((flushFull now l p b qc).ctx l).db = (qc.ctx l).db := by
  simp only [flushFull]; split_ifs <;> simp

@[simp] theorem flushFull_sendAck (p : Nat) (b : Bool) :
    ((flushFull now l p b qc).ctx l).sendAck = (qc.ctx l).sendAck := by
  simp only [flushFull]; split_ifs <;> simp

@[simp] theorem noteAckEliciting_db (pn : Nat) :
    ((noteAckEliciting now l pn qc).ctx l).db = (qc.ctx l).db := by
  simp [noteAckEliciting]

@[simp] theorem noteAckEliciting_sendAck (pn : Nat) :
    ((noteAckEliciting now l pn qc).ctx l).sendAck = (qc.ctx l).sendAck + 1 := by
  simp [noteAckEliciting]

@[simp] theorem dropAckRanges_sendAck (pn : Nat) (ctx : SendCtx w) :
    (dropAckRanges pn ctx).sendAck = ctx.sendAck := by
  unfold dropAckRanges; split_ifs <;> rfl

@[simp] theorem generateAck_db (cf : Conf w) (m : Level) :
    ((generateAck cf now l qc).ctx m).db = (qc.ctx m).db := by
  unfold generateAck sendAck queueFrame; dsimp only
  split_ifs
  · rfl
  · simp
  · rfl
  · simp only [Conn.ctx_modifyCtx]; split_ifs <;> simp_all

theorem generateAck_sendAck (cf : Conf w) :
    ((generateAck cf now l qc).ctx l).sendAck = if ackSent cf now l qc then 0 else (qc.ctx l).sendAck := by
  unfold generateAck ackSent
  by_cases h0 : (qc.ctx l).sendAck = 0
  · simp [h0]
  · cases hd : deferAck cf now l (qc.ctx l)
    · simp [h0, hd]
    · simp only [h0, hd, if_false, if_true]; split <;> simp

end Frame

/-! ## What the receiving side leaves alone -/

/-- `qc'` differs from `qc` at most in what the receiving side of level `l`
writes: the range database, ACK bookkeeping and `frames` queue of that
context, and the `push` event.  The other contexts, the sender's queues and
packet numbers, the controller and the RTT estimate are the same. -/
structure Conn.ReceiverOnly (l : Level) (qc qc' : Conn w) : Prop where
  others : ∀ m, m ≠ l → qc'.ctx m = qc.ctx m
  sent : ∀ m, (qc'.ctx m).sent = (qc.ctx m).sent
  pnum : ∀ m, (qc'.ctx m).pnum = (qc.ctx m).pnum
  largestAck : ∀ m, (qc'.ctx m).largestAck = (qc.ctx m).largestAck
  congestion : qc'.congestion = qc.congestion
  rstPnum : qc'.rstPnum = qc.rstPnum
  closing : qc'.closing = qc.closing
  latestRtt : qc'.latestRtt = qc.latestRtt
  minRtt : qc'.minRtt = qc.minRtt
  avgRtt : qc'.avgRtt = qc.avgRtt
  rttvar : qc'.rttvar = qc.rttvar
  firstRtt : qc'.firstRtt = qc.firstRtt
  handshaked : qc'.handshaked = qc.handshaked

namespace Conn.ReceiverOnly

variable {l : Level}

theorem refl (qc : Conn w) : qc.ReceiverOnly l qc :=
  ⟨fun _ _ => rfl, fun _ => rfl, fun _ => rfl, fun _ => rfl, rfl, rfl, rfl, rfl, rfl, rfl, rfl, rfl,
    rfl⟩

theorem trans {qc qc' qc'' : Conn w} (h : qc.ReceiverOnly l qc') (h' : qc'.ReceiverOnly l qc'') :
    qc.ReceiverOnly l qc'' :=
  ⟨fun m hm => (h'.others m hm).trans (h.others m hm), fun m => (h'.sent m).trans (h.sent m),
    fun m => (h'.pnum m).trans (h.pnum m), fun m => (h'.largestAck m).trans (h.largestAck m),
    h'.5.trans h.5, h'.6.trans h.6, h'.7.trans h.7, h'.8.trans h.8, h'.9.trans h.9,
    h'.10.trans h.10, h'.11.trans h.11, h'.12.trans h.12, h'.13.trans h.13⟩

/-- A step the code takes only under a test. -/
theorem ite {qc qc' : Conn w} {c : Prop} [Decidable c] (h : qc.ReceiverOnly l qc') :
    qc.ReceiverOnly l (if c then qc' else qc) := by
  split
  · exact h
  · exact refl qc

end Conn.ReceiverOnly

section Receiver

variable (now : BitVec w) (l : Level) (qc : Conn w)

theorem receiverOnly_setCtx {c : SendCtx w} (hs : c.sent = (qc.ctx l).sent)
    (hp : c.pnum = (qc.ctx l).pnum) (ha : c.largestAck = (qc.ctx l).largestAck) :
    qc.ReceiverOnly l (qc.setCtx l c) := by
  refine ⟨fun m hm => by simp [hm], fun m => ?_, fun m => ?_, fun m => ?_, by simp, by simp, by simp,
    by simp, by simp, by simp, by simp, by simp, by simp⟩ <;>
  · by_cases hm : m = l
    · subst hm; simpa
    · simp [hm]

theorem receiverOnly_modifyCtx {f : SendCtx w → SendCtx w}
    (hf : ∀ c, (f c).sent = c.sent ∧ (f c).pnum = c.pnum ∧ (f c).largestAck = c.largestAck) :
    qc.ReceiverOnly l (qc.modifyCtx l f) :=
  receiverOnly_setCtx l qc (hf _).1 (hf _).2.1 (hf _).2.2

theorem receiverOnly_pushPosted (b : Bool) : qc.ReceiverOnly l { qc with pushPosted := b } :=
  ⟨fun _ _ => by simp, fun _ => by simp, fun _ => by simp, fun _ => by simp, rfl, rfl, rfl, rfl, rfl,
    rfl, rfl, rfl, rfl⟩

theorem receiverOnly_pushTimer (t : Option (BitVec w)) : qc.ReceiverOnly l { qc with pushTimer := t } :=
  ⟨fun _ _ => by simp, fun _ => by simp, fun _ => by simp, fun _ => by simp, rfl, rfl, rfl, rfl, rfl,
    rfl, rfl, rfl, rfl⟩

theorem queueFrame_receiverOnly (f : Frame w) : qc.ReceiverOnly l (queueFrame l f qc) :=
  (receiverOnly_pushPosted l qc _).trans (receiverOnly_modifyCtx l _ fun _ => ⟨rfl, rfl, rfl⟩)

theorem flushFull_receiverOnly (p : Nat) (b : Bool) : qc.ReceiverOnly l (flushFull now l p b qc) := by
  have h1 : qc.ReceiverOnly l (if p ≠ unsetPn then sendAck now l qc else qc) :=
    .ite (queueFrame_receiverOnly l qc _)
  unfold flushFull
  generalize (if p ≠ unsetPn then sendAck now l qc else qc) = q at h1 ⊢
  exact h1.trans (.ite (receiverOnly_modifyCtx l q fun _ => ⟨rfl, rfl, rfl⟩))

/-- `njt_quic_ack_packet` writes only the receiving side of the packet's
level. -/
theorem ackPacket_receiverOnly (cf : Conf w) (keys : Bool) (pkt : Header w) :
    qc.ReceiverOnly pkt.level (ackPacket cf keys now pkt qc) := by
  have h1 : qc.ReceiverOnly pkt.level
      (if pkt.needAck then noteAckEliciting now pkt.level pkt.pn qc else qc) :=
    .ite ((receiverOnly_pushPosted pkt.level qc _).trans
      (receiverOnly_modifyCtx pkt.level _ fun _ => ⟨rfl, rfl, rfl⟩))
  have hflush : ∀ (q : Conn w) (b : Bool), q.ReceiverOnly pkt.level
      (if b then flushFull now pkt.level (qc.ctx pkt.level).pendingAck pkt.needAck q else q) :=
    fun q _ => .ite (flushFull_receiverOnly now pkt.level q _ _)
  unfold ackPacket
  split
  · exact .refl qc
  dsimp only
  generalize (if pkt.needAck then noteAckEliciting now pkt.level pkt.pn qc else qc) = q1 at h1 ⊢
  refine h1.trans ?_
  split
  · exact receiverOnly_setCtx pkt.level q1 rfl rfl rfl
  split
  · exact .refl q1
  split
  · -- in front of `largest_range`
    split
    · exact receiverOnly_setCtx pkt.level q1 rfl rfl rfl
    · exact (hflush q1 _).trans (receiverOnly_setCtx pkt.level _ rfl rfl rfl)
  · -- below `largest_range`
    have h2 : q1.ReceiverOnly pkt.level (if pkt.needAck then q1.modifyCtx pkt.level
        (fun ctx => { ctx with sendAck := maxAckGap }) else q1) :=
      .ite (receiverOnly_modifyCtx pkt.level q1 fun _ => ⟨rfl, rfl, rfl⟩)
    generalize (if pkt.needAck then q1.modifyCtx pkt.level
      (fun ctx => { ctx with sendAck := maxAckGap }) else q1) = q2 at h2 ⊢
    refine h2.trans ?_
    split
    · exact .refl q2
    split
    · exact .refl q2
    · exact .ite (queueFrame_receiverOnly pkt.level q2 _)
    · exact (hflush q2 _).trans (receiverOnly_modifyCtx pkt.level _ fun _ => ⟨rfl, rfl, rfl⟩)

/-- `njt_quic_generate_ack` writes only the receiving side of level `l`. -/
theorem generateAck_receiverOnly (cf : Conf w) : qc.ReceiverOnly l (generateAck cf now l qc) := by
  unfold generateAck
  dsimp only
  split_ifs
  · exact .refl qc
  · exact receiverOnly_pushTimer l qc _
  · exact .refl qc
  · exact (queueFrame_receiverOnly l qc _).trans (receiverOnly_modifyCtx l _ fun _ => ⟨rfl, rfl, rfl⟩)

end Receiver

/-! ## The database and `send_ack` after a packet -/

section AckPacket

variable (cf : Conf w) (now : BitVec w) (pkt : Header w) (qc : Conn w)

/-- `njt_quic_ack_packet` edits the database as `RangeDb.record` does. -/
theorem ackPacket_db :
    ((ackPacket cf true now pkt qc).ctx pkt.level).db =
      ((qc.ctx pkt.level).db).record cf.maxRanges pkt.pn := by
  have h1 : ((if pkt.needAck then noteAckEliciting now pkt.level pkt.pn qc else qc).ctx
      pkt.level).db = (qc.ctx pkt.level).db := by split <;> simp
  unfold ackPacket RangeDb.record
  simp only [Bool.true_eq_false, if_false]
  generalize (if pkt.needAck then noteAckEliciting now pkt.level pkt.pn qc else qc) = qc1 at h1 ⊢
  rw [← h1]
  generalize lookup _ pkt.pn _ (qc1.ctx pkt.level).db.ranges = res
  cases res <;>
    simp only [apply_ite Conn.ctx, ite_apply, apply_ite SendCtx.db, Conn.ctx_setCtx_self,
      Conn.ctx_modifyCtx_self, flushFull_db, sendAckRange_db, ite_self]

/-- An ack-eliciting packet counts in `send_ack`, and forces it to
`NJT_QUIC_MAX_ACK_GAP` when it is out of order with respect to the database:
below `largest_range`, or more than one above it. -/
theorem ackPacket_sendAck :
    ((ackPacket cf true now pkt qc).ctx pkt.level).sendAck =
      if pkt.needAck then
        if (qc.ctx pkt.level).db.largestRange ≠ unsetPn ∧
            (pkt.pn < (qc.ctx pkt.level).db.largestRange ∨
              (qc.ctx pkt.level).db.largestRange + 1 < pkt.pn) then maxAckGap
        else (qc.ctx pkt.level).sendAck + 1
      else (qc.ctx pkt.level).sendAck := by
  unfold ackPacket
  cases pkt.needAck <;>
    simp only [Bool.true_eq_false, Bool.false_eq_true, if_true, if_false, noteAckEliciting_db] <;>
    generalize lookup _ pkt.pn _ (qc.ctx pkt.level).db.ranges = res <;>
    cases res <;>
    simp only [apply_ite Conn.ctx, ite_apply, apply_ite SendCtx.sendAck, Conn.ctx_setCtx_self,
      Conn.ctx_modifyCtx_self, noteAckEliciting_sendAck, flushFull_sendAck, sendAckRange_sendAck,
      ite_self] <;>
    split_ifs <;> omega

/-- `njt_quic_ack_packet` records a received packet number as
`RangeDb.RecordSpec` says: the database stays well formed, `largest_range` is
its largest number, and it gains `pn`, losing its lowest block instead when the
table is full and `pn` needs an entry of its own. -/
theorem ackPacket_ranges (hwf : ((qc.ctx pkt.level).db).WF cf.maxRanges) (hpn : pkt.pn < 2 ^ 62) :
    ((qc.ctx pkt.level).db).RecordSpec cf.maxRanges pkt.pn
      ((ackPacket cf true now pkt qc).ctx pkt.level).db := by
  rw [ackPacket_db]
  exact RangeDb.record_spec hwf (lt_of_lt_of_le hpn (by decide))

end AckPacket

/-- A full table of one entry holding 10 and 6: packet 8 is next to neither
block and the lowest block is given up for it. -/
theorem ackPacket_ranges_evicting :
    let qc : Conn 64 := (default : Conn 64).modifyCtx .application fun c =>
      { c with db := ⟨10, 0, [⟨2, 0⟩]⟩ }
    let cf : Conf 64 := { (default : Conf 64) with maxRanges := 1 }
    ((qc.ctx .application).db).WF cf.maxRanges ∧ 8 < 2 ^ 62 ∧
      ((qc.ctx .application).db).RecordSpec cf.maxRanges 8
        ((ackPacket cf true 0 ⟨.application, 8, true, 0⟩ qc).ctx .application).db :=
  ⟨by decide, by decide, ackPacket_ranges _ 0 ⟨.application, 8, true, 0⟩ _ (by decide) (by decide)⟩

example : ((ackPacket { (default : Conf 64) with maxRanges := 1 } true 0 ⟨.application, 8, true, 0⟩
    ((default : Conn 64).modifyCtx .application fun c => { c with db := ⟨10, 0, [⟨2, 0⟩]⟩ })).ctx
      .application).db.blocks = [(10, 10), (8, 8)] := by decide

/-- An empty database whose `first_range` is not 0 (every decoded bound in
range, no entries) is not left well formed: the first packet becomes
`largest_range` under the stale `first_range`, and block 0 would start below
zero. -/
theorem ackPacket_unset_stale_first_range :
    (((default : Conn 64).modifyCtx .application fun c => { c with db := ⟨unsetPn, 7, []⟩ }).ctx
        .application).db.firstRange ≤ unsetPn ∧
      ((ackPacket { (default : Conf 64) with maxRanges := 7 } true 0 ⟨.application, 3, true, 0⟩
        ((default : Conn 64).modifyCtx .application fun c => { c with db := ⟨unsetPn, 7, []⟩ })).ctx
        .application).db = ⟨3, 7, []⟩ := by
  decide

/-! ## Dropping acknowledged numbers -/

@[simp] theorem dropAckRanges_db (pn : Nat) (ctx : SendCtx w) :
    (dropAckRanges pn ctx).db = ctx.db.dropAckRanges w pn := by
  unfold dropAckRanges
  split_ifs with hu
  · unfold RangeDb.dropAckRanges; rw [if_pos hu]
  all_goals rfl

/-- **`njt_quic_drop_ack_ranges` keeps exactly the numbers above `pn`.**  On a
well-formed database whose `largest_range` fits in `njt_uint_t` (every
database of a 64-bit build), it leaves a well-formed database holding
`{x ∈ S | pn < x}`: `largest_range` becomes `NJT_QUIC_UNSET_PN` with no
blocks when nothing is left, and otherwise `largest_range` stays and each
block is truncated by `truncBlock`, so that the one block `pn` cuts keeps its
upper end and starts at `pn + 1`. -/
theorem dropAckRanges_keeps_above {m : Nat} (pn : Nat) (ctx : SendCtx w) (hwf : ctx.db.WF m)
    (hw : ctx.db.largestRange ≠ unsetPn → ctx.db.largestRange < 2 ^ w) :
    (dropAckRanges pn ctx).db.WF m ∧
      (∀ x, (dropAckRanges pn ctx).db.Acked x ↔ ctx.db.Acked x ∧ pn < x) ∧
      ((∀ x, ctx.db.Acked x → x ≤ pn) →
        (dropAckRanges pn ctx).db.largestRange = unsetPn ∧
          (dropAckRanges pn ctx).db.firstRange = 0 ∧ (dropAckRanges pn ctx).db.ranges = []) ∧
      ((∃ x, ctx.db.Acked x ∧ pn < x) →
        (dropAckRanges pn ctx).db.largestRange = ctx.db.largestRange ∧
          (dropAckRanges pn ctx).db.blocks = ctx.db.blocks.filterMap (truncBlock pn)) := by
  rw [dropAckRanges_db]
  refine ⟨hwf.dropAckRanges w pn, RangeDb.acked_dropAckRanges hwf hw pn, fun hall => ?_,
    fun ⟨x, hx, hpx⟩ => ⟨?_, RangeDb.blocks_dropAckRanges hwf hw pn⟩⟩
  · -- nothing above `pn`: the database was empty, or `pn` reaches `largest_range`
    unfold RangeDb.dropAckRanges
    by_cases hu : ctx.db.largestRange = unsetPn
    · rw [if_pos hu]; exact ⟨hu, hwf.empty_of_unset hu⟩
    · have hle := hall _ (RangeDb.acked_largestRange hu)
      rw [if_neg hu, if_pos (by rw [BitVec.toNat_ofNat, Nat.mod_eq_of_lt (hw hu)]; exact hle)]
      exact ⟨rfl, rfl, rfl⟩
  · -- a number above `pn` is held: `largest_range` is above it too
    have hu : ctx.db.largestRange ≠ unsetPn := fun h => RangeDb.not_acked_of_unset h x hx
    have hle := (hwf.bounds hx).2
    unfold RangeDb.dropAckRanges
    rw [if_neg hu, if_neg (by rw [BitVec.toNat_ofNat, Nat.mod_eq_of_lt (hw hu)]; omega)]
    split_ifs <;> rfl

theorem dropAckRanges_keeps_above_cutBlock :
    let ctx : SendCtx 64 := { (default : SendCtx 64) with db := ⟨10, 2, [⟨1, 3⟩]⟩ }
    ctx.db.WF 7 ∧ (ctx.db.largestRange ≠ unsetPn → ctx.db.largestRange < 2 ^ 64) ∧
      (dropAckRanges 3 ctx).db.WF 7 ∧
      (∀ x, (dropAckRanges 3 ctx).db.Acked x ↔ ctx.db.Acked x ∧ 3 < x) ∧
      ((∀ x, ctx.db.Acked x → x ≤ 3) →
        (dropAckRanges 3 ctx).db.largestRange = unsetPn ∧
          (dropAckRanges 3 ctx).db.firstRange = 0 ∧ (dropAckRanges 3 ctx).db.ranges = []) ∧
      ((∃ x, ctx.db.Acked x ∧ 3 < x) →
        (dropAckRanges 3 ctx).db.largestRange = ctx.db.largestRange ∧
          (dropAckRanges 3 ctx).db.blocks = ctx.db.blocks.filterMap (truncBlock 3)) :=
  ⟨by decide, fun _ => by decide, dropAckRanges_keeps_above 3 _ (by decide) fun _ => by decide⟩

/-- The database above: blocks `[8, 10]` and `[2, 5]`; dropping up to 3 cuts
the lower one to `[4, 5]`. -/
example : (dropAckRanges 3 { (default : SendCtx 64) with db := ⟨10, 2, [⟨1, 3⟩]⟩ }).db.blocks =
    [(8, 10), (4, 5)] := by decide

/-- Two databases the function does not leave as `{x ∈ S | pn < x}` stored
with the empty database's `first_range = 0`.  An empty database with a stale
`first_range` of 7 (it has no entries and decodes nothing below zero) keeps
that `first_range`: the function returns at once on `NJT_QUIC_UNSET_PN`.  And
on a 32-bit build, the block `[2^32 + 5, 2^32 + 6]` dropped up to `2^32 + 5`
loses `2^32 + 6` as well: `largest = base` narrows `largest_range` to 6, which
`pn` passes. -/
theorem dropAckRanges_unset_or_narrowed :
    let stale : SendCtx 64 := { (default : SendCtx 64) with db := ⟨unsetPn, 7, []⟩ }
    let high : SendCtx 32 := { (default : SendCtx 32) with db := ⟨2 ^ 32 + 6, 1, []⟩ }
    (stale.db.ranges.length ≤ 7 ∧ stale.db.firstRange ≤ stale.db.largestRange ∧
        (∀ x, ¬ stale.db.Acked x) ∧ (dropAckRanges 0 stale).db.firstRange = 7) ∧
      (high.db.WF 7 ∧ high.db.Acked (2 ^ 32 + 6) ∧
        (dropAckRanges (2 ^ 32 + 5) high).db = RangeDb.empty) := by
  refine ⟨⟨by decide, by decide, fun x => RangeDb.not_acked_of_unset rfl x, by decide⟩,
    by decide, ?_, by decide⟩
  exact (RangeDb.acked_iff (by decide) _).2 (.inl ⟨by decide, le_rfl⟩)

/-! ## Runs of the receiver side -/

/-- What happens to the application send context on the receiving side: a
packet arrives with its keys available (`njt_quic_ack_packet`), the peer
acknowledges an ACK frame up to `pn` (`njt_quic_drop_ack_ranges`), or the
connection asks for an acknowledgment (`njt_quic_generate_ack`). -/
inductive RxEvent (w : Nat) where
  | packet (now : BitVec w) (pn : Nat) (needAck : Bool) (received : BitVec w)
  | drop (pn : Nat)
  | generate (now : BitVec w)
  deriving DecidableEq, Repr

def RxEvent.isGenerate : RxEvent w → Bool
  | .generate _ => true
  | _ => false

/-- One receiver event.  The second component is a ghost count of the
ack-eliciting packets that arrived since `njt_quic_generate_ack` last sent an
ACK. -/
def rxStep (cf : Conf w) : Conn w × Nat → RxEvent w → Conn w × Nat
  | (qc, n), .packet now pn needAck received =>
    (ackPacket cf true now ⟨.application, pn, needAck, received⟩ qc, if needAck then n + 1 else n)
  | (qc, n), .drop pn => (qc.modifyCtx .application (dropAckRanges pn), n)
  | (qc, n), .generate now =>
    (generateAck cf now .application qc, if ackSent cf now .application qc then 0 else n)

def rxRun (cf : Conf w) (s : Conn w × Nat) (evs : List (RxEvent w)) : Conn w × Nat :=
  evs.foldl (rxStep cf) s

@[simp] theorem rxRun_nil (cf : Conf w) (s : Conn w × Nat) : rxRun cf s [] = s := rfl

@[simp] theorem rxRun_cons (cf : Conf w) (s : Conn w × Nat) (e : RxEvent w) (evs : List (RxEvent w)) :
    rxRun cf s (e :: evs) = rxRun cf (rxStep cf s e) evs := rfl

section RxRun

variable (cf : Conf w)

/-- The ghost count is what `send_ack` has counted, up to
`NJT_QUIC_MAX_ACK_GAP`. -/
def AckCounted (s : Conn w × Nat) : Prop :=
  min s.2 maxAckGap ≤ (s.1.ctx .application).sendAck

theorem rxStep_ackCounted {s : Conn w × Nat} (h : AckCounted s) (e : RxEvent w) :
    AckCounted (rxStep cf s e) := by
  obtain ⟨qc, n⟩ := s
  unfold AckCounted at h ⊢
  cases e with
  | packet now pn needAck received =>
    simp only [rxStep, ackPacket_sendAck cf now ⟨.application, pn, needAck, received⟩ qc]
    split_ifs <;> simp only [maxAckGap] at h ⊢ <;> omega
  | drop pn => simpa [rxStep] using h
  | generate now =>
    simp only [rxStep, generateAck_sendAck]
    split_ifs <;> simp_all

theorem rxRun_ackCounted {s : Conn w × Nat} (h : AckCounted s) :
    ∀ evs, AckCounted (rxRun cf s evs)
  | [] => h
  | e :: evs => rxRun_ackCounted (rxStep_ackCounted cf h e) evs

/-- Between two calls of `njt_quic_generate_ack`, a `send_ack` that has
reached `NJT_QUIC_MAX_ACK_GAP` stays there. -/
theorem rxRun_sendAck_ge {s : Conn w × Nat} (h : maxAckGap ≤ (s.1.ctx .application).sendAck) :
    ∀ evs, (∀ e ∈ evs, e.isGenerate = false) →
      maxAckGap ≤ ((rxRun cf s evs).1.ctx .application).sendAck
  | [], _ => h
  | e :: evs, he => by
    refine rxRun_sendAck_ge ?_ evs fun e' h' => he e' (List.mem_cons_of_mem _ h')
    obtain ⟨qc, n⟩ := s
    cases e with
    | packet now pn needAck received =>
      simp only [rxStep, ackPacket_sendAck cf now ⟨.application, pn, needAck, received⟩ qc]
      split_ifs <;> simp only at h ⊢ <;> omega
    | drop pn => simpa [rxStep] using h
    | generate now => simp [RxEvent.isGenerate] at he

theorem sendAck_lt_of_deferAck {now : BitVec w} {l : Level} {ctx : SendCtx w}
    (h : deferAck cf now l ctx = true) : ctx.sendAck < maxAckGap := by
  simp only [deferAck, decide_eq_true_eq] at h
  exact h.2.2.1

theorem ackSent_of_le (now : BitVec w) (l : Level) {qc : Conn w}
    (h : maxAckGap ≤ (qc.ctx l).sendAck) : ackSent cf now l qc = true := by
  have h0 : (qc.ctx l).sendAck ≠ 0 := by unfold maxAckGap at h; omega
  cases hd : deferAck cf now l (qc.ctx l)
  · simp [ackSent, hd, h0]
  · exact absurd (sendAck_lt_of_deferAck cf hd) (Nat.not_lt.mpr h)

theorem rxRun_append (s : Conn w × Nat) (a b : List (RxEvent w)) :
    rxRun cf s (a ++ b) = rxRun cf (rxRun cf s a) b := List.foldl_append _ _ _ _

/-- Out-of-order arrivals are acknowledged at once, and the acknowledgment is
otherwise deferred only while fewer than `NJT_QUIC_MAX_ACK_GAP` ack-eliciting
packets wait for it.  "Out of order" is relative to the database: below its
`largest_range`, or more than one above it. -/
theorem rxRun_forced_ack (qc : Conn w) :
    (∀ pre now pn received mid, (∀ e ∈ mid, RxEvent.isGenerate e = false) →
      ((rxRun cf (qc, 0) pre).1.ctx .application).db.largestRange ≠ unsetPn →
      (pn < ((rxRun cf (qc, 0) pre).1.ctx .application).db.largestRange ∨
        ((rxRun cf (qc, 0) pre).1.ctx .application).db.largestRange + 1 < pn) →
      maxAckGap ≤ ((rxRun cf (qc, 0) (pre ++ .packet now pn true received :: mid)).1.ctx
        .application).sendAck ∧
      ∀ now', ackSent cf now' .application
        (rxRun cf (qc, 0) (pre ++ .packet now pn true received :: mid)).1 = true) ∧
    (∀ evs now, deferAck cf now .application ((rxRun cf (qc, 0) evs).1.ctx .application) = true →
      (rxRun cf (qc, 0) evs).2 < maxAckGap) := by
  refine ⟨fun pre now pn received mid hmid hne hout => ?_, fun evs now hd => ?_⟩
  · rw [rxRun_append, rxRun_cons]
    generalize rxRun cf (qc, 0) pre = s at hne hout ⊢
    obtain ⟨q, n⟩ := s
    have h1 : maxAckGap ≤ ((rxStep cf (q, n) (.packet now pn true received)).1.ctx
        .application).sendAck := by
      simp only [rxStep, ackPacket_sendAck cf now ⟨.application, pn, true, received⟩ q]
      rw [if_pos trivial, if_pos ⟨hne, hout⟩]
    have h2 := rxRun_sendAck_ge cf h1 mid hmid
    exact ⟨h2, fun now' => ackSent_of_le cf now' .application h2⟩
  · have hc := rxRun_ackCounted cf (show AckCounted (qc, 0) by simp [AckCounted]) evs
    have hlt := sendAck_lt_of_deferAck cf hd
    unfold AckCounted maxAckGap at hc
    unfold maxAckGap at hlt ⊢
    omega

end RxRun

/-- Packet 3 arrives after packet 5, but a drop has emptied the database in
between: it is not taken as out of order and `send_ack` stays below
`NJT_QUIC_MAX_ACK_GAP`. -/
theorem rxRun_reordered_after_drop :
    ((rxRun { (default : Conf 64) with maxAckDelay := 25 } (default, 0)
        [.drop 0, .packet 0 5 true 0, .generate 30, .drop 5, .packet 40 3 true 0]).1.ctx
        .application).sendAck < maxAckGap := by
  decide

/-! ## The database against the numbers it stands for

What the range database is for: the packet numbers that arrived and that the
peer has not yet confirmed, `njt_quic_drop_ack_ranges` forgetting the numbers
up to the largest one of an acknowledged ACK frame.  `toAck` follows that set
over the receiver's events.  The database never holds a number outside it,
and holds all of it as long as no arrival finds `ranges[]` full. -/

/-- Packet numbers are below 2^62 (RFC 9000, 12.3). -/
def RxEvent.pnValid : RxEvent w → Bool
  | .packet _ pn _ _ => decide (pn < 2 ^ 62)
  | _ => true

def RxEvent.isPacket : RxEvent w → Bool
  | .packet .. => true
  | _ => false

/-- One event on the set of numbers still to be acknowledged. -/
def toAckStep (S : Nat → Bool) : RxEvent w → Nat → Bool
  | .packet _ pn _ _ => fun x => S x || decide (x = pn)
  | .drop pn => fun x => S x && decide (pn < x)
  | .generate _ => S

/-- The numbers still to be acknowledged after `evs`, from `S`. -/
def toAck (S : Nat → Bool) (evs : List (RxEvent w)) : Nat → Bool := evs.foldl toAckStep S

section Refines

variable (cf : Conf w)

/-- The application database is well formed and holds nothing outside `S`. -/
def HeldIn (S : Nat → Bool) (s : Conn w × Nat) : Prop :=
  (s.1.ctx .application).db.WF cf.maxRanges ∧
    ∀ x, (s.1.ctx .application).db.Acked x → S x = true

/-- The application database holds everything in `S`. -/
def Keeps (S : Nat → Bool) (s : Conn w × Nat) : Prop :=
  ∀ x, S x = true → (s.1.ctx .application).db.Acked x

theorem heldIn_empty {qc : Conn w} (h0 : (qc.ctx .application).db = .empty) (n : Nat) :
    HeldIn cf (fun _ => false) (qc, n) :=
  ⟨h0 ▸ RangeDb.wf_empty _, fun x hx => absurd hx (h0 ▸ RangeDb.not_acked_of_unset rfl x)⟩

theorem rxStep_heldIn {S : Nat → Bool} {s : Conn w × Nat} (h : HeldIn cf S s) (e : RxEvent w)
    (he : e.pnValid = true) : HeldIn cf (toAckStep S e) (rxStep cf s e) := by
  obtain ⟨qc, n⟩ := s
  obtain ⟨hwf, hS⟩ := h
  cases e with
  | packet now pn b r =>
    have hs := ackPacket_ranges cf now ⟨.application, pn, b, r⟩ qc hwf
      (by simpa [RxEvent.pnValid] using he)
    refine ⟨hs.wf, fun x hx => ?_⟩
    rcases hs.acked_of hx with hx | rfl
    · simp [toAckStep, hS x hx]
    · simp [toAckStep]
  | drop pn =>
    simp only [HeldIn, rxStep, Conn.ctx_modifyCtx_self, dropAckRanges_db]
    refine ⟨hwf.dropAckRanges w pn, fun x hx => ?_⟩
    obtain ⟨hx, hlt⟩ := RangeDb.acked_of_dropAckRanges hwf w pn x hx
    simp [toAckStep, hS x hx, hlt]
  | generate now => simpa [HeldIn, rxStep, toAckStep] using And.intro hwf hS

/-- Every number to acknowledge is a valid packet number. -/
theorem toAckStep_lt {S : Nat → Bool} (hS : ∀ x, S x = true → x < 2 ^ 62) (e : RxEvent w)
    (he : e.pnValid = true) (x : Nat) (hx : toAckStep S e x = true) : x < 2 ^ 62 := by
  cases e with
  | packet now pn b r =>
    simp only [toAckStep, Bool.or_eq_true, decide_eq_true_eq] at hx
    simp only [RxEvent.pnValid, decide_eq_true_eq] at he
    exact hx.elim (hS x) (· ▸ he)
  | drop pn =>
    simp only [toAckStep, Bool.and_eq_true] at hx
    exact hS x hx.1
  | generate now => exact hS x hx

theorem rxStep_keeps {S : Nat → Bool} {s : Conn w × Nat} (h : HeldIn cf S s) (hk : Keeps S s)
    (hS : ∀ x, S x = true → x < 2 ^ w) (e : RxEvent w) (he : e.pnValid = true)
    (hroom : e.isPacket = true → (s.1.ctx .application).db.ranges.length < cf.maxRanges) :
    Keeps (toAckStep S e) (rxStep cf s e) := by
  obtain ⟨qc, n⟩ := s
  intro x hx
  cases e with
  | packet now pn b r =>
    have hs := ackPacket_ranges cf now ⟨.application, pn, b, r⟩ qc h.1
      (by simpa [RxEvent.pnValid] using he)
    refine (hs.adds (.inr (.inr (hroom rfl))) x).2 ?_
    simp only [toAckStep, Bool.or_eq_true, decide_eq_true_eq] at hx
    exact hx.imp_left (hk x)
  | drop pn =>
    simp only [toAckStep, Bool.and_eq_true, decide_eq_true_eq] at hx
    simp only [rxStep, Conn.ctx_modifyCtx_self, dropAckRanges_db]
    exact (RangeDb.acked_dropAckRanges h.1 (fun hu => hS _ (h.2 _ (RangeDb.acked_largestRange hu)))
      pn x).2 ⟨hk x hx.1, hx.2⟩
  | generate now => simpa [rxStep] using hk x hx

theorem rxRun_heldIn {S : Nat → Bool} {s : Conn w × Nat} (h : HeldIn cf S s) :
    ∀ evs : List (RxEvent w), (∀ e ∈ evs, e.pnValid = true) →
      HeldIn cf (toAck S evs) (rxRun cf s evs)
  | [], _ => h
  | e :: evs, hv =>
    rxRun_heldIn (rxStep_heldIn cf h e (hv e (.head _))) evs fun e' h' => hv e' (.tail _ h')

theorem rxRun_keeps (hw : 62 ≤ w) {S : Nat → Bool} {s : Conn w × Nat} (h : HeldIn cf S s)
    (hk : Keeps S s) (hS : ∀ x, S x = true → x < 2 ^ 62) :
    ∀ evs : List (RxEvent w), (∀ e ∈ evs, e.pnValid = true) →
      (∀ i (hi : i < evs.length), evs[i].isPacket = true →
        ((rxRun cf s (evs.take i)).1.ctx .application).db.ranges.length < cf.maxRanges) →
      Keeps (toAck S evs) (rxRun cf s evs)
  | [], _, _ => hk
  | e :: evs, hv, hr =>
    have h62 : 2 ^ 62 ≤ 2 ^ w := Nat.pow_le_pow_right (by decide) hw
    rxRun_keeps hw (rxStep_heldIn cf h e (hv e (.head _)))
      (rxStep_keeps cf h hk (fun x hx => lt_of_lt_of_le (hS x hx) h62) e (hv e (.head _))
        (hr 0 (Nat.succ_pos _)))
      (toAckStep_lt hS e (hv e (.head _)))
      evs (fun e' h' => hv e' (.tail _ h')) fun i hi => hr (i + 1) (Nat.succ_lt_succ hi)

/-- The receiver never acknowledges a number it should not: over every run of
arrivals, drops and `njt_quic_generate_ack` calls from an empty database, every
number the database holds arrived, and no drop since has covered it, whatever
the table had to give up on the way. -/
theorem rxRun_acked_toAck (qc : Conn w) (n : Nat) (evs : List (RxEvent w))
    (h0 : (qc.ctx .application).db = .empty) (hv : ∀ e ∈ evs, e.pnValid = true) (x : Nat)
    (hx : ((rxRun cf (qc, n) evs).1.ctx .application).db.Acked x) :
    toAck (fun _ => false) evs x = true :=
  (rxRun_heldIn cf (heldIn_empty cf h0 n) evs hv).2 x hx

/-- With room for one entry, packet 5 takes it, packet 2 finds the table full
below every block and is not kept, and packet 7, splitting the gap under 10,
gives up block 5: what is held is still only what arrived. -/
theorem rxRun_acked_toAck_evicted :
    (((default : Conn 64).modifyCtx .application fun c => { c with db := .empty }).ctx
        .application).db = .empty ∧
      (∀ e ∈ ([.packet 0 10 true 0, .packet 0 5 true 0, .packet 0 2 true 0, .packet 0 7 true 0] :
        List (RxEvent 64)), e.pnValid = true) ∧
      ((rxRun { (default : Conf 64) with maxRanges := 1 }
        ((default : Conn 64).modifyCtx .application fun c => { c with db := .empty }, 0)
        [.packet 0 10 true 0, .packet 0 5 true 0, .packet 0 2 true 0, .packet 0 7 true 0]).1.ctx
        .application).db.Acked 7 ∧
      toAck (fun _ => false)
        ([.packet 0 10 true 0, .packet 0 5 true 0, .packet 0 2 true 0, .packet 0 7 true 0] :
          List (RxEvent 64)) 7 = true := by
  refine ⟨?h0, ?hv, ?hx, rxRun_acked_toAck { (default : Conf 64) with maxRanges := 1 }
    ((default : Conn 64).modifyCtx .application fun c => { c with db := .empty }) 0
    [.packet 0 10 true 0, .packet 0 5 true 0, .packet 0 2 true 0, .packet 0 7 true 0]
    ?h0 ?hv 7 ?hx⟩ <;> decide

/-- The database is exactly the set of numbers to acknowledge on every run of
a 64-bit build in which no arrival finds `ranges[]` full: the relative
gap/range encoding, the lookup loop's merges and splits, and the truncation of
`njt_quic_drop_ack_ranges` implement insertion and removal of everything up
to `pn`. -/
theorem rxRun_acked_iff_toAck (hw : 62 ≤ w) (qc : Conn w) (n : Nat) (evs : List (RxEvent w))
    (h0 : (qc.ctx .application).db = .empty) (hv : ∀ e ∈ evs, e.pnValid = true)
    (hroom : ∀ i (hi : i < evs.length), evs[i].isPacket = true →
      ((rxRun cf (qc, n) (evs.take i)).1.ctx .application).db.ranges.length < cf.maxRanges)
    (x : Nat) :
    ((rxRun cf (qc, n) evs).1.ctx .application).db.Acked x ↔
      toAck (fun _ => false) evs x = true :=
  ⟨(rxRun_heldIn cf (heldIn_empty cf h0 n) evs hv).2 x,
    rxRun_keeps cf hw (heldIn_empty cf h0 n) (fun _ hx => nomatch hx) (fun _ hx => nomatch hx)
      evs hv hroom x⟩

/-- Packets 10 and 5, an acknowledgment up to 5, then packet 7 into the gap:
the database holds 7 as the set does. -/
theorem rxRun_acked_iff_toAck_gap :
    62 ≤ 64 ∧ (((default : Conn 64).modifyCtx .application fun c => { c with db := .empty }).ctx
        .application).db = .empty ∧
      (∀ e ∈ ([.packet 0 10 true 0, .packet 0 5 true 0, .drop 5, .packet 0 7 true 0, .generate 30] :
        List (RxEvent 64)), e.pnValid = true) ∧
      (∀ i (hi : i < 5), ([.packet 0 10 true 0, .packet 0 5 true 0, .drop 5, .packet 0 7 true 0,
          .generate 30] : List (RxEvent 64))[i].isPacket = true →
        ((rxRun { (default : Conf 64) with maxRanges := 4 }
          ((default : Conn 64).modifyCtx .application fun c => { c with db := .empty }, 0)
          (([.packet 0 10 true 0, .packet 0 5 true 0, .drop 5, .packet 0 7 true 0, .generate 30] :
            List (RxEvent 64)).take i)).1.ctx .application).db.ranges.length < 4) ∧
      (((rxRun { (default : Conf 64) with maxRanges := 4 }
        ((default : Conn 64).modifyCtx .application fun c => { c with db := .empty }, 0)
        [.packet 0 10 true 0, .packet 0 5 true 0, .drop 5, .packet 0 7 true 0, .generate 30]).1.ctx
        .application).db.Acked 7 ↔
      toAck (fun _ => false)
        ([.packet 0 10 true 0, .packet 0 5 true 0, .drop 5, .packet 0 7 true 0, .generate 30] :
          List (RxEvent 64)) 7 = true) := by
  refine ⟨?hw, ?h0, ?hv, ?hr, rxRun_acked_iff_toAck { (default : Conf 64) with maxRanges := 4 } ?hw
    ((default : Conn 64).modifyCtx .application fun c => { c with db := .empty }) 0
    [.packet 0 10 true 0, .packet 0 5 true 0, .drop 5, .packet 0 7 true 0, .generate 30]
    ?h0 ?hv ?hr 7⟩ <;> decide

end Refines

end NjtQuic
