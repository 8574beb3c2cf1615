import Mathlib.Data.List.Basic
import Mathlib.Algebra.Group.Nat.Basic

/-!
# The state of the QUIC loss-recovery core

This file fixes the data that `njt_event_quic_ack.c` reads and writes: sent
frames, the three per-level send contexts with their receiver-side ACK range
database, the congestion controller, and the parts of the connection that the
ACK, loss and timer code touch.

Three kinds of machine integer occur.  Packet numbers, ACK ranges and the
receiver's range database are `uint64_t`, and packet numbers are below `2^62`.
They are `Nat`.  A subtraction on them is either guarded by the comparison
before it (`ack->first_range > ack->largest`, `f->pnum <= ctx->largest_ack`)
or relies on the range database being well formed (`largest - first_range`);
`Nat`'s truncated subtraction agrees with the source's where the guard or
`RangeDb.WF` holds, and the theorems about the database assume `RangeDb.WF`.
Times are `njt_msec_t`, and the code relies on its wrap-around
(`(njt_msec_int_t) (a - b) <= 0` compares two clock readings), so times are
`BitVec w` and a signed cast is `BitVec.toInt`.  The platform word
(`njt_uint_t`, `njt_msec_t`, `size_t`) has `w` bits, 32 or 64.  So the
congestion controller's `window`, `ssthresh` and `in_flight` are `BitVec w`
as well: its additions are not guarded and wrap like the source's, and the
`njt_uint_t` locals of `njt_quic_drop_ack_ranges` narrow a packet number to
`w` bits.  A frame's `plen` stays `Nat`, a datagram length far below `2^w`.

The sentinels follow the source.  `NJT_QUIC_UNSET_PN` is the all-ones
`uint64_t`; packet numbers are below `2^62`, so it never collides with one.
`NJT_TIMER_INFINITE` is the all-ones `njt_msec_t`, which a clock reading can
equal: the model keeps that collision, as the code does.
-/

namespace NjtQuic

/-- `NJT_QUIC_UNSET_PN` (`njt_event_quic_transport.h`, not in src): the
all-ones `uint64_t`, "no packet number yet". -/
def unsetPn : Nat := 2 ^ 64 - 1

/-- `NJT_QUIC_MAX_ACK_GAP`. -/
def maxAckGap : Nat := 2

/-- `NJT_QUIC_PKT_THR`: RFC 9002 kPacketThreshold. -/
def pktThr : Nat := 3

/-- `NJT_QUIC_PERSISTENT_CONGESTION_THR`. -/
def persistentCongestionThr : Nat := 3

/-- `NJT_TIMER_INFINITE` (`njt_event_timer.h`, not in src): the all-ones
`njt_msec_t`, used here for "no sample". -/
def timerInfinite (w : Nat) : BitVec w := BitVec.allOnes w

/-- `NJT_QUIC_TIME_GRANULARITY`: RFC 9002 kGranularity, 1 ms. -/
def timeGranularity (w : Nat) : BitVec w := 1#w

/-- `njt_max` on `njt_msec_t`. -/
def msecMax {w : Nat} (a b : BitVec w) : BitVec w := if a < b then b else a

/-- `njt_min` on `njt_msec_t`. -/
def msecMin {w : Nat} (a b : BitVec w) : BitVec w := if a > b then b else a

/-- `enum ssl_encryption_level_t`, one send context each
(`NJT_QUIC_SEND_CTX_LAST` = 3). -/
inductive Level where
  | initial
  | handshake
  | application
  deriving DecidableEq, Repr, Inhabited

/-- The order in which `for (i = 0; i < NJT_QUIC_SEND_CTX_LAST; i++)` visits
the send contexts. -/
def levels : List Level := [.initial, .handshake, .application]

@[simp] theorem mem_levels (l : Level) : l ∈ levels := by cases l <;> decide

/-- One `(gap, range)` pair: an entry of `ctx->ranges[]`, or of an ACK frame. -/
structure AckRange where
  gap : Nat
  range : Nat
  deriving DecidableEq, Repr, Inhabited

/-- `njt_quic_ack_frame_t`: an ACK frame as the parser delivers it, with the
`range_count` further ranges already decoded into `ranges`. -/
structure AckFrame where
  largest : Nat
  delay : Nat
  firstRange : Nat
  ranges : List AckRange
  deriving DecidableEq, Repr, Inhabited

/-- The frame types `njt_quic_resend_frames` and the ACK handler tell apart,
with the payload fields they read or rewrite.  `ACK` and `ACK_ECN` are handled
alike, as are `MAX_STREAMS` and `MAX_STREAMS2`; `other` is every type that is
re-queued verbatim. -/
inductive FrameKind where
  | ack (ack : AckFrame)
  | ping
  | pathChallenge
  | pathResponse
  | connectionClose
  | maxData (maxData : Nat)
  | maxStreams (bidi : Bool) (limit : Nat)
  | maxStreamData (id limit : Nat)
  | stream (streamId : Nat)
  | resetStream (streamId : Nat)
  | other
  deriving DecidableEq, Repr, Inhabited

/-- Whether a frame makes its packet ack-eliciting (RFC 9000, 13.2): all but
ACK and CONNECTION_CLOSE among the types told apart here. -/
def FrameKind.ackEliciting : FrameKind → Bool
  | .ack _ => false
  | .connectionClose => false
  | _ => true

/-- `njt_quic_frame_t`, restricted to the fields this code reads. -/
structure Frame (w : Nat) where
  pnum : Nat
  sendTime : BitVec w
  plen : Nat
  kind : FrameKind
  ignoreCongestion : Bool
  deriving DecidableEq, Repr, Inhabited

/-- The receiver-side ACK range database of a send context: `largest_range`,
`first_range` and `ranges[0 .. nranges)`.  `nranges` is the list's length. -/
structure RangeDb where
  largestRange : Nat
  firstRange : Nat
  ranges : List AckRange
  deriving DecidableEq, Repr, Inhabited

/-- The database of a context that has received nothing. -/
def RangeDb.empty : RangeDb := ⟨unsetPn, 0, []⟩

/-- `njt_quic_send_ctx_t`.  Its `level` field is the level the context is
stored under, which every function here receives as `l`. -/
structure SendCtx (w : Nat) where
  sent : List (Frame w)
  frames : List (Frame w)
  pnum : Nat
  largestAck : Nat
  db : RangeDb
  pendingAck : Nat
  sendAck : Nat
  ackDelayStart : BitVec w
  largestReceived : BitVec w
  deriving DecidableEq, Repr, Inhabited

/-- `njt_quic_congestion_t`: `window`, `ssthresh` and `in_flight` are
`size_t`. -/
structure Congestion (w : Nat) where
  window : BitVec w
  ssthresh : BitVec w
  inFlight : BitVec w
  recoveryStart : BitVec w
  deriving DecidableEq, Repr, Inhabited

/-- The handler `njt_quic_set_lost_timer` installs on the `qc->pto` event. -/
inductive TimerHandler where
  | lost
  | pto
  deriving DecidableEq, Repr, Inhabited

/-- The send states of a stream that `njt_quic_resend_frames` tells apart. -/
inductive StreamSendState where
  | resetSent
  | resetRecvd
  | other
  deriving DecidableEq, Repr, Inhabited

/-- The fields of `njt_quic_stream_t` that resending reads. -/
structure Stream where
  sendState : StreamSendState
  recvMaxData : Nat
  deriving DecidableEq, Repr, Inhabited

/-- The transport parameters and constants a connection fixes once:
`qc->tp` (ours), `qc->ctp` (the peer's) and `NJT_QUIC_MAX_RANGES`, which is
defined outside src and so is a parameter here. -/
structure Conf (w : Nat) where
  maxUdpPayloadSize : Nat
  maxIdleTimeout : BitVec w
  maxAckDelay : BitVec w
  peerAckDelayExponent : Nat
  peerMaxAckDelay : BitVec w
  maxRanges : Nat
  deriving Inhabited

/-- `njt_quic_connection_t`, restricted to what this code reads and writes.
`pushTimer` is the `qc->push` timer (`timer_set` and its delay),
`pushPosted` records that `qc->push` was posted, and `ptoTimer` is the
`qc->pto` event with its handler and the delay it was added with. -/
structure Conn (w : Nat) where
  initial : SendCtx w
  handshake : SendCtx w
  application : SendCtx w
  latestRtt : BitVec w
  minRtt : BitVec w
  avgRtt : BitVec w
  rttvar : BitVec w
  firstRtt : BitVec w
  congestion : Congestion w
  ptoCount : Nat
  rstPnum : Nat
  closing : Bool
  handshaked : Bool
  pushPosted : Bool
  pushTimer : Option (BitVec w)
  ptoTimer : Option (TimerHandler × Nat)
  recvMaxData : Nat
  clientMaxStreamsBidi : Nat
  clientMaxStreamsUni : Nat
  streams : List (Nat × Stream)
  deriving DecidableEq, Repr, Inhabited

namespace Conn

variable {w : Nat}

/-- `njt_quic_get_send_ctx(qc, level)`. -/
def ctx (qc : Conn w) : Level → SendCtx w
  | .initial => qc.initial
  | .handshake => qc.handshake
  | .application => qc.application

/-- Replace the send context of one level. -/
def setCtx (qc : Conn w) : Level → SendCtx w → Conn w
  | .initial, c => { qc with initial := c }
  | .handshake, c => { qc with handshake := c }
  | .application, c => { qc with application := c }

/-- Update the send context of one level. -/
def modifyCtx (qc : Conn w) (l : Level) (f : SendCtx w → SendCtx w) : Conn w :=
  qc.setCtx l (f (qc.ctx l))

/-- `njt_quic_find_stream(&qc->streams.tree, id)`. -/
def findStream (qc : Conn w) (id : Nat) : Option Stream :=
  (qc.streams.find? (·.1 = id)).map (·.2)

@[simp] theorem ctx_setCtx_self (qc : Conn w) (l : Level) (c : SendCtx w) :
    (qc.setCtx l c).ctx l = c := by
  cases l <;> rfl

@[simp] theorem ctx_setCtx_of_ne (qc : Conn w) {l m : Level} (c : SendCtx w)
    (h : m ≠ l) : (qc.setCtx l c).ctx m = qc.ctx m := by
  cases l <;> cases m <;> first | rfl | exact absurd rfl h

@[simp] theorem setCtx_ctx_self (qc : Conn w) (l : Level) : qc.setCtx l (qc.ctx l) = qc := by
  cases l <;> rfl

@[simp] theorem setCtx_setCtx (qc : Conn w) (l : Level) (c d : SendCtx w) :
    (qc.setCtx l c).setCtx l d = qc.setCtx l d := by
  cases l <;> rfl

@[simp] theorem ctx_modifyCtx_self (qc : Conn w) (l : Level) (f : SendCtx w → SendCtx w) :
    (qc.modifyCtx l f).ctx l = f (qc.ctx l) := ctx_setCtx_self _ _ _

@[simp] theorem ctx_modifyCtx_of_ne (qc : Conn w) {l m : Level} (f : SendCtx w → SendCtx w)
    (h : m ≠ l) : (qc.modifyCtx l f).ctx m = qc.ctx m := ctx_setCtx_of_ne _ _ h

theorem ctx_modifyCtx (qc : Conn w) (l m : Level) (f : SendCtx w → SendCtx w) :
    (qc.modifyCtx l f).ctx m = if m = l then f (qc.ctx l) else qc.ctx m := by
  by_cases h : m = l
  · subst h; simp
  · simp [h]

/-- A context update that keeps a field of the context keeps it at every
level. -/
theorem proj_ctx_modifyCtx {α : Type} (g : SendCtx w → α) {f : SendCtx w → SendCtx w}
    (hf : ∀ c, g (f c) = g c) (qc : Conn w) (l m : Level) :
    g ((qc.modifyCtx l f).ctx m) = g (qc.ctx m) := by
  by_cases h : m = l
  · subst h; simp [hf]
  · simp [h]

/-- The connection-wide fields are untouched by a context update. -/
@[simp] theorem setCtx_congestion (qc : Conn w) (l : Level) (c : SendCtx w) :
    (qc.setCtx l c).congestion = qc.congestion := by cases l <;> rfl

@[simp] theorem setCtx_rstPnum (qc : Conn w) (l : Level) (c : SendCtx w) :
    (qc.setCtx l c).rstPnum = qc.rstPnum := by cases l <;> rfl

@[simp] theorem setCtx_closing (qc : Conn w) (l : Level) (c : SendCtx w) :
    (qc.setCtx l c).closing = qc.closing := by cases l <;> rfl

@[simp] theorem setCtx_handshaked (qc : Conn w) (l : Level) (c : SendCtx w) :
    (qc.setCtx l c).handshaked = qc.handshaked := by cases l <;> rfl

@[simp] theorem setCtx_ptoCount (qc : Conn w) (l : Level) (c : SendCtx w) :
    (qc.setCtx l c).ptoCount = qc.ptoCount := by cases l <;> rfl

@[simp] theorem setCtx_firstRtt (qc : Conn w) (l : Level) (c : SendCtx w) :
    (qc.setCtx l c).firstRtt = qc.firstRtt := by cases l <;> rfl

@[simp] theorem setCtx_latestRtt (qc : Conn w) (l : Level) (c : SendCtx w) :
    (qc.setCtx l c).latestRtt = qc.latestRtt := by cases l <;> rfl

@[simp] theorem setCtx_avgRtt (qc : Conn w) (l : Level) (c : SendCtx w) :
    (qc.setCtx l c).avgRtt = qc.avgRtt := by cases l <;> rfl

@[simp] theorem setCtx_rttvar (qc : Conn w) (l : Level) (c : SendCtx w) :
    (qc.setCtx l c).rttvar = qc.rttvar := by cases l <;> rfl

@[simp] theorem setCtx_minRtt (qc : Conn w) (l : Level) (c : SendCtx w) :
    (qc.setCtx l c).minRtt = qc.minRtt := by cases l <;> rfl

@[simp] theorem setCtx_streams (qc : Conn w) (l : Level) (c : SendCtx w) :
    (qc.setCtx l c).streams = qc.streams := by cases l <;> rfl

@[simp] theorem setCtx_pushTimer (qc : Conn w) (l : Level) (c : SendCtx w) :
    (qc.setCtx l c).pushTimer = qc.pushTimer := by cases l <;> rfl

@[simp] theorem setCtx_ptoTimer (qc : Conn w) (l : Level) (c : SendCtx w) :
    (qc.setCtx l c).ptoTimer = qc.ptoTimer := by cases l <;> rfl

/-- A context update commutes with an update of the connection-wide fields. -/
@[simp] theorem ctx_with_congestion (qc : Conn w) (cg : Congestion w) (l : Level) :
    ({ qc with congestion := cg } : Conn w).ctx l = qc.ctx l := by cases l <;> rfl

@[simp] theorem ctx_with_pushPosted (qc : Conn w) (b : Bool) (l : Level) :
    ({ qc with pushPosted := b } : Conn w).ctx l = qc.ctx l := by cases l <;> rfl

@[simp] theorem ctx_with_ptoTimer (qc : Conn w) (t : Option (TimerHandler × Nat)) (l : Level) :
    ({ qc with ptoTimer := t } : Conn w).ctx l = qc.ctx l := by cases l <;> rfl

@[simp] theorem ctx_with_pushTimer (qc : Conn w) (t : Option (BitVec w)) (l : Level) :
    ({ qc with pushTimer := t } : Conn w).ctx l = qc.ctx l := by cases l <;> rfl

@[simp] theorem ctx_with_ptoCount (qc : Conn w) (n : Nat) (l : Level) :
    ({ qc with ptoCount := n } : Conn w).ctx l = qc.ctx l := by cases l <;> rfl

@[simp] theorem ctx_with_streams (qc : Conn w) (ss : List (Nat × Stream)) (l : Level) :
    ({ qc with streams := ss } : Conn w).ctx l = qc.ctx l := by cases l <;> rfl

end Conn

end NjtQuic
