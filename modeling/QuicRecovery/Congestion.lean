import Mathlib.Data.BitVec
import Mathlib.Tactic.Ring
import QuicRecovery.State

/-!
# The NewReno congestion controller

`njt_quic_congestion_ack`, `njt_quic_congestion_lost` and
`njt_quic_persistent_congestion` are the only writers of `window`, `ssthresh`
and `recovery_start`; the sender's commit is the only other writer of
`in_flight`.  A run of the controller is any sequence of these calls
(`CcEvent`), whatever handler makes them and in whatever order.  The three
counters are `size_t`, so they are computed in `BitVec w`.

* `congestion_window_wraps`: the floor of two datagrams on the window does
  not hold of the code.  Slow start adds `plen` to `window` with no bound, and
  on a 32-bit build, from the initial window of ten 1200-byte datagrams and an
  infinite `ssthresh`, 3579130 acknowledged datagrams with no loss (about
  4 GiB) wrap the window to 704 bytes.
* `congestion_window_floor`: what holds instead.  `ssthresh` stays positive in
  every run, so congestion avoidance, which it enters only with
  `window >= ssthresh`, never divides by zero; and in every run in which no
  acknowledgment wraps the window, the window stays at two datagrams or more,
  and `ssthresh` too once a loss has set it.
* `congestion_recovery_period`, about `recovery_start`.  Clock values wrap and
  the code compares them only through signed differences, so a run is read
  from a base `b`: when every reading stays within half the range of
  `njt_msec_t`, never goes backwards, and no frame is handled before it was
  sent, `recovery_start` never moves backwards and never passes the clock.  So
  a loss that reduced the window at time `t` opens a recovery period: no later
  acknowledgment or loss of a packet sent by `t` changes the window,
  `ssthresh` or `recovery_start` again.
-/

namespace NjtQuic

variable {w : Nat}

/-- `qc->tp.max_udp_payload_size * 2`, in `size_t`: the smallest window. -/
def minWindow (cf : Conf w) : BitVec w := BitVec.ofNat w (cf.maxUdpPayloadSize * 2)

/-- `njt_quic_congestion_ack`: account for an acknowledged frame.  Returns the
new controller state and whether `qc->push` is posted (the sender was blocked
by the window and no longer is).  The division of congestion avoidance is
`BitVec` division, which gives 0 where the source would trap on a zero
divisor; `congestion_window_floor` shows that the divisor is positive. -/
def congestionAck (cf : Conf w) (rstPnum : Nat) (now : BitVec w) (cg : Congestion w)
    (f : Frame w) : Congestion w × Bool :=
  if f.plen = 0 then (cg, false)
  else if f.pnum < rstPnum then (cg, false)
  else
    let plen := BitVec.ofNat w f.plen
    let blocked := decide (cg.window ≤ cg.inFlight)
    let cg := { cg with inFlight := cg.inFlight - plen }
    let cg :=
      if (f.sendTime - cg.recoveryStart).toInt ≤ 0 then cg
      else
        let window :=
          if cg.window < cg.ssthresh then cg.window + plen
          else cg.window + BitVec.ofNat w cf.maxUdpPayloadSize * plen / cg.window
        -- prevent recovery_start from wrapping
        let recoveryStart :=
          if (cg.recoveryStart - now + cf.maxIdleTimeout * 2).toInt < 0 then
            now - cf.maxIdleTimeout * 2
          else cg.recoveryStart
        { cg with window, recoveryStart }
    (cg, blocked && decide (cg.inFlight < cg.window))

/-- Lines 692-696 of `njt_quic_congestion_lost`: half the window, and no less
than two datagrams. -/
def reducedWindow (cf : Conf w) (window : BitVec w) : BitVec w :=
  if window / 2 < minWindow cf then minWindow cf else window / 2

/-- `njt_quic_congestion_lost`: account for the first frame of a lost packet.
Besides the controller state and the push flag it returns the frame, whose
`plen` the code zeroes. -/
def congestionLost (cf : Conf w) (rstPnum : Nat) (now : BitVec w) (cg : Congestion w)
    (f : Frame w) : Congestion w × Frame w × Bool :=
  if f.plen = 0 then (cg, f, false)
  else if f.pnum < rstPnum then (cg, f, false)
  else
    let blocked := decide (cg.window ≤ cg.inFlight)
    let cg := { cg with inFlight := cg.inFlight - BitVec.ofNat w f.plen }
    let cg :=
      if (f.sendTime - cg.recoveryStart).toInt ≤ 0 then cg
      else
        let window := reducedWindow cf cg.window
        { cg with recoveryStart := now, window, ssthresh := window }
    (cg, { f with plen := 0 }, blocked && decide (cg.inFlight < cg.window))

/-- `njt_quic_persistent_congestion`: collapse the window to two datagrams. -/
def persistentCongestion (cf : Conf w) (now : BitVec w) (cg : Congestion w) : Congestion w :=
  { cg with recoveryStart := now, window := minWindow cf }

/-- Whether `njt_quic_congestion_lost` takes its reduction branch: the frame
counts towards `in_flight` and was sent after the current recovery period
began. -/
def LossReduces (rstPnum : Nat) (cg : Congestion w) (f : Frame w) : Prop :=
  f.plen ≠ 0 ∧ rstPnum ≤ f.pnum ∧ 0 < (f.sendTime - cg.recoveryStart).toInt

instance (rstPnum : Nat) (cg : Congestion w) (f : Frame w) :
    Decidable (LossReduces rstPnum cg f) := by
  unfold LossReduces; infer_instance

/-- What `njt_quic_congestion_ack` adds to the window: `plen` in slow start,
`max_udp_payload_size * plen / window` in congestion avoidance, and nothing
for a frame that does not count or was sent in the recovery period. -/
def ackIncrease (cf : Conf w) (rstPnum : Nat) (cg : Congestion w) (f : Frame w) : BitVec w :=
  if f.plen = 0 ∨ f.pnum < rstPnum ∨ (f.sendTime - cg.recoveryStart).toInt ≤ 0 then 0
  else if cg.window < cg.ssthresh then BitVec.ofNat w f.plen
  else BitVec.ofNat w cf.maxUdpPayloadSize * BitVec.ofNat w f.plen / cg.window

/-! ## One call at a time -/

section Calls

variable (cf : Conf w) (rstPnum : Nat) (now : BitVec w) (cg : Congestion w) (f : Frame w)

theorem minWindow_toNat (h : cf.maxUdpPayloadSize * 2 < 2 ^ w) :
    (minWindow cf).toNat = cf.maxUdpPayloadSize * 2 := by
  rw [minWindow, BitVec.toNat_ofNat, Nat.mod_eq_of_lt h]

/-- The reduced window is at least two datagrams. -/
theorem minWindow_le_reducedWindow (window : BitVec w) :
    (minWindow cf).toNat ≤ (reducedWindow cf window).toNat := by
  unfold reducedWindow
  split_ifs with h
  · exact le_rfl
  · exact BitVec.le_def.1 (BitVec.not_lt.1 h)

@[simp] theorem congestionAck_ssthresh : (congestionAck cf rstPnum now cg f).1.ssthresh = cg.ssthresh := by
  unfold congestionAck; dsimp only; split_ifs <;> rfl

theorem congestionAck_inFlight :
    (congestionAck cf rstPnum now cg f).1.inFlight =
      if f.plen = 0 ∨ f.pnum < rstPnum then cg.inFlight
      else cg.inFlight - BitVec.ofNat w f.plen := by
  unfold congestionAck
  by_cases h0 : f.plen = 0
  · simp [h0]
  by_cases h1 : f.pnum < rstPnum
  · simp [h0, h1]
  simp only [h0, h1, or_self, if_false]
  split_ifs <;> rfl

/-- An acknowledgment adds `ackIncrease` to the window. -/
theorem congestionAck_window :
    (congestionAck cf rstPnum now cg f).1.window = cg.window + ackIncrease cf rstPnum cg f := by
  unfold congestionAck ackIncrease
  by_cases h0 : f.plen = 0
  · simp [h0]
  by_cases h1 : f.pnum < rstPnum
  · simp [h0, h1]
  simp only [h0, h1, false_or, if_false]
  split_ifs <;> simp

/-- Acknowledging a frame sent inside the recovery period changes neither the
window nor `recovery_start`. -/
theorem congestionAck_of_recovery (h : (f.sendTime - cg.recoveryStart).toInt ≤ 0) :
    (congestionAck cf rstPnum now cg f).1.window = cg.window ∧
      (congestionAck cf rstPnum now cg f).1.recoveryStart = cg.recoveryStart := by
  unfold congestionAck; dsimp only; split_ifs <;> exact ⟨rfl, rfl⟩

/-- An acknowledgment keeps `recovery_start`, unless the wrap guard fires and
moves it to `now - 2 * max_idle_timeout`. -/
theorem congestionAck_recoveryStart :
    (congestionAck cf rstPnum now cg f).1.recoveryStart = cg.recoveryStart ∨
      ((cg.recoveryStart - now + cf.maxIdleTimeout * 2).toInt < 0 ∧
        (congestionAck cf rstPnum now cg f).1.recoveryStart = now - cf.maxIdleTimeout * 2) := by
  unfold congestionAck; dsimp only
  split_ifs <;> first | exact .inl rfl | exact .inr ⟨by assumption, rfl⟩

/-- The reduction branch of `njt_quic_congestion_lost`, and the branch that
leaves the window, `ssthresh` and `recovery_start` alone. -/
theorem congestionLost_cases :
    (LossReduces rstPnum cg f ∧
      (congestionLost cf rstPnum now cg f).1 =
        { cg with inFlight := cg.inFlight - BitVec.ofNat w f.plen, recoveryStart := now,
                  window := reducedWindow cf cg.window, ssthresh := reducedWindow cf cg.window }) ∨
    (¬ LossReduces rstPnum cg f ∧
      (congestionLost cf rstPnum now cg f).1 =
        { cg with inFlight := if f.plen = 0 ∨ f.pnum < rstPnum then cg.inFlight
                              else cg.inFlight - BitVec.ofNat w f.plen }) := by
  unfold congestionLost LossReduces
  dsimp only
  by_cases h0 : f.plen = 0
  · simp [h0]
  by_cases h1 : f.pnum < rstPnum
  · simp [h0, h1]
  by_cases h2 : (f.sendTime - cg.recoveryStart).toInt ≤ 0
  · right
    refine ⟨fun h => absurd h.2.2 (Int.not_lt.mpr h2), ?_⟩
    simp only [h0, h1, h2, or_self, if_true, if_false]
  · left
    simp only [h0, h1, h2, if_false, ne_eq, not_false_eq_true, Nat.not_lt.mp h1, true_and]
    exact ⟨by omega, trivial⟩

theorem congestionLost_inFlight :
    (congestionLost cf rstPnum now cg f).1.inFlight =
      if f.plen = 0 ∨ f.pnum < rstPnum then cg.inFlight
      else cg.inFlight - BitVec.ofNat w f.plen := by
  rcases congestionLost_cases cf rstPnum now cg f with ⟨⟨h0, h1, -⟩, h⟩ | ⟨-, h⟩ <;> rw [h]
  simp [h0, Nat.not_lt.mpr h1]

@[simp] theorem congestionLost_frame :
    (congestionLost cf rstPnum now cg f).2.1 =
      if f.plen = 0 ∨ f.pnum < rstPnum then f else { f with plen := 0 } := by
  unfold congestionLost
  by_cases h0 : f.plen = 0
  · simp [h0]
  by_cases h1 : f.pnum < rstPnum
  · simp [h0, h1]
  simp only [h0, h1, or_self, if_false]

end Calls

/-! ## Runs of the controller -/

/-- One call into the controller.  `commit` is the sender adding a packet's
bytes to `in_flight` (`njt_quic_commit_send`, outside src). -/
inductive CcEvent (w : Nat) where
  | ack (rstPnum : Nat) (now : BitVec w) (f : Frame w)
  | lost (rstPnum : Nat) (now : BitVec w) (f : Frame w)
  | persistent (now : BitVec w)
  | commit (plen : Nat)

/-- The controller state after one call. -/
def ccStep (cf : Conf w) (cg : Congestion w) : CcEvent w → Congestion w
  | .ack rstPnum now f => (congestionAck cf rstPnum now cg f).1
  | .lost rstPnum now f => (congestionLost cf rstPnum now cg f).1
  | .persistent now => persistentCongestion cf now cg
  | .commit plen => { cg with inFlight := cg.inFlight + BitVec.ofNat w plen }

/-- The controller state after a run. -/
def ccRun (cf : Conf w) (cg : Congestion w) (evs : List (CcEvent w)) : Congestion w :=
  evs.foldl (ccStep cf) cg

@[simp] theorem ccRun_nil (cf : Conf w) (cg : Congestion w) : ccRun cf cg [] = cg := rfl

theorem ccRun_append (cf : Conf w) (cg : Congestion w) (evs evs' : List (CcEvent w)) :
    ccRun cf cg (evs ++ evs') = ccRun cf (ccRun cf cg evs) evs' := by
  simp [ccRun, List.foldl_append]

theorem ccRun_cons (cf : Conf w) (cg : Congestion w) (e : CcEvent w) (evs : List (CcEvent w)) :
    ccRun cf cg (e :: evs) = ccRun cf (ccStep cf cg e) evs := rfl

/-! ## The window can wrap -/

/-- A commit of `plen` bytes and the acknowledgment of a frame of `plen` bytes,
repeated `n` times in slow start, add `n * plen` to the window, modulo
`2^w`, and leave the rest of the controller as it was. -/
theorem ccRun_slowStart (cf : Conf w) (rstPnum : Nat) (now : BitVec w) (f : Frame w)
    (hp : f.plen ≠ 0) (hr : rstPnum ≤ f.pnum) :
    ∀ (n : Nat) (cg : Congestion w), 0 < (f.sendTime - cg.recoveryStart).toInt →
      0 ≤ (cg.recoveryStart - now + cf.maxIdleTimeout * 2).toInt →
      (∀ k < n, cg.window + BitVec.ofNat w (k * f.plen) < cg.ssthresh) →
      ccRun cf cg (List.replicate n [.commit f.plen, .ack rstPnum now f]).flatten =
        { cg with window := cg.window + BitVec.ofNat w (n * f.plen) }
  | 0, cg, _, _, _ => by simp
  | n + 1, cg, h1, h2, h3 => by
    have hss : cg.window < cg.ssthresh := by simpa using h3 0 (Nat.succ_pos n)
    have hstep : ccRun cf cg [.commit f.plen, .ack rstPnum now f] =
        { cg with window := cg.window + BitVec.ofNat w f.plen } := by
      simp only [ccRun, List.foldl, ccStep, congestionAck, hp, if_false, Nat.not_lt.mpr hr]
      rw [if_neg (by simpa using h1), if_pos hss, if_neg (by simpa using h2)]
      simp
    rw [List.replicate_succ, List.flatten_cons, ccRun_append, hstep,
      ccRun_slowStart cf rstPnum now f hp hr n { cg with window := cg.window + BitVec.ofNat w f.plen }
        h1 h2 fun k hk => by
        simpa [Nat.succ_mul, BitVec.ofNat_add, add_assoc, add_comm] using h3 (k + 1) (Nat.succ_lt_succ hk)]
    simp [Nat.succ_mul, BitVec.ofNat_add, add_assoc, add_comm]

/-- **The window wraps.**  On a 32-bit build, a controller with the initial
window of ten 1200-byte datagrams and the infinite `ssthresh`, `SIZE_MAX`,
stays in slow start while 3579130 packets of 1200 bytes are committed and
acknowledged one by one with no loss; the window, 12000 plus 4294956000 bytes
in `size_t`, ends at 704 bytes, below two datagrams. -/
theorem congestion_window_wraps :
    let cf : Conf 32 := { (default : Conf 32) with maxUdpPayloadSize := 1200, maxIdleTimeout := 30000 }
    let cg : Congestion 32 := ⟨12000, BitVec.allOnes 32, 0, 0⟩
    let evs : List (CcEvent 32) :=
      (List.replicate 3579130 [.commit 1200, .ack 0 1 ⟨0, 1, 1200, .ping, false⟩]).flatten
    0 < cf.maxUdpPayloadSize ∧ cf.maxUdpPayloadSize * 2 ≤ cg.window.toNat ∧
      (ccRun cf cg evs).window.toNat = 704 ∧ (ccRun cf cg evs).window.toNat < cf.maxUdpPayloadSize * 2 := by
  intro cf cg evs
  have h : (ccRun cf cg evs).window = 12000 + BitVec.ofNat 32 (3579130 * 1200) := by
    rw [ccRun_slowStart cf 0 1 ⟨0, 1, 1200, .ping, false⟩ (by decide) le_rfl 3579130 cg
      (by decide) (by decide) fun k hk => by
        have h12 : (12000 : BitVec 32).toNat = 12000 := rfl
        simp only [cg, BitVec.lt_def, BitVec.toNat_add, BitVec.toNat_ofNat, BitVec.toNat_allOnes, h12]
        omega]
  refine ⟨by decide, by decide, ?_, ?_⟩ <;> rw [h] <;> decide

/-! ## What holds instead: a positive divisor, and the floor while nothing wraps -/

/-- An acknowledgment that does not wrap the window: what it adds keeps the
window below `2^w`.  Every other call keeps the window from wrapping. -/
def CcEvent.KeepsWindow (cf : Conf w) (cg : Congestion w) : CcEvent w → Prop
  | .ack rstPnum _ f => cg.window.toNat + (ackIncrease cf rstPnum cg f).toNat < 2 ^ w
  | _ => True

/-- A run none of whose acknowledgments wraps the window. -/
def NoWrapRun (cf : Conf w) : Congestion w → List (CcEvent w) → Prop
  | _, [] => True
  | cg, e :: evs => e.KeepsWindow cf cg ∧ NoWrapRun cf (ccStep cf cg e) evs

section Floor

variable (cf : Conf w) (hm : 0 < cf.maxUdpPayloadSize) (hm2 : cf.maxUdpPayloadSize * 2 < 2 ^ w)
include hm2

/-- Every call that does not wrap the window keeps it at two datagrams or
more. -/
theorem ccStep_window_floor (cg : Congestion w) (e : CcEvent w) (he : e.KeepsWindow cf cg)
    (h : cf.maxUdpPayloadSize * 2 ≤ cg.window.toNat) :
    cf.maxUdpPayloadSize * 2 ≤ (ccStep cf cg e).window.toNat := by
  have hmin := minWindow_toNat cf hm2
  cases e with
  | ack rstPnum now f =>
    simp only [CcEvent.KeepsWindow] at he
    simp only [ccStep, congestionAck_window, BitVec.toNat_add, Nat.mod_eq_of_lt he]
    omega
  | lost rstPnum now f =>
    have := minWindow_le_reducedWindow cf cg.window
    rcases congestionLost_cases cf rstPnum now cg f with ⟨-, hc⟩ | ⟨-, hc⟩ <;>
      simp only [ccStep, hc] <;> omega
  | persistent now => simp only [ccStep, persistentCongestion, hmin]; exact le_rfl
  | commit plen => exact h

/-- Every call keeps `ssthresh` at two datagrams or more once it is there. -/
theorem ccStep_ssthresh_floor (cg : Congestion w) (e : CcEvent w)
    (h : cf.maxUdpPayloadSize * 2 ≤ cg.ssthresh.toNat) :
    cf.maxUdpPayloadSize * 2 ≤ (ccStep cf cg e).ssthresh.toNat := by
  have := minWindow_le_reducedWindow cf cg.window
  have hmin := minWindow_toNat cf hm2
  cases e with
  | ack rstPnum now f => simpa [ccStep] using h
  | lost rstPnum now f =>
    rcases congestionLost_cases cf rstPnum now cg f with ⟨-, hc⟩ | ⟨-, hc⟩ <;>
      simp only [ccStep, hc] <;> omega
  | persistent now => exact h
  | commit plen => exact h

/-- A loss that reduces the window sets `ssthresh` to at least two datagrams. -/
theorem ccStep_lost_ssthresh (cg : Congestion w) (rstPnum : Nat) (now : BitVec w)
    (f : Frame w) (h : LossReduces rstPnum cg f) :
    cf.maxUdpPayloadSize * 2 ≤ (ccStep cf cg (.lost rstPnum now f)).ssthresh.toNat := by
  have := minWindow_le_reducedWindow cf cg.window
  have hmin := minWindow_toNat cf hm2
  rcases congestionLost_cases cf rstPnum now cg f with ⟨-, hc⟩ | ⟨hn, -⟩
  · simp only [ccStep, hc]; omega
  · exact absurd h hn

/-- A run keeps the window at two datagrams or more while none of its
acknowledgments wraps it. -/
theorem ccRun_window_floor : ∀ (evs : List (CcEvent w)) (cg : Congestion w),
    cf.maxUdpPayloadSize * 2 ≤ cg.window.toNat → NoWrapRun cf cg evs →
      cf.maxUdpPayloadSize * 2 ≤ (ccRun cf cg evs).window.toNat
  | [], _, h, _ => h
  | e :: evs, cg, h, ⟨he, hr⟩ => ccRun_window_floor evs _ (ccStep_window_floor cf hm2 cg e he h) hr

theorem ccRun_ssthresh_floor : ∀ (evs : List (CcEvent w)) (cg : Congestion w),
    cf.maxUdpPayloadSize * 2 ≤ cg.ssthresh.toNat →
      cf.maxUdpPayloadSize * 2 ≤ (ccRun cf cg evs).ssthresh.toNat
  | [], _, h => h
  | e :: evs, cg, h => ccRun_ssthresh_floor evs _ (ccStep_ssthresh_floor cf hm2 cg e h)

include hm

/-- Every call keeps `ssthresh` positive: only a loss sets it, to at least
two datagrams. -/
theorem ccStep_ssthresh_pos (cg : Congestion w) (e : CcEvent w) (h : 0 < cg.ssthresh.toNat) :
    0 < (ccStep cf cg e).ssthresh.toNat := by
  cases e with
  | ack rstPnum now f => simpa [ccStep] using h
  | lost rstPnum now f =>
    rcases congestionLost_cases cf rstPnum now cg f with ⟨hr, -⟩ | ⟨-, hc⟩
    · have := ccStep_lost_ssthresh cf hm2 cg rstPnum now f hr
      omega
    · simpa [ccStep, hc] using h
  | persistent now => exact h
  | commit plen => exact h

theorem ccRun_ssthresh_pos : ∀ (evs : List (CcEvent w)) (cg : Congestion w),
    0 < cg.ssthresh.toNat → 0 < (ccRun cf cg evs).ssthresh.toNat
  | [], _, h => h
  | e :: evs, cg, h => ccRun_ssthresh_pos evs _ (ccStep_ssthresh_pos cf hm hm2 cg e h)

end Floor

/-- **What holds of the window.**  Take a datagram size of at least one byte
with two datagrams below `2^w`, and any run of the controller from a positive
`ssthresh` (the initial one is `SIZE_MAX`).  `ssthresh` stays positive, so
whenever `njt_quic_congestion_ack` takes the congestion-avoidance branch
(`window >= ssthresh`) it divides by a positive window.  `ssthresh` is at least
two datagrams once a loss has reduced the window.  And if the run starts from
a window of two datagrams or more and none of its acknowledgments wraps the
window, the window stays at two datagrams or more. -/
theorem congestion_window_floor (cf : Conf w) (cg : Congestion w) (evs : List (CcEvent w))
    (hm : 0 < cf.maxUdpPayloadSize) (hm2 : cf.maxUdpPayloadSize * 2 < 2 ^ w)
    (hs : 0 < cg.ssthresh.toNat) :
    (0 < (ccRun cf cg evs).ssthresh.toNat ∧
      ((ccRun cf cg evs).ssthresh ≤ (ccRun cf cg evs).window → 0 < (ccRun cf cg evs).window.toNat)) ∧
    (∀ pre rstPnum now f post, evs = pre ++ CcEvent.lost rstPnum now f :: post →
      LossReduces rstPnum (ccRun cf cg pre) f →
      cf.maxUdpPayloadSize * 2 ≤ (ccRun cf cg evs).ssthresh.toNat) ∧
    (cf.maxUdpPayloadSize * 2 ≤ cg.window.toNat → NoWrapRun cf cg evs →
      cf.maxUdpPayloadSize * 2 ≤ (ccRun cf cg evs).window.toNat) := by
  have hpos := ccRun_ssthresh_pos cf hm hm2 evs cg hs
  refine ⟨⟨hpos, fun hle => lt_of_lt_of_le hpos (BitVec.le_def.1 hle)⟩, ?_,
    ccRun_window_floor cf hm2 evs cg⟩
  rintro pre rstPnum now f post rfl hred
  rw [ccRun_append, ccRun_cons]
  exact ccRun_ssthresh_floor cf hm2 post _ (ccStep_lost_ssthresh cf hm2 _ rstPnum now f hred)

/-- The initial controller of a 64-bit build commits one 1200-byte packet and
loses it. -/
theorem congestion_window_floor_tenDatagrams :
    let cf : Conf 64 := { (default : Conf 64) with maxUdpPayloadSize := 1200 }
    let cg : Congestion 64 := ⟨12000, BitVec.allOnes 64, 0, 0⟩
    let evs : List (CcEvent 64) := [.commit 1200, .lost 0 5 ⟨0, 1, 1200, .ping, false⟩]
    0 < cf.maxUdpPayloadSize ∧ cf.maxUdpPayloadSize * 2 < 2 ^ 64 ∧ 0 < cg.ssthresh.toNat ∧
      ((0 < (ccRun cf cg evs).ssthresh.toNat ∧
        ((ccRun cf cg evs).ssthresh ≤ (ccRun cf cg evs).window →
          0 < (ccRun cf cg evs).window.toNat)) ∧
      (∀ pre rstPnum now f post, evs = pre ++ CcEvent.lost rstPnum now f :: post →
        LossReduces rstPnum (ccRun cf cg pre) f →
        cf.maxUdpPayloadSize * 2 ≤ (ccRun cf cg evs).ssthresh.toNat) ∧
      (cf.maxUdpPayloadSize * 2 ≤ cg.window.toNat → NoWrapRun cf cg evs →
        cf.maxUdpPayloadSize * 2 ≤ (ccRun cf cg evs).window.toNat)) :=
  ⟨by decide, by decide, by decide, congestion_window_floor _ _ _ (by decide) (by decide) (by decide)⟩

/-! ## Recovery periods -/

/-- The reading of the clock value `x` taken from the base `b`: the unsigned
distance from `b` to `x`. -/
def since (b x : BitVec w) : Nat := (x - b).toNat

theorem add_lt_two_pow_of_half {a c : Nat} (ha : a < 2 ^ (w - 1)) (hc : c < 2 ^ (w - 1)) :
    a + c < 2 ^ w := by
  rcases Nat.eq_zero_or_pos w with rfl | hw
  · simp only [Nat.zero_sub, Nat.pow_zero, Nat.lt_one_iff] at ha hc ⊢; omega
  · have : 2 ^ w = 2 * 2 ^ (w - 1) := by rw [← Nat.pow_succ']; congr 1; omega
    omega

/-- Two values less than half the range apart: the signed reading of their
difference is the true difference. -/
theorem toInt_sub_of_near (x y : BitVec w) (h1 : x.toNat < y.toNat + 2 ^ (w - 1))
    (h2 : y.toNat ≤ x.toNat + 2 ^ (w - 1)) : (x - y).toInt = (x.toNat : Int) - y.toNat := by
  have hx := x.isLt; have hy := y.isLt
  rcases Nat.eq_zero_or_pos w with rfl | hw
  · simp only [Nat.pow_zero, Nat.lt_one_iff] at hx hy
    simp [BitVec.toInt, hx, hy]
  have hM : 2 ^ w = 2 * 2 ^ (w - 1) := by rw [← Nat.pow_succ']; congr 1; omega
  rw [BitVec.toInt, BitVec.toNat_sub]
  generalize x.toNat = X at *
  generalize y.toNat = Y at *
  generalize 2 ^ (w - 1) = H at *
  generalize 2 ^ w = M at *
  subst hM
  rcases Nat.lt_or_ge X Y with h | h
  · rw [Nat.mod_eq_of_lt (by omega)]; split_ifs <;> omega
  · rw [Nat.mod_eq_sub_mod (by omega), Nat.mod_eq_of_lt (by omega)]; split_ifs <;> omega

section Readings

variable {b x y d : BitVec w}

/-- Read from a common base within half the range, a signed difference is the
difference of the readings. -/
theorem toInt_sub_eq_since (hx : since b x < 2 ^ (w - 1)) (hy : since b y < 2 ^ (w - 1)) :
    (x - y).toInt = (since b x : Int) - since b y := by
  have e : x - y = (x - b) - (y - b) := by ring
  unfold since at *
  rw [e, toInt_sub_of_near _ _ (by omega) (by omega)]

/-- The test of the wrap guard, `x - y + d`, read from `b` when `x` is no later
than `y` and `d` is below half the range. -/
theorem toInt_sub_add_eq_since (hxy : since b x ≤ since b y) (hy : since b y < 2 ^ (w - 1))
    (hd : d.toNat < 2 ^ (w - 1)) :
    (x - y + d).toInt = (since b x : Int) + d.toNat - since b y := by
  have e : x - y + d = (x - b + d) - (y - b) := by ring
  have hn : (x - b + d).toNat = since b x + d.toNat :=
    (BitVec.toNat_add _ _).trans (Nat.mod_eq_of_lt (add_lt_two_pow_of_half (show since b x < 2 ^ (w - 1) by omega) hd))
  have hyb : (y - b).toNat = since b y := rfl
  rw [e, toInt_sub_of_near _ _ (by omega) (by omega), hn, hyb]
  push_cast; ring

/-- Going back by `d` from a reading at least `d` lowers the reading by `d`. -/
theorem since_sub (h : d.toNat ≤ since b y) : since b (y - d) = since b y - d.toNat := by
  have e : y - d - b = (y - b) - d := by ring
  unfold since at *
  rw [e, BitVec.toNat_sub_of_le (BitVec.le_def.mpr h)]

end Readings

/-- The clock reading after a call, from the base `b`, when it was `t` before:
a call of the controller reads `njt_current_msec`, the sender's commit reads
nothing. -/
def CcEvent.clock (b : BitVec w) (t : Nat) : CcEvent w → Nat
  | .ack _ now _ | .lost _ now _ | .persistent now => since b now
  | .commit _ => t

/-- The frame a call accounts for. -/
def CcEvent.frame? : CcEvent w → Option (Frame w)
  | .ack _ _ f | .lost _ _ f => some f
  | .persistent _ | .commit _ => none

/-- A call whose clock is read correctly from `b` after the reading `t`: its
reading is not behind `t` and stays below half the range, and the frame it
accounts for was sent no later than it. -/
def CcEvent.Clocked (b : BitVec w) (t : Nat) : CcEvent w → Prop
  | .ack _ now f | .lost _ now f =>
    t ≤ since b now ∧ since b now < 2 ^ (w - 1) ∧ since b f.sendTime ≤ since b now
  | .persistent now => t ≤ since b now ∧ since b now < 2 ^ (w - 1)
  | .commit _ => True

instance (b : BitVec w) (t : Nat) (e : CcEvent w) : Decidable (e.Clocked b t) := by
  cases e <;> unfold CcEvent.Clocked <;> infer_instance

/-- A run every call of which reads the clock correctly from `b`, the last
reading before the run being `t`. -/
def ClockedRun (b : BitVec w) : Nat → List (CcEvent w) → Prop
  | _, [] => True
  | t, e :: evs => e.Clocked b t ∧ ClockedRun b (e.clock b t) evs

instance decClockedRun (b : BitVec w) : ∀ t evs, Decidable (ClockedRun b t evs)
  | _, [] => isTrue trivial
  | t, e :: evs =>
    have := decClockedRun b (e.clock b t) evs
    inferInstanceAs (Decidable (_ ∧ _))

/-- The last clock reading after a run. -/
def clockRun (b : BitVec w) (t : Nat) (evs : List (CcEvent w)) : Nat :=
  evs.foldl (CcEvent.clock b) t

theorem clockRun_append (b : BitVec w) (t : Nat) (evs evs' : List (CcEvent w)) :
    clockRun b t (evs ++ evs') = clockRun b (clockRun b t evs) evs' := by
  simp [clockRun, List.foldl_append]

theorem ClockedRun.append {b : BitVec w} :
    ∀ {t : Nat} {evs evs' : List (CcEvent w)}, ClockedRun b t (evs ++ evs') →
      ClockedRun b t evs ∧ ClockedRun b (clockRun b t evs) evs'
  | _, [], _, h => ⟨trivial, h⟩
  | _, _ :: _, _, ⟨he, h⟩ => ⟨⟨he, (ClockedRun.append h).1⟩, (ClockedRun.append h).2⟩

section Clocked

variable {b : BitVec w} {t : Nat} {e : CcEvent w}

theorem CcEvent.clock_lt (he : e.Clocked b t) (ht : t < 2 ^ (w - 1)) :
    e.clock b t < 2 ^ (w - 1) := by
  cases e <;> simp only [CcEvent.Clocked, CcEvent.clock] at he ⊢ <;> omega

end Clocked

/-- One call keeps `recovery_start` between its reading before the call and
the clock after it: it is set to `now` by a loss that reduces the window and
by persistent congestion, and moved forward, to `now - 2 * max_idle_timeout`,
by the wrap guard of an acknowledgment. -/
theorem ccStep_recoveryStart (cf : Conf w) (b : BitVec w) (t : Nat) (cg : Congestion w)
    (e : CcEvent w) (hidle : (cf.maxIdleTimeout * 2).toNat < 2 ^ (w - 1))
    (hrs : since b cg.recoveryStart ≤ t) (he : e.Clocked b t) :
    since b cg.recoveryStart ≤ since b (ccStep cf cg e).recoveryStart ∧
      since b (ccStep cf cg e).recoveryStart ≤ e.clock b t := by
  cases e with
  | ack rstPnum now f =>
    obtain ⟨htn, hn, -⟩ := he
    rcases congestionAck_recoveryStart cf rstPnum now cg f with h | ⟨hg, h⟩ <;>
      simp only [ccStep, CcEvent.clock, h]
    · omega
    · rw [toInt_sub_add_eq_since (by omega) hn hidle] at hg
      rw [since_sub (by omega)]
      omega
  | lost rstPnum now f =>
    obtain ⟨htn, -, -⟩ := he
    rcases congestionLost_cases cf rstPnum now cg f with ⟨-, h⟩ | ⟨-, h⟩ <;>
      simp only [ccStep, CcEvent.clock, h] <;> omega
  | persistent now =>
    simp only [ccStep, persistentCongestion, CcEvent.clock, CcEvent.Clocked] at he ⊢; omega
  | commit plen => exact ⟨le_rfl, hrs⟩

/-- Over a run, `recovery_start` never moves backwards and never passes the
clock. -/
theorem ccRun_recoveryStart (cf : Conf w) (b : BitVec w)
    (hidle : (cf.maxIdleTimeout * 2).toNat < 2 ^ (w - 1)) :
    ∀ (evs : List (CcEvent w)) (t : Nat) (cg : Congestion w), t < 2 ^ (w - 1) →
      since b cg.recoveryStart ≤ t → ClockedRun b t evs →
      since b cg.recoveryStart ≤ since b (ccRun cf cg evs).recoveryStart ∧
        since b (ccRun cf cg evs).recoveryStart ≤ clockRun b t evs ∧ clockRun b t evs < 2 ^ (w - 1)
  | [], _, _, ht, hrs, _ => ⟨le_rfl, hrs, ht⟩
  | e :: evs, t, cg, ht, hrs, ⟨he, hrun⟩ =>
    have h1 := ccStep_recoveryStart cf b t cg e hidle hrs he
    have h2 := ccRun_recoveryStart cf b hidle evs _ _ (CcEvent.clock_lt he ht) h1.2 hrun
    ⟨h1.1.trans h2.1, h2.2⟩

/-- A loss that reduces the window starts the recovery period at `now`. -/
theorem ccStep_lost_recoveryStart (cf : Conf w) (cg : Congestion w) (rstPnum : Nat)
    (now : BitVec w) (f : Frame w) (h : LossReduces rstPnum cg f) :
    (ccStep cf cg (.lost rstPnum now f)).recoveryStart = now := by
  rcases congestionLost_cases cf rstPnum now cg f with ⟨-, hc⟩ | ⟨hn, -⟩
  · simp only [ccStep, hc]
  · exact absurd h hn

/-- Acknowledging or losing a frame sent no later than `recovery_start`
changes neither the window, `ssthresh` nor `recovery_start`. -/
theorem ccStep_of_sent_before (cf : Conf w) (b : BitVec w) (cg : Congestion w) (e : CcEvent w)
    (g : Frame w) (he : e.frame? = some g) (hrs : since b cg.recoveryStart < 2 ^ (w - 1))
    (hg : since b g.sendTime ≤ since b cg.recoveryStart) :
    (ccStep cf cg e).window = cg.window ∧ (ccStep cf cg e).ssthresh = cg.ssthresh ∧
      (ccStep cf cg e).recoveryStart = cg.recoveryStart := by
  have hold : (g.sendTime - cg.recoveryStart).toInt ≤ 0 := by
    rw [toInt_sub_eq_since (by omega) hrs]; omega
  cases e with
  | ack rstPnum now f =>
    cases he
    obtain ⟨hw, hr⟩ := congestionAck_of_recovery cf rstPnum now cg g hold
    exact ⟨hw, congestionAck_ssthresh cf rstPnum now cg g, hr⟩
  | lost rstPnum now f =>
    cases he
    rcases congestionLost_cases cf rstPnum now cg g with ⟨⟨-, -, hr⟩, -⟩ | ⟨-, hc⟩
    · omega
    · simp [ccStep, hc]
  | persistent now => cases he
  | commit plen => cases he

/-- **One reduction per congestion event.**  In every run whose clock is read
correctly from a base `b` (readings below half the range, never going
backwards, no frame handled before it was sent), starting with
`recovery_start` no later than the clock, and with twice the idle timeout
below half the range (so that the wrap guard's test compares correctly):
`recovery_start` never moves backwards and never passes the clock; and once a
loss has reduced the window at time `now`, no later acknowledgment or loss of
a frame sent no later than `now` changes the window, `ssthresh` or
`recovery_start`. -/
theorem congestion_recovery_period (cf : Conf w) (b : BitVec w) (cg : Congestion w) (t : Nat)
    (evs : List (CcEvent w)) (hidle : (cf.maxIdleTimeout * 2).toNat < 2 ^ (w - 1))
    (ht : t < 2 ^ (w - 1)) (hrs : since b cg.recoveryStart ≤ t) (hrun : ClockedRun b t evs) :
    (∀ pre mid post, evs = pre ++ mid ++ post →
      since b (ccRun cf cg pre).recoveryStart ≤ since b (ccRun cf cg (pre ++ mid)).recoveryStart ∧
        since b (ccRun cf cg (pre ++ mid)).recoveryStart ≤ clockRun b t (pre ++ mid)) ∧
    (∀ pre rstPnum now f mid e g post,
      evs = pre ++ CcEvent.lost rstPnum now f :: mid ++ e :: post →
      LossReduces rstPnum (ccRun cf cg pre) f → e.frame? = some g →
      since b g.sendTime ≤ since b now →
      let cg' := ccRun cf cg (pre ++ CcEvent.lost rstPnum now f :: mid)
      (ccStep cf cg' e).window = cg'.window ∧ (ccStep cf cg' e).ssthresh = cg'.ssthresh ∧
        (ccStep cf cg' e).recoveryStart = cg'.recoveryStart) := by
  have hmono : ∀ pre mid post, evs = pre ++ mid ++ post →
      since b (ccRun cf cg pre).recoveryStart ≤ since b (ccRun cf cg (pre ++ mid)).recoveryStart ∧
        since b (ccRun cf cg (pre ++ mid)).recoveryStart ≤ clockRun b t (pre ++ mid) ∧
        clockRun b t (pre ++ mid) < 2 ^ (w - 1) := by
    rintro pre mid post rfl
    obtain ⟨hpm, -⟩ := hrun.append
    obtain ⟨hp, hm⟩ := hpm.append
    obtain ⟨-, hp1, hp2⟩ := ccRun_recoveryStart cf b hidle pre t cg ht hrs hp
    rw [ccRun_append, clockRun_append]
    exact ccRun_recoveryStart cf b hidle mid _ _ hp2 hp1 hm
  refine ⟨fun pre mid post h => (hmono pre mid post h).imp_right And.left, ?_⟩
  intro pre rstPnum now f mid e g post h hred he hg
  obtain ⟨h1, h2, h3⟩ := hmono (pre ++ [.lost rstPnum now f]) mid (e :: post) (by simp [h])
  rw [ccRun_append, ccRun_cons, ccRun_nil, ccStep_lost_recoveryStart cf _ _ _ _ hred] at h1
  rw [List.append_assoc, List.singleton_append] at h1 h2 h3
  exact ccStep_of_sent_before cf b _ e g he (by omega) (by omega)

theorem congestion_recovery_period_twoLosses :
    let cf : Conf 64 := { (default : Conf 64) with maxIdleTimeout := 30000 }
    let cg : Congestion 64 := ⟨12000, 12000, 2400, 0⟩
    let evs : List (CcEvent 64) :=
      [.lost 0 10 ⟨0, 5, 1200, .ping, false⟩, .lost 0 12 ⟨1, 5, 1200, .ping, false⟩]
    (cf.maxIdleTimeout * 2).toNat < 2 ^ (64 - 1) ∧ 0 < 2 ^ (64 - 1) ∧
      since 0 cg.recoveryStart ≤ 0 ∧ ClockedRun 0 0 evs ∧
      ((∀ pre mid post, evs = pre ++ mid ++ post →
        since 0 (ccRun cf cg pre).recoveryStart ≤ since 0 (ccRun cf cg (pre ++ mid)).recoveryStart ∧
          since 0 (ccRun cf cg (pre ++ mid)).recoveryStart ≤ clockRun 0 0 (pre ++ mid)) ∧
      (∀ pre rstPnum now f mid e g post,
        evs = pre ++ CcEvent.lost rstPnum now f :: mid ++ e :: post →
        LossReduces rstPnum (ccRun cf cg pre) f → e.frame? = some g →
        since 0 g.sendTime ≤ since 0 now →
        let cg' := ccRun cf cg (pre ++ CcEvent.lost rstPnum now f :: mid)
        (ccStep cf cg' e).window = cg'.window ∧ (ccStep cf cg' e).ssthresh = cg'.ssthresh ∧
          (ccStep cf cg' e).recoveryStart = cg'.recoveryStart)) :=
  ⟨by decide, by decide, by decide, by decide,
    congestion_recovery_period _ _ _ _ _ (by decide) (by decide) (by decide) (by decide)⟩

end NjtQuic
