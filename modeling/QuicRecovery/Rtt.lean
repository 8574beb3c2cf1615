import QuicRecovery.AckFrame
/-!
# RTT estimation over runs of samples

`njt_quic_rtt_sample` keeps `min_rtt`, the smoothed `avg_rtt` and `rttvar` in
`njt_msec_t` arithmetic (RFC 9002, 5.3).  A sample's `adjusted_rtt` is
`latest_rtt` less the peer's ack delay, taken off only when
`min_rtt + ack_delay < latest_rtt`; then `avg_rtt` moves an eighth and
`rttvar` a quarter of the way to the sample.

Everything here rests on one condition, that `min_rtt + ack_delay` does not
wrap:

* `adjustedRtt_mem` — under it, `min_rtt ≤ adjusted_rtt ≤ latest_rtt`;
* `rttSample_bounds` / `rttRun_bounds` — with every `latest_rtt` below
  2^(w-1), the estimate stays between `min_rtt` and the largest `latest_rtt`
  seen, and `rttvar` below that, sample after sample;
* `rttRun_bounds_msec64` — with a 64-bit `njt_msec_t` the condition always
  holds, since the ack delay is a 64-bit quantity divided by 1000;
* `handleAckFrame_adjustedRtt_wraps` — with a 32-bit `njt_msec_t` the delay
  of a peer whose handshake is not confirmed is not capped, the sum wraps, and
  the adjusted sample exceeds `latest_rtt`, carrying `avg_rtt` above every
  sample seen.
-/

namespace NjtQuic

variable {w : Nat}

/-! ## One sample -/

/-- The ack delay `njt_quic_rtt_sample` takes off a sample: the ACK Delay
field scaled by the peer's `ack_delay_exponent`, in milliseconds, capped by
its `max_ack_delay` once the handshake is confirmed. -/
def ackDelayOf (cf : Conf w) (ack : AckFrame) (handshaked : Bool) : BitVec w :=
  let ackDelay : BitVec w :=
    BitVec.ofNat w ((ack.delay <<< cf.peerAckDelayExponent) % 2 ^ 64 / 1000)
  if handshaked then msecMin ackDelay cf.peerMaxAckDelay else ackDelay

/-- `adjusted_rtt` of a sample `latestRtt` on a connection that already has
an estimate. -/
def adjustedRtt (cf : Conf w) (ack : AckFrame) (qc : Conn w) (latestRtt : BitVec w) : BitVec w :=
  let ackDelay := ackDelayOf cf ack qc.handshaked
  if msecMin qc.minRtt latestRtt + ackDelay < latestRtt then latestRtt - ackDelay else latestRtt

/-- `rttvar_sample`: `njt_abs` of the difference read as `njt_msec_int_t`. -/
def rttvarSample (avgRtt adjustedRtt : BitVec w) : BitVec w :=
  let diff := avgRtt - adjustedRtt
  if 0 ≤ diff.toInt then diff else -diff

theorem rttSample_of_minRtt_eq (cf : Conf w) (now : BitVec w) (ack : AckFrame) (t : BitVec w)
    (qc : Conn w) (h : qc.minRtt = timerInfinite w) :
    rttSample cf now ack t qc = { qc with
      latestRtt := now - t, minRtt := now - t, avgRtt := now - t, rttvar := (now - t) / 2,
      firstRtt := now } := by
  unfold rttSample; rw [if_pos h]

theorem rttSample_of_minRtt_ne (cf : Conf w) (now : BitVec w) (ack : AckFrame) (t : BitVec w)
    (qc : Conn w) (h : qc.minRtt ≠ timerInfinite w) :
    rttSample cf now ack t qc = { qc with
      latestRtt := now - t
      minRtt := msecMin qc.minRtt (now - t),
      rttvar := qc.rttvar + ((rttvarSample qc.avgRtt (adjustedRtt cf ack qc (now - t)) >>> 2) -
        (qc.rttvar >>> 2)),
      avgRtt := qc.avgRtt + ((adjustedRtt cf ack qc (now - t) >>> 3) - (qc.avgRtt >>> 3)) } := by
  unfold rttSample; rw [if_neg h]; rfl

/-! ## The arithmetic of a sample -/

theorem two_pow_eq_two_mul (hw : 0 < w) : 2 ^ w = 2 * 2 ^ (w - 1) := by
  rw [← Nat.pow_succ', Nat.succ_eq_add_one, Nat.sub_add_cancel hw]

theorem toNat_msecMin (a b : BitVec w) : (msecMin a b).toNat = min a.toNat b.toNat := by
  unfold msecMin
  split <;> simp only [BitVec.lt_def] at * <;> omega

/-- Subtraction in `w` bits, as `BitVec.toNat_sub` gives it, without the
`%`. -/
theorem sub_add_mod_eq {m x y : Nat} (hx : x < m) (hy : y ≤ m) :
    (m - y + x) % m = if y ≤ x then x - y else m - y + x := by
  split
  · rw [Nat.mod_eq_sub_mod (by omega), Nat.mod_eq_of_lt (by omega)]; omega
  · exact Nat.mod_eq_of_lt (by omega)

theorem add_sub_add_mod {m a p q : Nat} (ha : a < m) (hp : p ≤ a) (hq : q < m)
    (h : a - p + q < m) : (a + (m - p + q) % m) % m = a - p + q := by
  rw [sub_add_mod_eq hq (by omega)]
  split
  · rw [Nat.mod_eq_of_lt] <;> omega
  · rw [Nat.mod_eq_sub_mod (by omega), Nat.mod_eq_of_lt] <;> omega

/-- `a += (b >> k) - (a >> k)` is exact when the result fits in `w` bits. -/
theorem toNat_add_shift_sub (a b : BitVec w) (k : Nat)
    (h : a.toNat - a.toNat / 2 ^ k + b.toNat / 2 ^ k < 2 ^ w) :
    (a + ((b >>> k) - (a >>> k))).toNat = a.toNat - a.toNat / 2 ^ k + b.toNat / 2 ^ k := by
  simp only [BitVec.toNat_add, BitVec.toNat_sub, BitVec.toNat_ushiftRight,
    Nat.shiftRight_eq_div_pow]
  exact add_sub_add_mod a.isLt (Nat.div_le_self _ _)
    (Nat.lt_of_le_of_lt (Nat.div_le_self _ _) b.isLt) h

/-- Below 2^(w-1) the signed difference is exact, so `rttvar_sample` is the
distance of the two times. -/
theorem toNat_rttvarSample (a b : BitVec w) (ha : a.toNat < 2 ^ (w - 1)) (hb : b.toNat < 2 ^ (w - 1)) :
    (rttvarSample a b).toNat = if b.toNat ≤ a.toNat then a.toNat - b.toNat else b.toNat - a.toNat := by
  rcases Nat.eq_zero_or_pos w with rfl | hw
  · simp [BitVec.toNat_of_zero_length]
  have h2 := two_pow_eq_two_mul hw
  have hd := sub_add_mod_eq a.isLt (Nat.le_of_lt b.isLt)
  rw [← BitVec.toNat_sub] at hd
  unfold rttvarSample
  dsimp only
  by_cases hab : b.toNat ≤ a.toNat
  · have hd' : (a - b).toNat = a.toNat - b.toNat := by rw [hd, if_pos hab]
    have hs : 0 ≤ (a - b).toInt := by rw [BitVec.toInt_eq_toNat_cond, hd']; split <;> omega
    rw [if_pos hs, hd', if_pos hab]
  · have hd' : (a - b).toNat = 2 ^ w - b.toNat + a.toNat := by rw [hd, if_neg hab]
    have hs : ¬ 0 ≤ (a - b).toInt := by rw [BitVec.toInt_eq_toNat_cond, hd']; split <;> omega
    rw [if_neg hs, BitVec.toNat_neg, hd', if_neg hab, Nat.mod_eq_of_lt] <;> omega

/-- Under the no-wrap condition the adjusted sample lies between the new
`min_rtt` and `latest_rtt`. -/
theorem adjustedRtt_mem (cf : Conf w) (ack : AckFrame) (qc : Conn w) (latestRtt : BitVec w)
    (hd : (msecMin qc.minRtt latestRtt).toNat + (ackDelayOf cf ack qc.handshaked).toNat < 2 ^ w) :
    (msecMin qc.minRtt latestRtt).toNat ≤ (adjustedRtt cf ack qc latestRtt).toNat ∧
      (adjustedRtt cf ack qc latestRtt).toNat ≤ latestRtt.toNat := by
  have hm := toNat_msecMin qc.minRtt latestRtt
  unfold adjustedRtt
  dsimp only
  split
  · rename_i hlt
    rw [BitVec.lt_def, BitVec.toNat_add, Nat.mod_eq_of_lt hd] at hlt
    rw [BitVec.toNat_sub, sub_add_mod_eq latestRtt.isLt (Nat.le_of_lt (BitVec.isLt _)),
      if_pos (by omega)]
    omega
  · omega

/-! ## The estimate against the samples seen -/

/-- The estimate once a first sample is in, against `M`, the largest
`latest_rtt` seen so far. -/
structure RttBounds (M : Nat) (qc : Conn w) : Prop where
  minRtt_le_avgRtt : qc.minRtt.toNat ≤ qc.avgRtt.toNat
  avgRtt_le : qc.avgRtt.toNat ≤ M
  rttvar_le : qc.rttvar.toNat ≤ M

theorem RttBounds.minRtt_ne {M : Nat} {qc : Conn w} (hb : RttBounds M qc) (hw : 0 < w)
    (hM : M < 2 ^ (w - 1)) : qc.minRtt ≠ timerInfinite w := by
  intro h
  have h1 := hb.minRtt_le_avgRtt
  have h2 := two_pow_eq_two_mul hw
  rw [h, timerInfinite, BitVec.toNat_allOnes] at h1
  have := hb.avgRtt_le
  omega

/-- A first sample starts the estimate at `latest_rtt`. -/
theorem rttSample_first (cf : Conf w) (now : BitVec w) (ack : AckFrame) (t : BitVec w)
    (qc : Conn w) (h : qc.minRtt = timerInfinite w) :
    RttBounds (now - t).toNat (rttSample cf now ack t qc) := by
  rw [rttSample_of_minRtt_eq cf now ack t qc h]
  exact ⟨Nat.le_refl _, Nat.le_refl _, by rw [BitVec.toNat_udiv]; exact Nat.div_le_self _ _⟩

/-- One sample on an estimate keeps the bounds, with `M` raised to the new
`latest_rtt`, as long as the times stay below 2^(w-1) and
`min_rtt + ack_delay` does not wrap. -/
theorem rttSample_bounds {M : Nat} (cf : Conf w) (now : BitVec w) (ack : AckFrame) (t : BitVec w)
    (qc : Conn w) (hw : 0 < w) (hb : RttBounds M qc) (hM : M < 2 ^ (w - 1))
    (hL : (now - t).toNat < 2 ^ (w - 1))
    (hd : (msecMin qc.minRtt (now - t)).toNat + (ackDelayOf cf ack qc.handshaked).toNat < 2 ^ w) :
    RttBounds (max M (now - t).toNat) (rttSample cf now ack t qc) := by
  have h2 := two_pow_eq_two_mul hw
  obtain ⟨hj1, hj2⟩ := adjustedRtt_mem cf ack qc (now - t) hd
  have hm := toNat_msecMin qc.minRtt (now - t)
  have ⟨hb1, hb2, hb3⟩ := hb
  rw [rttSample_of_minRtt_ne cf now ack t qc (hb.minRtt_ne hw hM)]
  generalize adjustedRtt cf ack qc (now - t) = j at *
  have hs := toNat_rttvarSample qc.avgRtt j (by omega) (by omega)
  have hsl : (rttvarSample qc.avgRtt j).toNat ≤ max M (now - t).toNat := by split at hs <;> omega
  refine ⟨?_, ?_, ?_⟩ <;> dsimp only
  · rw [hm, toNat_add_shift_sub _ _ 3 (by omega)]; omega
  · rw [toNat_add_shift_sub _ _ 3 (by omega)]; omega
  · rw [toNat_add_shift_sub _ _ 2 (by omega)]; omega

/-! ## Runs of samples -/

/-- What one RTT sample reads besides the estimate: the time, the ACK frame,
the send time of its largest newly acknowledged packet, and whether the
handshake is confirmed by then. -/
structure RttInput (w : Nat) where
  now : BitVec w
  ack : AckFrame
  sendTime : BitVec w
  handshaked : Bool

/-- `latest_rtt` of a sample. -/
def RttInput.latestRtt (s : RttInput w) : BitVec w := s.now - s.sendTime

/-- The samples `njt_quic_rtt_sample` takes on one connection, in order. -/
def rttRun (cf : Conf w) (qc : Conn w) : List (RttInput w) → Conn w
  | [] => qc
  | s :: ss => rttRun cf (rttSample cf s.now s.ack s.sendTime { qc with handshaked := s.handshaked }) ss

/-- The largest `latest_rtt` of the samples, and `M`. -/
def maxLatestRtt (M : Nat) (ss : List (RttInput w)) : Nat :=
  ss.foldl (fun M s => max M s.latestRtt.toNat) M

theorem maxLatestRtt_lt {n M : Nat} (hM : M < n) :
    ∀ ss : List (RttInput w), (∀ s ∈ ss, s.latestRtt.toNat < n) → maxLatestRtt M ss < n
  | [], _ => hM
  | s :: ss, hs => maxLatestRtt_lt (max_lt hM (hs s (.head _))) ss fun s' h => hs s' (.tail _ h)

section Run

variable (cf : Conf w) (hw : 0 < w)

/-- What a run asks of each sample: `latest_rtt` below 2^(w-1), and an ack
delay of at most 2^(w-1), so that `min_rtt + ack_delay` cannot wrap. -/
def SampleFits (s : RttInput w) : Prop :=
  s.latestRtt.toNat < 2 ^ (w - 1) ∧ (ackDelayOf cf s.ack s.handshaked).toNat ≤ 2 ^ (w - 1)

include hw in
/-- The run lemma: from an estimate within `M`, every run of fitting samples
ends within the largest of `M` and their `latest_rtt`. -/
theorem rttRun_keeps :
    ∀ (ss : List (RttInput w)) (qc : Conn w) (M : Nat), RttBounds M qc → M < 2 ^ (w - 1) →
      (∀ s ∈ ss, SampleFits cf s) → RttBounds (maxLatestRtt M ss) (rttRun cf qc ss)
  | [], _, _, hb, _, _ => hb
  | s :: ss, qc, M, hb, hM, hs => by
    obtain ⟨hL, hd⟩ := hs s (.head _)
    have hm := toNat_msecMin qc.minRtt (s.now - s.sendTime)
    have hL' : (s.now - s.sendTime).toNat < 2 ^ (w - 1) := hL
    have hb' := rttSample_bounds cf s.now s.ack s.sendTime { qc with handshaked := s.handshaked }
      hw ⟨hb.1, hb.2, hb.3⟩ hM hL (by dsimp only at hm ⊢; rw [two_pow_eq_two_mul hw]; omega)
    exact rttRun_keeps ss _ _ hb' (max_lt hM hL) fun s' h => hs s' (.tail _ h)

include hw in
/-- Over every run of fitting samples from a connection with no estimate yet:
after the first sample, `min_rtt ≤ avg_rtt ≤ M` and `rttvar ≤ M` for `M` the
largest `latest_rtt` so far, and every later sample's `adjusted_rtt` lies
between `min_rtt` and its `latest_rtt`. -/
theorem rttRun_bounds (qc : Conn w) (hq : qc.minRtt = timerInfinite w)
    (ss : List (RttInput w)) (hs : ∀ s ∈ ss, SampleFits cf s) (hne : ss ≠ []) :
    RttBounds (maxLatestRtt 0 ss) (rttRun cf qc ss) ∧
      ∀ pre s post, ss = pre ++ s :: post → pre ≠ [] →
        let q := { rttRun cf qc pre with handshaked := s.handshaked }
        (msecMin q.minRtt s.latestRtt).toNat ≤ (adjustedRtt cf s.ack q s.latestRtt).toNat ∧
          (adjustedRtt cf s.ack q s.latestRtt).toNat ≤ s.latestRtt.toNat := by
  refine ⟨?_, fun pre s post h _ => ?_⟩
  · obtain ⟨s, ss, rfl⟩ := List.exists_cons_of_ne_nil hne
    have hb := rttSample_first cf s.now s.ack s.sendTime { qc with handshaked := s.handshaked } hq
    have hmax : maxLatestRtt 0 (s :: ss) = maxLatestRtt s.latestRtt.toNat ss := by
      simp only [maxLatestRtt, List.foldl_cons, Nat.zero_max]
    rw [hmax]
    exact rttRun_keeps cf hw ss _ _ hb (hs s (.head _)).1 fun s' h => hs s' (.tail _ h)
  · obtain ⟨hL, hd⟩ := hs s (by rw [h]; exact List.mem_append_right _ (.head _))
    have hm := toNat_msecMin (rttRun cf qc pre).minRtt s.latestRtt
    exact adjustedRtt_mem cf s.ack _ s.latestRtt
      (by dsimp only at hm ⊢; rw [two_pow_eq_two_mul hw]; omega)

end Run

/-- With a 64-bit `njt_msec_t` the ack delay is below 2^55: it is a 64-bit
quantity divided by 1000, and the cap only lowers it. -/
theorem ackDelayOf_lt_msec64 (cf : Conf 64) (ack : AckFrame) (handshaked : Bool) :
    (ackDelayOf cf ack handshaked).toNat < 2 ^ 55 := by
  have hx : ((ack.delay <<< cf.peerAckDelayExponent) % 2 ^ 64 / 1000) < 2 ^ 55 :=
    Nat.div_lt_of_lt_mul (Nat.lt_of_lt_of_le (Nat.mod_lt _ (by norm_num)) (by decide))
  unfold ackDelayOf
  split
  · rw [toNat_msecMin, BitVec.toNat_ofNat, Nat.mod_eq_of_lt (by omega)]; omega
  · rw [BitVec.toNat_ofNat, Nat.mod_eq_of_lt (by omega)]; exact hx

/-- With a 64-bit `njt_msec_t`, any ACK Delay field and exponent and whether
the handshake is confirmed or not: over every run of samples whose
`latest_rtt` stays below 2^63, the estimate keeps `min_rtt ≤ avg_rtt ≤ M`
and `rttvar ≤ M` after the first sample, and each later sample's
`adjusted_rtt` lies between `min_rtt` and its `latest_rtt`. -/
theorem rttRun_bounds_msec64 (cf : Conf 64) (qc : Conn 64) (hq : qc.minRtt = timerInfinite 64)
    (ss : List (RttInput 64)) (hs : ∀ s ∈ ss, s.latestRtt.toNat < 2 ^ 63) (hne : ss ≠ []) :
    RttBounds (maxLatestRtt 0 ss) (rttRun cf qc ss) ∧
      ∀ pre s post, ss = pre ++ s :: post → pre ≠ [] →
        let q := { rttRun cf qc pre with handshaked := s.handshaked }
        (msecMin q.minRtt s.latestRtt).toNat ≤ (adjustedRtt cf s.ack q s.latestRtt).toNat ∧
          (adjustedRtt cf s.ack q s.latestRtt).toNat ≤ s.latestRtt.toNat :=
  rttRun_bounds cf (by norm_num) qc hq ss
    (fun s h => ⟨hs s h, Nat.le_of_lt ((ackDelayOf_lt_msec64 cf s.ack s.handshaked).trans
      (by decide))⟩) hne

/-- Two samples, 100 ms and 200 ms, the second with a large ACK Delay. -/
def twoSamples : List (RttInput 64) :=
  [⟨100, ⟨0, 0, 0, []⟩, 0, false⟩, ⟨300, ⟨1, 536870787125, 0, []⟩, 100, false⟩]

theorem rttRun_bounds_msec64_twoSamples :
    ({ (default : Conn 64) with minRtt := timerInfinite 64 } : Conn 64).minRtt = timerInfinite 64 ∧
      (∀ s ∈ twoSamples, s.latestRtt.toNat < 2 ^ 63) ∧ twoSamples ≠ [] ∧
      RttBounds (maxLatestRtt 0 twoSamples)
        (rttRun default { (default : Conn 64) with minRtt := timerInfinite 64 } twoSamples) ∧
      ∀ pre s post, twoSamples = pre ++ s :: post → pre ≠ [] →
        let q := { rttRun default { (default : Conn 64) with minRtt := timerInfinite 64 } pre with
          handshaked := s.handshaked }
        (msecMin q.minRtt s.latestRtt).toNat ≤ (adjustedRtt default s.ack q s.latestRtt).toNat ∧
          (adjustedRtt default s.ack q s.latestRtt).toNat ≤ s.latestRtt.toNat :=
  ⟨rfl, by decide, List.cons_ne_nil _ _,
    rttRun_bounds_msec64 default _ rfl twoSamples (by decide) (List.cons_ne_nil _ _)⟩

/-! ## A 32-bit `njt_msec_t` -/

/-- A peer with `ack_delay_exponent` 3. -/
def peerExp3 : Conf 32 := { (default : Conf 32) with peerAckDelayExponent := 3 }

/-- A connection with no RTT estimate that has sent two PING packets, number
0 at time 0 and number 1 at time 1000. -/
def twoPings : Conn 32 :=
  { (default : Conn 32) with
    minRtt := timerInfinite 32
    congestion := ⟨12000, 2 ^ 64 - 1, 2400, 0⟩
    application := { (default : SendCtx 32) with
      sent := [⟨0, 0, 1200, .ping, false⟩, ⟨1, 1000, 1200, .ping, false⟩], pnum := 2,
      largestAck := unsetPn } }

/-- Packet 0 is acknowledged at 1000 with no delay, and packet 1 at 2000
with an ACK Delay field of 536870787125, before the handshake is confirmed:
both samples are 1000 ms.  The second delay, 4294966297 ms in 32 bits, is
not capped, `min_rtt + ack_delay` wraps to 1, and 1000 ms less the delay
wraps to an adjusted sample of 1999 ms, which lifts `avg_rtt` to 1124 ms. -/
theorem handleAckFrame_adjustedRtt_wraps :
    ∃ qc₁ qc₂,
      handleAckFrame (fun _ s => s) peerExp3 1000 .application ⟨0, 0, 0, []⟩ twoPings = .ok qc₁ ∧
      handleAckFrame (fun _ s => s) peerExp3 2000 .application ⟨1, 536870787125, 0, []⟩ qc₁ =
        .ok qc₂ ∧
      qc₁.latestRtt = 1000 ∧ qc₂.latestRtt = 1000 ∧ qc₁.handshaked = false ∧
      adjustedRtt peerExp3 ⟨1, 536870787125, 0, []⟩ qc₁ 1000 = 1999 ∧ qc₂.avgRtt = 1124 :=
  ⟨_, _, rfl, rfl, rfl, rfl, rfl, by decide, by decide⟩

end NjtQuic
