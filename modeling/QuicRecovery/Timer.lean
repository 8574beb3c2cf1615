import Mathlib.Data.BitVec
import Mathlib.Tactic.Ring
import QuicRecovery.Loss

/-!
# The loss timer agrees with its handlers

`njt_quic_set_lost_timer` computes its delays with one set of comparisons and
installs a handler, `njt_quic_lost_handler` or `njt_quic_pto_handler`, that
tests the queues again with its own.  The main result, `setLostTimer_agrees`,
says the two agree on every state, for every clock value:

1. if some context has `largest_ack` set and its head packet at or below it,
   the lost handler is installed with a delay `d`; run at `now + d` it
   declares a packet lost, run earlier it changes nothing but the timer;
2. otherwise, if some queue is not empty, the PTO handler is installed with a
   delay `d`; run at `now + d` it probes a context whose last packet is
   unacknowledged, run earlier it probes none;
3. otherwise no timer is armed.

Both sides read `send_time + delay - now` as a signed number; subtracting an
elapsed time `u` no larger than a non-negative reading subtracts `u` from it
(`toInt_sub_ofNat`), so no bound on the clock is needed.
-/

namespace NjtQuic

variable {w : Nat}

/-! ## The running minimum of `njt_quic_set_lost_timer` -/

section MinDelay

variable {α : Type} (d : α → Option Int)

/-- The loop's running minimum over delays that are never negative, from a
start `x` that is `-1` or a delay: `-1` exactly when nothing was offered, else
`x` or one of the delays offered, and no larger than any of them. -/
theorem foldl_minDelay (hd : ∀ a v, d a = some v → 0 ≤ v) :
    ∀ (as : List α) (x : Int), (x = -1 ∨ 0 ≤ x) →
      (as.foldl (fun x a => minDelay x (d a)) x = -1 ↔ x = -1 ∧ ∀ a ∈ as, d a = none) ∧
      (as.foldl (fun x a => minDelay x (d a)) x = x ∨
        ∃ a ∈ as, d a = some (as.foldl (fun x a => minDelay x (d a)) x)) ∧
      (x ≠ -1 → as.foldl (fun x a => minDelay x (d a)) x ≤ x) ∧
      ∀ a ∈ as, ∀ v, d a = some v → as.foldl (fun x a => minDelay x (d a)) x ≤ v
  | [], x, _ => by simp
  | a :: as, x, hx => by
    -- one step of the loop, then the rest from the new minimum
    have hstep : minDelay x (d a) = x ∧ d a = none ∨
        0 ≤ minDelay x (d a) ∧ ∃ v, d a = some v ∧ minDelay x (d a) ≤ v ∧
          (x ≠ -1 → minDelay x (d a) ≤ x) ∧ (minDelay x (d a) = x ∨ minDelay x (d a) = v) := by
      rcases h : d a with _ | v
      · exact .inl ⟨rfl, rfl⟩
      · have := hd a v h
        simp only [minDelay]; split_ifs <;> right <;> refine ⟨by omega, v, rfl, ?_⟩ <;> omega
    obtain ⟨h1, h2, h3, h4⟩ := foldl_minDelay hd as (minDelay x (d a))
      (by rcases hstep with ⟨he, -⟩ | ⟨hn, -⟩ <;> omega)
    simp only [List.foldl_cons, List.mem_cons, forall_eq_or_imp, exists_eq_or_imp]
    generalize as.foldl (fun x a => minDelay x (d a)) (minDelay x (d a)) = r at *
    rcases hstep with ⟨he, hn⟩ | ⟨hn, v, hv, hle, hlx, hor⟩
    · rw [he] at h1 h2 h3
      simp only [hn, true_and, reduceCtorEq, false_or, and_true, not_false_eq_true, forall_const,
        false_and, false_or, forall_eq_or_imp, imp_false] at *
      exact ⟨h1, h2, h3, fun _ h => absurd h (by simp), h4⟩
    · have hr := h3 (by omega)
      refine ⟨⟨fun h => absurd (h1.1 h).1 (by omega), fun h => absurd (hv.symm.trans h.2.1) (by simp)⟩,
        ?_, fun hx => hr.trans (hlx hx),
        ⟨fun v' hv' => by rw [hv] at hv'; cases hv'; omega, h4⟩⟩
      rcases h2 with h2 | h2
      · rcases hor with hor | hor
        · exact .inl (h2.trans hor)
        · exact .inr (.inl (by rw [hv, h2, hor]))
      · exact .inr (.inr h2)

end MinDelay

/-- The loop of `njt_quic_set_lost_timer` keeps two running minima side by
side. -/
theorem foldl_lostTimerStep (cf : Conf w) (now : BitVec w) (qc : Conn w) :
    ∀ (ls : List Level) (acc : Int × Int), ls.foldl (lostTimerStep cf now qc) acc =
      (ls.foldl (fun x l => minDelay x (lostDelay now qc l)) acc.1,
        ls.foldl (fun x l => minDelay x (ptoDelay cf now qc l)) acc.2)
  | [], _ => rfl
  | _ :: ls, _ => foldl_lostTimerStep cf now qc ls _

/-- What `njt_quic_set_lost_timer` arms: the lost timer with the smallest
lost delay if any context asks for one, else the PTO timer with the smallest
PTO delay if any context asks for one, else nothing. -/
theorem setLostTimer_ptoTimer (cf : Conf w) (now : BitVec w) (qc : Conn w) :
    (setLostTimer cf now qc).ptoTimer =
      let lost := levels.foldl (fun x l => minDelay x (lostDelay now qc l)) (-1)
      let ptoW := levels.foldl (fun x l => minDelay x (ptoDelay cf now qc l)) (-1)
      if lost ≠ -1 then some (.lost, lost.toNat)
      else if ptoW ≠ -1 then some (.pto, ptoW.toNat) else none := by
  unfold setLostTimer
  rw [foldl_lostTimerStep]
  dsimp only
  split_ifs <;> rfl

/-! ## Signed delays -/

/-- Subtracting an elapsed time no larger than a non-negative signed reading
subtracts it from the reading. -/
theorem toInt_sub_ofNat (y : BitVec w) (u : Nat) (h : (u : Int) ≤ y.toInt) :
    (y - BitVec.ofNat w u).toInt = y.toInt - u := by
  have hy := y.isLt
  have hpos : 2 * y.toNat < 2 ^ w := by
    rw [BitVec.toInt_eq_toNat_cond] at h
    split_ifs at h with h1
    · exact h1
    · omega
  have hyi : y.toInt = y.toNat := by rw [BitVec.toInt_eq_toNat_cond, if_pos hpos]
  rw [hyi] at h ⊢
  have hu : (BitVec.ofNat w u).toNat = u := by
    rw [BitVec.toNat_ofNat]; exact Nat.mod_eq_of_lt (by omega)
  rw [BitVec.toInt_eq_toNat_cond, BitVec.toNat_sub_of_le (BitVec.le_def.mpr (by omega)), hu,
    if_pos (by omega)]
  omega

/-- The clock `u` after `now`, as the handlers compute `send_time + delay - now`. -/
theorem add_sub_add_ofNat (s t now : BitVec w) (u : Nat) :
    s + t - (now + BitVec.ofNat w u) = (s + t - now) - BitVec.ofNat w u := by ring

/-! ## The lost timer and `njt_quic_detect_lost` -/

section Lost

variable (now : BitVec w) (qc : Conn w) (l : Level)

theorem lostDelay_nil (hs : (qc.ctx l).sent = []) : lostDelay now qc l = none := by
  simp only [lostDelay, hs]

theorem lostDelay_cons {f : Frame w} {rest : List (Frame w)} (hs : (qc.ctx l).sent = f :: rest) :
    lostDelay now qc l =
      if (qc.ctx l).largestAck ≠ unsetPn ∧ f.pnum ≤ (qc.ctx l).largestAck then
        some (if (f.sendTime + lostThreshold qc - now).toInt < 0 ∨
            (qc.ctx l).largestAck - f.pnum ≥ pktThr then 0
          else (f.sendTime + lostThreshold qc - now).toInt)
      else none := by
  simp only [lostDelay, hs]

theorem lostDelay_ne_none_iff :
    lostDelay now qc l ≠ none ↔ ∃ f, (qc.ctx l).largestAck ≠ unsetPn ∧
      (qc.ctx l).sent.head? = some f ∧ f.pnum ≤ (qc.ctx l).largestAck := by
  rcases hs : (qc.ctx l).sent with _ | ⟨f, rest⟩
  · simp [lostDelay_nil now qc l hs]
  · rw [lostDelay_cons now qc l hs]
    split_ifs with h <;> simp [h]

theorem lostDelay_nonneg {v : Int} (h : lostDelay now qc l = some v) : 0 ≤ v := by
  rcases hs : (qc.ctx l).sent with _ | ⟨f, rest⟩
  · rw [lostDelay_nil now qc l hs] at h; cases h
  · rw [lostDelay_cons now qc l hs] at h
    split_ifs at h <;> cases h <;> omega

/-- The scan's first test at `u` after `now`, for a head frame whose
`send_time + thr - now` reads at least `u`. -/
theorem headLost_cons_after {f : Frame w} {rest : List (Frame w)} {la u : Nat}
    (hu : (u : Int) ≤ (f.sendTime + lostThreshold qc - now).toInt) :
    headLost (now + BitVec.ofNat w u) (lostThreshold qc) la (f :: rest) = true ↔
      f.pnum ≤ la ∧ ¬ (0 < (f.sendTime + lostThreshold qc - now).toInt - u ∧
        la - f.pnum < pktThr) := by
  simp only [headLost, scanLost, lossWait, add_sub_add_ofNat, toInt_sub_ofNat _ _ hu, Bool.and_eq_true,
    decide_eq_true_eq, Bool.not_eq_true', decide_eq_false_iff_not]

/-- At the delay its context asks for, the scan takes the head packet. -/
theorem headLost_of_lostDelay {v : Int} (h : lostDelay now qc l = some v) :
    headLost (now + BitVec.ofNat w v.toNat) (lostThreshold qc) (qc.ctx l).largestAck
      (qc.ctx l).sent = true := by
  rcases hs : (qc.ctx l).sent with _ | ⟨f, rest⟩
  · rw [lostDelay_nil now qc l hs] at h; cases h
  · rw [lostDelay_cons now qc l hs] at h
    split_ifs at h with hc hw <;> cases h
    · -- due at once
      have e : now + BitVec.ofNat w (0 : Int).toNat = now := by simp
      rw [e]
      simp only [headLost, scanLost, lossWait, Bool.and_eq_true, decide_eq_true_eq, Bool.not_eq_true',
        decide_eq_false_iff_not]
      generalize (f.sendTime + lostThreshold qc - now).toInt = X at hw
      omega
    · exact (headLost_cons_after now qc (by omega)).2 ⟨hc.2, by omega⟩

/-- Before the delay its context asks for, the scan keeps the head packet. -/
theorem headLost_of_lt_lostDelay {v : Int} {u : Nat} (h : lostDelay now qc l = some v)
    (hu : (u : Int) < v) :
    headLost (now + BitVec.ofNat w u) (lostThreshold qc) (qc.ctx l).largestAck
      (qc.ctx l).sent = false := by
  rcases hs : (qc.ctx l).sent with _ | ⟨f, rest⟩
  · rfl
  · rw [lostDelay_cons now qc l hs] at h
    split_ifs at h with hc hw <;> cases h
    · omega
    · exact Bool.eq_false_iff.2 fun h' => by
        have := (headLost_cons_after now qc (by omega)).1 h'
        omega

/-- A context that asks for no lost delay keeps its head packet at any time. -/
theorem headLost_of_lostDelay_none (t thr : BitVec w) (h : lostDelay now qc l = none)
    (hu : (qc.ctx l).largestAck ≠ unsetPn) :
    headLost t thr (qc.ctx l).largestAck (qc.ctx l).sent = false := by
  rcases hs : (qc.ctx l).sent with _ | ⟨f, rest⟩
  · rfl
  · rw [lostDelay_cons now qc l hs] at h
    split_ifs at h with hc
    have hlt : (qc.ctx l).largestAck < f.pnum := by
      by_contra h'
      exact hc ⟨hu, not_lt.1 h'⟩
    simp [headLost, scanLost, not_le.2 hlt]

end Lost

/-- Before the smallest delay any context asks for, the lost handler declares
nothing lost: it only re-arms the timer. -/
theorem lostHandler_before (cf : Conf w) (now : BitVec w) (qc : Conn w) (u : Nat)
    (h : ∀ l v, lostDelay now qc l = some v → (u : Int) < v) :
    lostHandler cf (now + BitVec.ofNat w u) qc = setLostTimer cf (now + BitVec.ofNat w u) qc := by
  unfold lostHandler detectLost
  rw [detectLostLevels_of_not_headLost cf _ _ levels qc LossStat.init fun l _ hu => ?_]
  rcases hl : lostDelay now qc l with _ | v
  · exact headLost_of_lostDelay_none now qc l _ _ hl hu
  · exact headLost_of_lt_lostDelay now qc l hl (h l v hl)

/-- At the delay a context asks for, the lost handler takes a packet off its
queue. -/
theorem lostHandler_at (cf : Conf w) (now : BitVec w) (qc : Conn w) (l : Level) {v : Int}
    (h : lostDelay now qc l = some v) :
    ((lostHandler cf (now + BitVec.ofNat w v.toNat) qc).ctx l).sent.length <
      (qc.ctx l).sent.length := by
  obtain ⟨f, hu, -⟩ := (lostDelay_ne_none_iff now qc l).1 (by rw [h]; exact Option.some_ne_none _)
  have hlt := (detectLostLevels_sent_length cf (now + BitVec.ofNat w v.toNat) (lostThreshold qc)
    levels qc LossStat.init (by decide) l).2 (mem_levels l) hu
    (headLost_of_lostDelay now qc l h)
  unfold lostHandler detectLost
  generalize detectLostLevels cf _ _ levels (qc, LossStat.init) = r at hlt
  obtain ⟨q, ls⟩ := r
  simpa using hlt

/-! ## The PTO timer and `njt_quic_pto_handler` -/

section Pto

variable (cf : Conf w) (now : BitVec w) (qc : Conn w) (l : Level)

theorem ptoDelay_of_getLast? {f : Frame w} (hf : (qc.ctx l).sent.getLast? = some f) :
    ptoDelay cf now qc l =
      some (if (f.sendTime + (pto cf l qc <<< qc.ptoCount) - now).toInt < 0 then 0
        else (f.sendTime + (pto cf l qc <<< qc.ptoCount) - now).toInt) := by
  simp only [ptoDelay, hf]

theorem ptoDelay_eq_none_iff : ptoDelay cf now qc l = none ↔ (qc.ctx l).sent = [] := by
  rw [← List.getLast?_eq_none_iff]
  rcases hf : (qc.ctx l).sent.getLast? with _ | f
  · simp [ptoDelay, hf]
  · simp [ptoDelay_of_getLast? cf now qc l hf]

theorem ptoDelay_nonneg {v : Int} (h : ptoDelay cf now qc l = some v) : 0 ≤ v := by
  rcases hf : (qc.ctx l).sent.getLast? with _ | f
  · simp [ptoDelay, hf] at h
  · rw [ptoDelay_of_getLast? cf now qc l hf] at h
    split_ifs at h <;> cases h <;> omega

/-- The handler's test at `u` after `now`, for a context whose last frame
reads at least `u`. -/
theorem ptoDue_after {f : Frame w} {u : Nat} (hf : (qc.ctx l).sent.getLast? = some f)
    (hu : (u : Int) ≤ (f.sendTime + (pto cf l qc <<< qc.ptoCount) - now).toInt) :
    ptoDue cf (now + BitVec.ofNat w u) qc l = true ↔
      ¬ (f.pnum ≤ (qc.ctx l).largestAck ∧ (qc.ctx l).largestAck ≠ unsetPn) ∧
        ¬ (0 < (f.sendTime + (pto cf l qc <<< qc.ptoCount) - now).toInt - u) := by
  simp only [ptoDue, hf, add_sub_add_ofNat, toInt_sub_ofNat _ _ hu, Bool.and_eq_true,
    Bool.not_eq_true', Bool.and_eq_false_iff, decide_eq_false_iff_not, bne_eq_false_iff_eq,
    not_and_or, not_not, ne_eq]

/-- At the delay its context asks for, the PTO handler probes a context whose
last packet is unacknowledged. -/
theorem ptoDue_of_ptoDelay {v : Int} {f : Frame w} (h : ptoDelay cf now qc l = some v)
    (hf : (qc.ctx l).sent.getLast? = some f)
    (hun : ¬ (f.pnum ≤ (qc.ctx l).largestAck ∧ (qc.ctx l).largestAck ≠ unsetPn)) :
    ptoDue cf (now + BitVec.ofNat w v.toNat) qc l = true := by
  rw [ptoDelay_of_getLast? cf now qc l hf] at h
  split_ifs at h with hw <;> cases h
  · have e : now + BitVec.ofNat w (0 : Int).toNat = now := by simp
    have key : ¬ (f.pnum ≤ (qc.ctx l).largestAck ∧ (qc.ctx l).largestAck ≠ unsetPn) ∧
        ¬ 0 < (f.sendTime + (pto cf l qc <<< qc.ptoCount) - now).toInt := ⟨hun, by omega⟩
    rw [e]
    simpa only [ptoDue, hf, Bool.and_eq_true, Bool.not_eq_true', Bool.and_eq_false_iff,
      decide_eq_false_iff_not, bne_eq_false_iff_eq, not_and_or, not_not, ne_eq] using key
  · exact (ptoDue_after cf now qc l hf (by omega)).2 ⟨hun, by omega⟩

/-- Before the delay its context asks for, the PTO handler does not probe it. -/
theorem ptoDue_of_lt_ptoDelay {v : Int} {u : Nat} (h : ptoDelay cf now qc l = some v)
    (hu : (u : Int) < v) : ptoDue cf (now + BitVec.ofNat w u) qc l = false := by
  rcases hf : (qc.ctx l).sent.getLast? with _ | f
  · simp [ptoDelay, hf] at h
  · rw [ptoDelay_of_getLast? cf now qc l hf] at h
    split_ifs at h with hw <;> cases h
    · omega
    · exact Bool.eq_false_iff.2 fun h' => by
        have := (ptoDue_after cf now qc l hf (by omega)).1 h'
        omega

theorem ptoDue_of_ptoDelay_none (t : BitVec w) (h : ptoDelay cf now qc l = none) :
    ptoDue cf t qc l = false := by
  rw [ptoDelay_eq_none_iff] at h
  simp [ptoDue, h]

end Pto

theorem frameSendto_pnum (m : Level) (now : BitVec w) (len : Nat) (kind : FrameKind)
    (ic : Bool) (qc : Conn w) (l : Level) :
    ((frameSendto m now len kind ic qc).ctx l).pnum = (qc.ctx l).pnum + if l = m then 1 else 0 := by
  simp only [frameSendto]
  by_cases hl : l = m
  · subst hl; rw [if_pos rfl]; split_ifs <;> simp
  · split_ifs <;> simp [hl]

/-- The loop of `njt_quic_pto_handler` sends two probes in every due context. -/
theorem foldl_probe_pnum (cf : Conf w) (now : BitVec w) (len : Nat) (qc : Conn w) :
    ∀ (ls : List Level) (q : Conn w), ls.Nodup → ∀ l,
      ((ls.foldl (fun q' m => if ptoDue cf now qc m then
          frameSendto m now len .ping true (frameSendto m now len .ping true q') else q') q).ctx l).pnum =
        (q.ctx l).pnum + if l ∈ ls ∧ ptoDue cf now qc l then 2 else 0
  | [], q, _, l => by simp
  | m :: ls, q, hnd, l => by
    obtain ⟨hm, hnd⟩ := List.nodup_cons.1 hnd
    rw [List.foldl_cons, foldl_probe_pnum cf now len qc ls _ hnd l]
    by_cases hl : l = m
    · subst hl
      split_ifs <;> simp_all [frameSendto_pnum]
    · split_ifs <;> simp_all [frameSendto_pnum]

/-- The PTO handler sends two probes in every due context and none elsewhere. -/
theorem ptoHandler_pnum (cf : Conf w) (now : BitVec w) (len : Nat) (qc : Conn w) (l : Level) :
    ((ptoHandler cf now len qc).ctx l).pnum =
      (qc.ctx l).pnum + if ptoDue cf now qc l then 2 else 0 := by
  unfold ptoHandler
  rw [setLostTimer_ctx, Conn.ctx_with_ptoCount, foldl_probe_pnum cf now len qc levels qc (by decide)]
  cases l <;> simp [levels]

/-- With no context due, the PTO handler only backs off and re-arms the timer. -/
theorem ptoHandler_of_not_due (cf : Conf w) (now : BitVec w) (len : Nat) (qc : Conn w)
    (h : ∀ l, ptoDue cf now qc l = false) :
    ptoHandler cf now len qc = setLostTimer cf now { qc with ptoCount := qc.ptoCount + 1 } := by
  unfold ptoHandler
  simp only [h, Bool.false_eq_true, if_false, List.foldl_fixed]

/-! ## The timer agrees with its handlers -/

/-- Some context has `largest_ack` set and its head packet at or below it: the
condition under which `njt_quic_set_lost_timer` installs the lost handler. -/
def LostArmed (qc : Conn w) : Prop :=
  ∃ l f, (qc.ctx l).largestAck ≠ unsetPn ∧ (qc.ctx l).sent.head? = some f ∧
    f.pnum ≤ (qc.ctx l).largestAck

/-- The head of a queue ordered by packet number is at or below its last packet. -/
theorem head_pnum_le_last {sent : List (Frame w)} (hord : sent.Pairwise (·.pnum ≤ ·.pnum))
    {f g : Frame w} (hf : sent.head? = some f) (hg : sent.getLast? = some g) : f.pnum ≤ g.pnum := by
  obtain ⟨rest, rfl⟩ := List.head?_eq_some_iff.1 hf
  rcases List.mem_cons.1 (List.mem_of_getLast?_eq_some hg) with rfl | hm
  · exact le_rfl
  · exact List.rel_of_pairwise_cons hord hm

section Agree

variable (cf : Conf w) (now : BitVec w) (qc : Conn w)

/-- The lost timer's running minimum is set exactly when `LostArmed` holds. -/
theorem lostArmed_iff_foldl :
    LostArmed qc ↔ levels.foldl (fun x l => minDelay x (lostDelay now qc l)) (-1) ≠ -1 := by
  rw [Ne, (foldl_minDelay (lostDelay now qc) (fun l _ h => lostDelay_nonneg now qc l h) levels
    (-1) (.inl rfl)).1]
  simp only [true_and, not_forall, Classical.not_imp, exists_prop, mem_levels,
    lostDelay_ne_none_iff]
  rfl

/-- Part (a) of `setLostTimer_agrees`: the context with the smallest delay
loses a packet at it, and before it the lost handler only re-arms the timer. -/
theorem setLostTimer_lost (ha : LostArmed qc) :
    ∃ d, (setLostTimer cf now qc).ptoTimer = some (.lost, d) ∧
      (∃ l, ((lostHandler cf (now + BitVec.ofNat w d) qc).ctx l).sent.length <
        (qc.ctx l).sent.length) ∧
      ∀ u < d, lostHandler cf (now + BitVec.ofNat w u) qc =
        setLostTimer cf (now + BitVec.ofNat w u) qc := by
  obtain ⟨-, h2, -, h4⟩ := foldl_minDelay (lostDelay now qc)
    (fun l _ h => lostDelay_nonneg now qc l h) levels (-1) (.inl rfl)
  have hl := (lostArmed_iff_foldl now qc).1 ha
  rw [setLostTimer_ptoTimer]
  generalize levels.foldl (fun x l => minDelay x (lostDelay now qc l)) (-1) = lost at h2 h4 hl ⊢
  obtain ⟨l, -, hl'⟩ := h2.resolve_left hl
  have h0 := lostDelay_nonneg now qc l hl'
  refine ⟨lost.toNat, by simp [hl], ⟨l, by simpa [h0] using lostHandler_at cf now qc l hl'⟩,
    fun u hu => lostHandler_before cf now qc u fun m v hv => ?_⟩
  have := h4 m (mem_levels m) v hv
  omega

/-- The last packet of a queue that gives a PTO delay is unacknowledged when no
lost timer is armed: on an ordered queue the head would otherwise arm one. -/
theorem last_unacked_of_not_lostArmed (hord : ∀ l, (qc.ctx l).sent.Pairwise (·.pnum ≤ ·.pnum))
    (ha : ¬ LostArmed qc) {l : Level} {f : Frame w} (hf : (qc.ctx l).sent.getLast? = some f) :
    ¬ (f.pnum ≤ (qc.ctx l).largestAck ∧ (qc.ctx l).largestAck ≠ unsetPn) := by
  rintro ⟨hle, hu⟩
  obtain ⟨g, hg⟩ := Option.ne_none_iff_exists'.1 (mt List.head?_eq_none_iff.1
    (List.getLast?_eq_none_iff.not.1 (by rw [hf]; exact Option.some_ne_none _)))
  exact ha ⟨l, g, hu, hg, (head_pnum_le_last (hord l) hg hf).trans hle⟩

/-- Part (b) of `setLostTimer_agrees`: with no lost timer armed, the context
with the smallest PTO delay is probed at it, and before it no context is. -/
theorem setLostTimer_pto (probeLen : Nat) (hord : ∀ l, (qc.ctx l).sent.Pairwise (·.pnum ≤ ·.pnum))
    (ha : ¬ LostArmed qc) (hne : ∃ l, (qc.ctx l).sent ≠ []) :
    ∃ d, (setLostTimer cf now qc).ptoTimer = some (.pto, d) ∧
      (∃ l f, (qc.ctx l).sent.getLast? = some f ∧
        ¬ (f.pnum ≤ (qc.ctx l).largestAck ∧ (qc.ctx l).largestAck ≠ unsetPn) ∧
        ((ptoHandler cf (now + BitVec.ofNat w d) probeLen qc).ctx l).pnum = (qc.ctx l).pnum + 2) ∧
      ∀ u < d, ptoHandler cf (now + BitVec.ofNat w u) probeLen qc =
        setLostTimer cf (now + BitVec.ofNat w u) { qc with ptoCount := qc.ptoCount + 1 } := by
  obtain ⟨p1, p2, -, p4⟩ := foldl_minDelay (ptoDelay cf now qc)
    (fun l _ h => ptoDelay_nonneg cf now qc l h) levels (-1) (.inl rfl)
  have hl := not_not.1 (mt (lostArmed_iff_foldl now qc).2 ha)
  rw [setLostTimer_ptoTimer]
  generalize levels.foldl (fun x l => minDelay x (lostDelay now qc l)) (-1) = lost at hl ⊢
  generalize levels.foldl (fun x l => minDelay x (ptoDelay cf now qc l)) (-1) = ptoW at p1 p2 p4 ⊢
  have hp : ptoW ≠ -1 := by
    obtain ⟨l, hl⟩ := hne
    exact fun h => hl ((ptoDelay_eq_none_iff cf now qc l).1 ((p1.1 h).2 l (mem_levels l)))
  obtain ⟨l, -, hl'⟩ := p2.resolve_left hp
  obtain ⟨f, hf⟩ := Option.ne_none_iff_exists'.1 (mt (List.getLast?_eq_none_iff).1
    ((ptoDelay_eq_none_iff cf now qc l).not.1 (by rw [hl']; exact Option.some_ne_none _)))
  have hun := last_unacked_of_not_lostArmed qc hord ha hf
  have hdue := ptoDue_of_ptoDelay cf now qc l hl' hf hun
  refine ⟨ptoW.toNat, by simp [hl, hp], ⟨l, f, hf, hun, ?_⟩, fun u hu => ?_⟩
  · rw [ptoHandler_pnum, hdue, if_pos rfl]
  · refine ptoHandler_of_not_due cf _ probeLen qc fun m => ?_
    rcases hm : ptoDelay cf now qc m with _ | v
    · exact ptoDue_of_ptoDelay_none cf now qc m _ hm
    · exact ptoDue_of_lt_ptoDelay cf now qc m hm (by have := p4 m (mem_levels m) v hm; omega)

/-- Part (c) of `setLostTimer_agrees`: nothing in flight arms no timer. -/
theorem setLostTimer_idle (ha : ¬ LostArmed qc) (hall : ∀ l, (qc.ctx l).sent = []) :
    (setLostTimer cf now qc).ptoTimer = none := by
  have hl := not_not.1 (mt (lostArmed_iff_foldl now qc).2 ha)
  have hp := (foldl_minDelay (ptoDelay cf now qc) (fun l _ h => ptoDelay_nonneg cf now qc l h)
    levels (-1) (.inl rfl)).1.2 ⟨rfl, fun l _ => (ptoDelay_eq_none_iff cf now qc l).2 (hall l)⟩
  rw [setLostTimer_ptoTimer]
  simp [hl, hp]

end Agree

/-- **`njt_quic_set_lost_timer` agrees with the handler it installs.**  On
queues ordered by packet number:
(a) when some context has `largest_ack` set and its head packet at or below it,
the lost handler is installed with a delay `d`; run at `now + d` it takes a
packet off a queue, run at any `now + u` with `u < d` it changes nothing but
the timer;
(b) otherwise, when some queue is not empty, the PTO handler is installed with
a delay `d`; run at `now + d` it sends two probes in a context whose last
packet is unacknowledged, run at any `now + u` with `u < d` it sends none and
only backs off and re-arms the timer;
(c) otherwise no timer is armed. -/
theorem setLostTimer_agrees (cf : Conf w) (now : BitVec w) (probeLen : Nat) (qc : Conn w)
    (hord : ∀ l, (qc.ctx l).sent.Pairwise (·.pnum ≤ ·.pnum)) :
    (LostArmed qc → ∃ d, (setLostTimer cf now qc).ptoTimer = some (.lost, d) ∧
      (∃ l, ((lostHandler cf (now + BitVec.ofNat w d) qc).ctx l).sent.length <
        (qc.ctx l).sent.length) ∧
      ∀ u < d, lostHandler cf (now + BitVec.ofNat w u) qc =
        setLostTimer cf (now + BitVec.ofNat w u) qc) ∧
    (¬ LostArmed qc → (∃ l, (qc.ctx l).sent ≠ []) →
      ∃ d, (setLostTimer cf now qc).ptoTimer = some (.pto, d) ∧
      (∃ l f, (qc.ctx l).sent.getLast? = some f ∧
        ¬ (f.pnum ≤ (qc.ctx l).largestAck ∧ (qc.ctx l).largestAck ≠ unsetPn) ∧
        ((ptoHandler cf (now + BitVec.ofNat w d) probeLen qc).ctx l).pnum = (qc.ctx l).pnum + 2) ∧
      ∀ u < d, ptoHandler cf (now + BitVec.ofNat w u) probeLen qc =
        setLostTimer cf (now + BitVec.ofNat w u) { qc with ptoCount := qc.ptoCount + 1 }) ∧
    (¬ LostArmed qc → (∀ l, (qc.ctx l).sent = []) → (setLostTimer cf now qc).ptoTimer = none) :=
  ⟨setLostTimer_lost cf now qc, setLostTimer_pto cf now qc probeLen hord, setLostTimer_idle cf now qc⟩

theorem setLostTimer_agrees_oneOldPacket :
    let cf : Conf 32 := default
    let now : BitVec 32 := 100
    let qc := oneOldPacket
    (∀ l, (qc.ctx l).sent.Pairwise (·.pnum ≤ ·.pnum)) ∧
    ((LostArmed qc → ∃ d, (setLostTimer cf now qc).ptoTimer = some (.lost, d) ∧
      (∃ l, ((lostHandler cf (now + BitVec.ofNat 32 d) qc).ctx l).sent.length <
        (qc.ctx l).sent.length) ∧
      ∀ u < d, lostHandler cf (now + BitVec.ofNat 32 u) qc =
        setLostTimer cf (now + BitVec.ofNat 32 u) qc) ∧
    (¬ LostArmed qc → (∃ l, (qc.ctx l).sent ≠ []) →
      ∃ d, (setLostTimer cf now qc).ptoTimer = some (.pto, d) ∧
      (∃ l f, (qc.ctx l).sent.getLast? = some f ∧
        ¬ (f.pnum ≤ (qc.ctx l).largestAck ∧ (qc.ctx l).largestAck ≠ unsetPn) ∧
        ((ptoHandler cf (now + BitVec.ofNat 32 d) 1200 qc).ctx l).pnum = (qc.ctx l).pnum + 2) ∧
      ∀ u < d, ptoHandler cf (now + BitVec.ofNat 32 u) 1200 qc =
        setLostTimer cf (now + BitVec.ofNat 32 u) { qc with ptoCount := qc.ptoCount + 1 }) ∧
    (¬ LostArmed qc → (∀ l, (qc.ctx l).sent = []) → (setLostTimer cf now qc).ptoTimer = none)) :=
  have hord : ∀ l, (oneOldPacket.ctx l).sent.Pairwise (·.pnum ≤ ·.pnum) :=
    fun l => by cases l <;> decide
  ⟨hord, setLostTimer_agrees _ _ _ _ hord⟩

end NjtQuic
