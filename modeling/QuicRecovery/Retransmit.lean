import QuicRecovery.Loss

/-!
# What loss detection hands back for retransmission

`njt_quic_resend_frames` takes the frames of a lost packet off `sent` one by
one and, by type, frees them or puts them back on the context's `frames`
queue, with the flow-control limits they carry refreshed from the
connection's current ones.  `retransmit` says what it puts back for one frame.

`njt_quic_detect_lost` runs it from three nested loops: over the contexts,
over the lost packets at the head of a context's `sent`, and over the frames
of one packet.  This file proves that nothing is lost or handed back twice on
the way:

* `detectLost_requeues`: for every connection, ACK statistics and level,
  `njt_quic_detect_lost` splits the level's `sent` queue into the frames it
  takes and the frames it keeps, and appends to the level's `frames` exactly
  what `retransmit` makes of the frames it took, in the order they were sent.
  The first frame of a packet that `njt_quic_congestion_lost` counted goes
  back with `plen = 0`; nothing else about the frames changes.
-/

namespace NjtQuic

variable {w : Nat}

/-- The frame `njt_quic_resend_frames` puts back on `frames` for a frame `f`
of a lost packet, or none for a frame it frees: ACK, PING, PATH_CHALLENGE,
PATH_RESPONSE and CONNECTION_CLOSE, MAX_STREAM_DATA of a stream that is gone,
and STREAM of a stream whose sending side was reset. -/
def retransmit (qc : Conn w) (f : Frame w) : Option (Frame w) :=
  match f.kind with
  | .ack _ | .ping | .pathChallenge | .pathResponse | .connectionClose => none
  | .maxData _ => some { f with kind := .maxData qc.recvMaxData }
  | .maxStreams bidi _ =>
    let limit := if bidi then qc.clientMaxStreamsBidi else qc.clientMaxStreamsUni
    some { f with kind := .maxStreams bidi limit }
  | .maxStreamData id _ =>
    (qc.findStream id).map fun qs => { f with kind := .maxStreamData id qs.recvMaxData }
  | .stream id =>
    match qc.findStream id with
    | some qs => if qs.sendState = .resetSent ∨ qs.sendState = .resetRecvd then none else some f
    | none => some f
  | .resetStream _ | .other => some f

/-! ## The limits `retransmit` reads stay put -/

section Limits

variable (qc : Conn w)

@[simp] theorem retransmit_setCtx (l : Level) (c : SendCtx w) :
    retransmit (qc.setCtx l c) = retransmit qc := by
  cases l <;> rfl

@[simp] theorem retransmit_modifyCtx (l : Level) (f : SendCtx w → SendCtx w) :
    retransmit (qc.modifyCtx l f) = retransmit qc :=
  retransmit_setCtx qc l _

@[simp] theorem retransmit_with_pushPosted (b : Bool) :
    retransmit { qc with pushPosted := b } = retransmit qc := rfl

@[simp] theorem retransmit_with_congestion (cg : Congestion w) :
    retransmit { qc with congestion := cg } = retransmit qc := rfl

@[simp] theorem retransmit_with_ptoTimer (t : Option (TimerHandler × Nat)) :
    retransmit { qc with ptoTimer := t } = retransmit qc := rfl

@[simp] theorem retransmit_queueFrame (l : Level) (f : Frame w) :
    retransmit (queueFrame l f qc) = retransmit qc := by
  simp [queueFrame]

@[simp] theorem retransmit_setLostTimer (cf : Conf w) (now : BitVec w) :
    retransmit (setLostTimer cf now qc) = retransmit qc := by
  unfold setLostTimer; dsimp only; split_ifs <;> rfl

end Limits

/-! ## One packet -/

section Resend

variable (qc : Conn w) (l : Level)

@[simp] theorem retransmit_resendFrame (f : Frame w) :
    retransmit (resendFrame l qc f) = retransmit qc := by
  unfold resendFrame
  repeat' split
  all_goals simp

theorem resendFrame_ctx_of_ne (f : Frame w) {m : Level} (hm : m ≠ l) :
    (resendFrame l qc f).ctx m = qc.ctx m := by
  unfold resendFrame
  repeat' split
  all_goals simp [queueFrame, hm]

theorem resendFrame_frames_self (f : Frame w) :
    ((resendFrame l qc f).ctx l).frames = (qc.ctx l).frames ++ (retransmit qc f).toList := by
  unfold resendFrame retransmit
  cases f.kind <;> dsimp only <;> repeat' split
  all_goals simp_all [queueFrame]

/-- Resending one frame appends what `retransmit` gives back to the `frames`
of its level, and nothing anywhere else. -/
theorem resendFrame_frames (f : Frame w) (m : Level) :
    ((resendFrame l qc f).ctx m).frames =
      (qc.ctx m).frames ++ if m = l then (retransmit qc f).toList else [] := by
  split_ifs with hm
  · subst hm; exact resendFrame_frames_self qc m f
  · simp [resendFrame_ctx_of_ne qc l f hm]

theorem foldl_resendFrame_frames : ∀ (fs : List (Frame w)) (qc : Conn w) (m : Level),
    ((fs.foldl (resendFrame l) qc).ctx m).frames =
      (qc.ctx m).frames ++ if m = l then fs.filterMap (retransmit qc) else []
  | [], qc, m => by simp
  | f :: fs, qc, m => by
    rw [List.foldl_cons, foldl_resendFrame_frames fs, resendFrame_frames, retransmit_resendFrame,
      List.filterMap_cons]
    split_ifs <;> cases retransmit qc f <;> simp

theorem foldl_retransmit : ∀ (fs : List (Frame w)) (qc : Conn w),
    retransmit (fs.foldl (resendFrame l) qc) = retransmit qc
  | [], _ => rfl
  | f :: fs, qc => (foldl_retransmit fs _).trans (retransmit_resendFrame qc l f)

theorem resendFrames_retransmit (cf : Conf w) (now : BitVec w) (start : Frame w)
    (rest : List (Frame w)) :
    retransmit (resendFrames cf now l start rest qc).2 = retransmit qc := by
  simp only [resendFrames]
  split <;> simp only [retransmit_with_pushPosted, foldl_retransmit] <;> rfl

/-- `njt_quic_resend_frames` hands the frames of the packet at the head of
`sent` to `retransmit`, its first frame as `njt_quic_congestion_lost` left
it. -/
theorem resendFrames_frames (cf : Conf w) (now : BitVec w) (start : Frame w)
    (rest : List (Frame w)) (m : Level) :
    ((resendFrames cf now l start rest qc).2.ctx m).frames =
      (qc.ctx m).frames ++ if m = l then
        ((congestionLost cf qc.rstPnum now qc.congestion start).2.1 ::
          rest.takeWhile (·.pnum = start.pnum)).filterMap (retransmit qc)
      else [] := by
  simp only [resendFrames]
  generalize congestionLost cf qc.rstPnum now qc.congestion start = r
  obtain ⟨cg, start', post⟩ := r
  dsimp only
  have hc : ∀ m, ({ qc with congestion := cg, pushPosted := qc.pushPosted || post } : Conn w).ctx m =
      qc.ctx m := fun m => by cases m <;> rfl
  have hr : retransmit ({ qc with congestion := cg, pushPosted := qc.pushPosted || post } : Conn w) =
      retransmit qc := rfl
  split <;> simp only [Conn.ctx_with_pushPosted, foldl_resendFrame_frames, hc, hr]

end Resend

/-! ## The loops of `njt_quic_detect_lost` -/

/-- `g` is `f` as `njt_quic_resend_frames` hands it on: unchanged, or with
its size cleared by `njt_quic_congestion_lost`. -/
def Resized (f g : Frame w) : Prop := g = f ∨ g = { f with plen := 0 }

/-- From `qc` to `qc'`, level `l` took some frames off the head of `sent`
and appended to its `frames` what `retransmit` makes of them, and the limits
`retransmit` reads did not change. -/
def Requeued (l : Level) (qc qc' : Conn w) : Prop :=
  retransmit qc' = retransmit qc ∧
    ∃ lost lost', (qc.ctx l).sent = lost ++ (qc'.ctx l).sent ∧ List.Forall₂ Resized lost lost' ∧
      (qc'.ctx l).frames = (qc.ctx l).frames ++ lost'.filterMap (retransmit qc)

namespace Requeued

variable {l : Level} {qc qc' qc'' : Conn w}

theorem refl (l : Level) (qc : Conn w) : Requeued l qc qc :=
  ⟨rfl, [], [], rfl, .nil, by simp⟩

theorem trans (h : Requeued l qc qc') (h' : Requeued l qc' qc'') : Requeued l qc qc'' := by
  obtain ⟨hr, lost, lost', hs, hf, hq⟩ := h
  obtain ⟨hr', mid, mid', hs', hf', hq'⟩ := h'
  refine ⟨hr'.trans hr, lost ++ mid, lost' ++ mid', by rw [hs, hs', List.append_assoc],
    List.rel_append hf hf', ?_⟩
  rw [hq', hq, hr, List.filterMap_append, List.append_assoc]

/-- A change that keeps every context and the limits keeps the relation. -/
theorem of_ctx (h : Requeued l qc qc') (hc : ∀ m, qc''.ctx m = qc'.ctx m)
    (hr : retransmit qc'' = retransmit qc') : Requeued l qc qc'' := by
  obtain ⟨hr0, lost, lost', hs, hf, hq⟩ := h
  exact ⟨hr.trans hr0, lost, lost', by rw [hc, hs], hf, by rw [hc, hq]⟩

end Requeued

section Scan

variable (cf : Conf w) (now thr : BitVec w) (l : Level) (la : Nat)

/-- The loss scan of one context splits the queue it scans into the frames it
hands to `njt_quic_resend_frames` and the suffix it returns. -/
theorem detectLostCtx_requeues :
    ∀ (sent : List (Frame w)) (qc : Conn w) (ls : LossStat w),
      retransmit (detectLostCtx cf now thr l la sent qc ls).2.1 = retransmit qc ∧
      ∃ lost lost', sent = lost ++ (detectLostCtx cf now thr l la sent qc ls).1 ∧
        List.Forall₂ Resized lost lost' ∧
        ∀ m, ((detectLostCtx cf now thr l la sent qc ls).2.1.ctx m).frames =
          (qc.ctx m).frames ++ if m = l then lost'.filterMap (retransmit qc) else [] := by
  intro sent qc ls
  induction sent, qc, ls using detectLostCtx.induct cf now thr l la with
  | case1 qc ls => exact ⟨rfl, [], [], rfl, .nil, fun m => by simp [detectLostCtx]⟩
  | case2 start rest qc ls hgt =>
    exact ⟨by simp [detectLostCtx, hgt], [], [], by simp [detectLostCtx, hgt], .nil,
      fun m => by simp [detectLostCtx, hgt]⟩
  | case3 start rest qc ls hle hw =>
    exact ⟨by simp [detectLostCtx, hle, hw], [], [], by simp [detectLostCtx, hle, hw], .nil,
      fun m => by simp [detectLostCtx, hle, hw]⟩
  | case4 start rest qc ls hle hw ls' r ih =>
    obtain ⟨hr, lost, lost', hs, hf, hq⟩ := ih
    have hr1 := resendFrames_retransmit qc l cf now start rest
    simp only [ls', r, dite_eq_ite] at hr hs hq
    rw [detectLostCtx, if_neg hle, if_neg hw]
    dsimp only
    refine ⟨hr.trans hr1, (start :: rest.takeWhile (·.pnum = start.pnum)) ++ lost,
      ((congestionLost cf qc.rstPnum now qc.congestion start).2.1 ::
        rest.takeWhile (·.pnum = start.pnum)) ++ lost', ?_, ?_, fun m => ?_⟩
    · rw [List.append_assoc, ← hs, resendFrames_fst, List.cons_append,
        List.takeWhile_append_dropWhile]
    · refine List.rel_append (.cons ?_ (List.forall₂_same.2 fun _ _ => .inl rfl)) hf
      rw [congestionLost_frame]
      split_ifs
      · exact .inl rfl
      · exact .inr rfl
    · rw [hq m, resendFrames_frames, hr1, List.filterMap_append]
      split_ifs <;> simp

end Scan

/-- One context of the `for` loop of `njt_quic_detect_lost`, seen from any
level. -/
theorem detectLostCtx_requeued (cf : Conf w) (now thr : BitVec w) (l : Level) (qc : Conn w)
    (st : LossStat w) (m : Level) :
    Requeued m qc ((detectLostCtx cf now thr l (qc.ctx l).largestAck (qc.ctx l).sent qc st).2.1.modifyCtx
      l fun ctx => { ctx with sent := (detectLostCtx cf now thr l (qc.ctx l).largestAck
        (qc.ctx l).sent qc st).1 }) := by
  obtain ⟨hr, lost, lost', hs, hf, hq⟩ :=
    detectLostCtx_requeues cf now thr l (qc.ctx l).largestAck (qc.ctx l).sent qc st
  obtain ⟨-, hsent, -⟩ :=
    detectLostCtx_frame cf now thr l (qc.ctx l).largestAck (qc.ctx l).sent qc st
  refine ⟨by rw [retransmit_modifyCtx, hr], ?_⟩
  by_cases hm : m = l
  · subst hm
    exact ⟨lost, lost', by simpa using hs, hf, by simp [hq]⟩
  · exact ⟨[], [], by simp [hm, hsent], .nil, by simp [hm, hq]⟩

theorem detectLostLevels_requeued (cf : Conf w) (now thr : BitVec w) (m : Level) :
    ∀ (ls : List Level) (qc : Conn w) (st : LossStat w),
      Requeued m qc (detectLostLevels cf now thr ls (qc, st)).1
  | [], qc, _ => .refl m qc
  | l :: ls, qc, st => by
    rw [detectLostLevels]
    split
    · exact detectLostLevels_requeued cf now thr m ls qc st
    · exact (detectLostCtx_requeued cf now thr l qc st m).trans
        (detectLostLevels_requeued cf now thr m ls _ _)

/-- `njt_quic_detect_lost` loses no frame and hands none back twice: on every
level it splits `sent` into the frames it takes and the frames it keeps, and
appends to `frames` what `njt_quic_resend_frames` makes of the frames it took,
in the order they were sent. -/
theorem detectLost_requeues (cf : Conf w) (now : BitVec w) (st : Option (AckStat w))
    (qc : Conn w) (l : Level) :
    ∃ lost lost', (qc.ctx l).sent = lost ++ ((detectLost cf now st qc).ctx l).sent ∧
      List.Forall₂ Resized lost lost' ∧
      ((detectLost cf now st qc).ctx l).frames =
        (qc.ctx l).frames ++ lost'.filterMap (retransmit qc) := by
  have h := detectLostLevels_requeued cf now (lostThreshold qc) l levels qc LossStat.init
  unfold detectLost
  generalize detectLostLevels cf now (lostThreshold qc) levels (qc, LossStat.init) = r at h
  obtain ⟨qc1, ls⟩ := r
  refine (h.of_ctx (fun m => ?_) ?_).2
  · rw [setLostTimer_ctx]
    split
    · split <;> simp
    · rfl
  · rw [retransmit_setLostTimer]
    split
    · split <;> rfl
    · rfl

end NjtQuic
