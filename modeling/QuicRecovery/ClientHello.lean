import Mathlib.Algebra.Group.Nat.Basic
import Mathlib.Tactic.SplitIfs
/-!
# The client hello callback of `ssl_client_hello_by_lua`

`njt_http_lua_ssl_client_hello_handler` is the callback OpenSSL runs on a
ClientHello.  On its first entry it makes a fake request, runs the Lua
handler on it and either settles at once, answering the exit code, or, when
the Lua thread yields, arms two pool cleanups and answers -1 (retry):

* `njt_http_lua_ssl_client_hello_done`, in the fake connection's pool, marks
  the context done and posts the connection's write event so that OpenSSL
  calls back;
* `njt_http_lua_ssl_client_hello_aborted`, in the connection's pool, marks
  the context aborted when the connection goes away first.

Calls of the callback, exit codes set by the Lua code, the closing of the
fake connection and the closing of the connection come in any order.  This
file models them as the events of one step function and proves, for every
order:

* `helloRun_safe`: the assertion `cctx->done == 0` of the done handler never
  fails, the context is never both done and aborted, and the write event is
  posted at most once, and only for a done context;
* `helloRun_settled`: once the context is done, every later call answers the
  same exit code;
* `helloRun_aborted`: once the context is aborted, it is never done, no later
  call is answered and the write event is never posted again;
* `helloRun_woken`: a context that is done has been answered by a call, with
  its exit code, or has had the write event posted: OpenSSL is never left
  waiting.
-/

namespace NjtLua

/-! ## The handler chain -/

/-- `NJT_OK` (`njt_core.h`, not in src). -/
def njtOk : Int := 0

/-- `NJT_ERROR`. -/
def njtError : Int := -1

/-- `NJT_AGAIN`. -/
def njtAgain : Int := -2

/-- `NJT_DONE`. -/
def njtDone : Int := -4

/-- What the calls of `njt_http_lua_ssl_client_hello_by_chunk` outside src
return: whether the Lua context, the coroutine and the request cleanup could
be made, what `njt_http_lua_run_thread` returns, and what
`njt_http_lua_content_run_posted_threads` returns with its last argument 0
and 1. -/
structure ChunkRun where
  setup : Bool
  run : Int
  posted0 : Int
  posted1 : Int
  deriving DecidableEq, Repr

/-- `njt_http_lua_ssl_client_hello_by_chunk`: what it returns, after handing
the same value to `njt_http_lua_finalize_request`. -/
def byChunk (k : ChunkRun) : Int :=
  if !k.setup then njtError
  else if k.run = njtError ∨ k.run ≥ njtOk then k.run
  else if k.run = njtAgain then k.posted0
  else if k.run = njtDone then k.posted1
  else njtOk

/-- Load the Lua code, then run it: the body shared by the file and the inline
handler, for the loader's result `load`. -/
def loadThenRun (load : Int) (k : ChunkRun) : Int :=
  if load ≠ njtOk then load else byChunk k

/-- `njt_http_lua_ssl_client_hello_handler_file`, for what
`njt_http_lua_cache_loadfile` returns. -/
def clientHelloHandlerFile (loadfile : Int) (k : ChunkRun) : Int := loadThenRun loadfile k

/-- `njt_http_lua_ssl_client_hello_handler_inline`, for what
`njt_http_lua_cache_loadbuffer` returns. -/
def clientHelloHandlerInline (loadbuffer : Int) (k : ChunkRun) : Int := loadThenRun loadbuffer k

/-! ## The state of one connection -/

/-- The fields of `njt_http_lua_ssl_ctx_t` the client hello code reads and
writes: `exit_code`, `entered_client_hello_handler`, `done`, `aborted`, and
whether `cleanup` points at a cleanup entry of the connection's pool. -/
structure Cctx where
  exitCode : Int
  entered : Bool
  done : Bool
  aborted : Bool
  cleanup : Bool
  deriving DecidableEq, Repr

/-- The state around one SSL connection. -/
structure Hello where
  /-- the context attached to the SSL connection, as `njt_http_lua_ssl_get_ctx`
  finds it -/
  cctx : Option Cctx
  /-- the entry `*cctx->cleanup` holds `njt_http_lua_ssl_client_hello_aborted` -/
  abortArmed : Bool
  /-- the fake connection's pool holds `njt_http_lua_ssl_client_hello_done` -/
  doneArmed : Bool
  /-- the calls of `njt_post_event(c->write, &njt_posted_events)` so far -/
  posted : Nat
  /-- the connection's pool has been destroyed -/
  closed : Bool
  deriving DecidableEq, Repr

/-- A connection before its first ClientHello. -/
def Hello.init : Hello := ⟨none, false, false, 0, false⟩

/-- `njt_http_lua_ssl_client_hello_done`, run when the fake connection's pool
is destroyed; `none` when its assertion `cctx->done == 0` fails. -/
def helloDone (h : Hello) : Option Hello :=
  match h.cctx with
  | none => some h
  | some c =>
    if c.aborted then some h
    else if c.done then none
    else some { h with
      cctx := some { c with done := true }
      abortArmed := if c.cleanup then false else h.abortArmed
      posted := h.posted + 1 }

/-- The fake connection is closed: its pool runs its cleanups. -/
def closeFake (h : Hello) : Option Hello :=
  if h.doneArmed then helloDone { h with doneArmed := false } else some h

/-- `njt_http_lua_ssl_client_hello_aborted`, run when the connection's pool is
destroyed.  It finalizes the fake request with `NJT_ERROR`; the fake
connection closes when that finalization is through, an event of its own. -/
def helloAborted (h : Hello) : Hello :=
  match h.cctx with
  | none => h
  | some c => if c.done then h else { h with cctx := some { c with aborted := true } }

/-- What the Lua handler configured for the server returns: what its loader
returns, the run of its chunk, and the exit code its Lua code set, if any,
before it returned. -/
structure LuaHandler where
  load : Int
  chunk : ChunkRun
  exit : Option Int
  deriving DecidableEq, Repr

/-- What the calls of the first entry outside src return: the fake connection
and request, `njt_pcalloc` of the context, `SSL_set_ex_data`, the handler of
the server (`none` when no `ssl_client_hello_by_lua*` is defined), and the
two `njt_pool_cleanup_add` calls. -/
structure FirstCall where
  fakeConnection : Bool
  fakeRequest : Bool
  pcalloc : Bool
  setExData : Bool
  handler : Option LuaHandler
  fcCleanup : Bool
  cCleanup : Bool
  deriving DecidableEq, Repr

/-- The first entry of `njt_http_lua_ssl_client_hello_handler`.  Its `failed`
label answers 0 after closing the fake connection, whose pool runs the done
handler if it was armed. -/
def helloFirst (e : FirstCall) (h : Hello) : Option (Int × Hello) :=
  if !e.fakeConnection || !e.fakeRequest then some (0, h)
  else
    match h.cctx.orElse fun _ => if e.pcalloc then some ⟨0, false, false, false, false⟩ else none with
    | none => some (0, h)
    | some c0 =>
      let c : Cctx := { c0 with exitCode := 1, entered := true, done := false }
      if !e.setExData then
        some (0, { h with cctx := if h.cctx.isSome then some c else h.cctx })
      else
        match e.handler with
        | none => some (0, { h with cctx := some c })
        | some hd =>
          let rc := loadThenRun hd.load hd.chunk
          let c := { c with
            exitCode := if hd.load = njtOk ∧ hd.chunk.setup = true then hd.exit.getD 1 else c.exitCode }
          if rc ≥ njtOk ∨ rc = njtError then
            some (c.exitCode, { h with
              cctx := some { c with done := true }
              abortArmed := if c.cleanup then false else h.abortArmed })
          else if !e.fcCleanup then some (0, { h with cctx := some c })
          else if !c.cleanup && !e.cCleanup then
            (helloDone { h with cctx := some c }).map fun h' => (0, h')
          else
            some (-1, { h with
              cctx := some { c with cleanup := true }
              doneArmed := true
              abortArmed := true })

/-- `njt_http_lua_ssl_client_hello_handler`: its answer and the state it
leaves, `none` when the done handler's assertion fails. -/
def helloHandler (e : FirstCall) (h : Hello) : Option (Int × Hello) :=
  match h.cctx with
  | some c => if c.entered then some (if c.done then c.exitCode else -1, h) else helloFirst e h
  | none => helloFirst e h

/-- What can happen to a connection during its handshake. -/
inductive Event where
  /-- OpenSSL runs the client hello callback -/
  | call (e : FirstCall)
  /-- the Lua code sets the exit code through the FFI (not in src) while its
  thread lives -/
  | setExit (code : Int)
  /-- the fake connection is closed: the Lua thread ended, or the fake request
  was finalized -/
  | fakeClosed
  /-- the connection is closed and its pool destroyed -/
  | close
  deriving DecidableEq, Repr

/-- One event: the state it leaves and, for a call, the callback's answer. -/
def helloStep (h : Hello) : Event → Option (Hello × Option Int)
  | .call e =>
    if h.closed then some (h, none) else (helloHandler e h).map fun r => (r.2, some r.1)
  | .setExit v =>
    some (if h.doneArmed then { h with cctx := h.cctx.map fun c => { c with exitCode := v } } else h,
      none)
  | .fakeClosed => (closeFake h).map fun h' => (h', none)
  | .close =>
    if h.closed then some (h, none)
    else
      let h' := { h with closed := true, abortArmed := false }
      some (if h.abortArmed then helloAborted h' else h', none)

/-- A run of events: the state it ends in and the callback's answers, in
order; `none` when an assertion fails on the way. -/
def helloRun (h : Hello) : List Event → Option (Hello × List Int)
  | [] => some (h, [])
  | ev :: evs =>
    match helloStep h ev with
    | none => none
    | some (h', r) =>
      match helloRun h' evs with
      | none => none
      | some (h'', rs) => some (h'', r.toList ++ rs)

/-! ## The first entry -/

/-- What the first entry of the callback leaves: the state as it was, or a new
context that is still running, settled with its answer, done at once, or
waiting with both cleanups armed. -/
theorem helloFirst_cases {e : FirstCall} {h h' : Hello} {r : Int} (hn : h.cctx = none)
    (hf : helloFirst e h = some (r, h')) :
    h' = h ∨ ∃ c : Cctx, c.entered = true ∧ c.aborted = false ∧
      ((h' = { h with cctx := some c } ∧ c.done = false ∧ c.cleanup = false) ∨
        (h' = { h with cctx := some c } ∧ c.done = true ∧ c.cleanup = false ∧ r = c.exitCode) ∨
        (h' = { h with cctx := some c, posted := h.posted + 1 } ∧ c.done = true ∧ r = 0) ∨
        (h' = { h with cctx := some c, doneArmed := true, abortArmed := true } ∧ c.done = false ∧
          c.cleanup = true ∧ r = -1)) := by
  unfold helloFirst at hf
  rw [hn] at hf
  simp only [Option.orElse, Option.isSome_none, Bool.false_eq_true, if_false] at hf
  by_cases h1 : (!e.fakeConnection || !e.fakeRequest) = true
  · rw [if_pos h1] at hf
    exact .inl (Prod.mk.inj (Option.some.inj hf)).2.symm
  rw [if_neg h1] at hf
  cases hp : e.pcalloc <;> simp only [hp, if_false, if_true] at hf
  · exact .inl (Prod.mk.inj (Option.some.inj hf)).2.symm
  split at hf
  · obtain ⟨-, rfl⟩ := Prod.mk.inj (Option.some.inj hf)
    exact .inl (by rw [← hn])
  rcases hd : e.handler with _ | l <;> simp only [hd] at hf
  · obtain ⟨rfl, rfl⟩ := Prod.mk.inj (Option.some.inj hf)
    exact .inr ⟨_, rfl, rfl, .inl ⟨rfl, rfl, rfl⟩⟩
  generalize (if l.load = njtOk ∧ l.chunk.setup = true then l.exit.getD 1 else 1) = x at hf
  split at hf
  · obtain ⟨rfl, rfl⟩ := Prod.mk.inj (Option.some.inj hf)
    exact .inr ⟨_, rfl, rfl, .inr (.inl ⟨rfl, rfl, rfl, rfl⟩)⟩
  split at hf
  · obtain ⟨rfl, rfl⟩ := Prod.mk.inj (Option.some.inj hf)
    exact .inr ⟨_, rfl, rfl, .inl ⟨rfl, rfl, rfl⟩⟩
  split at hf
  · simp only [helloDone, Option.map_some', Option.some.injEq, Prod.mk.injEq] at hf
    obtain ⟨rfl, rfl⟩ := hf
    exact .inr ⟨_, rfl, rfl, .inr (.inr (.inl ⟨rfl, rfl, rfl⟩))⟩
  · obtain ⟨rfl, rfl⟩ := Prod.mk.inj (Option.some.inj hf)
    exact .inr ⟨_, rfl, rfl, .inr (.inr (.inr ⟨rfl, rfl, rfl, rfl⟩))⟩

/-- The first entry never trips the done handler's assertion. -/
theorem helloFirst_isSome (e : FirstCall) {h : Hello} (hn : h.cctx = none) :
    (helloFirst e h).isSome := by
  unfold helloFirst
  rw [hn]
  simp only [Option.orElse, Option.isSome_none, Bool.false_eq_true, if_false]
  by_cases h1 : (!e.fakeConnection || !e.fakeRequest) = true
  · rw [if_pos h1]; rfl
  rw [if_neg h1]
  cases e.pcalloc <;> simp only [Bool.false_eq_true, ↓reduceIte]
  · rfl
  split
  · rfl
  rcases e.handler with _ | l
  · rfl
  dsimp only
  split
  · rfl
  split
  · rfl
  split
  · simp [helloDone]
  · rfl

/-! ## What every run keeps -/

/-- What holds of a connection between events. -/
structure HelloInv (h : Hello) : Prop where
  quiet : h.cctx = none → h.doneArmed = false ∧ h.abortArmed = false ∧ h.posted = 0
  entered : ∀ c, h.cctx = some c → c.entered = true
  not_both : ∀ c, h.cctx = some c → ¬ (c.done = true ∧ c.aborted = true)
  doneArmed : h.doneArmed = true → ∃ c, h.cctx = some c ∧ c.done = false ∧ c.cleanup = true
  abortArmed : h.abortArmed = true →
    h.doneArmed = true ∧ h.closed = false ∧ ∃ c, h.cctx = some c ∧ c.aborted = false
  aborted : ∀ c, h.cctx = some c → c.aborted = true → h.closed = true
  posted : h.posted = 0 ∨ h.posted = 1 ∧ ∃ c, h.cctx = some c ∧ c.done = true

theorem HelloInv.init : HelloInv Hello.init where
  quiet _ := ⟨rfl, rfl, rfl⟩
  entered _ h := nomatch h
  not_both _ h := nomatch h
  doneArmed h := nomatch h
  abortArmed h := nomatch h
  aborted _ h := nomatch h
  posted := .inl rfl

/-- `HelloInv` of a state whose context is `c`, with the context named. -/
def CtxInv (h : Hello) (c : Cctx) : Prop :=
  c.entered = true ∧ ¬ (c.done = true ∧ c.aborted = true) ∧
    (h.doneArmed = true → c.done = false ∧ c.cleanup = true) ∧
    (h.abortArmed = true → h.doneArmed = true ∧ h.closed = false ∧ c.aborted = false) ∧
    (c.aborted = true → h.closed = true) ∧ (h.posted = 0 ∨ h.posted = 1 ∧ c.done = true)

theorem helloInv_some {h : Hello} {c : Cctx} (hc : h.cctx = some c) : HelloInv h ↔ CtxInv h c := by
  have hu : ∀ {c'}, h.cctx = some c' → c' = c := fun h' => Option.some.inj (h'.symm.trans hc)
  constructor
  · intro hi
    refine ⟨hi.entered c hc, hi.not_both c hc, fun hd => ?_, fun ha => ?_, hi.aborted c hc,
      hi.posted.imp_right fun ⟨h1, c', hc', h2⟩ => ⟨h1, hu hc' ▸ h2⟩⟩
    · obtain ⟨c', hc', h'⟩ := hi.doneArmed hd
      exact hu hc' ▸ h'
    · obtain ⟨h1, h2, c', hc', h3⟩ := hi.abortArmed ha
      exact ⟨h1, h2, hu hc' ▸ h3⟩
  · rintro ⟨he, hn, hd, ha, hab, hp⟩
    exact {
      quiet := fun h => nomatch hc.symm.trans h
      entered := fun _ h => hu h ▸ he
      not_both := fun _ h => hu h ▸ hn
      doneArmed := fun h => ⟨c, hc, hd h⟩
      abortArmed := fun h => let ⟨h1, h2, h3⟩ := ha h; ⟨h1, h2, c, hc, h3⟩
      aborted := fun _ h => hu h ▸ hab
      posted := hp.imp_right fun ⟨h1, h2⟩ => ⟨h1, c, hc, h2⟩ }

theorem helloInv_none {h : Hello} (hc : h.cctx = none) :
    HelloInv h ↔ h.doneArmed = false ∧ h.abortArmed = false ∧ h.posted = 0 := by
  refine ⟨fun hi => hi.quiet hc, fun ⟨hd, ha, hp⟩ => ⟨fun _ => ⟨hd, ha, hp⟩, ?_, ?_, ?_, ?_, ?_, .inl hp⟩⟩ <;>
    simp [hc, hd, ha]

/-- The step lemma: every event goes through and keeps the invariant. -/
theorem helloStep_inv {h : Hello} (hi : HelloInv h) (ev : Event) :
    ∃ h' r, helloStep h ev = some (h', r) ∧ HelloInv h' := by
  cases ev with
  | call e =>
    by_cases hc : h.closed = true
    · exact ⟨h, none, by simp [helloStep, hc], hi⟩
    rcases hcc : h.cctx with _ | c
    · obtain ⟨⟨r, h'⟩, hf⟩ := Option.isSome_iff_exists.1 (helloFirst_isSome e hcc)
      obtain ⟨hq1, hq2, hq3⟩ := (helloInv_none hcc).1 hi
      refine ⟨h', some r, by simp [helloStep, hc, helloHandler, hcc, hf], ?_⟩
      rcases helloFirst_cases hcc hf with rfl | ⟨c, he, ha, (⟨rfl, hd, -⟩ | ⟨rfl, hd, -⟩ | ⟨rfl, hd, -⟩ |
          ⟨rfl, hd, hcl, -⟩)⟩
      · exact hi
      all_goals exact (helloInv_some rfl).2 (by simp [CtxInv, *])
    · refine ⟨h, some (if c.done then c.exitCode else -1), ?_, hi⟩
      simp [helloStep, hc, helloHandler, hcc, hi.entered c hcc]
  | setExit v =>
    refine ⟨_, none, rfl, ?_⟩
    by_cases hd : h.doneArmed = true
    · obtain ⟨c, hcc, hdn, -⟩ := hi.doneArmed hd
      simp only [hd, if_true, hcc, Option.map_some']
      have hci := (helloInv_some hcc).1 hi
      exact (helloInv_some rfl).2 (by simp_all [CtxInv])
    · simpa [hd] using hi
  | fakeClosed =>
    by_cases hd : h.doneArmed = true
    · obtain ⟨c, hcc, hdn, hcl⟩ := hi.doneArmed hd
      have hci := (helloInv_some hcc).1 hi
      by_cases ha : c.aborted = true
      · refine ⟨{ h with doneArmed := false }, none, by simp [helloStep, closeFake, hd, helloDone, hcc, ha], ?_⟩
        exact (helloInv_some (by exact hcc)).2 (by simp_all [CtxInv])
      · refine ⟨_, none, by simp [helloStep, closeFake, hd, helloDone, hcc, ha, hdn]; rfl, ?_⟩
        exact (helloInv_some rfl).2 (by simp_all [CtxInv])
    · exact ⟨h, none, by simp [helloStep, closeFake, hd], hi⟩
  | close =>
    by_cases hc : h.closed = true
    · exact ⟨h, none, by simp [helloStep, hc], hi⟩
    rcases hcc : h.cctx with _ | c
    · have := (helloInv_none hcc).1 hi
      refine ⟨_, none, by simp [helloStep, hc, this.2.1]; rfl, ?_⟩
      exact (helloInv_none (by exact hcc)).2 ⟨this.1, rfl, this.2.2⟩
    have hci := (helloInv_some hcc).1 hi
    by_cases ha : h.abortArmed = true
    · obtain ⟨hdn, -⟩ := hci.2.2.1 (hci.2.2.2.1 ha).1
      refine ⟨_, none, by simp [helloStep, hc, ha]; rfl, ?_⟩
      simp only [helloAborted, hcc, hdn, Bool.false_eq_true, if_false]
      exact (helloInv_some rfl).2 (by simp_all [CtxInv])
    · refine ⟨_, none, by simp [helloStep, hc, ha]; rfl, ?_⟩
      exact (helloInv_some (by exact hcc)).2 (by simp_all [CtxInv])

/-- The run lemma: from a state with the invariant, every run goes through and
ends with it. -/
theorem helloRun_inv : ∀ (evs : List Event) {h : Hello}, HelloInv h →
    ∃ h' rs, helloRun h evs = some (h', rs) ∧ HelloInv h'
  | [], h, hi => ⟨h, [], rfl, hi⟩
  | ev :: evs, h, hi => by
    obtain ⟨h1, r, hs, hi1⟩ := helloStep_inv hi ev
    obtain ⟨h2, rs, hr, hi2⟩ := helloRun_inv evs hi1
    exact ⟨h2, r.toList ++ rs, by simp [helloRun, hs, hr], hi2⟩

theorem helloRun_safe (evs : List Event) :
    ∃ h rs, helloRun Hello.init evs = some (h, rs) ∧
      (∀ c, h.cctx = some c → ¬ (c.done = true ∧ c.aborted = true)) ∧
      (h.posted = 0 ∨ h.posted = 1 ∧ ∃ c, h.cctx = some c ∧ c.done = true) :=
  let ⟨h, rs, hr, hi⟩ := helloRun_inv evs HelloInv.init
  ⟨h, rs, hr, hi.not_both, hi.posted⟩

/-- A run that goes through is its first step, then the rest. -/
theorem helloRun_cons_eq {h h'' : Hello} {ev : Event} {evs : List Event} {rs : List Int}
    (hr : helloRun h (ev :: evs) = some (h'', rs)) :
    ∃ h' r rs', helloStep h ev = some (h', r) ∧ helloRun h' evs = some (h'', rs') ∧
      rs = r.toList ++ rs' := by
  unfold helloRun at hr
  rcases hs : helloStep h ev with _ | ⟨h', r⟩ <;> rw [hs] at hr
  · cases hr
  rcases hr' : helloRun h' evs with _ | ⟨h2, rs'⟩ <;> simp only [hr'] at hr
  · cases hr
  obtain ⟨rfl, rfl⟩ := Prod.mk.inj (Option.some.inj hr)
  exact ⟨h', r, rs', rfl, hr', rfl⟩

/-- Every event leaves a done context as it is, and a call answers its exit
code. -/
theorem helloStep_of_done {h h' : Hello} {c : Cctx} {ev : Event} {r : Option Int}
    (hi : HelloInv h) (hc : h.cctx = some c) (hd : c.done = true)
    (hs : helloStep h ev = some (h', r)) : h'.cctx = some c ∧ ∀ x ∈ r, x = c.exitCode := by
  have hdA : h.doneArmed = false := Bool.eq_false_iff.2 fun hda => by
    obtain ⟨c', hc', hd', -⟩ := hi.doneArmed hda
    rw [hc, Option.some.injEq] at hc'
    subst hc'
    exact Bool.noConfusion (hd.symm.trans hd')
  have haA : h.abortArmed = false := Bool.eq_false_iff.2 fun haa => by
    rw [(hi.abortArmed haa).1] at hdA
    exact Bool.noConfusion hdA
  cases ev with
  | call e =>
    by_cases hcl : h.closed = true
    · simp only [helloStep, hcl, if_true, Option.some.injEq, Prod.mk.injEq] at hs
      obtain ⟨rfl, rfl⟩ := hs
      exact ⟨hc, fun _ h => nomatch h⟩
    · simp only [helloStep, hcl, helloHandler, hc, hi.entered c hc, hd, if_true, Bool.false_eq_true,
        if_false, Option.map_some', Option.some.injEq, Prod.mk.injEq] at hs
      obtain ⟨rfl, rfl⟩ := hs
      exact ⟨hc, fun _ h => (Option.some.inj h).symm⟩
  | setExit v =>
    simp only [helloStep, hdA, Bool.false_eq_true, if_false, Option.some.injEq, Prod.mk.injEq] at hs
    obtain ⟨rfl, rfl⟩ := hs
    exact ⟨hc, fun _ h => nomatch h⟩
  | fakeClosed =>
    simp only [helloStep, closeFake, hdA, Bool.false_eq_true, if_false, Option.map_some',
      Option.some.injEq, Prod.mk.injEq] at hs
    obtain ⟨rfl, rfl⟩ := hs
    exact ⟨hc, fun _ h => nomatch h⟩
  | close =>
    simp only [helloStep, haA, Bool.false_eq_true, if_false] at hs
    split_ifs at hs <;> obtain ⟨rfl, rfl⟩ := Prod.mk.inj (Option.some.inj hs) <;>
      exact ⟨hc, fun _ h => nomatch h⟩

/-- The run lemma for a done context. -/
theorem helloRun_of_done : ∀ (evs : List Event) {h h' : Hello} {rs : List Int} {c : Cctx},
    HelloInv h → h.cctx = some c → c.done = true → helloRun h evs = some (h', rs) →
      h'.cctx = some c ∧ ∀ x ∈ rs, x = c.exitCode
  | [], _, _, _, _, _, hc, _, hr => by
    obtain ⟨rfl, rfl⟩ := Prod.mk.inj (Option.some.inj hr)
    exact ⟨hc, fun _ h => nomatch h⟩
  | ev :: evs, h, _, _, c, hi, hc, hd, hr => by
    obtain ⟨h1, r, rs1, hs, hr1, rfl⟩ := helloRun_cons_eq hr
    obtain ⟨h1', r', hs', hi1⟩ := helloStep_inv hi ev
    rw [hs, Option.some.injEq, Prod.mk.injEq] at hs'
    obtain ⟨rfl, rfl⟩ := hs'
    obtain ⟨hc1, hr'⟩ := helloStep_of_done hi hc hd hs
    obtain ⟨hc', hrs⟩ := helloRun_of_done evs hi1 hc1 hd hr1
    refine ⟨hc', fun x hx => ?_⟩
    rcases List.mem_append.1 hx with hx | hx
    · exact hr' x (Option.mem_toList.1 hx)
    · exact hrs x hx

/-- **A settled answer never changes.**  Once the context of a connection is
done, every later event leaves it as it is, and every later call of the
callback answers its exit code. -/
theorem helloRun_settled {pre post : List Event} {h h' : Hello} {rs rs' : List Int} {c : Cctx}
    (h1 : helloRun Hello.init pre = some (h, rs)) (hc : h.cctx = some c) (hd : c.done = true)
    (h2 : helloRun h post = some (h', rs')) : h'.cctx = some c ∧ ∀ x ∈ rs', x = c.exitCode := by
  obtain ⟨h0, rs0, h0r, hi⟩ := helloRun_inv pre HelloInv.init
  rw [h1, Option.some.injEq, Prod.mk.injEq] at h0r
  obtain ⟨rfl, -⟩ := h0r
  exact helloRun_of_done post hi hc hd h2

/-- A first call whose handler returns at once with exit code 5, then another
call and the close of the connection. -/
theorem helloRun_settled_returned :
    helloRun Hello.init [.call ⟨true, true, true, true, some ⟨0, ⟨true, 0, 0, 0⟩, some 5⟩, true, true⟩] =
        some (⟨some ⟨5, true, true, false, false⟩, false, false, 0, false⟩, [5]) ∧
      (⟨some ⟨5, true, true, false, false⟩, false, false, 0, false⟩ : Hello).cctx =
        some ⟨5, true, true, false, false⟩ ∧
      (⟨5, true, true, false, false⟩ : Cctx).done = true ∧
      helloRun ⟨some ⟨5, true, true, false, false⟩, false, false, 0, false⟩
          [.call ⟨true, true, true, true, none, true, true⟩, .close] =
        some (⟨some ⟨5, true, true, false, false⟩, false, false, 0, true⟩, [5]) ∧
      (⟨some ⟨5, true, true, false, false⟩, false, false, 0, true⟩ : Hello).cctx =
        some ⟨5, true, true, false, false⟩ ∧
      ∀ x ∈ [(5 : Int)], x = (⟨5, true, true, false, false⟩ : Cctx).exitCode :=
  by
  refine ⟨?h1, rfl, rfl, ?h2, helloRun_settled ?h1 rfl rfl ?h2⟩ <;> decide

/-- Every event leaves an aborted context aborted and not done, on a closed
connection, answers nothing and posts nothing. -/
theorem helloStep_of_aborted {h h' : Hello} {c : Cctx} {ev : Event} {r : Option Int}
    (hi : HelloInv h) (hc : h.cctx = some c) (ha : c.aborted = true)
    (hs : helloStep h ev = some (h', r)) :
    r = none ∧ h'.posted = h.posted ∧ h'.closed = true ∧
      ∃ c', h'.cctx = some c' ∧ c'.aborted = true ∧ c'.done = false := by
  have hcl := hi.aborted c hc ha
  have hdn : c.done = false := Bool.eq_false_iff.2 fun hd => hi.not_both c hc ⟨hd, ha⟩
  cases ev with
  | call e =>
    simp only [helloStep, hcl, if_true, Option.some.injEq, Prod.mk.injEq] at hs
    obtain ⟨rfl, rfl⟩ := hs
    exact ⟨rfl, rfl, hcl, c, hc, ha, hdn⟩
  | setExit v =>
    simp only [helloStep, Option.some.injEq, Prod.mk.injEq] at hs
    obtain ⟨rfl, rfl⟩ := hs
    split
    · exact ⟨rfl, rfl, hcl, { c with exitCode := v }, by simp [hc], ha, hdn⟩
    · exact ⟨rfl, rfl, hcl, c, hc, ha, hdn⟩
  | fakeClosed =>
    simp only [helloStep, closeFake] at hs
    split at hs
    · simp only [helloDone, hc, ha, if_true, Option.map_some', Option.some.injEq, Prod.mk.injEq] at hs
      obtain ⟨rfl, rfl⟩ := hs
      exact ⟨rfl, rfl, hcl, c, rfl, ha, hdn⟩
    · obtain ⟨rfl, rfl⟩ := Prod.mk.inj (Option.some.inj hs)
      exact ⟨rfl, rfl, hcl, c, hc, ha, hdn⟩
  | close =>
    simp only [helloStep, hcl, if_true, Option.some.injEq, Prod.mk.injEq] at hs
    obtain ⟨rfl, rfl⟩ := hs
    exact ⟨rfl, rfl, hcl, c, hc, ha, hdn⟩

/-- The run lemma for an aborted context. -/
theorem helloRun_of_aborted : ∀ (evs : List Event) {h h' : Hello} {rs : List Int} {c : Cctx},
    HelloInv h → h.cctx = some c → c.aborted = true → helloRun h evs = some (h', rs) →
      rs = [] ∧ h'.posted = h.posted ∧ ∃ c', h'.cctx = some c' ∧ c'.aborted = true ∧ c'.done = false
  | [], h, _, _, c, hi, hc, ha, hr => by
    obtain ⟨rfl, rfl⟩ := Prod.mk.inj (Option.some.inj hr)
    exact ⟨rfl, rfl, c, hc, ha, Bool.eq_false_iff.2 fun hd => hi.not_both c hc ⟨hd, ha⟩⟩
  | ev :: evs, h, _, _, c, hi, hc, ha, hr => by
    obtain ⟨h1, r, rs1, hs, hr1, rfl⟩ := helloRun_cons_eq hr
    obtain ⟨h1', r', hs', hi1⟩ := helloStep_inv hi ev
    rw [hs, Option.some.injEq, Prod.mk.injEq] at hs'
    obtain ⟨rfl, rfl⟩ := hs'
    obtain ⟨rfl, hp, -, c1, hc1, ha1, -⟩ := helloStep_of_aborted hi hc ha hs
    obtain ⟨rfl, hp', hc'⟩ := helloRun_of_aborted evs hi1 hc1 ha1 hr1
    exact ⟨rfl, hp'.trans hp, hc'⟩

/-- **An abort is final.**  Once the context of a connection is aborted, it is
never done: no later event posts the write event, and the callback is never
answered again. -/
theorem helloRun_aborted {pre post : List Event} {h h' : Hello} {rs rs' : List Int} {c : Cctx}
    (h1 : helloRun Hello.init pre = some (h, rs)) (hc : h.cctx = some c) (ha : c.aborted = true)
    (h2 : helloRun h post = some (h', rs')) :
    rs' = [] ∧ h'.posted = h.posted ∧ ∃ c', h'.cctx = some c' ∧ c'.aborted = true ∧ c'.done = false := by
  obtain ⟨h0, rs0, h0r, hi⟩ := helloRun_inv pre HelloInv.init
  rw [h1, Option.some.injEq, Prod.mk.injEq] at h0r
  obtain ⟨rfl, -⟩ := h0r
  exact helloRun_of_aborted post hi hc ha h2

/-- A first call whose handler yields, the close of the connection, then the
close of the fake connection and another call. -/
theorem helloRun_aborted_yielded :
    helloRun Hello.init [.call ⟨true, true, true, true, some ⟨0, ⟨true, -2, -2, 0⟩, none⟩, true, true⟩,
        .close] = some (⟨some ⟨1, true, false, true, true⟩, false, true, 0, true⟩, [-1]) ∧
      (⟨some ⟨1, true, false, true, true⟩, false, true, 0, true⟩ : Hello).cctx =
        some ⟨1, true, false, true, true⟩ ∧
      (⟨1, true, false, true, true⟩ : Cctx).aborted = true ∧
      helloRun ⟨some ⟨1, true, false, true, true⟩, false, true, 0, true⟩
          [.fakeClosed, .call ⟨true, true, true, true, none, true, true⟩] =
        some (⟨some ⟨1, true, false, true, true⟩, false, false, 0, true⟩, []) ∧
      (([] : List Int) = [] ∧ (⟨some ⟨1, true, false, true, true⟩, false, false, 0, true⟩ : Hello).posted =
        (⟨some ⟨1, true, false, true, true⟩, false, true, 0, true⟩ : Hello).posted ∧
        ∃ c', (⟨some ⟨1, true, false, true, true⟩, false, false, 0, true⟩ : Hello).cctx = some c' ∧
          c'.aborted = true ∧ c'.done = false) :=
  by
  refine ⟨?h1, rfl, rfl, ?h2, helloRun_aborted ?h1 rfl rfl ?h2⟩ <;> decide

/-- OpenSSL has learnt that the context `c` is done: the callback answered its
exit code, among the answers `rs`, or the write event was posted. -/
def Woken (h : Hello) (rs : List Int) : Prop :=
  ∀ c, h.cctx = some c → c.done = true → h.posted = 1 ∨ c.exitCode ∈ rs

theorem Woken.append {h : Hello} {rs : List Int} (hw : Woken h rs) (rs' : List Int) :
    Woken h (rs ++ rs') :=
  fun c hc hd => (hw c hc hd).imp_right fun hm => List.mem_append_left _ hm

/-- The step lemma: a context that becomes done is answered or woken in the
same step. -/
theorem helloStep_woken {h h' : Hello} {ev : Event} {r : Option Int} {rs : List Int}
    (hi : HelloInv h) (hw : Woken h rs) (hs : helloStep h ev = some (h', r)) :
    Woken h' (rs ++ r.toList) := by
  cases ev with
  | call e =>
    by_cases hcl : h.closed = true
    · simp only [helloStep, hcl, if_true, Option.some.injEq, Prod.mk.injEq] at hs
      obtain ⟨rfl, rfl⟩ := hs
      exact hw.append _
    rcases hcc : h.cctx with _ | c
    · simp only [helloStep, hcl, Bool.false_eq_true, if_false, helloHandler, hcc] at hs
      obtain ⟨⟨r', h1⟩, hf, he⟩ := Option.map_eq_some'.1 hs
      obtain ⟨rfl, rfl⟩ := Prod.mk.inj he
      obtain ⟨-, -, hp⟩ := hi.quiet hcc
      rcases helloFirst_cases hcc hf with rfl | ⟨c, -, -, (⟨rfl, hd, -⟩ | ⟨rfl, -, -, rfl⟩ |
          ⟨rfl, -, -⟩ | ⟨rfl, hd, -⟩)⟩
      · exact hw.append _
      all_goals intro c' hc' hd'
      all_goals simp only [Option.some.injEq] at hc'
      all_goals subst hc'
      · exact absurd (hd.symm.trans hd') Bool.noConfusion
      · exact .inr (List.mem_append_right _ (List.mem_singleton_self _))
      · exact .inl (by simp [hp])
      · exact absurd (hd.symm.trans hd') Bool.noConfusion
    · simp only [helloStep, hcl, Bool.false_eq_true, if_false, helloHandler, hcc, hi.entered c hcc,
        if_true, Option.map_some', Option.some.injEq, Prod.mk.injEq] at hs
      obtain ⟨rfl, rfl⟩ := hs
      exact hw.append _
  | setExit v =>
    simp only [helloStep, Option.some.injEq, Prod.mk.injEq] at hs
    obtain ⟨rfl, rfl⟩ := hs
    split
    · next hd =>
      obtain ⟨c, hc, hdn, -⟩ := hi.doneArmed hd
      intro c' hc' hd'
      simp only [hc, Option.map_some', Option.some.injEq] at hc'
      subst hc'
      exact absurd (hdn.symm.trans hd') Bool.noConfusion
    · exact hw.append _
  | fakeClosed =>
    simp only [helloStep, closeFake] at hs
    split at hs
    · next hd =>
      obtain ⟨c, hc, hdn, -⟩ := hi.doneArmed hd
      have hp : h.posted = 0 := hi.posted.resolve_right fun ⟨_, c', hc', hd'⟩ => by
        rw [hc, Option.some.injEq] at hc'
        subst hc'
        exact Bool.noConfusion (hdn.symm.trans hd')
      simp only [helloDone, hc, hdn, Bool.false_eq_true, if_false] at hs
      split_ifs at hs
      all_goals simp only [Option.map_some', Option.some.injEq, Prod.mk.injEq] at hs
      all_goals obtain ⟨rfl, rfl⟩ := hs
      · intro c' hc' hd'
        simp only [hc, Option.some.injEq] at hc'
        subst hc'
        exact absurd (hdn.symm.trans hd') Bool.noConfusion
      all_goals exact fun _ _ _ => .inl (by simp [hp])
    · obtain ⟨rfl, rfl⟩ := Prod.mk.inj (Option.some.inj hs)
      exact hw.append _
  | close =>
    by_cases hcl : h.closed = true
    · simp only [helloStep, hcl, if_true, Option.some.injEq, Prod.mk.injEq] at hs
      obtain ⟨rfl, rfl⟩ := hs
      exact hw.append _
    simp only [helloStep, hcl, Bool.false_eq_true, if_false, Option.some.injEq, Prod.mk.injEq] at hs
    obtain ⟨rfl, rfl⟩ := hs
    split
    · next ha =>
      obtain ⟨hd, -, c, hc, -⟩ := hi.abortArmed ha
      obtain ⟨c', hc', hdn, -⟩ := hi.doneArmed hd
      rw [hc, Option.some.injEq] at hc'
      subst hc'
      intro c'' hc'' hd''
      simp only [helloAborted, hc, hdn, Bool.false_eq_true, if_false, Option.some.injEq] at hc''
      subst hc''
      exact Bool.noConfusion hd''

    · exact fun c hc hd => (hw c hc hd).imp_right fun hm => List.mem_append_left _ hm


/-- The run lemma for `Woken`, with the answers before the run in `rs0`. -/
theorem helloRun_of_woken : ∀ (evs : List Event) {h : Hello} {rs0 : List Int},
    HelloInv h → Woken h rs0 → ∃ h' rs, helloRun h evs = some (h', rs) ∧ Woken h' (rs0 ++ rs)
  | [], h, rs0, _, hw => ⟨h, [], rfl, by simpa using hw⟩
  | ev :: evs, h, rs0, hi, hw => by
    obtain ⟨h1, r, hs, hi1⟩ := helloStep_inv hi ev
    obtain ⟨h2, rs, hr, hw2⟩ := helloRun_of_woken evs hi1 (helloStep_woken hi hw hs)
    exact ⟨h2, r.toList ++ rs, by simp [helloRun, hs, hr], by simpa using hw2⟩

/-- **No lost wake-up.**  In every run, a context that ends done has either
been answered to OpenSSL by a call of the callback, with its exit code, or
had the connection's write event posted, so that OpenSSL calls again. -/
theorem helloRun_woken (evs : List Event) :
    ∃ h rs, helloRun Hello.init evs = some (h, rs) ∧
      ∀ c, h.cctx = some c → c.done = true → h.posted = 1 ∨ c.exitCode ∈ rs :=
  let ⟨h, rs, hr, hw⟩ := 
    helloRun_of_woken evs HelloInv.init (fun _ hc => nomatch hc : Woken Hello.init [])
  ⟨h, rs, hr, by simpa using hw⟩

end NjtLua
