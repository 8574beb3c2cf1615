import Mathlib.Tactic.SplitIfs
import QuicRecovery.ClientHello
/-!
# The FFI functions of the client hello phase

The Lua code of `ssl_client_hello_by_lua*` reads the ClientHello through
`njt_http_lua_ffi_ssl_get_client_hello_server_name` and
`njt_http_lua_ffi_ssl_get_client_hello_ext`.  Both start with the same two
checks on the request, then ask OpenSSL for the bytes of an extension.  The
server name function then parses the server_name extension by hand (the code
is taken from OpenSSL's `client_hello_select_server_ctx`) and returns a
pointer into those bytes with a length.

This file models the extension's bytes as a `List UInt8` and each read
`*p++` as a bounds-checked read, and proves:

* `getClientHelloServerName_inBounds`: whatever the bytes, no read goes past
  the extension, the name returned lies inside it, and every failure names one
  of the function's three texts;
* `getClientHelloServerName_ok_iff`: the function answers `NJT_OK` exactly on
  the extensions `serverNameExt name rest` — a list length, the host_name
  type, the name's length and the name, then any bytes at all — with the list
  length below 2^16 and something after the type byte, and it returns the
  first name;
* `setProtocols_options`: `njt_http_lua_ffi_ssl_set_protocols` sets the
  `SSL_OP_NO_*` options of exactly the protocols its mask lacks, whatever the
  options were before, and leaves the others alone;
* `logSslClientHelloError_eq`: the error log handler, which writes its pieces
  one `njt_snprintf` after another into what is left of the buffer, writes the
  first `len` characters of the whole message.
-/

namespace NjtLua

/-- `NJT_DECLINED`. -/
def njtDeclined : Int := -5

/-- Whether `r->connection`, `r->connection->ssl` and `ssl->connection` are
set, for the request an FFI function is called on. -/
structure FfiReq where
  connection : Bool
  ssl : Bool
  sslConn : Bool
  deriving DecidableEq, Repr

/-- What an FFI function of this file answers: `NJT_OK` with what it writes
through its out parameters, `NJT_DECLINED`, or `NJT_ERROR` with `*err`. -/
inductive FfiResult (α : Type) where
  | ok (out : α)
  | declined
  | error (err : String)
  deriving DecidableEq, Repr

/-- The return code of an answer. -/
def FfiResult.rc {α : Type} : FfiResult α → Int
  | .ok _ => njtOk
  | .declined => njtDeclined
  | .error _ => njtError

/-- The two checks each FFI function of this file starts with: the text it
sets `*err` to, if one fails. -/
def sslConnCheck (r : FfiReq) : Option String :=
  if !r.connection || !r.ssl then some "bad request"
  else if !r.sslConn then some "bad ssl conn"
  else none

/-! ## The server_name extension -/

/-- `TLSEXT_NAMETYPE_host_name` (OpenSSL's `tls1.h`). -/
def tlsextNametypeHostName : UInt8 := 0

/-- The error text of every check on the extension's bytes. -/
def badExt : String := "Bad SSL Client Hello Extension"

/-- The body of `njt_http_lua_ffi_ssl_get_client_hello_server_name` after
`SSL_client_hello_get0_ext` found the extension, on its bytes `p`: `*name`, as
an offset into `p`, and `*namelen`.  A read `*p++` is `p[i]?`, so `none`
stands for a read past the end of the extension. -/
def serverNameParse (p : List UInt8) : Option (FfiResult (Nat × Nat)) := do
  let remaining := p.length
  if remaining ≤ 2 then return .error badExt
  let b0 ← p[0]?
  let b1 ← p[1]?
  let len := b0.toNat <<< 8 + b1.toNat
  if len + 2 ≠ remaining then return .error badExt
  let remaining := len
  if remaining = 0 then return .error badExt
  let b2 ← p[2]?
  if b2 ≠ tlsextNametypeHostName then return .error badExt
  let remaining := remaining - 1
  if remaining ≤ 2 then return .error badExt
  let b3 ← p[3]?
  let b4 ← p[4]?
  let len := b3.toNat <<< 8 + b4.toNat
  if len + 2 > remaining then return .error badExt
  return .ok (5, len)

/-- `njt_http_lua_ffi_ssl_get_client_hello_server_name`, for what
`SSL_client_hello_get0_ext` finds of the server_name extension (`none` when
the ClientHello has none), with OpenSSL new enough for both `#ifdef`s. -/
def getClientHelloServerName (r : FfiReq) (ext : Option (List UInt8)) :
    Option (FfiResult (Nat × Nat)) :=
  match sslConnCheck r with
  | some err => some (.error err)
  | none =>
    match ext with
    | none => some .declined
    | some p => serverNameParse p

/-- `njt_http_lua_ffi_ssl_get_client_hello_ext`, for what
`SSL_client_hello_get0_ext` finds of the extension asked for: `*out` and
`*outlen` are the extension's bytes. -/
def getClientHelloExt (r : FfiReq) (ext : Option (List UInt8)) : FfiResult (List UInt8) :=
  match sslConnCheck r with
  | some err => .error err
  | none =>
    match ext with
    | none => .declined
    | some p => .ok p

/-- A length as two bytes, high byte first. -/
def be16 (n : Nat) : List UInt8 := [UInt8.ofNat (n / 256), UInt8.ofNat (n % 256)]

/-- A server_name extension whose list starts with the host name `name`,
followed by the bytes `rest` (further entries of the list, or anything). -/
def serverNameExt (name rest : List UInt8) : List UInt8 :=
  be16 (3 + name.length + rest.length) ++ tlsextNametypeHostName :: be16 name.length ++ name ++ rest

@[simp] theorem length_serverNameExt (name rest : List UInt8) :
    (serverNameExt name rest).length = 5 + name.length + rest.length := by
  simp only [serverNameExt, be16, List.length_append, List.length_cons, List.length_singleton,
    List.length_nil]

theorem byte_lt (b : UInt8) : b.toNat < 256 := b.toNat_lt_size

theorem shiftLeft_eight (a : Nat) : a <<< 8 = a * 256 := Nat.shiftLeft_eq a 8

/-- Two bytes read high byte first give back the length `be16` wrote. -/
theorem be16_read {n : Nat} (hn : n < 2 ^ 16) {a b : UInt8} :
    be16 n = [a, b] ↔ a.toNat <<< 8 + b.toNat = n := by
  have ha := byte_lt a
  have hb := byte_lt b
  have hq : n / 256 < UInt8.size := by unfold UInt8.size; omega
  have hr : n % 256 < UInt8.size := by unfold UInt8.size; omega
  simp only [be16, List.cons.injEq, and_true, shiftLeft_eight]
  constructor
  · rintro ⟨rfl, rfl⟩
    rw [UInt8.toNat_ofNat_of_lt hq, UInt8.toNat_ofNat_of_lt hr]
    omega
  · intro h
    refine ⟨UInt8.toNat.inj ?_, UInt8.toNat.inj ?_⟩ <;>
      rw [UInt8.toNat_ofNat_of_lt (by assumption)] <;> omega

/-- Two bytes written back by `be16` from the length they are read as. -/
theorem be16_toNat (a b : UInt8) : be16 (a.toNat <<< 8 + b.toNat) = [a, b] :=
  (be16_read (by have := byte_lt a; have := byte_lt b; rw [shiftLeft_eight]; omega)).2 rfl

/-- Extensions of fewer than six bytes are refused. -/
theorem serverNameParse_short {p : List UInt8} (hp : p.length < 6) :
    serverNameParse p = some (.error badExt) := by
  match p, hp with
  | [], _ | [_], _ | [_, _], _ => rfl
  | [a, b, c], _ | [a, b, c, d], _ | [a, b, c, d, e], _ =>
    simp only [serverNameParse, List.length_cons, List.length_nil, List.getElem?_cons_zero,
      List.getElem?_cons_succ, List.getElem?_nil, Option.bind_eq_bind, Option.some_bind, Option.pure_def,
      Option.none_bind, Nat.reduceAdd]
    repeat' split
    all_goals first | rfl | omega

/-- What the parse does with an extension of six bytes or more. -/
theorem serverNameParse_long (b0 b1 b2 b3 b4 b5 : UInt8) (t : List UInt8) :
    serverNameParse (b0 :: b1 :: b2 :: b3 :: b4 :: b5 :: t) =
      some (if b0.toNat <<< 8 + b1.toNat = t.length + 4 ∧ b2 = tlsextNametypeHostName ∧
          b3.toNat <<< 8 + b4.toNat ≤ t.length + 1 then .ok (5, b3.toNat <<< 8 + b4.toNat)
        else .error badExt) := by
  simp only [serverNameParse, List.length_cons, List.getElem?_cons_zero, List.getElem?_cons_succ,
    Option.bind_eq_bind, Option.some_bind, Option.pure_def]
  repeat' split
  all_goals first | rfl | omega | simp_all

/-- The parse reads only inside the extension: it refuses it, or returns a
name that lies inside it. -/
theorem serverNameParse_spec (p : List UInt8) :
    serverNameParse p = some (.error badExt) ∨
      ∃ n, serverNameParse p = some (.ok (5, n)) ∧ 5 + n ≤ p.length := by
  match p with
  | b0 :: b1 :: b2 :: b3 :: b4 :: b5 :: t =>
    rw [serverNameParse_long]
    split_ifs with h
    · exact .inr ⟨_, rfl, by simp only [List.length_cons]; omega⟩
    · exact .inl rfl
  | [] | [_] | [_, _] | [_, _, _] | [_, _, _, _] | [_, _, _, _, _] =>
    exact .inl (serverNameParse_short (by simp))

/-- The server_name extensions the parse accepts are exactly the images of
`serverNameExt`, with a list length below 2^16 and something after the type
byte; the name it returns is the first one. -/
theorem serverNameParse_ok_iff {p : List UInt8} {off n : Nat} :
    serverNameParse p = some (.ok (off, n)) ↔
      ∃ name rest, p = serverNameExt name rest ∧ off = 5 ∧ n = name.length ∧
        0 < name.length + rest.length ∧ 3 + name.length + rest.length < 2 ^ 16 := by
  constructor
  · intro hp
    match p, hp with
    | b0 :: b1 :: b2 :: b3 :: b4 :: b5 :: t, hp =>
      rw [serverNameParse_long] at hp
      split_ifs at hp with h
      · obtain ⟨rfl, rfl⟩ := Prod.mk.inj (FfiResult.ok.inj (Option.some.inj hp))
        obtain ⟨h01, rfl, h34⟩ := h
        have h34' := h34
        rw [shiftLeft_eight] at h01 h34
        refine ⟨(b5 :: t).take (b3.toNat <<< 8 + b4.toNat), (b5 :: t).drop (b3.toNat <<< 8 + b4.toNat),
          ?_, rfl, ?_, ?_, ?_⟩
        · have hl : 3 + (b3.toNat <<< 8 + b4.toNat) + (t.length + 1 - (b3.toNat <<< 8 + b4.toNat)) =
              b0.toNat <<< 8 + b1.toNat := by rw [shiftLeft_eight, shiftLeft_eight]; omega
          rw [serverNameExt, List.length_take, List.length_drop, List.length_cons, Nat.min_eq_left h34', hl,
            be16_toNat, be16_toNat]
          simp
        · rw [List.length_take, List.length_cons, Nat.min_eq_left h34']
        · rw [← List.length_append, List.take_append_drop, List.length_cons]
          omega
        · rw [add_assoc, ← List.length_append, List.take_append_drop, List.length_cons]
          have := byte_lt b0
          have := byte_lt b1
          omega
      · cases hp
    | [], hp | [_], hp | [_, _], hp | [_, _, _], hp | [_, _, _, _], hp | [_, _, _, _, _], hp =>
      rw [serverNameParse_short (by simp)] at hp
      cases hp
  · rintro ⟨name, rest, rfl, rfl, rfl, hpos, hlen⟩
    obtain ⟨u0, u1, hu⟩ : ∃ a b, be16 (3 + name.length + rest.length) = [a, b] := ⟨_, _, rfl⟩
    obtain ⟨v0, v1, hv⟩ : ∃ a b, be16 name.length = [a, b] := ⟨_, _, rfl⟩
    obtain ⟨b5, t, ht⟩ : ∃ b t, name ++ rest = b :: t := by
      cases hnr : name ++ rest with
      | nil => simp [List.append_eq_nil.1 hnr] at hpos
      | cons b t => exact ⟨b, t, rfl⟩
    have hlt : t.length + 1 = name.length + rest.length := by
      rw [← List.length_append, ht, List.length_cons]
    have hu' := (be16_read hlen).1 hu
    have hv' := (be16_read (by omega)).1 hv
    have hp : serverNameExt name rest = u0 :: u1 :: tlsextNametypeHostName :: v0 :: v1 :: (name ++ rest) := by
      simp [serverNameExt, hu, hv]
    rw [hp, ht, serverNameParse_long, if_pos ⟨by omega, rfl, by omega⟩, hv']

/-- **The parse stays inside the extension.**  Whatever the request and the
extension's bytes, `njt_http_lua_ffi_ssl_get_client_hello_server_name` reads
no byte past the extension and returns a name that lies inside it.  It
declines exactly when the checks pass and the ClientHello has no server_name
extension, and each error it sets is one of its three texts. -/
theorem getClientHelloServerName_inBounds (r : FfiReq) (ext : Option (List UInt8)) :
    ∃ res, getClientHelloServerName r ext = some res ∧
      (∀ off n, res = .ok (off, n) → ∃ p, ext = some p ∧ off + n ≤ p.length) ∧
      (res = .declined ↔ sslConnCheck r = none ∧ ext = none) ∧
      ∀ err, res = .error err → err = "bad request" ∨ err = "bad ssl conn" ∨ err = badExt := by
  unfold getClientHelloServerName
  rcases hc : sslConnCheck r with _ | err
  · rcases ext with _ | p
    · exact ⟨.declined, rfl, (fun _ _ h => nomatch h), by simp, (fun _ h => nomatch h)⟩
    · dsimp only
      rcases serverNameParse_spec p with h | ⟨n, h, hn⟩ <;> rw [h]
      · exact ⟨_, rfl, (fun _ _ h => nomatch h), by simp,
          (fun _ h => .inr (.inr (FfiResult.error.inj h).symm))⟩
      · refine ⟨_, rfl, (fun off n' h => ⟨p, rfl, ?_⟩), by simp, (fun _ h => nomatch h)⟩
        obtain ⟨rfl, rfl⟩ := Prod.mk.inj (FfiResult.ok.inj h)
        exact hn
  · refine ⟨_, rfl, (fun _ _ h => nomatch h), by simp, (fun e h => ?_)⟩
    rw [← FfiResult.error.inj h]
    unfold sslConnCheck at hc
    split_ifs at hc <;> cases hc <;> simp

/-- **The names accepted.**  `njt_http_lua_ffi_ssl_get_client_hello_server_name`
answers `NJT_OK` exactly when the request passes its checks and the
server_name extension is `serverNameExt name rest` with a list length below
2^16 and something after the type byte.  It then points at `name`, the first
entry: the bytes after it, further entries or not, are never looked at, and an
empty name passes when bytes follow it. -/
theorem getClientHelloServerName_ok_iff {r : FfiReq} {ext : Option (List UInt8)} {off n : Nat} :
    getClientHelloServerName r ext = some (.ok (off, n)) ↔
      sslConnCheck r = none ∧ ∃ name rest, ext = some (serverNameExt name rest) ∧ off = 5 ∧
        n = name.length ∧ 0 < name.length + rest.length ∧ 3 + name.length + rest.length < 2 ^ 16 := by
  unfold getClientHelloServerName
  rcases sslConnCheck r with _ | err
  · rcases ext with _ | p
    · simp
    · simp only [serverNameParse_ok_iff, Option.some.injEq, exists_and_left, true_and]
  · simp

/-! ## Choosing the protocols -/

/-- A protocol as `njt_http_lua_ffi_ssl_set_protocols` handles it: its
`NJT_SSL_*` bit in `protocols` and the OpenSSL option `SSL_OP_NO_*` that
disables it (both defined outside src). -/
structure SslProtocol where
  bit : BitVec 32
  noOption : BitVec 64
  deriving DecidableEq, Repr

/-- `if (!(protocols & bit)) SSL_set_options(ssl_conn, no)`: disable the
protocol unless `protocols` has its bit. -/
def disableUnless (protocols : BitVec 32) (p : SslProtocol) (opts : BitVec 64) : BitVec 64 :=
  if protocols &&& p.bit = 0 then opts ||| p.noOption else opts

/-- `SSL_clear_options(ssl_conn, no)`, then `disableUnless`: how TLSv1.1,
TLSv1.2 and TLSv1.3 are handled. -/
def clearThenDisable (protocols : BitVec 32) (p : SslProtocol) (opts : BitVec 64) : BitVec 64 :=
  disableUnless protocols p (opts &&& ~~~p.noOption)

/-- `njt_http_lua_ffi_ssl_set_protocols`, for the six protocols in its order
(SSLv2, SSLv3, TLSv1, TLSv1.1, TLSv1.2, TLSv1.3), with OpenSSL new enough for
all of its `#if`s: the connection's options afterwards, from `opts` before. -/
def setProtocols (r : FfiReq) (sslv2 sslv3 tlsv1 tlsv11 tlsv12 tlsv13 : SslProtocol)
    (protocols : BitVec 32) (opts : BitVec 64) : FfiResult (BitVec 64) :=
  match sslConnCheck r with
  | some err => .error err
  | none =>
    let opts := opts &&& ~~~(sslv2.noOption ||| sslv3.noOption ||| tlsv1.noOption)
    let opts := disableUnless protocols sslv2 opts
    let opts := disableUnless protocols sslv3 opts
    let opts := disableUnless protocols tlsv1 opts
    let opts := clearThenDisable protocols tlsv11 opts
    let opts := clearThenDisable protocols tlsv12 opts
    let opts := clearThenDisable protocols tlsv13 opts
    .ok opts

/-- The option a protocol leaves set: its `SSL_OP_NO_*` when `protocols`
lacks its bit. -/
def disabledOption (protocols : BitVec 32) (p : SslProtocol) : BitVec 64 :=
  if protocols &&& p.bit = 0 then p.noOption else 0

theorem disableUnless_eq (protocols : BitVec 32) (p : SslProtocol) (opts : BitVec 64) :
    disableUnless protocols p opts = opts ||| disabledOption protocols p := by
  unfold disableUnless disabledOption; split_ifs <;> simp

theorem getLsbD_disabledOption (protocols : BitVec 32) (p : SslProtocol) (i : Nat) :
    (disabledOption protocols p).getLsbD i =
      (decide (protocols &&& p.bit = 0) && p.noOption.getLsbD i) := by
  unfold disabledOption; split_ifs <;> simp_all

theorem getLsbD_and_of_and_eq_zero {a b : BitVec 64} (h : a &&& b = 0) (i : Nat) :
    (a.getLsbD i && b.getLsbD i) = false := by
  rw [← BitVec.getLsbD_and, h]; simp

/-- **The protocols chosen do not depend on the options before.**  When the
`SSL_OP_NO_*` options of the six protocols are distinct bits (OpenSSL's
`SSL_OP_NO_SSLv2` is 0), `njt_http_lua_ffi_ssl_set_protocols` leaves every
other option as it was and sets the `SSL_OP_NO_*` option of exactly the
protocols whose bit `protocols` lacks, whatever was set before: the three it
clears together first and the three it clears one by one end the same way. -/
theorem setProtocols_options {r : FfiReq} {p2 p3 p1 p11 p12 p13 : SslProtocol}
    (hd : [p2, p3, p1, p11, p12, p13].Pairwise fun p q => p.noOption &&& q.noOption = 0)
    (hc : sslConnCheck r = none) (protocols : BitVec 32) (opts : BitVec 64) :
    setProtocols r p2 p3 p1 p11 p12 p13 protocols opts =
      .ok ((opts &&& ~~~(p2.noOption ||| p3.noOption ||| p1.noOption ||| p11.noOption |||
        p12.noOption ||| p13.noOption)) ||| disabledOption protocols p2 ||| disabledOption protocols p3 |||
        disabledOption protocols p1 ||| disabledOption protocols p11 ||| disabledOption protocols p12 |||
        disabledOption protocols p13) := by
  simp only [setProtocols, hc, clearThenDisable, disableUnless_eq, FfiResult.ok.injEq]
  apply BitVec.eq_of_getLsbD_eq
  intro ⟨i, hi⟩
  have hb := hd.imp fun h => getLsbD_and_of_and_eq_zero h i
  simp only [List.pairwise_cons, List.mem_cons, List.mem_singleton, forall_eq_or_imp, forall_eq,
    List.not_mem_nil, List.Pairwise.nil, and_true, false_imp_iff, implies_true] at hb
  simp only [BitVec.getLsbD_or, BitVec.getLsbD_and, BitVec.getLsbD_not, getLsbD_disabledOption, hi,
    decide_True, Bool.true_and]
  generalize p2.noOption.getLsbD i = a2 at *
  generalize p3.noOption.getLsbD i = a3 at *
  generalize p1.noOption.getLsbD i = a1 at *
  generalize p11.noOption.getLsbD i = a11 at *
  generalize p12.noOption.getLsbD i = a12 at *
  generalize p13.noOption.getLsbD i = a13 at *
  -- bit `i` belongs to the option of at most one protocol
  by_cases a2; · simp_all
  by_cases a3; · simp_all
  by_cases a1; · simp_all
  by_cases a11; · simp_all
  by_cases a12; · simp_all
  simp_all

/-- The `NJT_SSL_*` bits 2, 4, 8, 16, 32 and 64 and OpenSSL 3's options, in
which `SSL_OP_NO_SSLv2` is 0; `protocols` asks for TLSv1.2 and TLSv1.3 only. -/
theorem setProtocols_options_tls12 :
    [(⟨2, 0⟩ : SslProtocol), ⟨4, 1 <<< 25⟩, ⟨8, 1 <<< 26⟩, ⟨16, 1 <<< 28⟩, ⟨32, 1 <<< 27⟩,
        ⟨64, 1 <<< 29⟩].Pairwise (fun p q => p.noOption &&& q.noOption = 0) ∧
      sslConnCheck ⟨true, true, true⟩ = none ∧
      setProtocols ⟨true, true, true⟩ ⟨2, 0⟩ ⟨4, 1 <<< 25⟩ ⟨8, 1 <<< 26⟩ ⟨16, 1 <<< 28⟩ ⟨32, 1 <<< 27⟩
          ⟨64, 1 <<< 29⟩ 0x60 (1 <<< 27 ||| 1) =
        .ok ((((1 <<< 27 ||| 1 : BitVec 64) &&& ~~~(0 ||| 1 <<< 25 ||| 1 <<< 26 ||| 1 <<< 28 ||| 1 <<< 27 |||
          1 <<< 29 : BitVec 64)) ||| disabledOption 0x60 ⟨2, 0⟩ ||| disabledOption 0x60 ⟨4, 1 <<< 25⟩ |||
          disabledOption 0x60 ⟨8, 1 <<< 26⟩ ||| disabledOption 0x60 ⟨16, 1 <<< 28⟩ |||
          disabledOption 0x60 ⟨32, 1 <<< 27⟩ ||| disabledOption 0x60 ⟨64, 1 <<< 29⟩)) :=
  ⟨by decide, rfl, setProtocols_options (by decide) (by rfl) _ _⟩

/-! ## The error log handler -/

/-- What `log->data` points at, as the log handler reads it:
`c->addr_text` and, when `c->listening` is set, `c->listening->addr_text`. -/
structure LogConn where
  addrText : List Char
  listening : Option (List Char)
  deriving DecidableEq, Repr

/-- `p = njt_snprintf(buf, len, ...)`, then `len -= p - buf; buf = p`, for the
text `s` the format expands to: the text written so far and the room left.
`njt_snprintf` writes at most `len` characters. -/
def snprintfStep (o : List Char × Nat) (s : List Char) : List Char × Nat :=
  (o.1 ++ s.take o.2, o.2 - (s.take o.2).length)

/-- `njt_http_lua_log_ssl_client_hello_error`, for `log->action` (its
characters before the NUL, `none` for a NULL pointer), `log->data` and the
room `len` left in the buffer: the text it writes.  Its last `njt_snprintf`
does not update `len` (the line is commented out), which is the same here as
it is the last. -/
def logSslClientHelloError (action : Option (List Char)) (c : Option LogConn) (len : Nat) :
    List Char :=
  let o : List Char × Nat := ([], len)
  let o := match action with
    | some a => snprintfStep o (" while ".toList ++ a)
    | none => o
  let o := snprintfStep o ", context: ssl_client_hello_by_lua*".toList
  let o := match c with
    | some c => if c.addrText.length ≠ 0 then snprintfStep o (", client: ".toList ++ c.addrText) else o
    | none => o
  match c with
  | some ⟨_, some l⟩ => if l.length ≠ 0 then (snprintfStep o (", server: ".toList ++ l)).1 else o.1
  | _ => o.1

/-- The whole message of the log handler, for a buffer with room for it. -/
def logSslClientHelloMessage (action : Option (List Char)) (c : Option LogConn) : List Char :=
  (match action with | some a => " while ".toList ++ a | none => []) ++
    ", context: ssl_client_hello_by_lua*".toList ++
    (match c with
      | some c => if c.addrText.length ≠ 0 then ", client: ".toList ++ c.addrText else []
      | none => []) ++
    (match c with
      | some ⟨_, some l⟩ => if l.length ≠ 0 then ", server: ".toList ++ l else []
      | _ => [])

/-- Writing into what is left of the buffer: the text so far stays the first
`len` characters of the message so far. -/
theorem snprintfStep_take (m s : List Char) (len : Nat) :
    snprintfStep (m.take len, len - (m.take len).length) s =
      ((m ++ s).take len, len - ((m ++ s).take len).length) := by
  have hm : len - min len m.length = len - m.length := by omega
  simp only [snprintfStep, List.take_append_eq_append_take, List.length_append, List.length_take, hm]
  congr 1
  omega

/-- **The log handler truncates as one write would.**  Whatever the room
`len` left in the buffer, the pieces `njt_http_lua_log_ssl_client_hello_error`
writes one `njt_snprintf` after another are the first `len` characters of its
whole message: no piece is lost while there is room, and nothing is written
past `len`. -/
theorem logSslClientHelloError_eq (action : Option (List Char)) (c : Option LogConn) (len : Nat) :
    logSslClientHelloError action c len = (logSslClientHelloMessage action c).take len := by
  have h0 : (([] : List Char), len) = (([] : List Char).take len, len - (([] : List Char).take len).length) := by
    simp
  unfold logSslClientHelloError logSslClientHelloMessage
  rcases action with _ | a <;> rcases c with _ | ⟨t, _ | l⟩ <;>
    simp only [h0, snprintfStep_take, List.nil_append, List.append_nil] <;>
    split_ifs <;> simp only [snprintfStep_take, List.append_nil, List.append_assoc]

end NjtLua
