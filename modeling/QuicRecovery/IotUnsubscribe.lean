import Mathlib.Algebra.Group.Nat.Basic
/-!
# The MQTT UNSUBSCRIBE packet of njetmq

`iot_send__unsubscribe` (njet_iot_send_unsubscribe.c) builds an UNSUBSCRIBE
packet in two passes over its topics.  The first pass sums the packet's
`remaining_length` in a `uint32_t packetlen`: two bytes of packet identifier,
and two bytes of length prefix plus the bytes of each topic (plus the
property block under MQTT v5).  `packet__alloc` sizes the payload by that
number.  The second pass writes the identifier, the properties and each topic
as a length-prefixed string.

The library functions it calls (allocation, properties, packet identifier,
queueing) are not in src, and enter as `Lib`, each by its result.  The
writes of `packet__write_uint16` and `packet__write_string` are MQTT's
two-byte big-endian integer and length-prefixed string.

* `unsubscribeLength_eq` — the length pass is the unbounded sum
  `unsubscribeBytes` taken mod 2^32;
* `iotSendUnsubscribe_success` — a successful call queues a packet whose
  writes are exactly the unbounded sum, and whose `remaining_length` is that
  sum mod 2^32;
* `iotSendUnsubscribe_wraps` — with 65538 topics of 65535 bytes the sum
  passes 2^32: the call can succeed with a `remaining_length` of 196612 while
  it writes 4295163908 bytes;
* `iotSendUnsubscribe_reads_back` — under MQTT 3.1.1 a queued packet reads
  back, as an UNSUBSCRIBE, to the identifier stored through `mid` and exactly
  the topics given.
-/

namespace NjetMq

/-- A byte. -/
abbrev Byte := BitVec 8

/-- Return codes (mosquitto.h, not in src): the three `iot_send__unsubscribe`
names, and any other code a library function it calls returns. -/
inductive MosqErr where
  | success
  | nomem
  | inval
  | other (code : Nat)
  deriving DecidableEq, Repr

/-- The fields of `struct mosquitto__packet` that `iot_send__unsubscribe`
fills: `remaining_length`, and the bytes its writes put after the fixed
header, where `packet__alloc` leaves room for `remaining_length` bytes. -/
structure Packet where
  remainingLength : BitVec 32
  payload : List Byte
  deriving DecidableEq, Repr

/-- The library functions `iot_send__unsubscribe` calls, none of which is in
src, each by its result for this call; `P` is the type of property lists. -/
structure Lib (P : Type) where
  /-- `mosquitto__calloc(1, sizeof(struct mosquitto__packet))` succeeds. -/
  calloc : Bool
  /-- `property__get_remaining_length`, an unsigned int. -/
  propertyGetRemainingLength : P → BitVec 32
  /-- `packet__alloc` of a packet with this `remaining_length`. -/
  packetAlloc : BitVec 32 → MosqErr
  /-- `iot_mqtt__mid_generate`. -/
  midGenerate : BitVec 16
  /-- The bytes `property__write_all` writes. -/
  propertyWriteAll : P → List Byte
  /-- `iot_packet__queue`. -/
  packetQueue : Packet → MosqErr

/-- What a call leaves: its return value, the identifier stored through
`mid` (none when nothing is), and the packet handed to `iot_packet__queue`. -/
structure Unsubscribed where
  rc : MosqErr
  mid : Option (BitVec 16)
  queued : Option Packet

/-- `packet__write_uint16`: most significant byte first. -/
def packetWriteUint16 (word : BitVec 16) : List Byte :=
  [word.extractLsb' 8 8, word.extractLsb' 0 8]

@[simp] theorem packetWriteUint16_length (word : BitVec 16) :
    (packetWriteUint16 word).length = 2 := rfl

/-- `packet__write_string`: the length, then that many bytes of the string. -/
def packetWriteString (str : List Byte) (length : BitVec 16) : List Byte :=
  packetWriteUint16 length ++ str.take length.toNat

/-- The length pass: `packetlen += 2U + (uint16_t)tlen` per topic in uint32
arithmetic, and `MOSQ_ERR_INVAL` at a topic longer than `UINT16_MAX`. -/
def unsubscribeLength (packetlen : BitVec 32) : List (List Byte) → Except MosqErr (BitVec 32)
  | [] => .ok packetlen
  | t :: ts =>
    if t.length > 65535 then .error .inval
    else unsubscribeLength (packetlen + (2 + (BitVec.ofNat 16 t.length).setWidth 32)) ts

/-- The payload pass: each topic as a string of length `(uint16_t)strlen`. -/
def writeTopics : List (List Byte) → List Byte
  | [] => []
  | t :: ts => packetWriteString t (BitVec.ofNat 16 t.length) ++ writeTopics ts

/-- `iot_send__unsubscribe`; `mqtt5` is `mosq->protocol == mosq_p_mqtt5`, and
`mid` whether the `mid` pointer is not NULL. -/
def iotSendUnsubscribe {P : Type} (lib : Lib P) (mqtt5 : Bool) (mid : Bool)
    (topics : List (List Byte)) (properties : P) : Unsubscribed :=
  match unsubscribeLength 2 topics with
  | .error rc => ⟨rc, none, none⟩
  | .ok packetlen =>
    if !lib.calloc then ⟨.nomem, none, none⟩ else
    let packetlen := if mqtt5 then packetlen + lib.propertyGetRemainingLength properties
      else packetlen
    match lib.packetAlloc packetlen with
    | .success =>
      let packet : Packet := ⟨packetlen, packetWriteUint16 lib.midGenerate ++
        (if mqtt5 then lib.propertyWriteAll properties else []) ++ writeTopics topics⟩
      ⟨lib.packetQueue packet, if mid then some lib.midGenerate else none, some packet⟩
    | rc => ⟨rc, none, none⟩

/-- The unbounded number of bytes the topics take: a two-byte length and the
bytes of each. -/
def unsubscribeBytes : List (List Byte) → Nat
  | [] => 0
  | t :: ts => 2 + t.length + unsubscribeBytes ts

@[simp] theorem unsubscribeBytes_nil : unsubscribeBytes [] = 0 := rfl

@[simp] theorem unsubscribeBytes_cons (t : List Byte) (ts : List (List Byte)) :
    unsubscribeBytes (t :: ts) = 2 + t.length + unsubscribeBytes ts := rfl

section Topics

variable {topics : List (List Byte)}

theorem toNat_ofNat_length {t : List Byte} (ht : t.length ≤ 65535) :
    (BitVec.ofNat 16 t.length).toNat = t.length := by
  simp only [BitVec.toNat_ofNat]
  omega

theorem toNat_two : (2 : BitVec 32).toNat = 2 := rfl

/-- The length pass never fails on topics within `UINT16_MAX`, and it
computes the unbounded sum mod 2^32. -/
theorem unsubscribeLength_eq (packetlen : BitVec 32) (h : ∀ t ∈ topics, t.length ≤ 65535) :
    unsubscribeLength packetlen topics =
      .ok (BitVec.ofNat 32 (packetlen.toNat + unsubscribeBytes topics)) := by
  induction topics generalizing packetlen with
  | nil => simp [unsubscribeLength]
  | cons t ts ih =>
    have ht := h t (List.mem_cons_self t ts)
    rw [unsubscribeLength, if_neg (by omega), ih _ fun t' h' => h t' (List.mem_cons_of_mem t h')]
    congr 1
    apply BitVec.eq_of_toNat_eq
    simp only [BitVec.toNat_ofNat, BitVec.toNat_add, BitVec.toNat_setWidth,
      toNat_ofNat_length ht, unsubscribeBytes_cons, toNat_two]
    omega

/-- The payload pass writes the unbounded sum. -/
theorem writeTopics_length (h : ∀ t ∈ topics, t.length ≤ 65535) :
    (writeTopics topics).length = unsubscribeBytes topics := by
  induction topics with
  | nil => rfl
  | cons t ts ih =>
    have ht := h t (List.mem_cons_self t ts)
    simp only [writeTopics, packetWriteString, packetWriteUint16, List.length_append,
      List.length_take, toNat_ofNat_length ht, unsubscribeBytes_cons,
      ih fun t' h' => h t' (List.mem_cons_of_mem t h')]
    simp only [List.length_cons, List.length_nil, Nat.min_self]

/-- The packet a call builds once the length pass, the allocation of the
packet and `packet__alloc` have all gone through. -/
theorem iotSendUnsubscribe_of_alloc {P : Type} (lib : Lib P) (mqtt5 mid : Bool) (properties : P)
    (h : ∀ t ∈ topics, t.length ≤ 65535) (hc : lib.calloc = true)
    (ha : lib.packetAlloc (if mqtt5 then BitVec.ofNat 32 (2 + unsubscribeBytes topics) +
      lib.propertyGetRemainingLength properties else BitVec.ofNat 32 (2 + unsubscribeBytes topics))
        = .success) :
    let pk : Packet := ⟨if mqtt5 then BitVec.ofNat 32 (2 + unsubscribeBytes topics) +
        lib.propertyGetRemainingLength properties else BitVec.ofNat 32 (2 + unsubscribeBytes topics),
      packetWriteUint16 lib.midGenerate ++
        (if mqtt5 then lib.propertyWriteAll properties else []) ++ writeTopics topics⟩
    iotSendUnsubscribe lib mqtt5 mid topics properties =
      ⟨lib.packetQueue pk, if mid then some lib.midGenerate else none, some pk⟩ := by
  simp only [iotSendUnsubscribe, unsubscribeLength_eq 2 h, toNat_two, hc, Bool.not_true,
    Bool.false_eq_true, if_false, ha]

/-- A library whose every call succeeds. -/
def allSucceed : Lib Unit := ⟨true, fun _ => 0, fun _ => .success, 0, fun _ => [], fun _ => .success⟩

/-- A successful call has queued a packet whose writes are the unbounded
length of its fields, while its `remaining_length` is that length mod 2^32. -/
theorem iotSendUnsubscribe_success {P : Type} (lib : Lib P) (mqtt5 mid : Bool) (properties : P)
    (h : ∀ t ∈ topics, t.length ≤ 65535)
    (hs : (iotSendUnsubscribe lib mqtt5 mid topics properties).rc = .success) :
    ∃ pk, (iotSendUnsubscribe lib mqtt5 mid topics properties).queued = some pk ∧
      lib.packetQueue pk = .success ∧
      pk.remainingLength.toNat = (2 + unsubscribeBytes topics +
        (if mqtt5 then (lib.propertyGetRemainingLength properties).toNat else 0)) % 2 ^ 32 ∧
      pk.payload.length = 2 + (if mqtt5 then (lib.propertyWriteAll properties).length else 0) +
        unsubscribeBytes topics := by
  simp only [iotSendUnsubscribe, unsubscribeLength_eq 2 h, toNat_two] at hs ⊢
  cases hc : lib.calloc
  · simp [hc] at hs
  · simp only [hc, Bool.not_true, Bool.false_eq_true, if_false] at hs ⊢
    split at hs
    · refine ⟨_, rfl, hs, ?_, ?_⟩
      · cases mqtt5 <;> simp [BitVec.toNat_ofNat, BitVec.toNat_add]
      · simp [packetWriteUint16, writeTopics_length h, apply_ite List.length]; omega
    · simp_all

theorem iotSendUnsubscribe_success_twoTopics :
    (∀ t ∈ [[(0x61 : Byte)], [0x62, 0x63]], t.length ≤ 65535) ∧
      (iotSendUnsubscribe allSucceed false true [[0x61], [0x62, 0x63]] ()).rc = .success ∧
      ∃ pk, (iotSendUnsubscribe allSucceed false true [[0x61], [0x62, 0x63]] ()).queued = some pk ∧
        allSucceed.packetQueue pk = .success ∧ pk.remainingLength.toNat = (2 + 7 + 0) % 2 ^ 32 ∧
        pk.payload.length = 2 + 0 + 7 :=
  ⟨by decide, rfl, iotSendUnsubscribe_success allSucceed false true () (by decide) rfl⟩

end Topics

theorem unsubscribeBytes_replicate (n : Nat) (t : List Byte) :
    unsubscribeBytes (List.replicate n t) = n * (2 + t.length) := by
  induction n with
  | zero => simp
  | succ n ih => rw [List.replicate_succ, unsubscribeBytes_cons, ih, Nat.succ_mul]; omega

/-- 65538 topics of 65535 bytes: within `UINT16_MAX` each, 4295163908 bytes
together. -/
def wrapTopics : List (List Byte) := List.replicate 65538 (List.replicate 65535 0x61)

/-- On `wrapTopics` the uint32 `packetlen` wraps to 196612: once
`packet__alloc` accepts that length, the call queues a packet of
`remaining_length` 196612 into which it has written 4295163908 bytes, and
returns whatever `iot_packet__queue` returns. -/
theorem iotSendUnsubscribe_wraps {P : Type} (lib : Lib P) (mid : Bool) (properties : P)
    (hc : lib.calloc = true) (ha : lib.packetAlloc 196612 = .success) :
    ∃ pk, iotSendUnsubscribe lib false mid wrapTopics properties =
        ⟨lib.packetQueue pk, if mid then some lib.midGenerate else none, some pk⟩ ∧
      pk.remainingLength = 196612 ∧ pk.payload.length = 4295163908 := by
  have hw : ∀ t ∈ wrapTopics, t.length ≤ 65535 := fun t ht =>
    Nat.le_of_eq (by rw [(List.mem_replicate.1 ht).2, List.length_replicate])
  have hb : unsubscribeBytes wrapTopics = 4295163906 := by
    rw [wrapTopics, unsubscribeBytes_replicate, List.length_replicate]
  have hl : BitVec.ofNat 32 (2 + unsubscribeBytes wrapTopics) = 196612 :=
    (congrArg (fun x => BitVec.ofNat 32 (2 + x)) hb).trans (by decide)
  have hq := iotSendUnsubscribe_of_alloc lib false mid properties hw hc
    (by rw [if_neg nofun, hl]; exact ha)
  refine ⟨_, hq, by rw [if_neg nofun, hl], ?_⟩
  rw [List.length_append, List.length_append, writeTopics_length hw, hb, if_neg nofun,
    List.length_nil, packetWriteUint16_length]

theorem iotSendUnsubscribe_wraps_allSucceed :
    allSucceed.calloc = true ∧ allSucceed.packetAlloc 196612 = .success ∧
      ∃ pk, iotSendUnsubscribe allSucceed false true wrapTopics () =
          ⟨allSucceed.packetQueue pk, if true then some allSucceed.midGenerate else none, some pk⟩ ∧
        pk.remainingLength = 196612 ∧ pk.payload.length = 4295163908 :=
  ⟨rfl, rfl, iotSendUnsubscribe_wraps allSucceed true () rfl rfl⟩

/-! ## Reading the packet back

What the packet is for: an MQTT 3.1.1 UNSUBSCRIBE (section 3.10), whose
variable header is the packet identifier and whose payload is the list of
topic filters, each a two-byte length and that many bytes (section 1.5.3).
`readUnsubscribe` reads the bytes after the fixed header as a broker does;
`iotSendUnsubscribe_reads_back` says that what `iot_send__unsubscribe`
queues reads back as the identifier and the topics it was given. -/

/-- MQTT 3.1.1, 1.5.2: a two-byte integer, most significant byte first. -/
def readUint16 (hi lo : Byte) : BitVec 16 := hi ++ lo

/-- The topic filters of an UNSUBSCRIBE payload, length-prefixed strings up to
the end of the packet; none when a string runs past it. -/
def readTopics : List Byte → Option (List (List Byte))
  | [] => some []
  | [_] => none
  | hi :: lo :: rest =>
    let n := (readUint16 hi lo).toNat
    if n ≤ rest.length then (readTopics (rest.drop n)).map (rest.take n :: ·) else none
termination_by bs => bs.length
decreasing_by simp_wf; omega

/-- An UNSUBSCRIBE after its fixed header: the packet identifier, then the
topic filters. -/
def readUnsubscribe : List Byte → Option (BitVec 16 × List (List Byte))
  | hi :: lo :: rest => (readTopics rest).map (readUint16 hi lo, ·)
  | _ => none

theorem readUint16_packetWriteUint16 (word : BitVec 16) :
    readUint16 (word.extractLsb' 8 8) (word.extractLsb' 0 8) = word := by
  apply BitVec.eq_of_getLsbD_eq
  intro ⟨i, hi⟩
  simp only [readUint16, BitVec.getLsbD_append, BitVec.getLsbD_extractLsb']
  by_cases h : i < 8
  · simp [h]
  · simp [h, show 8 + (i - 8) = i by omega, show i - 8 < 8 by omega]

/-- The topics the payload pass writes read back one by one. -/
theorem readTopics_writeTopics : ∀ topics : List (List Byte), (∀ t ∈ topics, t.length ≤ 65535) →
    readTopics (writeTopics topics) = some topics
  | [], _ => by rw [writeTopics, readTopics]
  | t :: ts, h => by
    have ht := toNat_ofNat_length (h t (.head _))
    rw [writeTopics, packetWriteString, ht, List.take_length]
    simp only [packetWriteUint16, List.cons_append, List.nil_append, List.append_assoc]
    rw [readTopics]
    simp only [readUint16_packetWriteUint16, ht, List.length_append, Nat.le_add_right, if_true,
      List.take_left, List.drop_left, readTopics_writeTopics ts fun t' h' => h t' (.tail _ h'),
      Option.map_some']

/-- The length pass accepts only topics within `UINT16_MAX`. -/
theorem unsubscribeLength_ok : ∀ {packetlen n : BitVec 32} {topics : List (List Byte)},
    unsubscribeLength packetlen topics = .ok n → ∀ t ∈ topics, t.length ≤ 65535
  | _, _, [], _ => fun _ h => nomatch h
  | _, _, t :: ts, h => by
    rw [unsubscribeLength] at h
    by_cases hl : t.length > 65535
    · rw [if_pos hl] at h; cases h
    rw [if_neg hl] at h
    intro t' ht'
    rcases List.mem_cons.1 ht' with rfl | ht'
    · omega
    · exact unsubscribeLength_ok h t' ht'

/-- **The packet reads back.**  Under MQTT 3.1.1, a packet that
`iot_send__unsubscribe` queues reads as an UNSUBSCRIBE of the identifier it
stores through `mid` (when `mid` is not NULL) and of exactly the topics it was
given, in order. -/
theorem iotSendUnsubscribe_reads_back {P : Type} (lib : Lib P) (mid : Bool) (properties : P)
    (topics : List (List Byte)) (pk : Packet)
    (hq : (iotSendUnsubscribe lib false mid topics properties).queued = some pk) :
    (iotSendUnsubscribe lib false mid topics properties).mid =
        (if mid then some lib.midGenerate else none) ∧
      readUnsubscribe pk.payload = some (lib.midGenerate, topics) := by
  unfold iotSendUnsubscribe at hq ⊢
  split at hq
  · cases hq
  next packetlen hlen =>
    have h := unsubscribeLength_ok hlen
    simp only [hlen]
    cases hc : lib.calloc
    · simp [hc] at hq
    simp only [hc, Bool.not_true, Bool.false_eq_true, if_false] at hq ⊢
    split at hq
    · cases hq
      refine ⟨rfl, ?_⟩
      simp only [if_neg Bool.false_ne_true, List.append_nil, packetWriteUint16, List.cons_append,
        List.nil_append, readUnsubscribe, readTopics_writeTopics topics h, Option.map_some',
        readUint16_packetWriteUint16]
    · cases hq

/-- Topics "a" and "bc": the packet is the identifier, then the strings
`0x0001 'a'` and `0x0002 'b' 'c'`. -/
theorem iotSendUnsubscribe_reads_back_twoTopics :
    ∃ pk, (iotSendUnsubscribe allSucceed false true [[0x61], [0x62, 0x63]] ()).queued = some pk ∧
      (iotSendUnsubscribe allSucceed false true [[0x61], [0x62, 0x63]] ()).mid =
          (if true then some allSucceed.midGenerate else none) ∧
        readUnsubscribe pk.payload = some (allSucceed.midGenerate, [[0x61], [0x62, 0x63]]) :=
  ⟨_, rfl, iotSendUnsubscribe_reads_back allSucceed true () [[0x61], [0x62, 0x63]] _ rfl⟩

/-- With a NULL `mid` the packet is queued all the same and nothing is
stored. -/
example : (iotSendUnsubscribe allSucceed false false [[0x61]] ()).mid = none ∧
    (iotSendUnsubscribe allSucceed false false [[0x61]] ()).rc = .success := by
  decide

end NjetMq
