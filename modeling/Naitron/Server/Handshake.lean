/-
  Naitron.Server.Handshake

  `spawn_service` in `src/core/server.c`, which the gateway's state machine
  takes as one step (`spawnService`): the blocking reads of the HELLO frame,
  with a receive timeout, and what is left on the socket for the frame parser.
-/

import Naitron.WireStream

namespace Naitron

-- ============================================================================
-- read_full with a timeout
-- ============================================================================

/-- Result of one `read` on the controller's socket: up to `n + 1` bytes, an
    interrupted call, or one that ends `read_full` (the receive timeout, an
    error, or the end of the stream). -/
inductive HandRead where
  | more (n : Nat)
  | eintr
  | stop
deriving DecidableEq, Repr

/-- `read_full` for `n` bytes of the stream `s`: whether it had them all, the
    bytes read, and the stream behind them. -/
def handReadFull : List HandRead → Nat → Bytes → Bool × Bytes × Bytes
  | [], n, s => (n = 0, [], s)
  | .more m :: rs, n, s =>
      if n = 0 then (true, [], s)
      else if s.isEmpty then (false, [], s)
      else
        let got := min (m + 1) n
        let r := handReadFull rs (n - (s.take got).length) (s.drop got)
        (r.1, s.take got ++ r.2.1, r.2.2)
  | .eintr :: rs, n, s => handReadFull rs n s
  | .stop :: _, n, s => (n = 0, [], s)

/-- The number of bytes that come in before a `read` ends `read_full`, when
    the stream holds as many. -/
def handSupply : List HandRead → Nat
  | [] => 0
  | .more m :: rs => m + 1 + handSupply rs
  | .eintr :: rs => handSupply rs
  | .stop :: _ => 0

/-- `read_full` takes what is supplied, as far as it goes. -/
theorem handReadFull_eq :
    ∀ (rs : List HandRead) (n : Nat) (s : Bytes), n ≤ s.length →
      handReadFull rs n s =
        (decide (n ≤ handSupply rs), s.take (min n (handSupply rs)),
          s.drop (min n (handSupply rs))) := by
  intro rs
  induction rs with
  | nil =>
      intro n s _
      rw [handReadFull, handSupply, Nat.min_zero, List.take_zero, List.drop_zero]
      simp only [Nat.le_zero_eq]
  | cons r rs ih =>
      intro n s hn
      cases r with
      | eintr =>
          rw [handReadFull, handSupply]
          exact ih n s hn
      | stop =>
          rw [handReadFull, handSupply, Nat.min_zero, List.take_zero, List.drop_zero]
          simp only [Nat.le_zero_eq]
      | more m =>
          rw [handReadFull, handSupply]
          by_cases hzero : n = 0
          · subst hzero
            rw [if_pos rfl, Nat.zero_min, List.take_zero, List.drop_zero,
              decide_eq_true (Nat.zero_le _)]
          have hempty : ¬ s.isEmpty = true := by
            rw [List.isEmpty_iff]
            rintro rfl
            exact hzero (Nat.le_zero.mp hn)
          have htaken : (s.take (min (m + 1) n)).length = min (m + 1) n := by
            rw [List.length_take]
            omega
          rw [if_neg hzero, if_neg hempty]
          dsimp only
          rw [htaken, ih _ _ (by rw [List.length_drop]; omega)]
          have hsum : min (m + 1) n + min (n - min (m + 1) n) (handSupply rs) =
              min n (m + 1 + handSupply rs) := by
            omega
          have hall : n - min (m + 1) n ≤ handSupply rs ↔ n ≤ m + 1 + handSupply rs := by
            omega
          rw [← List.take_add, List.drop_drop, hsum]
          simp only [hall]

-- ============================================================================
-- spawn_service
-- ============================================================================

/-- The calls of `spawn_service` besides the reads, each with whether it
    succeeded. -/
structure SpawnCalls where
  socketpair : Bool
  fork : Bool
  welcome : Bool
  nonblocking : Bool
  calloc : Bool
  pollerAdd : Bool
deriving DecidableEq, Repr

def SpawnCalls.ok (c : SpawnCalls) : Bool :=
  c.socketpair && c.fork && c.welcome && c.nonblocking && c.calloc && c.pollerAdd

/-- `sizeof tmp` in `spawn_service`. -/
def helloTmpLen : Nat := 256

/-- `spawn_service` on the stream `s` that the controller writes: what is left
    of it for the frame parser, or `none` when the service is not started.
    `hdrReads` and `nameReads` are the results of the reads of the header and
    of the payload. -/
def spawnHandshake (calls : SpawnCalls) (hdrReads nameReads : List HandRead) (s : Bytes) :
    Option Bytes :=
  if !(calls.socketpair && calls.fork) then none
  else
    let hdr := handReadFull hdrReads ntcWireHeaderLen s
    if !hdr.1 then none
    else
      match ntcWireParseHeader hdr.2.1 with
      | none => none
      | some h =>
          if h.type ≠ NtcMsgType.hello.code then none
          else
            let left :=
              if 0 < h.length then
                -- `(void)read_full(...)`: a name cut short is not noticed
                (handReadFull nameReads (min h.length helloTmpLen) hdr.2.2).2.2
              else hdr.2.2
            if calls.welcome && calls.nonblocking && calls.calloc && calls.pollerAdd then
              some left
            else none

/-- The HELLO of `ntc_controller_run`: the name and `(uint32_t)strlen(name)`. -/
def nameHello (name : Bytes) : WireMsg where
  type := NtcMsgType.hello.code
  requestId := 0
  payload := name.take (name.length % 2 ^ 32)
  type_lt := by decide
  requestId_lt := by decide
  length_lt := by
    rw [List.length_take]
    omega

theorem length_nameHello (name : Bytes) :
    (nameHello name).payload.length = name.length % 2 ^ 32 := by
  rw [nameHello, List.length_take]
  exact Nat.min_eq_left (Nat.mod_le _ _)

/-- What the handshake leaves of a HELLO and the bytes behind it. -/
theorem spawnHandshake_hello (calls : SpawnCalls) (hdrReads nameReads : List HandRead)
    (name after : Bytes) :
    spawnHandshake calls hdrReads nameReads ((nameHello name).bytes ++ after) =
      if calls.ok ∧ ntcWireHeaderLen ≤ handSupply hdrReads then
        some (((nameHello name).payload ++ after).drop
          (min (min (name.length % 2 ^ 32) helloTmpLen) (handSupply nameReads)))
      else none := by
  generalize hm : nameHello name = m
  have hlen : m.payload.length = name.length % 2 ^ 32 := by rw [← hm, length_nameHello]
  have htype : m.hdr.type = NtcMsgType.hello.code := by rw [← hm]; rfl
  have hhlen : m.hdr.length = m.payload.length := rfl
  have hwhdr := length_ntcWireWriteHeader m.type m.requestId m.payload.length
  rw [spawnHandshake, WireMsg.bytes, List.append_assoc,
    handReadFull_eq _ _ _ (by rw [List.length_append, hwhdr]; omega)]
  by_cases hcalls : (calls.socketpair && calls.fork) = true
  swap
  · rw [if_pos (by rw [Bool.not_eq_true] at hcalls; rw [hcalls]; rfl), if_neg]
    rintro ⟨hok, -⟩
    simp only [SpawnCalls.ok, Bool.and_eq_true] at hok hcalls
    exact hcalls ⟨hok.1.1.1.1.1, hok.1.1.1.1.2⟩
  rw [if_neg (by rw [hcalls]; decide)]
  dsimp only
  by_cases hsupply : ntcWireHeaderLen ≤ handSupply hdrReads
  swap
  · rw [if_pos (by rw [decide_eq_false hsupply]; rfl), if_neg (fun h => hsupply h.2)]
  rw [if_neg (by rw [decide_eq_true hsupply]; decide), Nat.min_eq_left hsupply,
    List.take_left' hwhdr, List.drop_left' hwhdr, ntcWireParseHeader_header]
  dsimp only
  rw [if_neg (not_not_intro htype), hhlen]
  have hleft : (if 0 < m.payload.length then
        (handReadFull nameReads (min m.payload.length helloTmpLen) (m.payload ++ after)).2.2
      else m.payload ++ after) =
      (m.payload ++ after).drop (min (min m.payload.length helloTmpLen)
        (handSupply nameReads)) := by
    split
    · rw [handReadFull_eq _ _ _ (by rw [List.length_append]; omega)]
    · have hzero : min (min m.payload.length helloTmpLen) (handSupply nameReads) = 0 := by omega
      rw [hzero, List.drop_zero]
  rw [hleft, hlen]
  have hok : (calls.welcome && calls.nonblocking && calls.calloc && calls.pollerAdd) = true ↔
      calls.ok = true ∧ ntcWireHeaderLen ≤ handSupply hdrReads := by
    rw [SpawnCalls.ok, hcalls, Bool.true_and]
    exact (and_iff_left hsupply).symm
  simp only [hok]

/-- The handshake leaves the stream at the frame behind the HELLO when the name
    fits the 256-byte buffer and comes in before the reads end, and only
    then; the parser then finds the frames that were sent. -/
theorem spawn_handshake_in_sync (calls : SpawnCalls) (hdrReads nameReads : List HandRead)
    (name : Bytes) (frames : List WireMsg) (left : Bytes)
    (h : spawnHandshake calls hdrReads nameReads
      ((nameHello name).bytes ++ frames.flatMap WireMsg.bytes) = some left) :
    (left = frames.flatMap WireMsg.bytes ↔
      name.length % 2 ^ 32 ≤ helloTmpLen ∧ name.length % 2 ^ 32 ≤ handSupply nameReads) ∧
    (left = frames.flatMap WireMsg.bytes →
      scanFrames left.length left = (frames.map WireMsg.frame, .needMore, [])) := by
  rw [spawnHandshake_hello] at h
  split at h
  swap
  · cases h
  rename_i hcond
  have hleft := Option.some.inj h
  refine ⟨?_, ?_⟩
  · have hlen : left.length = (name.length % 2 ^ 32 + (frames.flatMap WireMsg.bytes).length) -
        min (min (name.length % 2 ^ 32) helloTmpLen) (handSupply nameReads) := by
      rw [← hleft, List.length_drop, List.length_append, length_nameHello]
    constructor
    · intro heq
      rw [heq] at hlen
      omega
    · rintro ⟨htmp, hread⟩
      rw [← hleft, Nat.min_eq_left htmp, Nat.min_eq_left hread,
        List.drop_left' (length_nameHello name)]
  · rintro rfl
    have hscan := scanFrames_stream [] rfl frames (frames.flatMap WireMsg.bytes ++ []).length
      le_rfl
    rwa [List.append_nil] at hscan

/-- A controller named `orders`, with its name in two reads and a PONG behind
    it. -/
def pongMsg : WireMsg where
  type := NtcMsgType.pong.code
  requestId := 0
  payload := []
  type_lt := NtcMsgType.code_lt _
  requestId_lt := zero_lt_word
  length_lt := zero_lt_word

def spawnCallsOk : SpawnCalls := ⟨true, true, true, true, true, true⟩

theorem spawn_handshake_in_sync_orders :
    spawnHandshake spawnCallsOk [.more 15] [.more 1, .eintr, .more 9]
        ((nameHello (lit "orders")).bytes ++ pongMsg.bytes) = some pongMsg.bytes ∧
      scanFrames pongMsg.bytes.length pongMsg.bytes = ([pongMsg.frame], .needMore, []) := by
  have hspawn : spawnHandshake spawnCallsOk [.more 15] [.more 1, .eintr, .more 9]
      ((nameHello (lit "orders")).bytes ++ [pongMsg].flatMap WireMsg.bytes) =
        some ([pongMsg].flatMap WireMsg.bytes) := by
    decide +kernel
  have hsync := spawn_handshake_in_sync spawnCallsOk [.more 15] [.more 1, .eintr, .more 9]
    (lit "orders") [pongMsg] ([pongMsg].flatMap WireMsg.bytes) hspawn
  exact ⟨hspawn, hsync.2 rfl⟩

/-- A name of 300 bytes: its last 44 stay on the socket, and the parser takes
    them for a frame with a bad magic. -/
theorem spawn_leaves_end_of_long_name :
    spawnHandshake spawnCallsOk [.more 15] [.more 299]
        ((nameHello (List.replicate 300 97)).bytes ++ pongMsg.bytes) =
          some (List.replicate 44 97 ++ pongMsg.bytes) ∧
      List.replicate 44 97 ++ pongMsg.bytes ≠ pongMsg.bytes ∧
      (scanFrames 60 (List.replicate 44 97 ++ pongMsg.bytes)).2.1 = .bad := by
  refine ⟨?_, by decide, by decide⟩
  rw [spawnHandshake_hello, if_pos (by decide)]
  decide +kernel

end Naitron
