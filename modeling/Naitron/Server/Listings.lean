/-
  Naitron.Server.Listings

  `service-list` and `route-list` of `exec_control_command`, and the admin
  page `/api/services`.

  All three print row after row at a running offset, advance it by what
  `snprintf` would have liked to write, and stop once fewer than `slack` bytes
  are left.  A row longer than the slack can carry the offset past the end,
  where `cap - off` wraps around (`NoRowCrosses`).
-/

import Naitron.Lib.Split
import Naitron.Server.State

namespace Naitron

-- ============================================================================
-- Printing into a buffer
-- ============================================================================

/-- A `char out[cap]` being printed into: the string in it, one past the
    highest byte written, and the offsets of the `snprintf` calls. -/
structure OutBuf where
  text : Bytes := []
  top : Nat := 0
  offs : List Nat := []
deriving DecidableEq, Repr

/-- `snprintf(out + off, cap - off, ..)`, the text already formatted. -/
def OutBuf.snprintf (b : OutBuf) (cap off : Nat) (piece : Bytes) : OutBuf :=
  let room := sizeSub cap off
  let offs := b.offs ++ [off]
  if room = 0 then { b with offs }
  else
    let written := piece.take (room - 1)
    { text := if off ≤ b.text.length then b.text.take off ++ written else b.text
      top := max b.top (off + written.length + 1)
      offs }

/-- The row loop: `for (..; i < n && off < cap - slack; ..) off += snprintf(..)`. -/
def listRows (cap slack : Nat) : List Bytes → Nat → OutBuf → Nat × OutBuf
  | [], off, b => (off, b)
  | row :: rows, off, b =>
      if off < cap - slack then
        listRows cap slack rows (off + row.length) (b.snprintf cap off row)
      else (off, b)

/-- A listing: the opening, the rows, the closing.  The offset returned is the
    one the closing is printed at. -/
def listing (cap slack : Nat) (opening closing : Bytes) (rows : List Bytes) : Nat × OutBuf :=
  let r := listRows cap slack rows opening.length (OutBuf.snprintf {} cap 0 opening)
  (r.1, r.2.snprintf cap r.1 closing)

/-- `i ? "," : ""`, in front of each row. -/
def separated (rows : List Bytes) : List Bytes :=
  rows.mapIdx fun i row => (if i = 0 then [] else lit ",") ++ row

-- ============================================================================
-- The listings
-- ============================================================================

/-- `ntc_service_row`. -/
structure NtcServiceRow where
  name : CStr 64
  bin : CStr 256

/-- `ntc_route_row`. -/
structure NtcRouteRow where
  method : CStr 8
  pattern : CStr 128
  service : CStr 64

/-- `ntc_registry_list_services`; every row of the table is enabled. -/
def ntcRegistryListServices (r : NtcRegistry) (max : Nat) : List NtcServiceRow :=
  (r.services.take max).map fun row => ⟨.set 64 row.1, .set 256 row.2⟩

/-- `ntc_registry_list_routes`. -/
def ntcRegistryListRoutes (r : NtcRegistry) (max : Nat) : List NtcRouteRow :=
  (r.routes.take max).map fun row => ⟨.set 8 row.method, .set 128 row.pattern, .set 64 row.service⟩

def serviceRowText (row : NtcServiceRow) : Bytes :=
  lit "\x7b\"name\":\"" ++ row.name.bytes ++ lit "\",\"bin\":\"" ++ row.bin.bytes ++ lit "\"\x7d"

def routeRowText (row : NtcRouteRow) : Bytes :=
  lit "\x7b\"method\":\"" ++ row.method.bytes ++ lit "\",\"pattern\":\"" ++ row.pattern.bytes
    ++ lit "\",\"service\":\"" ++ row.service.bytes ++ lit "\"\x7d"

/-- The reply buffer of `process_control` and of the MCP tools. -/
def controlReplyCap : Nat := 8192

/-- The texts that `service-list` prints. -/
def serviceRows (r : NtcRegistry) : List Bytes :=
  separated ((ntcRegistryListServices r 64).map serviceRowText)

/-- The texts that `route-list` prints. -/
def routeRows (r : NtcRegistry) : List Bytes :=
  separated ((ntcRegistryListRoutes r 128).map routeRowText)

/-- `service-list`. -/
def serviceList (r : NtcRegistry) : OutBuf :=
  (listing controlReplyCap 128 (lit "OK [") (lit "]\n") (serviceRows r)).2

/-- `route-list`. -/
def routeList (r : NtcRegistry) : OutBuf :=
  (listing controlReplyCap 160 (lit "OK [") (lit "]\n") (routeRows r)).2

/-- `svc_live_count`. -/
def svcLiveCount (s : Service) : Nat :=
  ((List.range s.replicas).filter fun i => (s.conns i).isSome).length

/-- `svc_any_live`. -/
def svcAnyLive (s : Service) : Bool := (List.range s.replicas).any fun i => (s.conns i).isSome

/-- `%d` and `%ld`. -/
def decimalInt (n : Int) : Bytes := if n < 0 then lit "-" ++ decimal n.natAbs else decimal n.natAbs

/-- A row of `/api/services`; `restarts` is the `restart_count` of the service. -/
def liveRowText (now : Int) (s : Service) (restarts : Int) : Bytes :=
  let status :=
    if s.disabled then lit "disabled" else if svcAnyLive s then lit "up" else lit "down"
  let up := if svcAnyLive s then (now - s.spawnedAt 0).tdiv 1000 else 0
  lit "\x7b\"name\":\"" ++ cstr s.name ++ lit "\",\"bin\":\"" ++ cstr s.bin
    ++ lit "\",\"status\":\"" ++ status ++ lit "\",\"restarts\":" ++ decimalInt restarts
    ++ lit ",\"replicas\":" ++ decimal s.replicas ++ lit ",\"live\":" ++ decimal (svcLiveCount s)
    ++ lit ",\"uptime_s\":" ++ decimalInt up ++ lit "\x7d"

/-- The texts that `/api/services` prints. -/
def liveRows (now : Int) (services : List Service) (restarts : Nat → Int) : List Bytes :=
  separated (services.mapIdx fun i s => liveRowText now s (restarts i))

/-- The buffer of `/api/services`. -/
def apiServicesCap : Nat := 64 * 1024

/-- `/api/services`: the length of the body, and the buffer. -/
def apiServices (now : Int) (services : List Service) (restarts : Nat → Int) : Nat × OutBuf :=
  let r := listing apiServicesCap 512 (lit "[") (lit "]") (liveRows now services restarts)
  (r.1 + 1, r.2)

-- ============================================================================
-- Staying inside
-- ============================================================================

/-- Every `snprintf` starts inside the buffer, none writes past its end, and
    the length that is reported is at most the capacity. -/
structure OutBuf.Inside (b : OutBuf) (cap reported : Nat) : Prop where
  offs : ∀ off ∈ b.offs, off < cap
  top : b.top ≤ cap
  reported : reported ≤ cap

/-- No row that is begun before the slack reaches the end of the buffer. -/
def NoRowCrosses (cap slack start : Nat) (rows : List Bytes) : Prop :=
  ∀ pre row post, rows = pre ++ row :: post → start + pre.flatten.length < cap - slack →
    start + pre.flatten.length + row.length < cap

variable {cap slack : Nat}

/-- What holds of a buffer that was only printed into from the inside. -/
structure OutBuf.Ok (b : OutBuf) (cap : Nat) : Prop where
  offs : ∀ off ∈ b.offs, off < cap
  top : b.top ≤ cap
  text : b.text.length ≤ cap

theorem OutBuf.Ok.snprintf {b : OutBuf} (h : b.Ok cap) (hcap : cap < sizeMax) {off : Nat}
    (hoff : off < cap) (piece : Bytes) : (b.snprintf cap off piece).Ok cap := by
  have hroom : sizeSub cap off = cap - off := sizeSub_of_le hoff.le hcap
  have hpiece : (piece.take (cap - off - 1)).length ≤ cap - off - 1 := List.length_take_le _ _
  have hoffs : ∀ o ∈ b.offs ++ [off], o < cap := by
    intro o ho
    rcases List.mem_append.mp ho with ho | ho
    · exact h.offs o ho
    · rw [List.mem_singleton.mp ho]
      exact hoff
  have htop := h.top
  have htext := h.text
  rw [OutBuf.snprintf, hroom]
  dsimp only
  rw [if_neg (by omega)]
  refine ⟨hoffs, ?_, ?_⟩
  · dsimp only
    omega
  · dsimp only
    split
    · rw [List.length_append, List.length_take]
      omega
    · exact htext

theorem OutBuf.snprintf_offs (b : OutBuf) (off : Nat) (piece : Bytes) :
    (b.snprintf cap off piece).offs = b.offs ++ [off] := by
  rw [OutBuf.snprintf]
  dsimp only
  split <;> rfl

/-- The rest of the rows, when the first does not cross. -/
theorem NoRowCrosses.cons_iff {start : Nat} {row : Bytes} {rows : List Bytes} :
    NoRowCrosses cap slack start (row :: rows) ↔
      (start < cap - slack → start + row.length < cap) ∧
        NoRowCrosses cap slack (start + row.length) rows := by
  have hlen : ∀ pre : List Bytes, start + (row :: pre).flatten.length =
      start + row.length + pre.flatten.length := by
    intro pre
    rw [List.flatten_cons, List.length_append, Nat.add_assoc]
  rw [NoRowCrosses, Lib.forall_split_cons]
  simp only [hlen, List.flatten_nil, List.length_nil, Nat.add_zero]
  rfl

/-- Past the slack no row is printed, so none crosses. -/
theorem noRowCrosses_of_le {start : Nat} (rows : List Bytes) (h : cap - slack ≤ start) :
    NoRowCrosses cap slack start rows := by
  intro pre row post _ hlt
  omega

/-- The loop leaves the offset inside exactly when no row crosses, and then
    the buffer is as it should be. -/
theorem listRows_iff (hcap : cap < sizeMax) : ∀ (rows : List Bytes) (off : Nat) (b : OutBuf),
    off < cap → b.Ok cap →
      ((listRows cap slack rows off b).1 < cap ↔ NoRowCrosses cap slack off rows) ∧
      ((listRows cap slack rows off b).1 < cap → (listRows cap slack rows off b).2.Ok cap) := by
  intro rows
  induction rows with
  | nil =>
      intro off b hoff hb
      exact ⟨iff_of_true hoff Lib.forall_split_nil, fun _ => hb⟩
  | cons row rows ih =>
      intro off b hoff hb
      rw [listRows, NoRowCrosses.cons_iff]
      by_cases hguard : off < cap - slack
      · rw [if_pos hguard]
        by_cases hrow : off + row.length < cap
        · obtain ⟨hiff, hok⟩ := ih (off + row.length) _ hrow (hb.snprintf hcap hoff row)
          exact ⟨hiff.trans (and_iff_right fun _ => hrow).symm, hok⟩
        · -- past the end the guard fails for every row to come
          have hstop : listRows cap slack rows (off + row.length) (b.snprintf cap off row) =
              (off + row.length, b.snprintf cap off row) := by
            cases rows with
            | nil => rfl
            | cons r rows => rw [listRows, if_neg (by omega)]
          rw [hstop]
          exact ⟨iff_of_false hrow fun h => hrow (h.1 hguard), fun h => absurd h hrow⟩
      · rw [if_neg hguard]
        refine ⟨iff_of_true hoff ⟨fun h => absurd h hguard, ?_⟩, fun _ => hb⟩
        exact noRowCrosses_of_le rows (by omega)

theorem listing_snd (opening closing : Bytes) (rows : List Bytes) :
    (listing cap slack opening closing rows).2 =
      (listRows cap slack rows opening.length (OutBuf.snprintf {} cap 0 opening)).2.snprintf cap
        (listing cap slack opening closing rows).1 closing := by
  rw [listing]

/-- A listing stays inside its buffer exactly when no row crosses. -/
theorem listing_inside_iff (hcap : cap < sizeMax) {opening : Bytes} (closing : Bytes)
    (hopen : opening.length < cap) (rows : List Bytes) {reported : Nat}
    (hreported : (listing cap slack opening closing rows).1 < cap → reported ≤ cap ∨
      reported = (listing cap slack opening closing rows).2.text.length) :
    (listing cap slack opening closing rows).2.Inside cap reported ↔
      NoRowCrosses cap slack opening.length rows := by
  have hempty : OutBuf.Ok {} cap := ⟨by simp, Nat.zero_le _, Nat.zero_le _⟩
  have hopened : (OutBuf.snprintf {} cap 0 opening).Ok cap := hempty.snprintf hcap (by omega) opening
  obtain ⟨hiff, hok⟩ := @listRows_iff cap slack hcap rows opening.length _ hopen hopened
  have hoff : (listing cap slack opening closing rows).1 =
      (listRows cap slack rows opening.length (OutBuf.snprintf {} cap 0 opening)).1 := by
    rw [listing]
  rw [← hoff] at hiff hok
  rw [← hiff]
  constructor
  · intro h
    refine h.offs _ ?_
    rw [listing_snd, OutBuf.snprintf_offs]
    exact List.mem_append_right _ (List.mem_singleton_self _)
  · intro h
    have hclosed : (listing cap slack opening closing rows).2.Ok cap := by
      rw [listing_snd]
      exact (hok h).snprintf hcap h closing
    refine ⟨hclosed.offs, hclosed.top, ?_⟩
    rcases hreported h with hle | rfl
    · exact hle
    · exact hclosed.text

/-- The three listings stay inside their buffers exactly when no row that is
    begun before the last 128, 160 or 512 bytes reaches the end. -/
theorem listings_inside_iff (r : NtcRegistry) (services : List Service) (restarts : Nat → Int)
    (now : Int) :
    ((serviceList r).Inside controlReplyCap (serviceList r).text.length ↔
      NoRowCrosses controlReplyCap 128 4 (serviceRows r)) ∧
    ((routeList r).Inside controlReplyCap (routeList r).text.length ↔
      NoRowCrosses controlReplyCap 160 4 (routeRows r)) ∧
    ((apiServices now services restarts).2.Inside apiServicesCap
        (apiServices now services restarts).1 ↔
      NoRowCrosses apiServicesCap 512 1 (liveRows now services restarts)) := by
  have hcap : controlReplyCap < sizeMax := by norm_num [controlReplyCap, sizeMax]
  have hcap' : apiServicesCap < sizeMax := by norm_num [apiServicesCap, sizeMax]
  have hopen : (lit "OK [").length = 4 := by decide
  have hopen' : (lit "[").length = 1 := by decide
  refine ⟨?_, ?_, ?_⟩
  · have hlist := @listing_inside_iff _ 128 hcap _ (lit "]\n")
      (by rw [hopen, controlReplyCap]; omega) (serviceRows r) _ fun _ => Or.inr rfl
    rwa [hopen] at hlist
  · have hlist := @listing_inside_iff _ 160 hcap _ (lit "]\n")
      (by rw [hopen, controlReplyCap]; omega) (routeRows r) _ fun _ => Or.inr rfl
    rwa [hopen] at hlist
  · have hlist := @listing_inside_iff _ 512 hcap' _ (lit "]")
      (by rw [hopen', apiServicesCap]; omega) (liveRows now services restarts) _
      fun h => Or.inl (Nat.succ_le_of_lt h)
    rwa [hopen'] at hlist

/-- Thirty services with paths of 255 bytes. -/
def thirtyServices : NtcRegistry where
  services := (List.range 30).map fun i => ([UInt8.ofNat (65 + i)], List.replicate 255 98)

/-- `service-list` prints the end of its reply 121 bytes behind the buffer. -/
theorem serviceList_past_end :
    ¬ (serviceList thirtyServices).Inside controlReplyCap
      (serviceList thirtyServices).text.length := by
  intro h
  have hlast : 8313 ∈ (serviceList thirtyServices).offs := by decide +kernel
  exact absurd (h.offs _ hlast) (by decide)

end Naitron
