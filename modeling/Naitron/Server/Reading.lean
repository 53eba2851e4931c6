/-
  Naitron.Server.Reading

  How the gateway reads a request off a connection, over all divisions of its
  bytes into readable events.

  `process_request` parses the whole buffer anew after each event; the first
  outcome other than to wait for more is final.  What it says of a part of the
  bytes it says of all of them, except that a head which is not complete after
  `NTC_MAX_HEADER_BYTES` is refused, and a complete one of that size is not.
-/

import Naitron.HttpGrammar
import Naitron.Server.Ipc

namespace Naitron

variable (E : Ext)

-- ============================================================================
-- Decisions
-- ============================================================================

/-- What the gateway decides about the bytes of a connection. -/
inductive Decision where
  | pending
  | closed
  | refused (status : Nat)
  | dispatched (method path query : Bytes) (headers : List NtcHeader)
deriving DecidableEq, Repr

def Framing.decision : Framing → Decision
  | .wait => .pending
  | .close => .closed
  | .refuse status _ => .refused status
  | .ready req => .dispatched req.method req.path req.query req.headers

/-- The decision on buffered bytes of a client that stays. -/
def verdict (maxBody : Nat) (buf : Bytes) : Decision := (frameRequest maxBody buf false).decision

theorem Framing.decision_pending {f : Framing} : f.decision = .pending ↔ f = .wait := by
  cases f <;> simp [Framing.decision]

/-- What a readable event makes of the buffered bytes. -/
def readFraming (maxBody : Nat) (rbuf : Bytes) (rs : List RecvResult) : Framing :=
  match connRecv rs rbuf with
  | (.failed, _) => .close
  | (.eof, buf) => frameRequest maxBody buf true
  | (.open, buf) => frameRequest maxBody buf false

/-- What `process_request` does about it. -/
def carryOut (g : Gateway) (k : ConnId) (c : Conn) : Framing → Rc × Gateway
  | .wait => (.zero, g)
  | .close => (.neg, connClose E g k)
  | .refuse status body => respondAndFlush E g k status body
  | .ready req =>
      let gzip := sliceHas (ntcHttpHeader req (lit "accept-encoding")) (lit "gzip")
      let g := g.modConn k fun c => { c with acceptGzip := gzip }
      if c.isAdmin then handleAdmin E g k req
      else
        match runMiddleware E g k c req with
        | (some r, g) => sendResp E g k r.status r.contentType r.body
        | (none, g) => gwDispatch E g k req

theorem processRequest_eq {g : Gateway} {k : ConnId} {c : Conn} (hc : g.conns k = some c)
    (eof : Bool) :
    processRequest E g k eof = carryOut E g k c (frameRequest g.maxBody c.rbuf eof) := by
  rw [processRequest, hc]
  dsimp only
  cases frameRequest g.maxBody c.rbuf eof <;> rfl

-- ============================================================================
-- One event
-- ============================================================================

/-- The room of the read buffer is enough for what comes. -/
theorem connRecv_quiet : ∀ (rs : List RecvResult) (buf : Bytes), recvEnds rs = false →
    buf.length + (recvBytes rs).length ≤ ntcConnRbuf →
    connRecv rs buf = (.open, buf ++ recvBytes rs) := by
  intro rs
  induction rs with
  | nil =>
      intro buf _ _
      rw [connRecv]
      simp [recvBytes]
  | cons r rs ih =>
      intro buf hends hlen
      cases r with
      | data b bs =>
          simp only [recvBytes, List.length_append, List.length_cons] at hlen
          have htake : (b :: bs).take (ntcConnRbuf - buf.length) = b :: bs :=
            List.take_of_length_le (by rw [List.length_cons]; omega)
          rw [connRecv, if_neg (by omega), htake, ih (buf ++ b :: bs) hends
            (by simp only [List.length_append, List.length_cons]; omega), recvBytes,
            List.append_assoc]
      | eintr =>
          rw [connRecv]
          split
          · rename_i hfull
            have hnil : (recvBytes (.eintr :: rs)).length = 0 := by omega
            rw [List.length_eq_zero_iff.mp hnil, List.append_nil]
          · exact ih buf hends hlen
      | eagain =>
          have hnil : recvBytes (.eagain :: rs) = [] := rfl
          rw [hnil, List.append_nil]
          unfold connRecv
          split <;> rfl
      | eof | error => cases hends

theorem modConn_maxBody (g : Gateway) (k : ConnId) (F : Conn → Conn) :
    (g.modConn k F).maxBody = g.maxBody := by
  rw [Gateway.modConn]
  split <;> rfl

/-- An event that brings bytes and no end of file. -/
theorem onReadable_quiet {g : Gateway} {k : ConnId} {c : Conn} (hc : g.conns k = some c)
    {rs : List RecvResult} (hends : recvEnds rs = false)
    (hlen : c.rbuf.length + (recvBytes rs).length ≤ ntcConnRbuf) :
    readFraming g.maxBody c.rbuf rs = frameRequest g.maxBody (c.rbuf ++ recvBytes rs) false ∧
      onReadable E g k rs = carryOut E
        (g.modConn k fun c' => { c' with rbuf := c.rbuf ++ recvBytes rs }) k
        { c with rbuf := c.rbuf ++ recvBytes rs } (readFraming g.maxBody c.rbuf rs) := by
  have hrecv := connRecv_quiet rs c.rbuf hends hlen
  have hframing : readFraming g.maxBody c.rbuf rs =
      frameRequest g.maxBody (c.rbuf ++ recvBytes rs) false := by
    rw [readFraming, hrecv]
  refine ⟨hframing, ?_⟩
  have hc' : (g.modConn k fun c' => { c' with rbuf := c.rbuf ++ recvBytes rs }).conns k =
      some { c with rbuf := c.rbuf ++ recvBytes rs } := modConn_conn hc _
  rw [onReadable, hc]
  dsimp only
  rw [hrecv]
  dsimp only
  rw [processRequest_eq E hc', hframing, modConn_maxBody]

-- ============================================================================
-- A part of the bytes
-- ============================================================================

theorem findEoh_append {s : Bytes} {i : Nat} (h : findEoh s = some i) (more : Bytes) :
    findEoh (s ++ more) = some i := by
  obtain ⟨hat, hfirst⟩ := findEoh_iff.mp h
  have hle := findEoh_le h
  refine findEoh_iff.mpr ⟨?_, fun j hj hpre => hfirst j hj ?_⟩
  · rw [List.drop_append_of_le_length (by omega)]
    exact hat.trans (List.prefix_append _ _)
  · rw [List.drop_append_of_le_length (by omega)] at hpre
    refine List.prefix_of_prefix_length_le hpre (List.prefix_append _ _) ?_
    rw [List.length_drop]
    simp only [crlf, List.length_append, List.length_cons, List.length_nil]
    omega

/-- Bytes behind a complete head are body. -/
theorem ntcHttpParseRequest_append {s : Bytes} {i : Nat} (h : findEoh s = some i) (more : Bytes) :
    (ntcHttpParseRequest s = .error → ntcHttpParseRequest (s ++ more) = .error) ∧
      ∀ req n, ntcHttpParseRequest s = .ok req n →
        ntcHttpParseRequest (s ++ more) = .ok { req with body := req.body ++ more } n := by
  have hle := findEoh_le h
  have htake : (s ++ more).take (i + 2) = s.take (i + 2) :=
    List.take_append_of_le_length (by omega)
  have hdrop : (s ++ more).drop (i + 4) = s.drop (i + 4) ++ more :=
    List.drop_append_of_le_length (by omega)
  rw [ntcHttpParseRequest, ntcHttpParseRequest, h, findEoh_append h more]
  dsimp only
  rw [htake, hdrop]
  split
  · exact ⟨fun _ => rfl, fun _ _ hok => (by cases hok)⟩
  · split
    · exact ⟨fun _ => rfl, fun _ _ hok => (by cases hok)⟩
    · split
      · exact ⟨fun _ => rfl, fun _ _ hok => (by cases hok)⟩
      · refine ⟨fun herr => (by cases herr), fun req n hok => ?_⟩
        cases hok
        rfl

/-- A decision on a complete head stands. -/
theorem verdict_append {maxBody : Nat} {s : Bytes} {i : Nat} (h : findEoh s = some i)
    (more : Bytes) (hlen : (s ++ more).length ≤ ntcConnRbuf)
    (hdone : verdict maxBody s ≠ .pending) :
    verdict maxBody (s ++ more) = verdict maxBody s := by
  obtain ⟨herr, hok⟩ := ntcHttpParseRequest_append h more
  rw [List.length_append] at hlen
  cases hparse : ntcHttpParseRequest s with
  | incomplete =>
      have hnone := ((ntcHttpParseRequest_grammar s).1.mp hparse).1
      rw [findEoh_none_iff.mpr hnone] at h
      cases h
  | error => rw [verdict, verdict, frameRequest, frameRequest, hparse, herr hparse]
  | ok req n =>
      rw [verdict, frameRequest, hparse] at hdone
      rw [verdict, verdict, frameRequest, frameRequest, hparse, hok req n hparse]
      dsimp only at hdone ⊢
      split
      · rfl
      · rename_i hmax
        rw [if_neg hmax] at hdone
        split
        · rfl
        · rename_i hfits
          rw [if_neg hfits] at hdone
          by_cases hneed : req.hasContentLength = true ∧ s.length < n + req.contentLength
          · -- a body that is not there is refused once the buffer is full
            rw [if_pos hneed, if_neg Bool.false_ne_true] at hdone
            have hfull : ¬ s.length < ntcConnRbuf := by
              intro hroom
              rw [if_pos hroom] at hdone
              exact hdone rfl
            obtain rfl : more = [] := List.length_eq_zero_iff.mp (by omega)
            rw [List.append_nil, if_pos hneed, if_pos hneed]
          · rw [if_neg hneed, if_neg]
            · rfl
            · rintro ⟨hhas, hlt⟩
              rw [List.length_append] at hlt
              exact hneed ⟨hhas, by omega⟩

/-- Without a complete head the only decision is that it is too long. -/
theorem verdict_noHead {maxBody : Nat} {s : Bytes} (h : findEoh s = none) :
    verdict maxBody s = if ntcMaxHeaderBytes < s.length then .refused 400 else .pending := by
  rw [verdict, frameRequest, ntcHttpParseRequest, h]
  dsimp only
  by_cases hlong : ntcMaxHeaderBytes < s.length
  · rw [if_pos hlong, if_pos hlong]
    rfl
  · have hroom : s.length < ntcConnRbuf := (not_lt.mp hlong).trans_lt (by decide)
    rw [if_neg hlong, if_neg hlong]
    dsimp only
    rw [if_neg Bool.false_ne_true, if_pos hroom]
    rfl

/-- A head that is well formed but not complete after `NTC_MAX_HEADER_BYTES`. -/
def LateHead (bs : Bytes) (i : Nat) (head : HttpHead) : Prop :=
  FirstAt (crlf ++ crlf) bs i ∧ ntcMaxHeaderBytes < i + 3 ∧
    SplitsAtCrlf (bs.take i) head.pieces ∧ head.Valid

/-- Decisions on parts of the bytes agree with the one on all of them, unless
    the head is late. -/
theorem verdict_prefix {maxBody : Nat} {s more : Bytes} (hlen : (s ++ more).length ≤ ntcConnRbuf)
    (hlate : ∀ i head, ¬ LateHead (s ++ more) i head) (hdone : verdict maxBody s ≠ .pending) :
    verdict maxBody s = verdict maxBody (s ++ more) := by
  cases hs : findEoh s with
  | some i => exact (verdict_append hs more hlen hdone).symm
  | none =>
      have hverdict := @verdict_noHead maxBody s hs
      have hlong : ntcMaxHeaderBytes < s.length := by
        by_contra hshort
        rw [if_neg hshort] at hverdict
        exact hdone hverdict
      rw [hverdict, if_pos hlong]
      cases hall : findEoh (s ++ more) with
      | none =>
          rw [verdict_noHead hall, if_pos]
          rw [List.length_append]
          omega
      | some i =>
          -- the head is complete only behind the part, so it is malformed
          have hfirst := findEoh_iff.mp hall
          have hle := findEoh_le hall
          have hbehind : s.length < i + 4 := by
            by_contra hin
            have hat : crlf ++ crlf <+: s.drop i := by
              have hpre := hfirst.1
              rw [List.drop_append_of_le_length (by omega)] at hpre
              refine List.prefix_of_prefix_length_le hpre (List.prefix_append _ _) ?_
              rw [List.length_drop]
              simp only [crlf, List.length_append, List.length_cons, List.length_nil]
              omega
            exact findEoh_none_iff.mp hs (hat.isInfix.trans (List.drop_suffix i s).isInfix)
          have herr : ntcHttpParseRequest (s ++ more) = .error := by
            cases hparse : ntcHttpParseRequest (s ++ more) with
            | error => rfl
            | incomplete =>
                have hnone := ((ntcHttpParseRequest_grammar _).1.mp hparse).1
                rw [findEoh_none_iff.mpr hnone] at hall
                cases hall
            | ok req n =>
                obtain ⟨head, hsplit, hvalid, -⟩ :=
                  (ntcHttpParseRequest_ok_iff hfirst req n).mp hparse
                exact absurd ⟨hfirst, by omega, hsplit, hvalid⟩ (hlate i head)
          rw [verdict, frameRequest, herr]
          rfl

/-- All of the bytes of a late head are not refused as the part is. -/
theorem LateHead.verdicts {maxBody : Nat} {bs : Bytes} {i : Nat} {head : HttpHead}
    (h : LateHead bs i head) (hlen : bs.length ≤ ntcConnRbuf) (hpos : 0 < maxBody)
    (hmax : maxBody ≤ ntcConnRbuf) :
    verdict maxBody (bs.take (ntcMaxHeaderBytes + 1)) = .refused 400 ∧
      verdict maxBody bs ≠ .refused 400 := by
  obtain ⟨hfirst, hlong, hsplit, hvalid⟩ := h
  have hle := findEoh_le (findEoh_iff.mpr hfirst)
  constructor
  · have hnone : findEoh (bs.take (ntcMaxHeaderBytes + 1)) = none := by
      cases hfind : findEoh (bs.take (ntcMaxHeaderBytes + 1)) with
      | none => rfl
      | some j =>
          have hj := findEoh_le hfind
          have hall := findEoh_append hfind (bs.drop (ntcMaxHeaderBytes + 1))
          rw [List.take_append_drop] at hall
          obtain rfl : i = j := Option.some.inj ((findEoh_iff.mpr hfirst).symm.trans hall)
          rw [List.length_take] at hj
          omega
    rw [verdict_noHead hnone, if_pos]
    rw [List.length_take]
    omega
  · have hok := (ntcHttpParseRequest_ok_iff hfirst _ _).mpr ⟨head, hsplit, hvalid, rfl, rfl⟩
    have hsize : sizeMax = 2 ^ 64 := rfl
    have hroom : ntcConnRbuf = 65536 := rfl
    rw [verdict, frameRequest, hok]
    dsimp only
    split
    · decide
    · rename_i hsmall
      split
      · rename_i hbig
        have hcl : (head.request (bs.drop (i + 4))).contentLength ≤ maxBody := by
          by_contra hover
          exact hsmall ⟨hbig.1, by omega, by omega⟩
        omega
      · split
        · rw [if_neg Bool.false_ne_true]
          split <;> decide
        · exact fun hd => (by cases hd)

-- ============================================================================
-- Runs
-- ============================================================================

/-- What else the gateway does between two events of a connection: nothing to
    the connection, nor to the limit on bodies. -/
structure Meanwhile (k : ConnId) (g g' : Gateway) : Prop where
  conn : g'.conns k = g.conns k
  maxBody : g'.maxBody = g.maxBody

/-- Readable events of a connection, one after another, up to the one that
    decides. -/
inductive Reads (k : ConnId) : Gateway → List (List RecvResult) → Framing → Gateway → Prop
  | done (g : Gateway) : Reads k g [] .wait g
  | waits {g g₁ g' : Gateway} {c : Conn} {rs : List RecvResult} {evs : List (List RecvResult)}
      {f : Framing} (before : Meanwhile k g g₁) (conn : g₁.conns k = some c)
      (wait : readFraming g₁.maxBody c.rbuf rs = .wait)
      (rest : Reads k (onReadable E g₁ k rs).2 evs f g') : Reads k g (rs :: evs) f g'
  | decides {g g₁ : Gateway} {c : Conn} {rs : List RecvResult} {evs : List (List RecvResult)}
      (before : Meanwhile k g g₁) (conn : g₁.conns k = some c)
      (decided : readFraming g₁.maxBody c.rbuf rs ≠ .wait) :
      Reads k g (rs :: evs) (readFraming g₁.maxBody c.rbuf rs) (onReadable E g₁ k rs).2

/-- Events that bring these bytes, in some division. -/
structure Divides (evs : List (List RecvResult)) (bs : Bytes) : Prop where
  stays : ∀ rs ∈ evs, recvEnds rs = false
  bytes : evs.flatMap recvBytes = bs

variable {k : ConnId}

theorem Divides.tail {rs : List RecvResult} {evs : List (List RecvResult)} {bs : Bytes}
    (h : Divides (rs :: evs) bs) :
    recvEnds rs = false ∧ Divides evs (evs.flatMap recvBytes) ∧
      bs = recvBytes rs ++ evs.flatMap recvBytes :=
  ⟨h.stays rs List.mem_cons_self, ⟨fun r hr => h.stays r (List.mem_cons_of_mem rs hr), rfl⟩,
    h.bytes.symm.trans List.flatMap_cons⟩

/-- A run decides on some part of the bytes, and on all of them if it has not
    before. -/
theorem Reads.decision {g g' : Gateway} {evs : List (List RecvResult)} {f : Framing}
    (h : Reads E k g evs f g') : ∀ {c : Conn} {bs : Bytes}, g.conns k = some c → Divides evs bs →
      (c.rbuf ++ bs).length ≤ ntcConnRbuf → verdict g.maxBody c.rbuf = .pending →
      ∃ s more, c.rbuf ++ bs = s ++ more ∧ f.decision = verdict g.maxBody s ∧
        (verdict g.maxBody s = .pending → more = []) := by
  induction h with
  | done g =>
      intro c bs hc hdiv _ hidle
      obtain rfl : bs = [] := hdiv.bytes.symm
      exact ⟨c.rbuf, [], rfl, hidle.symm, fun _ => rfl⟩
  | @waits g g₁ g' c₁ rs evs f before conn wait rest ih =>
      intro c bs hc hdiv hlen _
      obtain ⟨hstays, htail, rfl⟩ := hdiv.tail
      obtain rfl : c₁ = c := Option.some.inj (conn.symm.trans (before.conn.trans hc))
      rw [← List.append_assoc] at hlen ⊢
      have hroom : c₁.rbuf.length + (recvBytes rs).length ≤ ntcConnRbuf := by
        simp only [List.length_append] at hlen
        omega
      obtain ⟨hframing, hnext⟩ := onReadable_quiet E conn hstays hroom
      rw [hnext, wait] at ih
      rw [hframing] at wait
      have hconn : (carryOut E (g₁.modConn k fun c' => { c' with rbuf := c₁.rbuf ++ recvBytes rs })
          k { c₁ with rbuf := c₁.rbuf ++ recvBytes rs } .wait).2.conns k =
            some { c₁ with rbuf := c₁.rbuf ++ recvBytes rs } := modConn_conn conn _
      have hmax : (carryOut E (g₁.modConn k fun c' => { c' with rbuf := c₁.rbuf ++ recvBytes rs })
          k { c₁ with rbuf := c₁.rbuf ++ recvBytes rs } .wait).2.maxBody = g.maxBody :=
        (modConn_maxBody g₁ k _).trans before.maxBody
      have hpending : verdict g.maxBody (c₁.rbuf ++ recvBytes rs) = .pending := by
        rw [verdict, ← before.maxBody, wait]
        rfl
      have hrest := ih hconn htail hlen (by rw [hmax]; exact hpending)
      rw [hmax] at hrest
      exact hrest
  | @decides g g₁ c₁ rs evs before conn decided =>
      intro c bs hc hdiv hlen _
      obtain ⟨hstays, htail, rfl⟩ := hdiv.tail
      obtain rfl : c₁ = c := Option.some.inj (conn.symm.trans (before.conn.trans hc))
      have hroom : c₁.rbuf.length + (recvBytes rs).length ≤ ntcConnRbuf := by
        simp only [List.length_append] at hlen
        omega
      obtain ⟨hframing, -⟩ := onReadable_quiet E conn hstays hroom
      refine ⟨c₁.rbuf ++ recvBytes rs, evs.flatMap recvBytes, (List.append_assoc _ _ _).symm,
        ?_, fun hpending => ?_⟩
      · rw [hframing, before.maxBody]
        rfl
      · rw [hframing, before.maxBody] at decided
        exact absurd (Framing.decision_pending.mp hpending) decided

/-- A run over one event. -/
theorem reads_one {g : Gateway} {c : Conn} (hc : g.conns k = some c) (hempty : c.rbuf = [])
    {rs : List RecvResult} (hstays : recvEnds rs = false)
    (hlen : (recvBytes rs).length ≤ ntcConnRbuf) (evs : List (List RecvResult)) :
    (verdict g.maxBody (recvBytes rs) ≠ .pending →
      ∃ f g', Reads E k g (rs :: evs) f g' ∧ f.decision = verdict g.maxBody (recvBytes rs)) ∧
    (evs = [] →
      ∃ f g', Reads E k g (rs :: evs) f g' ∧ f.decision = verdict g.maxBody (recvBytes rs)) := by
  have hroom : c.rbuf.length + (recvBytes rs).length ≤ ntcConnRbuf := by
    rw [hempty, List.length_nil, Nat.zero_add]
    exact hlen
  obtain ⟨hframing, -⟩ := onReadable_quiet E hc hstays hroom
  have hdecision : (readFraming g.maxBody c.rbuf rs).decision =
      verdict g.maxBody (recvBytes rs) := by
    rw [hframing, hempty]
    rfl
  constructor
  · intro hdone
    have hnow : readFraming g.maxBody c.rbuf rs ≠ .wait := by
      intro hwait
      rw [← hdecision, hwait] at hdone
      exact hdone rfl
    exact ⟨_, _, .decides ⟨rfl, rfl⟩ hc hnow, hdecision⟩
  · rintro rfl
    by_cases hwait : readFraming g.maxBody c.rbuf rs = .wait
    · rw [hwait] at hdecision
      exact ⟨_, _, .waits ⟨rfl, rfl⟩ hc hwait (.done _), hdecision⟩
    · exact ⟨_, _, .decides ⟨rfl, rfl⟩ hc hwait, hdecision⟩

-- ============================================================================
-- All divisions
-- ============================================================================

/-- However the bytes are divided into events, the decision is the same. -/
def PacketInsensitive (g : Gateway) (k : ConnId) (bs : Bytes) : Prop :=
  ∀ evs₁ evs₂ f₁ f₂ g₁ g₂, Divides evs₁ bs → Divides evs₂ bs →
    Reads E k g evs₁ f₁ g₁ → Reads E k g evs₂ f₂ g₂ → f₁.decision = f₂.decision

theorem recvOf_divides (bs : Bytes) : recvEnds (recvOf bs) = false ∧ recvBytes (recvOf bs) = bs := by
  cases bs with
  | nil => exact ⟨rfl, rfl⟩
  | cons b bs => exact ⟨rfl, List.append_nil _⟩

/-- A late head is refused or not by where the bytes are divided. -/
theorem LateHead.sensitive {g : Gateway} {c : Conn} (hc : g.conns k = some c)
    (hempty : c.rbuf = []) (hpos : 0 < g.maxBody) (hmax : g.maxBody ≤ ntcConnRbuf) {bs : Bytes}
    (hlen : bs.length ≤ ntcConnRbuf) {i : Nat} {head : HttpHead} (h : LateHead bs i head) :
    ¬ PacketInsensitive E g k bs := by
  intro hsame
  obtain ⟨hpart, hall⟩ := h.verdicts hlen hpos hmax
  obtain ⟨hwhole, hbytes⟩ := recvOf_divides bs
  obtain ⟨hfirst, hbytes₁⟩ := recvOf_divides (bs.take (ntcMaxHeaderBytes + 1))
  obtain ⟨hsecond, hbytes₂⟩ := recvOf_divides (bs.drop (ntcMaxHeaderBytes + 1))
  have hlen₁ : (recvBytes (recvOf (bs.take (ntcMaxHeaderBytes + 1)))).length ≤ ntcConnRbuf := by
    rw [hbytes₁, List.length_take]
    omega
  -- all at once
  obtain ⟨f, g', hrun, hdecision⟩ :=
    (reads_one E hc hempty hwhole (by rw [hbytes]; exact hlen) []).2 rfl
  -- cut behind the limit
  obtain ⟨f₁, g₁, hrun₁, hdecision₁⟩ := (reads_one E hc hempty hfirst hlen₁
    [recvOf (bs.drop (ntcMaxHeaderBytes + 1))]).1 (by rw [hbytes₁, hpart]; decide)
  have hone : Divides [recvOf bs] bs := by
    refine ⟨fun rs hrs => ?_, ?_⟩
    · obtain rfl := List.mem_singleton.mp hrs
      exact hwhole
    · rw [List.flatMap_singleton, hbytes]
  have htwo : Divides [recvOf (bs.take (ntcMaxHeaderBytes + 1)),
      recvOf (bs.drop (ntcMaxHeaderBytes + 1))] bs := by
    refine ⟨fun rs hrs => ?_, ?_⟩
    · rcases List.mem_pair.mp hrs with rfl | rfl
      · exact hfirst
      · exact hsecond
    · rw [List.flatMap_cons, List.flatMap_singleton, hbytes₁, hbytes₂, List.take_append_drop]
  have heq := hsame _ _ _ _ _ _ hone htwo hrun hrun₁
  rw [hdecision, hdecision₁, hbytes, hbytes₁, hpart] at heq
  exact hall heq

/-- The decision on the bytes of a connection does not depend on how they are
    divided into events exactly when they have no head that is well formed but
    complete only behind `NTC_MAX_HEADER_BYTES`. -/
theorem onReadable_packetInsensitive_iff {g : Gateway} {c : Conn} (hc : g.conns k = some c)
    (hempty : c.rbuf = []) (hpos : 0 < g.maxBody) (hmax : g.maxBody ≤ ntcConnRbuf) {bs : Bytes}
    (hlen : bs.length ≤ ntcConnRbuf) :
    PacketInsensitive E g k bs ↔ ∀ i head, ¬ LateHead bs i head := by
  constructor
  · intro hsame i head hlate
    exact hlate.sensitive E hc hempty hpos hmax hlen hsame
  · intro hlate
    -- the decision of every run is the one on all of the bytes
    have hall : ∀ {evs : List (List RecvResult)} {f : Framing} {g' : Gateway}, Divides evs bs →
        Reads E k g evs f g' → f.decision = verdict g.maxBody bs := by
      intro evs f g' hdiv hrun
      have hstart : verdict g.maxBody c.rbuf = .pending := by
        rw [hempty]
        exact verdict_noHead rfl
      obtain ⟨s, more, hbytes, hdecision, hrest⟩ := hrun.decision E hc hdiv
        (by rw [hempty]; exact hlen) hstart
      rw [hempty, List.nil_append] at hbytes
      subst hbytes
      rw [hdecision]
      by_cases hpending : verdict g.maxBody s = .pending
      · rw [hrest hpending, List.append_nil]
      · exact verdict_prefix hlen hlate hpending
    intro evs₁ evs₂ f₁ f₂ g₁ g₂ hdiv₁ hdiv₂ hrun₁ hrun₂
    exact (hall hdiv₁ hrun₁).trans (hall hdiv₂ hrun₂).symm

theorem helloConnected_idle : ∃ c, (helloConnected quietExt).conns 0 = some c ∧ c.rbuf = [] := by
  have h : ((helloConnected quietExt).conns 0).map (·.rbuf) = some [] := by decide +kernel
  exact Option.map_eq_some_iff.mp h

theorem helloConnected_maxBody :
    0 < (helloConnected quietExt).maxBody ∧ (helloConnected quietExt).maxBody ≤ ntcConnRbuf := by
  decide +kernel

/-- The request of the run comes in whatever pieces. -/
theorem onReadable_packetInsensitive_hello :
    PacketInsensitive quietExt (helloConnected quietExt) 0 (lit "GET /hello HTTP/1.1\r\n\r\n") ↔
      ∀ i head, ¬ LateHead (lit "GET /hello HTTP/1.1\r\n\r\n") i head := by
  obtain ⟨c, hc, hempty⟩ := helloConnected_idle
  exact onReadable_packetInsensitive_iff quietExt hc hempty helloConnected_maxBody.1
    helloConnected_maxBody.2 (by decide)

/-- A request with one header of 32 KiB. -/
def lateHead : HttpHead :=
  ⟨lit "GET", lit "/", .v11, [⟨lit "X", List.replicate ntcMaxHeaderBytes 97⟩]⟩

theorem lateHead_noCrlf : ∀ l ∈ lateHead.pieces, NoCrlf l := by
  intro l hl
  rcases List.mem_pair.mp hl with rfl | rfl
  · exact noCrlf_of_notMem (by decide)
  · refine noCrlf_of_notMem fun hcr => ?_
    rcases List.mem_append.mp hcr with hname | hvalue
    · exact absurd hname (by decide)
    · rcases List.mem_cons.mp hvalue with hcolon | hfill
      · exact absurd hcolon (by decide)
      · exact absurd (List.eq_of_mem_replicate hfill) (by decide)

theorem lateHead_valid : lateHead.Valid where
  method := by decide
  targetNonempty := by decide
  targetSpace := by decide
  count := by decide
  names := by
    intro l hl
    obtain rfl := List.mem_singleton.mp hl
    decide
  lengths := by
    intro d hd hcl
    obtain rfl := List.mem_singleton.mp hd
    exact absurd hcl (by decide)
  agree := by
    intro d hd _ _ hcl
    obtain rfl := List.mem_singleton.mp hd
    exact absurd hcl (by decide)

theorem lateHead_length : lateHead.bytes.length = 32790 := by
  have hline : lateHead.requestLine.length = 14 := by decide
  have hheader : ∀ n, (HeaderLine.bytes ⟨lit "X", List.replicate n 97⟩).length = n + 2 := by
    intro n
    rw [HeaderLine.bytes, List.length_append, List.length_cons, List.length_replicate]
    exact Nat.add_comm 1 (n + 1)
  have hpieces : lateHead.pieces =
      [lateHead.requestLine, HeaderLine.bytes ⟨lit "X", List.replicate ntcMaxHeaderBytes 97⟩] := rfl
  rw [HttpHead.length_bytes, hpieces, intercalate_crlf_cons, List.length_append, List.length_append,
    hline, List.intercalate, List.intersperse_singleton, List.flatten_singleton, hheader]
  decide

/-- It is served when it comes at once, and refused when it comes in two. -/
theorem late_head_depends_on_packets :
    lateHead.bytes.length ≤ ntcConnRbuf ∧
      ¬ PacketInsensitive quietExt (helloConnected quietExt) 0 lateHead.bytes := by
  have hlen : lateHead.bytes.length ≤ ntcConnRbuf := by
    rw [lateHead_length]
    decide
  refine ⟨hlen, ?_⟩
  obtain ⟨c, hc, hempty⟩ := helloConnected_idle
  have hlate : LateHead lateHead.bytes (crlf.intercalate lateHead.pieces).length lateHead := by
    have hfirst := HttpHead.firstAt lateHead_noCrlf []
    have hsplit := HttpHead.splitsAtCrlf lateHead_noCrlf []
    rw [List.append_nil] at hfirst hsplit
    refine ⟨hfirst, ?_, hsplit, lateHead_valid⟩
    have hbytes := lateHead.length_bytes
    rw [lateHead_length] at hbytes
    have hmax : ntcMaxHeaderBytes = 32768 := rfl
    omega
  exact hlate.sensitive quietExt hc hempty helloConnected_maxBody.1 helloConnected_maxBody.2 hlen

end Naitron
