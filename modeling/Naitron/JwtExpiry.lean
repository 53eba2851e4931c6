/-
  Naitron.JwtExpiry

  Which tokens the expiry test of `jwt_parse_claims` turns away, over the JSON
  texts of the payload.
-/

import Naitron.Base64
import Naitron.Jwt
import Naitron.Strtod

namespace Naitron

-- ============================================================================
-- Decoding with room for anything
-- ============================================================================

/-- The bytes that a base64url segment stands for. -/
def DecodesTo (seg buf : Bytes) : Prop := ∃ cap, ntcBase64urlDecode seg cap = some buf

theorem base64Loop_room : ∀ (s : Bytes) (acc bits : UInt32) (room : Nat) (out : Bytes),
    base64Loop s acc bits room = some out → ∀ room' : Nat,
      base64Loop s acc bits room' = if out.length ≤ room' then some out else none := by
  intro s
  induction s with
  | nil =>
      intro acc bits room out h room'
      cases h
      rfl
  | cons c s ih =>
      intro acc bits room out h room'
      rw [base64Loop] at h ⊢
      cases hv : b64val c with
      | none =>
          rw [hv] at h
          cases h
      | some v =>
          rw [hv] at h
          dsimp only at h ⊢
          by_cases hbits : 8 ≤ bits + 6
          · rw [if_pos hbits] at h ⊢
            cases room with
            | zero => cases h
            | succ room =>
                obtain ⟨rest, hrest, rfl⟩ := Option.map_eq_some_iff.mp h
                cases room' with
                | zero => rfl
                | succ room' =>
                    dsimp only
                    rw [ih _ _ _ _ hrest room', List.length_cons]
                    by_cases hroom : rest.length ≤ room'
                    · rw [if_pos hroom, if_pos (by omega)]
                      rfl
                    · rw [if_neg hroom, if_neg (by omega)]
                      rfl
          · rw [if_neg hbits] at h ⊢
            exact ih _ _ _ _ h room'

/-- The decoder has room for the bytes, or refuses them. -/
theorem DecodesTo.decode {seg buf : Bytes} (h : DecodesTo seg buf) (cap : Nat) :
    ntcBase64urlDecode seg cap = if buf.length ≤ cap then some buf else none := by
  obtain ⟨room, hroom⟩ := h
  exact base64Loop_room seg 0 0 room buf hroom cap

-- ============================================================================
-- The member named exp
-- ============================================================================

/-- A pair is a character of four bytes. -/
theorem utf8_pair_head {hi lo : Nat} (hhi : isHigh hi = true) (hlo : isLow lo = true) :
    ∃ d rest, utf8 (pairValue hi lo) = d :: rest ∧ 0xF0 ≤ d := by
  simp only [isHigh, isLow, Bool.and_eq_true, decide_eq_true_eq] at hhi hlo
  have hval : pairValue hi lo = 0x10000 + (hi - 0xD800) * 0x400 + (lo - 0xDC00) := rfl
  have hvalid : (pairValue hi lo).isValidChar := .inr ⟨by omega, by omega⟩
  rw [utf8, String.utf8EncodeChar, toNat_ofNat_of_valid hvalid]
  rw [if_neg (by omega), if_neg (by omega), if_neg (by omega)]
  refine ⟨_, _, rfl, UInt8.le_iff_toNat_le.mpr ?_⟩
  have hlt : pairValue hi lo / 262144 % 8 < 8 := Nat.mod_lt _ (by decide)
  rw [UInt8.toNat_ofNat', show (0xF0 : UInt8).toNat = 240 from rfl]
  omega

/-- Half of a pair, encoded by itself. -/
theorem encodeUnit_surrogate {u : Nat} (h : (isHigh u || isLow u) = true) :
    ∃ rest, encodeUnit u = 0xED :: rest := by
  have hrange : 0xD800 ≤ u ∧ u < 0xE000 := by
    simp only [isHigh, isLow, Bool.or_eq_true, Bool.and_eq_true, decide_eq_true_eq] at h
    omega
  have hshift : u >>> 12 = 13 := by
    rw [Nat.shiftRight_eq_div_pow]
    omega
  rw [encodeUnit, if_neg (by omega), if_neg (by omega), hshift]
  exact ⟨_, rfl⟩

/-- What the parser has agrees with the text up to the first surrogate. -/
theorem textOf_diverges (ps : List StrPiece) : ∀ {t : Bytes}, textOf ps = some t →
    (∃ p ∈ ps, p.isSurrogate = true) →
      ∃ pre d, 0xF0 ≤ d ∧ pre ++ [0xED] <+: codeString ps ∧ pre ++ [d] <+: t := by
  have hcons : ∀ {x s t : Bytes} {ps : List StrPiece},
      (∃ pre d, 0xF0 ≤ d ∧ pre ++ [0xED] <+: codeString ps ∧ pre ++ [d] <+: t) →
        s = x ++ codeString ps →
        ∃ pre d, 0xF0 ≤ d ∧ pre ++ [0xED] <+: s ∧ pre ++ [d] <+: x ++ t := by
    rintro x s t ps ⟨pre, d, hd, hcode, htext⟩ rfl
    refine ⟨x ++ pre, d, hd, ?_, ?_⟩
    · rw [List.append_assoc]
      exact (List.prefix_append_right_inj x).mpr hcode
    · rw [List.append_assoc]
      exact (List.prefix_append_right_inj x).mpr htext
  have htail : ∀ {p : StrPiece} {ps : List StrPiece}, ¬ p.isSurrogate = true →
      (∃ q ∈ p :: ps, q.isSurrogate = true) → ∃ q ∈ ps, q.isSurrogate = true := by
    rintro p ps hp ⟨q, hq, hsur⟩
    rcases List.mem_cons.mp hq with rfl | hq
    · exact absurd hsur hp
    · exact ⟨q, hq, hsur⟩
  fun_induction textOf ps with
  | case1 =>
      rintro t _ ⟨p, hp, -⟩
      cases hp
  | case2 b ps ih =>
      intro t h hsur
      obtain ⟨t', ht', rfl⟩ := Option.map_eq_some_iff.mp h
      exact hcons (x := [b]) (ih ht' (htail (p := .raw b) Bool.false_ne_true hsur)) rfl
  | case3 e ps ih =>
      intro t h hsur
      obtain ⟨b, hb, hmap⟩ := Option.bind_eq_some_iff.mp h
      obtain ⟨t', ht', rfl⟩ := Option.map_eq_some_iff.mp hmap
      refine hcons (x := [b]) (ih ht' (htail (p := .escape e) Bool.false_ne_true hsur)) ?_
      rw [codeString_cons, StrPiece.code, hb]
      rfl
  | case4 a b c d ps ihPair ih =>
      intro t h hsur
      obtain ⟨hi, hhi, hrest⟩ := Option.bind_eq_some_iff.mp h
      rw [codeString_cons, code_unit hhi]
      split at hrest
      · rename_i hhigh
        split at hrest
        · -- both halves of a pair
          rename_i a' b' c' d' ps'
          obtain ⟨lo, hlo, hpair⟩ := Option.bind_eq_some_iff.mp hrest
          split at hpair
          · rename_i hlow
            obtain ⟨t', ht', rfl⟩ := Option.map_eq_some_iff.mp hpair
            obtain ⟨x, hx⟩ := encodeUnit_surrogate (u := hi) (by rw [hhigh, Bool.true_or])
            obtain ⟨d₁, y, hy, hd₁⟩ := utf8_pair_head hhigh hlow
            refine ⟨[], d₁, hd₁, ?_, ?_⟩
            · exact ⟨x ++ codeString _, by rw [hx]; rfl⟩
            · exact ⟨y ++ t', by rw [hy]; rfl⟩
          · cases hpair
        · cases hrest
      · rename_i hhigh
        split at hrest
        · cases hrest
        · rename_i hlow
          rw [Bool.not_eq_true] at hhigh hlow
          obtain ⟨t', ht', rfl⟩ := Option.map_eq_some_iff.mp hrest
          have hplain : ¬ (StrPiece.unit a b c d).isSurrogate = true := by
            rw [isSurrogate_unit hhi, hhigh, hlow]
            exact Bool.false_ne_true
          refine hcons (ih ht' (htail hplain hsur)) ?_
          rw [encodeUnit_eq_utf8 (hex4_lt hhi) hhigh hlow]

/-- Without surrogates a string has a text, and the parser has it. -/
theorem textOf_of_noSurrogate : ∀ {ps : List StrPiece}, (∀ p ∈ ps, p.Valid) →
    (∀ p ∈ ps, p.isSurrogate = false) → textOf ps = some (codeString ps) := by
  intro ps
  induction ps with
  | nil => exact fun _ _ => rfl
  | cons p ps ih =>
      intro hvalid hnone
      have hrest := ih (fun q hq => hvalid q (List.mem_cons_of_mem p hq))
        (fun q hq => hnone q (List.mem_cons_of_mem p hq))
      have hp := hvalid p List.mem_cons_self
      have hsur := hnone p List.mem_cons_self
      cases p with
      | raw b =>
          rw [textOf, hrest]
          rfl
      | escape e =>
          obtain ⟨b, hb⟩ := Option.isSome_iff_exists.mp hp
          rw [textOf, hrest, codeString_cons, StrPiece.code, hb]
          rfl
      | unit a b c d =>
          obtain ⟨u, hu⟩ := Option.isSome_iff_exists.mp hp
          rw [isSurrogate_unit hu, Bool.or_eq_false_iff] at hsur
          rw [textOf.eq_def]
          dsimp only
          rw [hu, Option.bind_some, hsur.1, hsur.2, hrest, codeString_cons, code_unit hu,
            encodeUnit_eq_utf8 (hex4_lt hu) hsur.1 hsur.2]
          rfl

/-- A surrogate leaves a byte that is not ASCII. -/
theorem code_of_isSurrogate {p : StrPiece} (h : p.isSurrogate = true) : 0xED ∈ p.code := by
  cases p with
  | raw | escape => cases h
  | unit a b c d =>
      cases hu : hex4 a b c d with
      | none =>
          rw [StrPiece.isSurrogate, hu] at h
          cases h
      | some u =>
          rw [isSurrogate_unit hu] at h
          obtain ⟨rest, hrest⟩ := encodeUnit_surrogate h
          rw [code_unit hu, hrest]
          exact List.mem_cons_self

theorem ascii_of_all {s : Bytes} (h : (s.all fun c => decide (c < 0x80)) = true) :
    ∀ c ∈ s, c < 0x80 := fun c hc => of_decide_eq_true (List.all_eq_true.mp h c hc)

/-- The parser takes a key for an ASCII name exactly if that is its text. -/
theorem codeString_eq_name {ps : List StrPiece} {name : Bytes} (hvalid : ∀ p ∈ ps, p.Valid)
    (hascii : ∀ c ∈ name, c < 0x80) : codeString ps = name ↔ textOf ps = some name := by
  constructor
  · intro h
    have hnone : ∀ p ∈ ps, p.isSurrogate = false := by
      intro p hp
      by_contra hsur
      rw [Bool.not_eq_false] at hsur
      refine absurd (hascii 0xED (h ▸ ?_)) (by decide)
      exact List.mem_flatMap.mpr ⟨p, hp, code_of_isSurrogate hsur⟩
    rw [textOf_of_noSurrogate hvalid hnone, h]
  · intro h
    refine (codeString_eq_iff h).mpr fun p hp => ?_
    by_contra hsur
    obtain ⟨pre, d, hd, -, hprefix⟩ := textOf_diverges ps h ⟨p, hp, Bool.not_eq_false _ ▸ hsur⟩
    have hmem : d ∈ name := hprefix.subset (List.mem_append_right _ List.mem_cons_self)
    exact absurd (UInt8.lt_of_le_of_lt hd (hascii d hmem)) (by decide)

theorem Listed.mem {α : Type} {R : Bytes → α → Prop} {s : Bytes} {as : List α}
    (h : Listed R s as) : ∀ a ∈ as, ∃ x, R x a := by
  induction h with
  | one hx =>
      intro a ha
      obtain rfl := List.mem_singleton.mp ha
      exact ⟨_, hx⟩
  | more hx _ ih =>
      intro a ha
      rcases List.mem_cons.mp ha with rfl | ha
      · exact ⟨_, hx⟩
      · exact ih a ha

theorem Derives.key_valid {n : Nat} {x : Bytes} {keys : List (List StrPiece)}
    {vals : List JsonDoc} (hx : Derives n x (.obj keys vals)) :
    ∀ m ∈ keys.zip vals, ∀ p ∈ m.1, p.Valid := by
  intro m hm
  cases n with
  | zero => exact hx.elim
  | succ n =>
      obtain ⟨-, y, -, hy⟩ := hx
      generalize keys.zip vals = ms at hm hy
      cases hy with
      | empty _ => cases hm
      | full hlist =>
          obtain ⟨z, hz⟩ := hlist.mem m hm
          cases hz with
          | mk _ hkey _ _ => exact hkey

theorem TextOf.key_valid {n : Nat} {s : Bytes} {keys : List (List StrPiece)}
    {vals : List JsonDoc} (h : TextOf n s (.obj keys vals)) :
    ∀ m ∈ keys.zip vals, ∀ p ∈ m.1, p.Valid := by
  obtain ⟨ws, x, ws', -, -, hx, -⟩ := h
  exact hx.key_valid

theorem TextOf.mono {m n : Nat} (hmn : m ≤ n) {s : Bytes} {doc : JsonDoc} (h : TextOf m s doc) :
    TextOf n s doc := by
  obtain ⟨ws, x, ws', hws, hws', hx, hs⟩ := h
  exact ⟨ws, x, ws', hws, hws', hx.mono hmn, hs⟩

theorem JsonDoc.allOf_of_forall {P : JsonDoc → Prop} : ∀ {docs : List JsonDoc},
    (∀ doc ∈ docs, doc.All P) → JsonDoc.AllOf P docs
  | [], _ => trivial
  | doc :: _, h => ⟨h doc List.mem_cons_self,
      allOf_of_forall fun d hd => h d (List.mem_cons_of_mem doc hd)⟩

/-- A search in the beginning of a list, for something that is there once. -/
theorem find?_take_once {α : Type} {p : α → Bool} {before after : List α} {m : α}
    (hbefore : ∀ a ∈ before, p a = false) (hm : p m = true) (n : Nat) :
    ((before ++ m :: after).take n).find? p = if before.length < n then some m else none := by
  have hnone : ∀ l : List α, (∀ a ∈ l, p a = false) → l.find? p = none := by
    intro l hl
    rw [List.find?_eq_none]
    intro a ha
    rw [hl a ha]
    exact Bool.false_ne_true
  rw [List.take_append]
  by_cases hlt : before.length < n
  · obtain ⟨i, hi⟩ := Nat.exists_eq_succ_of_ne_zero (show n - before.length ≠ 0 by omega)
    rw [if_pos hlt, hi, List.take_succ_cons, List.find?_append,
      hnone _ fun a ha => hbefore a (List.mem_of_mem_take ha), List.find?_cons_of_pos hm]
    rfl
  · have hzero : n - before.length = 0 := by omega
    rw [if_neg hlt, hzero, List.take_zero, List.append_nil]
    exact hnone _ fun a ha => hbefore a (List.mem_of_mem_take ha)

theorem zip_codes (keys : List (List StrPiece)) (vals : List JsonDoc) :
    (keys.map codeString).zip (JsonDoc.codes vals) =
      (keys.zip vals).map fun m => (codeString m.1, m.2.code) := by
  rw [JsonDoc.codes_eq, List.zip_map]
  rfl

/-- `ntc_json_get` finds the first member of a name among the
    `NTC_JSON_MAX_MEMBERS` that are kept. -/
theorem ntcJsonGet_member {keys : List (List StrPiece)} {vals : List JsonDoc} {name : Bytes}
    {before after : List (List StrPiece × JsonDoc)} {key : List StrPiece} {value : JsonDoc}
    (hmem : keys.zip vals = before ++ (key, value) :: after)
    (hbefore : ∀ m ∈ before, codeString m.1 ≠ name) (hkey : codeString key = name) :
    ntcJsonGet (JsonDoc.obj keys vals).code name =
      if before.length < ntcJsonMaxMembers then some value.code else none := by
  rw [JsonDoc.code, ntcJsonGet, List.zip, ← List.take_zipWith, ← List.zip, zip_codes, hmem,
    List.map_append, List.map_cons, find?_take_once, List.length_map]
  · split <;> rfl
  · intro m hm
    obtain ⟨m', hm', rfl⟩ := List.mem_map.mp hm
    exact beq_eq_false_iff_ne.mpr (hbefore m' hm')
  · exact beq_iff_eq.mpr hkey

-- ============================================================================
-- The three verifiers
-- ============================================================================

/-- A verifier with its key. -/
inductive JwtVerifier where
  | hs256 (secret : Bytes)
  | rs256 (n e : Bytes)
  | es256 (q : Bytes)

namespace JwtVerifier

def alg : JwtVerifier → Bytes
  | .hs256 _ => lit "HS256"
  | .rs256 _ _ => lit "RS256"
  | .es256 _ => lit "ES256"

def verify (X : JwtExt) : JwtVerifier → Bytes → Int → Option NtcJwtClaims
  | .hs256 secret, token, now => ntcJwtVerifyHs256 X token secret now
  | .rs256 n e, token, now => ntcJwtVerifyRs256 X token n e now
  | .es256 q, token, now => ntcJwtVerifyEs256 X token q now

/-- Room for a signature: `macb64` for the code of an HMAC, `sig[512]` and
    `raw[160]`. -/
def sigCap : JwtVerifier → Nat
  | .hs256 _ => 32
  | .rs256 _ _ => 512
  | .es256 _ => 160

/-- `sig` is a signature of the token under the verifier's key. -/
def Signs (X : JwtExt) (jp : JwtParts) (sig : Bytes) : JwtVerifier → Prop
  | .hs256 secret => sig = ntcHmacSha256 secret jp.signed ∧ jp.sig = base64url sig
  | .rs256 n e => DecodesTo jp.sig sig ∧ sig ≠ [] ∧ X.rsaVrfy sig n e = some (ntcSha256 jp.signed)
  | .es256 q => q ≠ [] ∧ DecodesTo jp.sig sig ∧ sig.length = 64 ∧
      X.ecdsaVrfy (ntcSha256 jp.signed) q sig = true

/-- A token with a valid signature and a header that names the algorithm. -/
structure ValidToken (X : JwtExt) (v : JwtVerifier) (token : Bytes) (jp : JwtParts)
    (hdr sig : Bytes) : Prop where
  split : jwtSplit token = some jp
  header : DecodesTo jp.h hdr
  matching : (ntcJsonParse hdr).map (fun hj => jsonStrField hj "alg") = some v.alg
  signed : v.Signs X jp sig

end JwtVerifier

variable {X : JwtExt}

/-- A valid token goes on to its claims, unless its signature has no room. -/
theorem JwtVerifier.ValidToken.verify_eq {v : JwtVerifier} {token : Bytes} {jp : JwtParts}
    {hdr sig : Bytes} (h : v.ValidToken X token jp hdr sig) (now : Int) :
    v.verify X token now =
      if v.sigCap < sig.length then none else jwtParseClaims X jp v.alg now := by
  have hsigned := h.signed
  cases v with
  | hs256 secret =>
      obtain ⟨hmac, hsig⟩ := hsigned
      have hlen : sig.length = 32 := by
        rw [hmac]
        exact shaFinal_length _
      rw [verify, ntcJwtVerifyHs256, h.split]
      dsimp only
      rw [ntcBase64urlEncode_hmac]
      dsimp only
      rw [if_neg (by rw [hsig, hmac]; exact not_not_intro rfl), hlen]
      rfl
  | rs256 n e =>
      obtain ⟨hdec, hne, hvrfy⟩ := hsigned
      rw [verify, ntcJwtVerifyRs256, h.split]
      dsimp only
      rw [hdec.decode]
      by_cases hroom : sig.length ≤ 512
      · have hok : ¬ (sig.isEmpty = true ∨ X.rsaVrfy sig n e ≠ some (ntcSha256 jp.signed)) := by
          rintro (hempty | hbad)
          · exact hne (List.isEmpty_iff.mp hempty)
          · exact hbad hvrfy
        have hcap : ¬ (rs256 n e).sigCap < sig.length := not_lt.mpr hroom
        rw [if_pos hroom, if_neg hcap]
        dsimp only
        rw [if_neg hok]
        rfl
      · have hcap : (rs256 n e).sigCap < sig.length := not_le.mp hroom
        rw [if_neg hroom, if_pos hcap]
  | es256 q =>
      obtain ⟨hq, hdec, hlen, hvrfy⟩ := hsigned
      have hok : ¬ (sig.length ≠ 64 ∨ X.ecdsaVrfy (ntcSha256 jp.signed) q sig = false) := by
        rintro (hbad | hbad)
        · exact hbad hlen
        · rw [hvrfy] at hbad
          cases hbad
      rw [verify, ntcJwtVerifyEs256, if_neg (by rwa [List.isEmpty_iff]), h.split]
      dsimp only
      have hcap : ¬ (es256 q).sigCap < sig.length := by
        rw [hlen]
        exact Nat.not_lt.mpr (show 64 ≤ 160 by omega)
      rw [hdec.decode, if_pos (by omega), if_neg hcap]
      dsimp only
      rw [if_neg hok]
      rfl

/-- The header of a valid token, when it fits the buffer `hbuf`. -/
theorem JwtVerifier.ValidToken.headerAlg {v : JwtVerifier} {token : Bytes} {jp : JwtParts}
    {hdr sig : Bytes} (h : v.ValidToken X token jp hdr sig) :
    jwtHeaderAlg jp.h = if hdr.length ≤ 1024 then some v.alg else none := by
  rw [jwtHeaderAlg, jwtJson, h.header.decode]
  split
  · have hne : ¬ hdr.isEmpty = true := by
      rw [List.isEmpty_iff]
      rintro rfl
      have hmatching := h.matching
      cases hmatching
    rw [Option.bind_some, if_neg hne, h.matching]
  · rfl

/-- The parser takes a text of at most `NTC_JSON_MAX_DEPTH` levels. -/
theorem TextOf.parse_eq {n : Nat} {s : Bytes} {doc : JsonDoc} (h : TextOf n s doc) :
    (TextOf ntcJsonMaxDepth s doc → ntcJsonParse s = some doc.code) ∧
      (¬ TextOf ntcJsonMaxDepth s doc → ntcJsonParse s = none) := by
  refine ⟨TextOf.parse, fun hdeep => ?_⟩
  by_contra hsome
  obtain ⟨ws, x, doc', rest, hws, hx, hends, hs⟩ :=
    ntcJsonParse_isSome_iff.mp (Option.isSome_iff_ne_none.mpr hsome)
  obtain ⟨ws', x', ws'', hws', hws'', hx', hs'⟩ := h
  obtain ⟨rfl, rfl⟩ := hx.unique hws hends hws' hx' (ends_of_ws hws'' doc) (hs.symm.trans hs')
  exact hdeep ⟨ws, x, rest, hws, hws'', hx, hs⟩

/-- The payload, when it fits the buffer `pbuf` and is not nested too deep. -/
theorem jwtPayload_eq {seg buf : Bytes} {n : Nat} {keys : List (List StrPiece)}
    {vals : List JsonDoc} (hdec : DecodesTo seg buf) (h : TextOf n buf (.obj keys vals)) :
    (buf.length ≤ 4096 ∧ TextOf ntcJsonMaxDepth buf (.obj keys vals) →
      jwtPayload seg = some (JsonDoc.obj keys vals).code) ∧
    (¬ (buf.length ≤ 4096 ∧ TextOf ntcJsonMaxDepth buf (.obj keys vals)) →
      jwtPayload seg = none) := by
  have hne : ¬ buf.isEmpty = true := by
    rw [List.isEmpty_iff]
    rintro rfl
    obtain ⟨ws, x, ws', -, -, hx, hs⟩ := h
    cases n with
    | zero => exact hx.elim
    | succ n =>
        obtain ⟨-, y, rfl, -⟩ := hx
        have hlen := congrArg List.length hs
        simp only [List.length_nil, List.length_append, List.length_cons] at hlen
        omega
  rw [jwtPayload, jwtJson, hdec.decode]
  by_cases hroom : buf.length ≤ 4096
  · rw [if_pos hroom, Option.bind_some, if_neg hne]
    refine ⟨fun hboth => ?_, fun hnot => ?_⟩
    · rw [h.parse_eq.1 hboth.2]
      rfl
    · rw [h.parse_eq.2 fun hdeep => hnot ⟨hroom, hdeep⟩]
      rfl
  · rw [if_neg hroom]
    exact ⟨fun hboth => absurd hboth.1 hroom, fun _ => rfl⟩

-- ============================================================================
-- The expiry test
-- ============================================================================

/-- `(long)strtod(..)` is what C says it is, where C says what it is. -/
def StrtodLong (X : JwtExt) : Prop := ∀ text v, longOf text = some v → X.strtodLong text = v

/-- The token is over one of the bounds of the verifiers and is turned away
    for that: a segment without room in its buffer, or a payload that is nested
    too deep for the parser. -/
def JwtVerifier.OverBounds (v : JwtVerifier) (hdr sig buf : Bytes) (doc : JsonDoc) : Prop :=
  v.sigCap < sig.length ∨ 1024 < hdr.length ∨ 4096 < buf.length ∨
    ¬ TextOf ntcJsonMaxDepth buf doc

/-- `exp` as `jwt_parse_claims` has it. -/
theorem jsonLongField_exp {n : Nat} {buf : Bytes} {keys : List (List StrPiece)}
    {vals : List JsonDoc} {before after : List (List StrPiece × JsonDoc)} {key : List StrPiece}
    {text : Bytes} (htext : TextOf n buf (.obj keys vals))
    (hmem : keys.zip vals = before ++ (key, .num text) :: after)
    (hname : textOf key = some (lit "exp"))
    (hbefore : ∀ m ∈ before, textOf m.1 ≠ some (lit "exp")) :
    jsonLongField X (JsonDoc.obj keys vals).code "exp" =
      if before.length < ntcJsonMaxMembers then X.strtodLong (text.take 63) else 0 := by
  have hvalid := htext.key_valid
  rw [hmem] at hvalid
  have hget : ntcJsonGet (JsonDoc.obj keys vals).code (lit "exp") = _ := ntcJsonGet_member hmem
    (fun m hm hcode => hbefore m hm ((codeString_eq_name
      (hvalid m (List.mem_append_left _ hm)) (ascii_of_all (by decide))).mp hcode))
    ((codeString_eq_name (hvalid (key, .num text) (List.mem_append_right _ List.mem_cons_self))
      (ascii_of_all (by decide))).mpr hname)
  rw [jsonLongField, hget]
  by_cases hlt : before.length < ntcJsonMaxMembers
  · rw [if_pos hlt, if_pos hlt]
    rfl
  · rw [if_neg hlt, if_neg hlt]

/-- A valid token whose payload has a number `exp` is turned away exactly when
    it is over a bound, or the number is among the members that the parser
    keeps and what C makes of it is neither 0 nor above the time. -/
theorem JwtVerifier.ValidToken.rejected_iff {v : JwtVerifier} {token : Bytes} {jp : JwtParts}
    {hdr sig buf : Bytes} {n : Nat} {keys : List (List StrPiece)} {vals : List JsonDoc}
    {before after : List (List StrPiece × JsonDoc)} {key : List StrPiece} {text : Bytes}
    {now : Int} (h : v.ValidToken X token jp hdr sig) (hdec : DecodesTo jp.p buf)
    (htext : TextOf n buf (.obj keys vals))
    (hmem : keys.zip vals = before ++ (key, .num text) :: after)
    (hname : textOf key = some (lit "exp"))
    (hbefore : ∀ m ∈ before, textOf m.1 ≠ some (lit "exp")) (hnow : 0 < now) :
    v.verify X token now = none ↔ v.OverBounds hdr sig buf (.obj keys vals) ∨
      (before.length < ntcJsonMaxMembers ∧ X.strtodLong (text.take 63) ≠ 0 ∧
        X.strtodLong (text.take 63) ≤ now) := by
  rw [h.verify_eq now, OverBounds]
  by_cases hsig : v.sigCap < sig.length
  · rw [if_pos hsig]
    exact iff_of_true rfl (.inl (.inl hsig))
  rw [if_neg hsig, jwtParseClaims, h.headerAlg]
  by_cases hhdr : hdr.length ≤ 1024
  swap
  · rw [if_neg hhdr]
    exact iff_of_true rfl (.inl (.inr (.inl (not_le.mp hhdr))))
  rw [if_pos hhdr]
  dsimp only
  rw [if_neg (not_not_intro rfl)]
  by_cases hpay : buf.length ≤ 4096 ∧ TextOf ntcJsonMaxDepth buf (.obj keys vals)
  swap
  · rw [(jwtPayload_eq hdec htext).2 hpay]
    refine iff_of_true rfl (.inl (.inr (.inr ?_)))
    by_cases hroom : buf.length ≤ 4096
    · exact .inr fun hdeep => hpay ⟨hroom, hdeep⟩
    · exact .inl (not_le.mp hroom)
  rw [(jwtPayload_eq hdec htext).1 hpay]
  dsimp only
  rw [jsonLongField_exp htext hmem hname hbefore]
  have hbounds : ¬ (v.sigCap < sig.length ∨ 1024 < hdr.length ∨ 4096 < buf.length ∨
      ¬ TextOf ntcJsonMaxDepth buf (.obj keys vals)) := by
    rintro (hs | hh | hb | hd)
    · exact hsig hs
    · omega
    · omega
    · exact hd hpay.2
  rw [or_iff_right hbounds]
  by_cases hlt : before.length < ntcJsonMaxMembers
  · rw [if_pos hlt]
    simp only [hlt, hnow, true_and, ite_eq_left_iff, reduceCtorEq, imp_false, not_not]
  · rw [if_neg hlt, if_neg (fun hzero => hzero.1 rfl)]
    exact iff_of_false (fun hnone => (by cases hnone)) (fun hkept => hlt hkept.1)

/-- A token that has expired is turned away exactly when it is over a bound or
    `exp` is among the members that the parser keeps and comes out of C's
    conversion as a time other than 0 that has passed; an integer up to
    `2 ^ 53` written in at most 63 characters does exactly if it is not 0. -/
theorem jwt_expired_rejected_iff (hX : StrtodLong X) {v : JwtVerifier} {token : Bytes}
    {jp : JwtParts} {hdr sig buf : Bytes} {n : Nat} {keys : List (List StrPiece)}
    {vals : List JsonDoc} {before after : List (List StrPiece × JsonDoc)} {key : List StrPiece}
    {text : Bytes} {d : Decimal} {exp now : Int} (h : v.ValidToken X token jp hdr sig)
    (hdec : DecodesTo jp.p buf) (htext : TextOf n buf (.obj keys vals))
    (hmem : keys.zip vals = before ++ (key, .num text) :: after)
    (hname : textOf key = some (lit "exp"))
    (honce : ∀ m ∈ before ++ after, textOf m.1 ≠ some (lit "exp"))
    (hnumber : readDecimal text = some d) (hexp : d.value = exp) (hnow : 0 < now)
    (hexpired : exp ≤ now) :
    (v.verify X token now = none ↔ v.OverBounds hdr sig buf (.obj keys vals) ∨
      (before.length < ntcJsonMaxMembers ∧ X.strtodLong (text.take 63) ≠ 0 ∧
        X.strtodLong (text.take 63) ≤ now)) ∧
    (|exp| ≤ 2 ^ 53 → text.length ≤ 63 →
      (v.verify X token now = none ↔ v.OverBounds hdr sig buf (.obj keys vals) ∨
        (before.length < ntcJsonMaxMembers ∧ exp ≠ 0))) := by
  have hiff := h.rejected_iff hdec htext hmem hname
    (fun m hm => honce m (List.mem_append_left _ hm)) hnow
  refine ⟨hiff, fun hsmall hshort => ?_⟩
  have hlong : X.strtodLong (text.take 63) = exp := by
    rw [List.take_of_length_le hshort]
    exact hX text exp (longOf_eq hnumber hexp hsmall)
  rw [hiff, hlong]
  simp only [hexpired, and_true]

-- ============================================================================
-- Two tokens
-- ============================================================================

theorem jwtSplit_compact {h p : Bytes} (hh : chDot ∉ h) (hp : chDot ∉ p) (s : Bytes) :
    jwtSplit (compact h p s) = some ⟨h, p, s, h ++ chDot :: p⟩ := by
  have hdrop : (compact h p s).drop (h.length + 1) = p ++ chDot :: s := by
    rw [compact, ← List.drop_drop, List.drop_left]
    rfl
  have htake : (compact h p s).take (h.length + 1 + p.length) = h ++ chDot :: p := by
    have hsplit : compact h p s = (h ++ chDot :: p) ++ chDot :: s := by
      rw [compact, List.append_assoc, List.cons_append]
    rw [hsplit, List.take_left' (by rw [List.length_append, List.length_cons]; omega)]
  have hlast : (p ++ chDot :: s).drop (p.length + 1) = s := by
    rw [← List.drop_drop, List.drop_left]
    rfl
  rw [jwtSplit, compact, memchr_append hh, Option.bind_some, ← compact, hdrop, memchr_append hp,
    Option.map_some, htake, List.take_left, hlast, compact, List.take_left]

/-- `{"alg":"HS256"}`. -/
def hsHeader : Bytes := lit "\x7b\"alg\":\"HS256\"\x7d"

/-- A token signed with HS256. -/
def hsToken (secret payload : Bytes) : Bytes :=
  compact (base64url hsHeader) (base64url payload)
    (base64url (ntcHmacSha256 secret (base64url hsHeader ++ chDot :: base64url payload)))

def hsParts (secret payload : Bytes) : JwtParts where
  h := base64url hsHeader
  p := base64url payload
  sig := base64url (ntcHmacSha256 secret (base64url hsHeader ++ chDot :: base64url payload))
  signed := base64url hsHeader ++ chDot :: base64url payload

theorem dot_notMem_base64url (s : Bytes) : chDot ∉ base64url s := fun h =>
  absurd (base64url_mem s chDot h) (by decide)

/-- What is encoded is read back. -/
theorem ntcBase64urlDecode_base64url {s : Bytes} {cap : Nat} (h : s.length ≤ cap) :
    ntcBase64urlDecode (base64url s) cap = some s :=
  base64Loop_base64url s 0 cap h

theorem hsHeader_alg :
    (ntcJsonParse hsHeader).map (fun hj => jsonStrField hj "alg") = some (lit "HS256") := by
  decide +kernel

theorem hsToken_split (secret payload : Bytes) :
    jwtSplit (hsToken secret payload) = some (hsParts secret payload) := by
  rw [hsToken, hsParts]
  exact jwtSplit_compact (dot_notMem_base64url _) (dot_notMem_base64url _) _

theorem hsParts_sig (secret payload : Bytes) :
    (hsParts secret payload).sig =
      base64url (ntcHmacSha256 secret (hsParts secret payload).signed) := by
  rw [hsParts]

theorem hsToken_valid (X : JwtExt) (secret payload : Bytes) :
    (JwtVerifier.hs256 secret).ValidToken X (hsToken secret payload) (hsParts secret payload)
      hsHeader (ntcHmacSha256 secret (hsParts secret payload).signed) :=
  ⟨hsToken_split secret payload, ⟨1024, ntcBase64urlDecode_base64url (by decide)⟩, hsHeader_alg,
    rfl, hsParts_sig secret payload⟩

/-- The text of `n` members named `a` and `"exp":5`, behind the brace. -/
def expMembers : Nat → Bytes
  | 0 => lit "\"exp\":5"
  | n + 1 => lit "\"a\":0" ++ chComma :: expMembers n

def expPayload (n : Nat) : Bytes := 123 :: (expMembers n ++ [125])

def expKey : List StrPiece := [.raw 101, .raw 120, .raw 112]

def expFields (n : Nat) : List (List StrPiece × JsonDoc) :=
  List.replicate n ([.raw 97], .num [48]) ++ [(expKey, .num [53])]

def expDoc (n : Nat) : JsonDoc := .obj ((expFields n).map Prod.fst) ((expFields n).map Prod.snd)

theorem zip_expFields (n : Nat) :
    ((expFields n).map Prod.fst).zip ((expFields n).map Prod.snd) = expFields n := by
  have hzip := List.zip_unzip (expFields n)
  rwa [List.unzip_eq_map] at hzip

theorem expMembers_listed (n : Nat) :
    Listed (Member (Derives 1)) (expMembers n) (expFields n) := by
  have hdigit : ∀ c : UInt8, 48 ≤ c ∧ c ≤ 57 → isNumChar c = true →
      Padded (Derives 1) [c] (.num [c]) := by
    intro c hc hnum
    refine .mk isWs_nil (show Derives 1 [c] (.num [c]) from ⟨rfl, ⟨c, rfl, .inr hc⟩, ?_⟩) isWs_nil
    intro c' hc'
    rw [List.mem_singleton.mp hc']
    exact hnum
  have hexp : Member (Derives 1) (lit "\"exp\":5") (expKey, .num [53]) := by
    refine @Member.mk _ _ [] [] [53] expKey _ isWs_nil ?_ isWs_nil
      (hdigit 53 (by decide) (by decide))
    intro p hp
    simp only [expKey, List.mem_cons, List.not_mem_nil, or_false] at hp
    rcases hp with rfl | rfl | rfl <;> exact ⟨by decide, by decide⟩
  have ha : Member (Derives 1) (lit "\"a\":0") ([.raw 97], .num [48]) := by
    refine @Member.mk _ _ [] [] [48] [.raw 97] _ isWs_nil ?_ isWs_nil
      (hdigit 48 (by decide) (by decide))
    intro p hp
    obtain rfl := List.mem_singleton.mp hp
    exact ⟨by decide, by decide⟩
  induction n with
  | zero => exact .one hexp
  | succ n ih => exact .more ha ih

theorem expPayload_text (n : Nat) : TextOf 2 (expPayload n) (expDoc n) := by
  have hobj : Derives 2 (expPayload n) (expDoc n) := by
    refine ⟨by rw [List.length_map, List.length_map], expMembers n ++ [125], rfl, ?_⟩
    rw [zip_expFields]
    exact .full (expMembers_listed n)
  exact ⟨[], expPayload n, [], isWs_nil, isWs_nil, hobj, by
    rw [List.nil_append, List.append_nil]⟩

/-- A C library, with numbers outside `long` as 0. -/
def strtodExt : JwtExt where
  rsaVrfy _ _ _ := none
  ecdsaVrfy _ _ _ := false
  strtodLong text := (longOf text).getD 0

theorem strtodLong_strtodExt : StrtodLong strtodExt := by
  intro text v h
  rw [strtodExt]
  dsimp only
  rw [h]
  rfl

theorem expFields_split (n : Nat) :
    ((expFields n).map Prod.fst).zip ((expFields n).map Prod.snd) =
      List.replicate n ([StrPiece.raw 97], JsonDoc.num [48]) ++ (expKey, .num [53]) :: [] :=
  zip_expFields n

theorem expFields_once (n : Nat) :
    ∀ m ∈ List.replicate n ([StrPiece.raw 97], JsonDoc.num [48]) ++ [],
      textOf m.1 ≠ some (lit "exp") := by
  intro m hm
  rw [List.append_nil] at hm
  rw [List.eq_of_mem_replicate hm]
  decide

/-- `{"exp":5}` is turned away at 10. -/
theorem jwt_expired_rejected_at_10 :
    (JwtVerifier.hs256 (lit "s3cret")).verify strtodExt (hsToken (lit "s3cret") (expPayload 0)) 10 =
      none := by
  have hd : (Decimal.mk false 5 0).value = ((5 : Int) : ℚ) := by norm_num [Decimal.value]
  have hiff := jwt_expired_rejected_iff strtodLong_strtodExt
    (hsToken_valid strtodExt (lit "s3cret") (expPayload 0))
    ⟨4096, ntcBase64urlDecode_base64url (by decide)⟩ (expPayload_text 0) (expFields_split 0)
    (by decide)
    (expFields_once 0) (show readDecimal [53] = some ⟨false, 5, 0⟩ by decide) hd
    (show (0 : Int) < 10 by decide) (by decide)
  exact (hiff.2 (by norm_num) (by decide)).mpr (.inr ⟨by decide, by decide⟩)

/-- With 64 members before it, `"exp":5` is not seen at 10. -/
theorem exp_behind_64_members_accepted :
    TextOf 2 (expPayload 64) (expDoc 64) ∧ (expDoc 64).Strict ∧
      (JwtVerifier.hs256 (lit "s3cret")).ValidToken strtodExt
        (hsToken (lit "s3cret") (expPayload 64)) (hsParts (lit "s3cret") (expPayload 64))
        hsHeader (ntcHmacSha256 (lit "s3cret") (hsParts (lit "s3cret") (expPayload 64)).signed) ∧
      (JwtVerifier.hs256 (lit "s3cret")).verify strtodExt
        (hsToken (lit "s3cret") (expPayload 64)) 10 ≠ none := by
  have hvalid := hsToken_valid strtodExt (lit "s3cret") (expPayload 64)
  have hstrict : (expDoc 64).Strict := by
    have hzero : JsonNumber [48] := .mk (.inl rfl) .zero .none .none
    have hint : JsonInt [53] :=
      @JsonInt.digits 53 [] (by decide) (by decide) (fun _ hd => absurd hd List.not_mem_nil)
    have hfive : JsonNumber [53] := .mk (.inl rfl) hint .none .none
    refine ⟨?_, JsonDoc.allOf_of_forall fun doc hdoc => ?_⟩
    · intro key hkey p hp
      obtain ⟨m, hm, rfl⟩ := List.mem_map.mp hkey
      rcases List.mem_append.mp hm with hm | hm
      · rw [List.eq_of_mem_replicate hm] at hp
        rw [List.mem_singleton.mp hp]
        exact show (32 : UInt8) ≤ 97 by decide
      · rw [List.mem_singleton.mp hm] at hp
        simp only [expKey, List.mem_cons, List.not_mem_nil, or_false] at hp
        rcases hp with rfl | rfl | rfl
        · exact show (32 : UInt8) ≤ 101 by decide
        · exact show (32 : UInt8) ≤ 120 by decide
        · exact show (32 : UInt8) ≤ 112 by decide
    · obtain ⟨m, hm, rfl⟩ := List.mem_map.mp hdoc
      rcases List.mem_append.mp hm with hm | hm
      · rw [List.eq_of_mem_replicate hm]
        exact hzero
      · rw [List.mem_singleton.mp hm]
        exact hfive
  refine ⟨expPayload_text 64, hstrict, hvalid, fun hnone => ?_⟩
  have hlen : (expPayload 64).length ≤ 4096 := by decide +kernel
  have hrejected := (hvalid.rejected_iff ⟨4096, ntcBase64urlDecode_base64url hlen⟩
    (expPayload_text 64)
    (expFields_split 64) (by decide)
    (fun m hm => expFields_once 64 m (List.mem_append_left _ hm))
    (show (0 : Int) < 10 by decide)).mp hnone
  have hbounds : ¬ (JwtVerifier.hs256 (lit "s3cret")).OverBounds hsHeader
      (ntcHmacSha256 (lit "s3cret") (hsParts (lit "s3cret") (expPayload 64)).signed)
      (expPayload 64) (expDoc 64) := by
    rintro (hsig | hhdr | hbuf | hdeep)
    · rw [show (ntcHmacSha256 _ _).length = 32 from shaFinal_length _] at hsig
      exact absurd hsig (by decide)
    · exact absurd hhdr (by decide)
    · exact absurd hbuf (by decide +kernel)
    · exact hdeep (TextOf.mono (by decide) (expPayload_text 64))
  rcases hrejected with hover | hkept
  · exact hbounds hover
  · exact absurd hkept.1 (by rw [List.length_replicate]; decide)

end Naitron
