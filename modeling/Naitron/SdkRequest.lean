/-
  Naitron.SdkRequest

  The request decoders of the Python, TypeScript, Go and Rust SDKs
  (`_decode_request` of naitron.py, `decodeRequest` of naitron.ts and
  naitron.go, `decode_request` of lib.rs) and the maps they build.

  The gateway and the C SDK scan the headers and take the first that matches;
  a map keeps the last.  `sdk_lookup_iff` says on which requests and names the
  two agree.
-/

import Naitron.WireRequest
import Naitron.Server.Dispatch

namespace Naitron

open Lib

/-- The SDKs that decode a request into maps. -/
inductive Sdk where
  | python
  | typescript
  | go
  | rust
deriving DecidableEq, Repr

-- ============================================================================
-- Text
-- ============================================================================

/-- A string of an SDK: its code points, in Go its bytes. -/
abbrev Text := List Nat

def textOfString (s : String) : Text := s.toList.map Char.toNat

/-- U+FFFD. -/
def replacement : Nat := 0xFFFD

def isCont (c : UInt8) : Bool := 0x80 ≤ c && c ≤ 0xBF

/-- The second byte of a sequence of three. -/
def second3 (a b : UInt8) : Bool :=
  (a == 0xE0 && 0xA0 ≤ b && b ≤ 0xBF) || (0xE1 ≤ a && a ≤ 0xEC && isCont b)
    || (a == 0xED && 0x80 ≤ b && b ≤ 0x9F) || (0xEE ≤ a && a ≤ 0xEF && isCont b)

/-- The second byte of a sequence of four. -/
def second4 (a b : UInt8) : Bool :=
  (a == 0xF0 && 0x90 ≤ b && b ≤ 0xBF) || (0xF1 ≤ a && a ≤ 0xF3 && isCont b)
    || (a == 0xF4 && 0x80 ≤ b && b ≤ 0x8F)

/-- The value of a byte that is not the first of its sequence. -/
def low6 (c : UInt8) : Nat := c.toNat - 0x80

/-- `String::from_utf8_lossy`: each longest beginning of a sequence that does
    not go on becomes one replacement character. -/
def utf8Lossy : Bytes → Text
  | [] => []
  | a :: s =>
      if a < 0x80 then a.toNat :: utf8Lossy s
      else
        match s with
        | [] => [replacement]
        | b :: s₁ =>
            if 0xC2 ≤ a ∧ a ≤ 0xDF ∧ isCont b = true then
              ((a.toNat - 0xC0) * 0x40 + low6 b) :: utf8Lossy s₁
            else if second3 a b = true then
              match s₁ with
              | [] => [replacement]
              | c :: s₂ =>
                  if isCont c = true then
                    (((a.toNat - 0xE0) * 0x40 + low6 b) * 0x40 + low6 c) :: utf8Lossy s₂
                  else replacement :: utf8Lossy (c :: s₂)
            else if second4 a b = true then
              match s₁ with
              | [] => [replacement]
              | c :: s₂ =>
                  if isCont c = true then
                    match s₂ with
                    | [] => [replacement]
                    | d :: s₃ =>
                        if isCont d = true then
                          ((((a.toNat - 0xF0) * 0x40 + low6 b) * 0x40 + low6 c) * 0x40 + low6 d)
                            :: utf8Lossy s₃
                        else replacement :: utf8Lossy (d :: s₃)
                  else replacement :: utf8Lossy (c :: s₂)
            else replacement :: utf8Lossy (b :: s₁)

/-- Bytes to text: `decode("latin1")`, `toString("latin1")`, `string(..)` and
    `from_utf8_lossy`. -/
def Sdk.text : Sdk → Bytes → Text
  | .python, s | .typescript, s | .go, s => s.map UInt8.toNat
  | .rust, s => utf8Lossy s

/-- `lower()`, `toLowerCase()`, `strings.ToLower` and `to_lowercase()` of ASCII
    text, which header names are. -/
def lower (t : Text) : Text := t.map fun c => if 65 ≤ c ∧ c ≤ 90 then c + 32 else c

-- ============================================================================
-- Maps
-- ============================================================================

/-- The entries of a `dict`, an object, a `map` or a `HashMap`. -/
abbrev SdkMap := Text → Option Text

/-- What indexing a map gives. -/
inductive Looked where
  | absent
  | text (t : Text)
  /-- A property of `Object.prototype`, which is no string. -/
  | inherited
deriving DecidableEq, Repr

/-- The text that was found, empty when there is none. -/
def Looked.text? : Looked → Option Text
  | .absent => some []
  | .text t => some t
  | .inherited => none

/-- `__proto__`: assigning a string to it does nothing. -/
def protoKey : Text := textOfString "__proto__"

/-- The properties of `Object.prototype`, from which `{}` inherits. -/
def objectPrototype : List Text :=
  ["__proto__", "constructor", "hasOwnProperty", "isPrototypeOf", "propertyIsEnumerable",
    "toLocaleString", "toString", "valueOf", "__defineGetter__", "__defineSetter__",
    "__lookupGetter__", "__lookupSetter__"].map textOfString

/-- `m[k] = v`, `m.insert(k, v)`. -/
def Sdk.set (sdk : Sdk) (m : SdkMap) (k v : Text) : SdkMap :=
  if sdk = .typescript ∧ k = protoKey then m else Function.update m k (some v)

/-- `m[k]`, `m.get(k)`. -/
def Sdk.get (sdk : Sdk) (m : SdkMap) (k : Text) : Looked :=
  match m k with
  | some t => .text t
  | none => if sdk = .typescript ∧ k ∈ objectPrototype then .inherited else .absent

/-- The loop that fills a map. -/
def Sdk.fill (sdk : Sdk) (entries : List (Text × Text)) : SdkMap :=
  entries.foldl (fun m e => sdk.set m e.1 e.2) fun _ => none

-- ============================================================================
-- Decoding
-- ============================================================================

/-- The request record of an SDK. -/
structure SdkRequest where
  method : Text
  path : Text
  query : Text
  headers : SdkMap
  params : SdkMap
  sub : Text
  scope : Text
  body : Bytes

/-- `n` bytes: Python and TypeScript take what there is, Go and Rust stop. -/
def Sdk.slice (sdk : Sdk) (n : Nat) : ReadM Bytes := fun s =>
  match sdk with
  | .python | .typescript => some (s.take n, s.drop n)
  | .go | .rust => readN n s

/-- `_rd_slice16`, `rdSlice16`, `rd_slice16`. -/
def Sdk.slice16 (sdk : Sdk) : ReadM Bytes := rU16 >>= sdk.slice

/-- A name and a value. -/
def Sdk.pair (sdk : Sdk) : ReadM NtcHeader := do
  let name ← sdk.slice16
  let value ← sdk.slice16
  return ⟨name, value⟩

/-- A count and that many pairs. -/
def Sdk.pairs (sdk : Sdk) : ReadM (List NtcHeader) := rU16 >>= Lib.readList sdk.pair

/-- The entry a header makes. -/
def Sdk.headerEntry (sdk : Sdk) (h : NtcHeader) : Text × Text :=
  (lower (sdk.text h.name), sdk.text h.value)

/-- The entry a path parameter makes. -/
def Sdk.paramEntry (sdk : Sdk) (p : NtcHeader) : Text × Text := (sdk.text p.name, sdk.text p.value)

/-- The decoder the four have in common. -/
def Sdk.decode (sdk : Sdk) : ReadM SdkRequest := do
  let method ← sdk.slice16
  let path ← sdk.slice16
  let query ← sdk.slice16
  let headers ← sdk.pairs
  let params ← sdk.pairs
  let sub ← sdk.slice16
  let scope ← sdk.slice16
  let body ← rU32 >>= sdk.slice
  return {
    method := sdk.text method
    path := sdk.text path
    query := sdk.text query
    headers := sdk.fill (headers.map sdk.headerEntry)
    params := sdk.fill (params.map sdk.paramEntry)
    sub := sdk.text sub
    scope := sdk.text scope
    body := body }

/-- `_decode_request` of naitron.py. -/
def pyDecodeRequest (p : Bytes) : Option SdkRequest := (Sdk.decode .python p).map Prod.fst

/-- `decodeRequest` of naitron.ts. -/
def tsDecodeRequest (p : Bytes) : Option SdkRequest := (Sdk.decode .typescript p).map Prod.fst

/-- `decodeRequest` of naitron.go. -/
def goDecodeRequest (p : Bytes) : Option SdkRequest := (Sdk.decode .go p).map Prod.fst

/-- `decode_request` of lib.rs. -/
def rustDecodeRequest (p : Bytes) : Option SdkRequest := (Sdk.decode .rust p).map Prod.fst

/-- The decoder of an SDK. -/
def Sdk.decodeRequest : Sdk → Bytes → Option SdkRequest
  | .python => pyDecodeRequest
  | .typescript => tsDecodeRequest
  | .go => goDecodeRequest
  | .rust => rustDecodeRequest

/-- Looking up a header. -/
def SdkRequest.header (r : SdkRequest) (sdk : Sdk) (name : Bytes) : Looked :=
  sdk.get r.headers (lower (sdk.text name))

/-- Looking up a path parameter. -/
def SdkRequest.param (r : SdkRequest) (sdk : Sdk) (name : Bytes) : Looked :=
  sdk.get r.params (sdk.text name)

/-- The value of a pair that may be there. -/
def valueOf : Option NtcHeader → Bytes
  | some h => h.value
  | none => []

/-- `ntc_req_param`, for a name without NUL. -/
def ntcReqParam (req : NtcRequest) (name : Bytes) : Bytes :=
  valueOf (req.params.find? fun p => p.name == name)

theorem ntcHttpHeader_eq (req : NtcRequest) (name : Bytes) :
    ntcHttpHeader req name = valueOf (req.headers.find? fun h => islabelEq h.name name) := by
  rw [ntcHttpHeader]
  split <;> rename_i heq <;> rw [heq] <;> rfl

-- ============================================================================
-- Decoding what the gateway encodes
-- ============================================================================

theorem Sdk.slice_append (sdk : Sdk) (s rest : Bytes) :
    sdk.slice s.length (s ++ rest) = some (s, rest) := by
  cases sdk with
  | python | typescript => simp [Sdk.slice]
  | go | rust => exact readN_append s rest

theorem Sdk.slice16_append (sdk : Sdk) (s rest : Bytes) (h : s.length < 2 ^ 16) :
    sdk.slice16 (slice16Bytes s ++ rest) = some (s, rest) := by
  rw [Sdk.slice16, slice16Bytes, List.append_assoc, u16Codec.dec_bind h]
  exact sdk.slice_append s rest

theorem Sdk.pair_append (sdk : Sdk) (h : NtcHeader) (rest : Bytes) (hfit : h.FitsWire) :
    sdk.pair (headerBytes h ++ rest) = some (h, rest) := by
  rw [headerBytes, List.append_assoc]
  show (sdk.slice16 (slice16Bytes h.name ++ (slice16Bytes h.value ++ rest))).bind _ = _
  rw [sdk.slice16_append _ _ hfit.1, Option.bind_some]
  show (sdk.slice16 (slice16Bytes h.value ++ rest)).bind _ = _
  rw [sdk.slice16_append _ _ hfit.2]
  rfl

theorem Sdk.pairs_append (sdk : Sdk) {hs : List NtcHeader} (rest : Bytes)
    (hlen : hs.length < 2 ^ 16) (hfit : ∀ h ∈ hs, h.FitsWire) :
    sdk.pairs (headersBytes hs ++ rest) = some (hs, rest) := by
  rw [Sdk.pairs, headersBytes, List.append_assoc, u16Codec.dec_bind hlen]
  exact Lib.readList_flatMap sdk.pair_append rest hs hfit

/-- What a decoder makes of a request. -/
def Sdk.requestOf (sdk : Sdk) (req : NtcRequest) : SdkRequest where
  method := sdk.text req.method
  path := sdk.text req.path
  query := sdk.text req.query
  headers := sdk.fill (req.headers.map sdk.headerEntry)
  params := sdk.fill (req.params.map sdk.paramEntry)
  sub := sdk.text req.authSub
  scope := sdk.text req.authScope
  body := req.body

theorem Sdk.decode_requestBytes (sdk : Sdk) {req : NtcRequest} (h : req.FitsWire) :
    sdk.decodeRequest (requestBytes req) = some (sdk.requestOf req) := by
  have hheaders := lt_of_le_of_lt h.headers.1 ntcMaxHeaders_lt
  have hparams := lt_of_le_of_lt h.params.1 ntcMaxParams_lt
  have hslice : ∀ (s rest : Bytes), s.length < 2 ^ 16 → ∀ (k : Bytes → ReadM SdkRequest),
      (sdk.slice16 >>= k) (slice16Bytes s ++ rest) = k s rest := by
    intro s rest hs k
    show (sdk.slice16 (slice16Bytes s ++ rest)).bind _ = _
    rw [sdk.slice16_append s rest hs]
    rfl
  have hpairs : ∀ (hs : List NtcHeader) (rest : Bytes), hs.length < 2 ^ 16 →
      (∀ x ∈ hs, x.FitsWire) → ∀ (k : List NtcHeader → ReadM SdkRequest),
      (sdk.pairs >>= k) (headersBytes hs ++ rest) = k hs rest := by
    intro hs rest hlen hfit k
    show (sdk.pairs (headersBytes hs ++ rest)).bind _ = _
    rw [sdk.pairs_append rest hlen hfit]
    rfl
  have hdecode : sdk.decode (requestBytes req) = some (sdk.requestOf req, []) := by
    rw [Sdk.decode, requestBytes]
    simp only [List.append_assoc]
    rw [hslice _ _ h.method, hslice _ _ h.path, hslice _ _ h.query,
      hpairs _ _ hheaders h.headers.2, hpairs _ _ hparams h.params.2, hslice _ _ h.authSub,
      hslice _ _ h.authScope, slice32Bytes]
    have hbody : (rU32 >>= sdk.slice) (putU32 req.body.length ++ req.body) =
        some (req.body, []) := by
      rw [u32Codec.dec_bind h.body]
      simpa using sdk.slice_append req.body []
    show ((rU32 >>= sdk.slice) (putU32 req.body.length ++ req.body)).bind _ = _
    rw [hbody]
    rfl
  cases sdk <;> exact congrArg (Option.map Prod.fst) hdecode

-- ============================================================================
-- A map keeps the last entry
-- ============================================================================

/-- Indexing finds nothing of the object's own, and `Object.prototype` has a
    property of that name. -/
def Sdk.Inherits (sdk : Sdk) (k : Text) (present : Prop) : Prop :=
  sdk = .typescript ∧ k ∈ objectPrototype ∧ (k = protoKey ∨ ¬ present)

/-- The last entry of a key. -/
def lastEntry (entries : List (Text × Text)) (k : Text) : Option (Text × Text) :=
  entries.reverse.find? fun e => e.1 == k

theorem lastEntry_snoc (entries : List (Text × Text)) (e : Text × Text) (k : Text) :
    lastEntry (entries ++ [e]) k = if e.1 = k then some e else lastEntry entries k := by
  rw [lastEntry, List.reverse_append, List.reverse_singleton, List.singleton_append,
    List.find?_cons]
  by_cases hk : e.1 = k
  · rw [if_pos hk, beq_iff_eq.mpr hk]
  · rw [if_neg hk, beq_eq_false_iff_ne.mpr hk]
    rfl

theorem lastEntry_isSome_iff {entries : List (Text × Text)} {k : Text} :
    (lastEntry entries k).isSome = true ↔ ∃ e ∈ entries, e.1 = k := by
  rw [lastEntry, List.find?_isSome]
  simp

theorem Sdk.fill_apply (sdk : Sdk) (entries : List (Text × Text)) (k : Text) :
    sdk.fill entries k =
      if sdk = .typescript ∧ k = protoKey then none else (lastEntry entries k).map Prod.snd := by
  induction entries using List.reverseRecOn with
  | nil => simp [Sdk.fill, lastEntry]
  | append_singleton entries e ih =>
      have hstep : sdk.fill (entries ++ [e]) = sdk.set (sdk.fill entries) e.1 e.2 := by
        rw [Sdk.fill, List.foldl_append]
        rfl
      rw [hstep, Sdk.set, lastEntry_snoc]
      by_cases hproto : sdk = .typescript ∧ e.1 = protoKey
      · rw [if_pos hproto, ih]
        by_cases hk : e.1 = k
        · rw [if_pos ⟨hproto.1, hk ▸ hproto.2⟩, if_pos ⟨hproto.1, hk ▸ hproto.2⟩]
        · rw [if_neg hk]
      · rw [if_neg hproto]
        by_cases hk : e.1 = k
        · rw [if_pos hk, ← hk, Function.update_self, if_neg hproto]
          rfl
        · rw [if_neg hk, Function.update_of_ne (fun h => hk h.symm), ih]

/-- Indexing gives the last entry, or nothing, unless the property is
    inherited. -/
theorem Sdk.get_fill_iff (sdk : Sdk) (entries : List (Text × Text)) (k t : Text) :
    (sdk.get (sdk.fill entries) k).text? = some t ↔
      ¬ sdk.Inherits k (∃ e ∈ entries, e.1 = k) ∧ ((lastEntry entries k).elim [] Prod.snd) = t := by
  rw [Sdk.get, sdk.fill_apply, ← lastEntry_isSome_iff]
  by_cases hproto : sdk = .typescript ∧ k = protoKey
  · have hmem : k ∈ objectPrototype := by
      rw [hproto.2]
      exact List.mem_cons_self
    have hin : sdk.Inherits k ((lastEntry entries k).isSome = true) :=
      ⟨hproto.1, hmem, Or.inl hproto.2⟩
    rw [if_pos hproto]
    dsimp only
    rw [if_pos ⟨hproto.1, hmem⟩]
    exact iff_of_false (by simp [Looked.text?]) (fun h => h.1 hin)
  · rw [if_neg hproto]
    cases hlast : lastEntry entries k with
    | some e =>
        have hown : ¬ sdk.Inherits k ((some e).isSome = true) := by
          rintro ⟨hts, -, hk | hno⟩
          · exact hproto ⟨hts, hk⟩
          · exact hno rfl
        rw [and_iff_right hown]
        show some e.2 = some t ↔ e.2 = t
        rw [Option.some.injEq]
    | none =>
        dsimp only [Option.map_none]
        by_cases hin : sdk = .typescript ∧ k ∈ objectPrototype
        · rw [if_pos hin]
          exact iff_of_false (by simp [Looked.text?])
            (fun h => h.1 ⟨hin.1, hin.2, Or.inr (by simp)⟩)
        · have hown : ¬ sdk.Inherits k ((none : Option (Text × Text)).isSome = true) :=
            fun h => hin ⟨h.1, h.2.1⟩
          rw [if_neg hin, and_iff_right hown]
          show some [] = some t ↔ [] = t
          rw [Option.some.injEq]

-- ============================================================================
-- Names
-- ============================================================================

theorem isTchar_lt {c : UInt8} (h : isTchar c = true) : c < 0x80 := by
  simp only [isTchar, Bool.or_eq_true, Bool.and_eq_true, decide_eq_true_eq] at h
  obtain ((⟨-, h⟩ | ⟨-, h⟩) | ⟨-, h⟩) | h := h
  · exact UInt8.lt_of_le_of_lt h (by decide)
  · exact UInt8.lt_of_le_of_lt h (by decide)
  · exact UInt8.lt_of_le_of_lt h (by decide)
  · have hall : ∀ x ∈ lit "!#$%&'*+-.^_`|~", x < 0x80 := by decide +kernel
    exact hall c (List.contains_iff_mem.mp h)

/-- ASCII text is the same in every SDK. -/
theorem Sdk.text_ascii (sdk : Sdk) : ∀ {s : Bytes}, (∀ c ∈ s, c < 0x80) →
    sdk.text s = s.map UInt8.toNat := by
  intro s h
  cases sdk with
  | rust =>
      induction s with
      | nil => rfl
      | cons c s ih =>
          have hrest := ih fun x hx => h x (List.mem_cons_of_mem c hx)
          show utf8Lossy (c :: s) = _
          rw [utf8Lossy.eq_def]
          dsimp only
          rw [if_pos (h c List.mem_cons_self), List.map_cons]
          exact congrArg _ hrest
  | _ => rfl

theorem isToken_ascii {s : Bytes} (h : isToken s = true) : ∀ c ∈ s, c < 0x80 := by
  intro c hc
  rw [isToken, Bool.and_eq_true] at h
  exact isTchar_lt (List.all_eq_true.mp h.2 c hc)

theorem lower_toNat (s : Bytes) : lower (s.map UInt8.toNat) = (s.map lc).map UInt8.toNat := by
  rw [lower, List.map_map, List.map_map]
  refine List.map_congr_left fun c _ => ?_
  simp only [Function.comp_apply, lc, UInt8.le_iff_toNat_le]
  have hc := c.toNat_lt
  split
  · rename_i h
    have h65 : (65 : UInt8).toNat = 65 := rfl
    have h90 : (90 : UInt8).toNat = 90 := rfl
    rw [if_pos (by omega), UInt8.toNat_add, UInt8.toNat_sub_of_le _ _ (by
      rw [UInt8.le_iff_toNat_le]; omega)]
    have h97 : (97 : UInt8).toNat = 97 := rfl
    omega
  · rename_i h
    have h65 : (65 : UInt8).toNat = 65 := rfl
    have h90 : (90 : UInt8).toNat = 90 := rfl
    rw [if_neg (by omega)]

/-- Names of headers fall together in a map exactly when the gateway takes them
    for the same. -/
theorem Sdk.lower_text_eq_iff (sdk : Sdk) {a b : Bytes} (ha : isToken a = true)
    (hb : isToken b = true) :
    lower (sdk.text a) = lower (sdk.text b) ↔ islabelEq a b = true := by
  rw [sdk.text_ascii (isToken_ascii ha), sdk.text_ascii (isToken_ascii hb), lower_toNat,
    lower_toNat, islabelEq, beq_iff_eq]
  exact (List.map_injective_iff.mpr fun x y => UInt8.toNat_inj.mp).eq_iff

-- ============================================================================
-- Agreement
-- ============================================================================

/-- A request the gateway can forward: as many headers and parameters as it
    keeps, and header names that are tokens. -/
structure Forwardable (req : NtcRequest) : Prop where
  headers : req.headers.length ≤ ntcMaxHeaders
  params : req.params.length ≤ ntcMaxParams
  names : ∀ h ∈ req.headers, isToken h.name = true

/-- The last header of a name has the text of the first, and indexing reaches
    it. -/
def HeaderAgrees (sdk : Sdk) (req : NtcRequest) (name : Bytes) : Prop :=
  ¬ sdk.Inherits (lower (sdk.text name)) (∃ h ∈ req.headers, islabelEq h.name name = true) ∧
  sdk.text (valueOf (req.headers.reverse.find? fun h => islabelEq h.name name)) =
    sdk.text (valueOf (req.headers.find? fun h => islabelEq h.name name))

/-- The last parameter whose name has the same text has the text of the first
    of that name, and indexing reaches it. -/
def ParamAgrees (sdk : Sdk) (req : NtcRequest) (name : Bytes) : Prop :=
  ¬ sdk.Inherits (sdk.text name) (∃ p ∈ req.params, sdk.text p.name = sdk.text name) ∧
  sdk.text (valueOf (req.params.reverse.find? fun p => sdk.text p.name == sdk.text name)) =
    sdk.text (valueOf (req.params.find? fun p => p.name == name))

theorem Sdk.text_nil (sdk : Sdk) : sdk.text [] = [] := by
  cases sdk <;> rfl

/-- The last entry, read off the pairs the entries were made of. -/
theorem lastEntry_map (sdk : Sdk) {hs : List NtcHeader} {key : NtcHeader → Text}
    {same : NtcHeader → Bool} {k : Text} (hsame : ∀ h ∈ hs, key h = k ↔ same h = true) :
    (lastEntry (hs.map fun h => (key h, sdk.text h.value)) k).elim [] Prod.snd =
      sdk.text (valueOf (hs.reverse.find? same)) := by
  induction hs using List.reverseRecOn with
  | nil => exact sdk.text_nil.symm
  | append_singleton hs h ih =>
      have hlast := hsame h (by simp)
      rw [List.map_append, List.map_singleton, lastEntry_snoc, List.reverse_append,
        List.reverse_singleton, List.singleton_append, List.find?_cons]
      by_cases hk : key h = k
      · rw [if_pos hk, hlast.mp hk]
        rfl
      · rw [if_neg hk, Bool.eq_false_iff.mpr fun h => hk (hlast.mpr h)]
        exact ih fun x hx => hsame x (List.mem_append_left _ hx)

theorem Sdk.header_iff (sdk : Sdk) {req : NtcRequest} (hreq : Forwardable req) {name : Bytes}
    (hname : isToken name = true) :
    ((sdk.requestOf req).header sdk name).text? = some (sdk.text (ntcHttpHeader req name)) ↔
      HeaderAgrees sdk req name := by
  have hsame : ∀ h ∈ req.headers,
      lower (sdk.text h.name) = lower (sdk.text name) ↔ islabelEq h.name name = true :=
    fun h hh => sdk.lower_text_eq_iff (hreq.names h hh) hname
  have hpresent : (∃ e ∈ req.headers.map sdk.headerEntry, e.1 = lower (sdk.text name)) ↔
      ∃ h ∈ req.headers, islabelEq h.name name = true := by
    constructor
    · rintro ⟨e, he, hk⟩
      obtain ⟨h, hh, rfl⟩ := List.mem_map.mp he
      exact ⟨h, hh, (hsame h hh).mp hk⟩
    · rintro ⟨h, hh, hk⟩
      exact ⟨_, List.mem_map_of_mem hh, (hsame h hh).mpr hk⟩
  rw [SdkRequest.header, Sdk.requestOf, sdk.get_fill_iff, hpresent, ntcHttpHeader_eq, HeaderAgrees]
  have hlast := @lastEntry_map sdk req.headers (fun h => lower (sdk.text h.name)) _ _ hsame
  exact and_congr_right fun _ => (by rw [← hlast]; rfl)

theorem Sdk.param_iff (sdk : Sdk) (req : NtcRequest) (name : Bytes) :
    ((sdk.requestOf req).param sdk name).text? = some (sdk.text (ntcReqParam req name)) ↔
      ParamAgrees sdk req name := by
  have hpresent : (∃ e ∈ req.params.map sdk.paramEntry, e.1 = sdk.text name) ↔
      ∃ p ∈ req.params, sdk.text p.name = sdk.text name := by
    constructor
    · rintro ⟨e, he, hk⟩
      obtain ⟨p, hp, rfl⟩ := List.mem_map.mp he
      exact ⟨p, hp, hk⟩
    · rintro ⟨p, hp, hk⟩
      exact ⟨_, List.mem_map_of_mem hp, hk⟩
  rw [SdkRequest.param, Sdk.requestOf, sdk.get_fill_iff, hpresent, ntcReqParam, ParamAgrees]
  have hlast := @lastEntry_map sdk req.params (fun p => sdk.text p.name)
    (fun p => sdk.text p.name == sdk.text name) (sdk.text name)
    fun p _ => beq_iff_eq.symm
  exact and_congr_right fun _ => (by rw [← hlast]; rfl)

/-- Every SDK decodes what the gateway forwards.  The C SDK finds the headers
    and parameters that the gateway finds; a map gives the same text exactly
    when the last entry of the name has the text of the first and the name is
    not one that a TypeScript object inherits. -/
theorem sdk_lookup_iff (sdk : Sdk) {req : NtcRequest} {enc : Bytes} (hreq : Forwardable req)
    (henc : ntcWireEncodeRequest req encodeCap = some enc) :
    ∃ c n r, RBuf.decodeRequest enc = some (c, n) ∧ sdk.decodeRequest enc = some r ∧
      (∀ name, isToken name = true →
        ntcHttpHeader (c.bytes enc) name = ntcHttpHeader req name ∧
        ((r.header sdk name).text? = some (sdk.text (ntcHttpHeader req name)) ↔
          HeaderAgrees sdk req name)) ∧
      ∀ name, 0 ∉ name →
        ntcReqParam (c.bytes enc) name = ntcReqParam req name ∧
        ((r.param sdk name).text? = some (sdk.text (ntcReqParam req name)) ↔
          ParamAgrees sdk req name) := by
  have hcapped : req.capped = req := by
    rw [NtcRequest.capped, List.take_of_length_le hreq.headers, List.take_of_length_le hreq.params]
  obtain ⟨hfit, hbytes⟩ := ntcWireEncodeRequest_some (by decide) henc
  obtain ⟨c, n, hdec, hc⟩ := decodeRequest_of_encode (by decide) henc
  rw [hcapped] at hfit hbytes hc
  refine ⟨c, n, sdk.requestOf req, hdec, hbytes ▸ sdk.decode_requestBytes hfit, ?_, ?_⟩
  · intro name hname
    refine ⟨?_, sdk.header_iff hreq hname⟩
    rw [hc]
    rfl
  · intro name _
    refine ⟨?_, sdk.param_iff req name⟩
    rw [hc]
    rfl

/-- A request with a header that is repeated. -/
def cookieRequest (second : Bytes) : NtcRequest where
  method := lit "GET"
  path := lit "/"
  headers := [⟨lit "Cookie", lit "a=1"⟩, ⟨lit "cookie", second⟩]

theorem cookieRequest_forwardable (second : Bytes) : Forwardable (cookieRequest second) where
  headers := (by decide : 2 ≤ ntcMaxHeaders)
  params := Nat.zero_le _
  names := by
    intro h hh
    rw [cookieRequest, List.mem_cons, List.mem_singleton] at hh
    rcases hh with rfl | rfl
    · exact (by decide : isToken (lit "Cookie") = true)
    · exact (by decide : isToken (lit "cookie") = true)

/-- Two equal cookies: the Go map gives what the gateway sees. -/
theorem sdk_lookup_repeated :
    ∃ enc c n r, ntcWireEncodeRequest (cookieRequest (lit "a=1")) encodeCap = some enc ∧
      RBuf.decodeRequest enc = some (c, n) ∧ Sdk.go.decodeRequest enc = some r ∧
      (r.header .go (lit "Cookie")).text? =
        some (Sdk.go.text (ntcHttpHeader (cookieRequest (lit "a=1")) (lit "Cookie"))) := by
  have henc : (ntcWireEncodeRequest (cookieRequest (lit "a=1")) encodeCap).isSome = true := by
    decide
  obtain ⟨enc, henc⟩ := Option.isSome_iff_exists.mp henc
  obtain ⟨c, n, r, hc, hr, hheader, -⟩ :=
    sdk_lookup_iff .go (cookieRequest_forwardable (lit "a=1")) henc
  refine ⟨enc, c, n, r, henc, hc, hr, (hheader (lit "Cookie") (by decide)).2.mpr ⟨?_, ?_⟩⟩
  · rintro ⟨hts, -⟩
    cases hts
  · decide

/-- Two different cookies: the gateway reads the first, a Python controller
    the second. -/
theorem repeated_header_differs :
    ∃ enc r, ntcWireEncodeRequest (cookieRequest (lit "a=2")) encodeCap = some enc ∧
      pyDecodeRequest enc = some r ∧
      ntcHttpHeader (cookieRequest (lit "a=2")) (lit "cookie") = lit "a=1" ∧
      r.header .python (lit "cookie") = .text (textOfString "a=2") := by
  have hboth : ((ntcWireEncodeRequest (cookieRequest (lit "a=2")) encodeCap).bind
      pyDecodeRequest).map (fun r => r.header .python (lit "cookie")) =
        some (.text (textOfString "a=2")) := by
    decide +kernel
  obtain ⟨r, hr, hget⟩ := Option.map_eq_some_iff.mp hboth
  obtain ⟨enc, henc, hdec⟩ := Option.bind_eq_some_iff.mp hr
  exact ⟨enc, r, henc, hdec, by decide, hget⟩

end Naitron
