/-
  Naitron.JwtKeys

  Which key of a JWKS document `ntc_jwt_verify_jwks` takes for a token.

  The kid of a token and the kids of the document pass through the JSON
  parser, which keeps 64 members of an object, and through `kid[80]`, in which
  a kid that is too long and one that is absent look the same (`kidRead`).
-/

import Naitron.JwtExpiry

namespace Naitron

-- ============================================================================
-- Members of a document
-- ============================================================================

theorem find?_take {α : Type} (p : α → Bool) : ∀ (l : List α) (n : Nat),
    (l.take n).find? p = if l.findIdx p < n then l.find? p else none := by
  intro l
  induction l with
  | nil =>
      intro n
      rw [List.take_nil, List.find?_nil, ite_self]
  | cons a l ih =>
      intro n
      cases n with
      | zero => rfl
      | succ n =>
          rw [List.take_succ_cons, List.findIdx_cons, List.find?_cons, List.find?_cons]
          cases hp : p a with
          | true => rw [cond_true, if_pos (Nat.succ_pos n)]
          | false =>
              rw [cond_false, ih n]
              simp only [Nat.add_lt_add_iff_right]

namespace JsonDoc

/-- The members of an object, all of them. -/
def members : JsonDoc → List (List StrPiece × JsonDoc)
  | .obj keys vals => keys.zip vals
  | _ => []

/-- Where the first member of a name stands. -/
def fieldIndex (doc : JsonDoc) (name : Bytes) : Nat :=
  doc.members.findIdx fun m => codeString m.1 == name

/-- The first member of a name. -/
def field (doc : JsonDoc) (name : Bytes) : Option JsonDoc :=
  (doc.members.find? fun m => codeString m.1 == name).map Prod.snd

/-- The string in a member, empty for anything else. -/
def strField (doc : JsonDoc) (name : Bytes) : Bytes :=
  match doc.field name with
  | some (.str ps) => codeString ps
  | _ => []

end JsonDoc

/-- `ntc_json_get` knows the members that the parser keeps. -/
theorem ntcJsonGet_code (doc : JsonDoc) (name : Bytes) :
    ntcJsonGet doc.code name =
      if doc.fieldIndex name < ntcJsonMaxMembers then (doc.field name).map JsonDoc.code
      else none := by
  cases doc with
  | null | bool | num | str | arr => exact (ite_self none).symm
  | obj keys vals =>
      rw [JsonDoc.code, ntcJsonGet, List.zip, ← List.take_zipWith, ← List.zip, zip_codes,
        find?_take, List.findIdx_map, List.find?_map, JsonDoc.fieldIndex, JsonDoc.field,
        JsonDoc.members, apply_ite (Option.map Prod.snd), Option.map_map, Option.map_map]
      rfl

theorem jsonStrField_code (doc : JsonDoc) (name : String) :
    jsonStrField doc.code name =
      if doc.fieldIndex (lit name) < ntcJsonMaxMembers then doc.strField (lit name) else [] := by
  rw [jsonStrField, ntcJsonGet_code, JsonDoc.strField]
  by_cases hlt : doc.fieldIndex (lit name) < ntcJsonMaxMembers
  · rw [if_pos hlt, if_pos hlt]
    cases doc.field (lit name) with
    | none => rfl
    | some value => cases value <;> rfl
  · rw [if_neg hlt, if_neg hlt]
    rfl

-- ============================================================================
-- The kid
-- ============================================================================

/-- The kid of a header or of a key, as it is written. -/
def JsonDoc.kidOf (doc : JsonDoc) : Bytes := doc.strField (lit "kid")

/-- What is kept of it: up to a NUL, when it is among the members that the
    parser keeps and has at most 79 bytes. -/
def JsonDoc.kidRead (doc : JsonDoc) : Bytes :=
  if doc.fieldIndex (lit "kid") < ntcJsonMaxMembers ∧ doc.kidOf.length < 80 then cstr doc.kidOf
  else []

/-- `kid[80]` of a key. -/
theorem shortField_kid (doc : JsonDoc) : (shortField doc.code "kid" 80).bytes = doc.kidRead := by
  have hfield := jsonStrField_code doc "kid"
  rw [← JsonDoc.kidOf] at hfield
  rw [shortField, JsonDoc.kidRead, hfield]
  by_cases hlt : doc.fieldIndex (lit "kid") < ntcJsonMaxMembers
  · by_cases hlen : doc.kidOf.length < 80
    · rw [if_pos hlt, if_pos hlen, if_pos ⟨hlt, hlen⟩]
      exact clip_of_lt hlen
    · rw [if_pos hlt, if_neg hlen, if_neg fun h => hlen h.2]
      rfl
  · rw [if_neg hlt, if_pos (by decide), if_neg fun h => hlt h.1]
    rfl

/-- `ntc_jwt_peek_header` reads the kid of the header. -/
theorem ntcJwtPeekHeader_kid {token : Bytes} {jp : JwtParts} {n : Nat} {buf : Bytes}
    {hdoc : JsonDoc} {alg kid : Bytes} (hsplit : jwtSplit token = some jp)
    (hdec : DecodesTo jp.h buf) (htext : TextOf n buf hdoc)
    (hpeek : ntcJwtPeekHeader token = some (alg, kid)) : kid = hdoc.kidRead := by
  rw [ntcJwtPeekHeader, hsplit, Option.bind_some, jwtJson, hdec.decode] at hpeek
  by_cases hroom : buf.length ≤ 1024
  swap
  · rw [if_neg hroom] at hpeek
    cases hpeek
  rw [if_pos hroom, Option.bind_some] at hpeek
  by_cases hempty : buf.isEmpty = true
  · rw [if_pos hempty] at hpeek
    cases hpeek
  rw [if_neg hempty] at hpeek
  by_cases hdeep : TextOf ntcJsonMaxDepth buf hdoc
  swap
  · rw [htext.parse_eq.2 hdeep] at hpeek
    cases hpeek
  rw [htext.parse_eq.1 hdeep, Option.bind_some] at hpeek
  dsimp only at hpeek
  split at hpeek
  swap
  · cases hpeek
  obtain ⟨-, hkid⟩ := Prod.mk.inj (Option.some.inj hpeek)
  have hfield := jsonStrField_code hdoc "kid"
  rw [← JsonDoc.kidOf] at hfield
  rw [← hkid, hfield, JsonDoc.kidRead]
  by_cases hlt : hdoc.fieldIndex (lit "kid") < ntcJsonMaxMembers
  · rw [if_pos hlt]
    by_cases hlen : hdoc.kidOf.length < 80
    · by_cases hnil : hdoc.kidOf = []
      · rw [if_neg fun h => h.1 hnil, if_pos ⟨hlt, hlen⟩, hnil]
        rfl
      · rw [if_pos ⟨hnil, hlen⟩, if_pos ⟨hlt, hlen⟩]
        exact clip_of_lt hlen
    · rw [if_neg fun h => hlen h.2, if_neg fun h => hlen h.2]
  · rw [if_neg hlt, if_neg fun h => h.1 rfl, if_neg fun h => hlt h.1]

-- ============================================================================
-- The keys
-- ============================================================================

/-- What `jwk_load_one` makes of an element. -/
def JsonDoc.jwk (item : JsonDoc) : Option NtcJwkKey := jwkLoadOne item.code

namespace JsonDoc

/-- The elements of the array `keys`, or the document as a bare key. -/
def jwkItems (doc : JsonDoc) : List JsonDoc :=
  match doc.field (lit "keys") with
  | some (.arr items) => items
  | _ => [doc]

/-- The keys of a document: the elements that can be loaded. -/
def jwks (doc : JsonDoc) : List JsonDoc := doc.jwkItems.filter fun item => item.jwk.isSome

/-- The elements that the parser keeps. -/
def keptItems (doc : JsonDoc) : List JsonDoc :=
  if doc.fieldIndex (lit "keys") < ntcJsonMaxMembers then doc.jwkItems.take ntcJsonMaxMembers
  else [doc]

/-- The keys that `ntc_jwks_parse` keeps. -/
def keptJwks (doc : JsonDoc) : List JsonDoc :=
  (doc.keptItems.filter fun item => item.jwk.isSome).take ntcJwksMaxKeys

/-- The key can check signatures of the algorithm. -/
def Fits (alg : Bytes) (item : JsonDoc) : Prop := ∃ k, item.jwk = some k ∧ ktyFits alg k.kty = true

/-- What is kept of the key's kid is taken for what is kept of the token's. -/
def Answers (read : Bytes) (item : JsonDoc) : Prop := read = [] ∨ item.kidRead = read

/-- The first key of the set that fits and answers. -/
def Taken (doc : JsonDoc) (alg read : Bytes) (item : JsonDoc) : Prop :=
  item.Fits alg ∧ item.Answers read ∧ ∃ before after, doc.keptJwks = before ++ item :: after ∧
    ∀ x ∈ before, x.Fits alg → ¬ x.Answers read

end JsonDoc

/-- A key that loads has its kid as `kidRead` has it. -/
theorem JsonDoc.jwk_kid {item : JsonDoc} {k : NtcJwkKey} (h : item.jwk = some k) :
    k.kid.bytes = item.kidRead := by
  rw [JsonDoc.jwk, jwkLoadOne.eq_def] at h
  cases hcode : item.code with
  | null | bool | num | str | arr =>
      rw [hcode] at h
      cases h
  | obj keys vals =>
      rw [hcode] at h
      obtain ⟨kty, -, rfl⟩ := Option.map_eq_some_iff.mp h
      dsimp only
      rw [← hcode, shortField_kid]

theorem take_filterMap_isSome {α β : Type} (f : α → Option β) (l : List α) (n : Nat) :
    (l.filterMap f).take n = ((l.filter fun a => (f a).isSome).take n).filterMap f := by
  induction l generalizing n with
  | nil =>
      rw [List.filterMap_nil, List.filter_nil, List.take_nil, List.take_nil, List.filterMap_nil]
  | cons a l ih =>
      cases hf : f a with
      | none =>
          rw [List.filter_cons_of_neg (by rw [hf]; exact Bool.false_ne_true),
            List.filterMap_cons_none hf, ih]
      | some b =>
          rw [List.filter_cons_of_pos (by rw [hf]; rfl), List.filterMap_cons_some hf]
          cases n with
          | zero => rfl
          | succ n => rw [List.take_succ_cons, List.take_succ_cons, List.filterMap_cons_some hf, ih]

/-- The set of a document that is accepted. -/
theorem ntcJwksParse_eq {n : Nat} {json : Bytes} {doc : JsonDoc} {set : NtcJwks}
    (htext : TextOf n json doc) (h : ntcJwksParse json = some set) :
    set = doc.keptJwks.filterMap JsonDoc.jwk := by
  by_cases hdeep : TextOf ntcJsonMaxDepth json doc
  swap
  · rw [ntcJwksParse, htext.parse_eq.2 hdeep] at h
    cases h
  rw [ntcJwksParse, htext.parse_eq.1 hdeep] at h
  dsimp only at h
  rw [ntcJsonGet_code] at h
  have hkeys : ∀ l : List NtcJwkKey, (if l.isEmpty = true then none else some l) = some set →
      set = l := by
    intro l hl
    split at hl
    · cases hl
    · exact (Option.some.inj hl).symm
  have hset := hkeys _ h
  rw [hset, JsonDoc.keptJwks, JsonDoc.keptItems]
  have hbare : ((jwkLoadOne doc.code).toList) =
      (([doc].filter fun item => item.jwk.isSome).take ntcJwksMaxKeys).filterMap JsonDoc.jwk := by
    rw [← take_filterMap_isSome]
    cases hjwk : doc.jwk with
    | none =>
        rw [List.filterMap_cons_none hjwk, show jwkLoadOne doc.code = none from hjwk]
        rfl
    | some k =>
        rw [List.filterMap_cons_some hjwk, show jwkLoadOne doc.code = some k from hjwk]
        rfl
  by_cases hlt : doc.fieldIndex (lit "keys") < ntcJsonMaxMembers
  · rw [if_pos hlt, if_pos hlt, JsonDoc.jwkItems]
    cases hfield : doc.field (lit "keys") with
    | none => exact hbare
    | some value =>
        cases value with
        | null | bool | num | str | obj => exact hbare
        | arr items =>
            rw [Option.map_some, JsonDoc.code]
            dsimp only
            rw [JsonDoc.codes_eq, ← List.map_take, List.filterMap_map, ← take_filterMap_isSome]
            rfl
  · rw [if_neg hlt, if_neg hlt]
    exact hbare

-- ============================================================================
-- The key taken
-- ============================================================================

/-- The test of `ntc_jwks_find` on an element of the document. -/
def JsonDoc.picks (alg read : Bytes) (item : JsonDoc) : Bool :=
  item.jwk.any fun k => ktyFits alg k.kty && (read.isEmpty || item.kidRead == read)

/-- The element whose key `ntc_jwks_find` returns. -/
def JsonDoc.jwksPick (doc : JsonDoc) (alg read : Bytes) : Option JsonDoc :=
  doc.keptJwks.find? (JsonDoc.picks alg read)

/-- What `ntc_jwt_verify_jwks` does with the key it has found. -/
def NtcJwkKey.verify (X : JwtExt) (k : NtcJwkKey) (alg token : Bytes) (now : Int) :
    Option NtcJwtClaims :=
  match k.kty with
  | .rsa n e => if alg = lit "RS256" then ntcJwtVerifyRs256 X token n e now else none
  | .ec q => if alg = lit "ES256" then ntcJwtVerifyEs256 X token q now else none

theorem JsonDoc.picks_iff {alg read : Bytes} {item : JsonDoc} :
    item.picks alg read = true ↔ item.Fits alg ∧ item.Answers read := by
  rw [JsonDoc.picks, Option.any_eq_true]
  simp only [JsonDoc.Fits, JsonDoc.Answers, Bool.and_eq_true, Bool.or_eq_true, List.isEmpty_iff,
    beq_iff_eq]
  constructor
  · rintro ⟨k, hk, hfits, hanswers⟩
    exact ⟨⟨k, hk, hfits⟩, hanswers⟩
  · rintro ⟨⟨k, hk, hfits⟩, hanswers⟩
    exact ⟨k, hk, hfits, hanswers⟩

theorem JsonDoc.jwksPick_iff {doc : JsonDoc} {alg read : Bytes} {item : JsonDoc} :
    doc.jwksPick alg read = some item ↔ doc.Taken alg read item := by
  rw [JsonDoc.jwksPick, List.find?_eq_some_iff_append, JsonDoc.picks_iff, JsonDoc.Taken, and_assoc]
  refine and_congr_right fun _ => and_congr_right fun _ => exists_congr fun before =>
    exists_congr fun after => and_congr_right fun _ => forall₂_congr fun x _ => ?_
  rw [Bool.not_eq_true', ← Bool.not_eq_true, JsonDoc.picks_iff, not_and]

/-- `ntc_jwks_find` on the set of a document. -/
theorem ntcJwksFind_pick (doc : JsonDoc) (alg read : Bytes) :
    ntcJwksFind (doc.keptJwks.filterMap JsonDoc.jwk) read alg =
      (doc.jwksPick alg read).bind JsonDoc.jwk := by
  have hfind : ∀ (p : NtcJwkKey → Bool), (∀ (item : JsonDoc) k, item.jwk = some k →
      p k = (ktyFits alg k.kty && (read.isEmpty || item.kidRead == read))) →
      (doc.keptJwks.filterMap JsonDoc.jwk).find? p = (doc.jwksPick alg read).bind JsonDoc.jwk := by
    intro p hp
    rw [List.find?_filterMap, JsonDoc.jwksPick]
    congr 2
    funext item
    rw [JsonDoc.picks]
    cases hjwk : item.jwk with
    | none => rfl
    | some k => exact hp item k hjwk
  rw [ntcJwksFind]
  by_cases hread : read.isEmpty = true
  · rw [if_pos hread]
    refine hfind _ fun item k _ => ?_
    rw [hread, Bool.true_or, Bool.and_true]
  · rw [if_neg hread]
    refine hfind _ fun item k hjwk => ?_
    rw [Bool.not_eq_true] at hread
    rw [hread, Bool.false_or, JsonDoc.jwk_kid hjwk]

/-- `ntc_jwt_verify_jwks` checks the token under the key taken. -/
theorem ntcJwtVerifyJwks_pick {X : JwtExt} {n : Nat} {json : Bytes} {doc : JsonDoc}
    {set : NtcJwks} {token alg read : Bytes} (htext : TextOf n json doc)
    (hset : ntcJwksParse json = some set) (hpeek : ntcJwtPeekHeader token = some (alg, read))
    (now : Int) :
    ntcJwtVerifyJwks (jwtOps X) token set now =
      (doc.jwksPick alg read).bind fun item => item.jwk.bind fun k => k.verify X alg token now := by
  have hops : (jwtOps X).peekHeader token = some (alg, read) := hpeek
  rw [ntcJwtVerifyJwks, hops]
  dsimp only
  rw [ntcJwksParse_eq htext hset, ntcJwksFind_pick]
  cases doc.jwksPick alg read with
  | none => rfl
  | some item =>
      rw [Option.bind_some, Option.bind_some]
      cases item.jwk with
      | none => rfl
      | some k => rfl

-- ============================================================================
-- The law
-- ============================================================================

/-- `item` is the first key of the document that fits and has this kid. -/
def JsonDoc.FirstWithKid (doc : JsonDoc) (alg kid : Bytes) (item : JsonDoc) : Prop :=
  item.Fits alg ∧ item.kidOf = kid ∧ ∃ before after, doc.jwks = before ++ item :: after ∧
    ∀ x ∈ before, x.Fits alg → x.kidOf ≠ kid

/-- Selection by kid: a token whose kid no key has is turned away, and the
    first fitting key with the kid is the one that is used. -/
def KidLaw (X : JwtExt) (doc : JsonDoc) (set : NtcJwks) (token alg kid read : Bytes) (now : Int) :
    Prop :=
  ((∀ item ∈ doc.jwks, item.kidOf ≠ kid) → ntcJwtVerifyJwks (jwtOps X) token set now = none) ∧
    ∀ item, doc.FirstWithKid alg kid item → doc.jwksPick alg read = some item

/-- Nothing of a kid gets lost on its way, and no key. -/
structure KidsKept (doc hdoc : JsonDoc) (alg : Bytes) : Prop where
  index : hdoc.fieldIndex (lit "kid") < ntcJsonMaxMembers
  short : hdoc.kidOf.length < 80
  noNul : 0 ∉ hdoc.kidOf
  keys : ∀ item ∈ doc.jwks, item.Fits alg →
    item.fieldIndex (lit "kid") < ntcJsonMaxMembers ∧ 0 ∉ item.kidOf
  kept : doc.keptJwks = doc.jwks

/-- With every kid kept, a key answers exactly to its own kid. -/
theorem KidsKept.answers_iff {doc hdoc : JsonDoc} {alg : Bytes} (h : KidsKept doc hdoc alg)
    (hkid : hdoc.kidOf ≠ []) {item : JsonDoc} (hitem : item ∈ doc.jwks) (hfits : item.Fits alg) :
    item.Answers hdoc.kidRead ↔ item.kidOf = hdoc.kidOf := by
  obtain ⟨hindex, hnul⟩ := h.keys item hitem hfits
  have hread : hdoc.kidRead = hdoc.kidOf := by
    rw [JsonDoc.kidRead, if_pos ⟨h.index, h.short⟩, cstr_of_noNul h.noNul]
  rw [JsonDoc.Answers, hread, or_iff_right hkid, JsonDoc.kidRead]
  by_cases hshort : item.kidOf.length < 80
  · rw [if_pos ⟨hindex, hshort⟩, cstr_of_noNul hnul]
  · rw [if_neg fun hboth => hshort hboth.2]
    refine iff_of_false (fun hnil => hkid hnil.symm) fun heq => ?_
    rw [heq] at hshort
    exact hshort h.short

/-- Keys are selected by kid exactly when a token with an unknown kid does not
    verify under the key that is taken for it, and the first key with the kid
    is kept and answers before any other does; so they are when every kid is
    kept. -/
theorem jwks_kid_selection_iff (X : JwtExt) {n m : Nat} {token hbuf json alg read : Bytes}
    {jp : JwtParts} {hdoc doc : JsonDoc} {set : NtcJwks} {now : Int}
    (hsplit : jwtSplit token = some jp) (hdec : DecodesTo jp.h hbuf) (hhdr : TextOf n hbuf hdoc)
    (hkid : hdoc.kidOf ≠ []) (hset : ntcJwksParse json = some set) (htext : TextOf m json doc) :
    (ntcJwtPeekHeader token = none → ntcJwtVerifyJwks (jwtOps X) token set now = none) ∧
    (ntcJwtPeekHeader token = some (alg, read) → read = hdoc.kidRead ∧
      ntcJwtVerifyJwks (jwtOps X) token set now = ((doc.jwksPick alg read).bind fun item =>
        item.jwk.bind fun k => k.verify X alg token now) ∧
      (KidLaw X doc set token alg hdoc.kidOf read now ↔
        ((∀ item ∈ doc.jwks, item.kidOf ≠ hdoc.kidOf) → ∀ item k, doc.Taken alg read item →
          item.jwk = some k → k.verify X alg token now = none) ∧
        ∀ item, doc.FirstWithKid alg hdoc.kidOf item → doc.Taken alg read item) ∧
      (KidsKept doc hdoc alg → KidLaw X doc set token alg hdoc.kidOf read now)) := by
  refine ⟨fun hnone => ?_, fun hpeek => ?_⟩
  · have hops : (jwtOps X).peekHeader token = none := hnone
    rw [ntcJwtVerifyJwks, hops]
  have hverify := ntcJwtVerifyJwks_pick (X := X) htext hset hpeek now
  have hread := ntcJwtPeekHeader_kid hsplit hdec hhdr hpeek
  have hiff : KidLaw X doc set token alg hdoc.kidOf read now ↔
      ((∀ item ∈ doc.jwks, item.kidOf ≠ hdoc.kidOf) → ∀ item k, doc.Taken alg read item →
        item.jwk = some k → k.verify X alg token now = none) ∧
      ∀ item, doc.FirstWithKid alg hdoc.kidOf item → doc.Taken alg read item := by
    rw [KidLaw, hverify]
    refine and_congr (imp_congr_right fun _ => ?_)
      (forall₂_congr fun item _ => JsonDoc.jwksPick_iff)
    simp only [Option.bind_eq_none_iff, JsonDoc.jwksPick_iff]
    exact ⟨fun h item k htaken hk => h item htaken k hk,
      fun h item htaken k hk => h item k htaken hk⟩
  refine ⟨hread, hverify, hiff, fun hkept => hiff.mpr ⟨?_, ?_⟩⟩
  · rintro hunknown item k ⟨hfits, hanswers, before, after, hsplitKeys, -⟩
    have hmem : item ∈ doc.jwks := by
      rw [← hkept.kept, hsplitKeys]
      exact List.mem_append_right _ List.mem_cons_self
    rw [hread] at hanswers
    exact absurd ((hkept.answers_iff hkid hmem hfits).mp hanswers) (hunknown item hmem)
  · rintro item ⟨hfits, heq, before, after, hkeys, hfirst⟩
    have hmem : ∀ x ∈ before ++ item :: after, x ∈ doc.jwks := fun x hx => hkeys ▸ hx
    refine ⟨hfits, ?_, before, after, hkept.kept.trans hkeys, fun x hx hfitsX hanswers => ?_⟩
    · rw [hread]
      exact (hkept.answers_iff hkid
        (hmem item (List.mem_append_right _ List.mem_cons_self)) hfits).mpr heq
    · rw [hread] at hanswers
      exact hfirst x hx hfitsX ((hkept.answers_iff hkid
        (hmem x (List.mem_append_left _ hx)) hfitsX).mp hanswers)

-- ============================================================================
-- Two tokens
-- ============================================================================

/-- A string without escapes. -/
def plain (s : String) : List StrPiece := (lit s).map .raw

/-- Texts with commas between them. -/
def commaList : List Bytes → Bytes
  | [] => []
  | [x] => x
  | x :: xs => x ++ chComma :: commaList xs

/-- An object of strings, without white space. -/
def strObject (fields : List (String × String)) : Bytes :=
  123 :: (commaList (fields.map fun f => quoted (plain f.1) ++ chColon :: quoted (plain f.2)) ++
    [125])

def strFields (fields : List (String × String)) : List (List StrPiece × JsonDoc) :=
  fields.map fun f => (plain f.1, .str (plain f.2))

def strDoc (fields : List (String × String)) : JsonDoc :=
  .obj ((strFields fields).map Prod.fst) ((strFields fields).map Prod.snd)

/-- No character of the string has to be escaped. -/
def IsPlain (s : String) : Prop := chQuote ∉ lit s ∧ chBackslash ∉ lit s

instance (s : String) : Decidable (IsPlain s) := inferInstanceAs (Decidable (_ ∧ _))

theorem plain_valid {s : String} (h : IsPlain s) : ∀ p ∈ plain s, p.Valid := by
  intro p hp
  obtain ⟨c, hc, rfl⟩ := List.mem_map.mp hp
  refine ⟨?_, ?_⟩
  · rintro rfl
    exact h.1 hc
  · rintro rfl
    exact h.2 hc

/-- A member with a string in it. -/
theorem strMember {key value : List StrPiece} (hkey : ∀ p ∈ key, p.Valid)
    (hvalue : ∀ p ∈ value, p.Valid) :
    Member (Derives 1) (quoted key ++ chColon :: quoted value) (key, .str value) := by
  have hstr : Derives 1 (quoted value) (.str value) := ⟨rfl, hvalue⟩
  have hpad := Padded.mk isWs_nil hstr isWs_nil
  rw [List.nil_append, List.append_nil] at hpad
  exact .mk isWs_nil hkey isWs_nil hpad

theorem strFields_listed : ∀ {fields : List (String × String)}, fields ≠ [] →
    (∀ f ∈ fields, IsPlain f.1 ∧ IsPlain f.2) →
    Listed (Member (Derives 1))
      (commaList (fields.map fun f => quoted (plain f.1) ++ chColon :: quoted (plain f.2)))
      (strFields fields) := by
  intro fields
  induction fields with
  | nil => exact fun h _ => absurd rfl h
  | cons f fields ih =>
      intro _ hplain
      obtain ⟨hkey, hvalue⟩ := hplain f List.mem_cons_self
      have hf := strMember (plain_valid hkey) (plain_valid hvalue)
      cases fields with
      | nil => exact .one hf
      | cons f' fields =>
          exact .more hf (ih (List.cons_ne_nil f' fields)
            fun g hg => hplain g (List.mem_cons_of_mem f hg))

theorem zip_strFields (fields : List (String × String)) :
    ((strFields fields).map Prod.fst).zip ((strFields fields).map Prod.snd) = strFields fields := by
  have hzip := List.zip_unzip (strFields fields)
  rwa [List.unzip_eq_map] at hzip

theorem strObject_derives {fields : List (String × String)} (hne : fields ≠ [])
    (hplain : ∀ f ∈ fields, IsPlain f.1 ∧ IsPlain f.2) :
    Derives 2 (strObject fields) (strDoc fields) := by
  refine ⟨by rw [List.length_map, List.length_map], _, rfl, ?_⟩
  rw [zip_strFields]
  exact .full (strFields_listed hne hplain)

theorem TextOf.of_derives {n : Nat} {s : Bytes} {doc : JsonDoc} (h : Derives n s doc) :
    TextOf n s doc :=
  ⟨[], s, [], isWs_nil, isWs_nil, h, by rw [List.nil_append, List.append_nil]⟩

/-- The key `k1`. -/
def k1Fields : List (String × String) :=
  [("kty", "EC"), ("crv", "P-256"), ("kid", "k1"), ("x", "AA"), ("y", "AA")]

/-- A set with the key `k1`. -/
def k1Json : Bytes :=
  123 :: (quoted (plain "keys") ++ chColon :: (91 :: (strObject k1Fields ++ [93])) ++ [125])

def k1Doc : JsonDoc := .obj [plain "keys"] [.arr [strDoc k1Fields]]

def k1Key : NtcJwkKey where
  kty := .ec (0x04 :: List.replicate 64 0)
  kid := .set 80 (lit "k1")
  alg := .empty 16

/-- The header of a token for a key. -/
def esFields (kid : String) : List (String × String) := [("alg", "ES256"), ("kid", kid)]

def esParts (kid : String) : JwtParts where
  h := base64url (strObject (esFields kid))
  p := base64url (lit "\x7b\x7d")
  sig := base64url (List.replicate 64 0)
  signed := base64url (strObject (esFields kid)) ++ chDot :: base64url (lit "\x7b\x7d")

/-- A token with an empty payload. -/
def esToken (kid : String) : Bytes :=
  compact (esParts kid).h (esParts kid).p (esParts kid).sig

/-- A verifier under which every signature is good. -/
def acceptAll : JwtExt where
  rsaVrfy _ _ _ := none
  ecdsaVrfy _ _ _ := true
  strtodLong text := (longOf text).getD 0

/-- Eighty letters. -/
def longKid : String :=
  "aaaaaaaaaaaaaaaaaaaaaaaaaaaaaaaaaaaaaaaaaaaaaaaaaaaaaaaaaaaaaaaaaaaaaaaaaaaaaaaa"

theorem k1Json_text : TextOf 4 k1Json k1Doc := by
  have hkey : Padded (Derives 2) (strObject k1Fields) (strDoc k1Fields) := by
    have hpad := Padded.mk isWs_nil
      (@strObject_derives k1Fields (by decide) (by decide +kernel)) isWs_nil
    rwa [List.nil_append, List.append_nil] at hpad
  have harr : Derives 3 (91 :: (strObject k1Fields ++ [93])) (.arr [strDoc k1Fields]) :=
    ⟨_, rfl, .full (.one hkey)⟩
  have hmember : Member (Derives 3)
      (quoted (plain "keys") ++ chColon :: (91 :: (strObject k1Fields ++ [93])))
      (plain "keys", .arr [strDoc k1Fields]) := by
    have hpad := Padded.mk isWs_nil harr isWs_nil
    rw [List.nil_append, List.append_nil] at hpad
    exact .mk isWs_nil (plain_valid (by decide)) isWs_nil hpad
  exact .of_derives ⟨rfl, _, rfl, .full (.one hmember)⟩

theorem k1Json_parse : ntcJwksParse k1Json = some [k1Key] := by decide +kernel

theorem esHeader_text {kid : String} (h : IsPlain kid) :
    TextOf 2 (strObject (esFields kid)) (strDoc (esFields kid)) := by
  refine .of_derives (strObject_derives (List.cons_ne_nil _ _) fun f hf => ?_)
  rcases List.mem_cons.mp hf with rfl | hf
  · exact ⟨by decide, by decide⟩
  · rw [List.mem_singleton.mp hf]
    exact ⟨show IsPlain "kid" by decide, h⟩

theorem esToken_header (kid : String) (h : ntcBase64urlDecode (esParts kid).h 1024 =
    some (strObject (esFields kid))) : DecodesTo (esParts kid).h (strObject (esFields kid)) :=
  ⟨1024, h⟩

theorem k1Doc_jwks : k1Doc.jwks = [strDoc k1Fields] := by
  have hload : (strDoc k1Fields).jwk.isSome = true := by decide +kernel
  have hitems : k1Doc.jwkItems = [strDoc k1Fields] := rfl
  rw [JsonDoc.jwks, hitems, List.filter_cons, if_pos hload, List.filter_nil]

/-- A token for `k1` is checked under `k1`. -/
theorem jwks_kid_selection_k1 :
    KidLaw acceptAll k1Doc [k1Key] (esToken "k1") (lit "ES256") (lit "k1") (lit "k1") 0 := by
  have hsplit : jwtSplit (esToken "k1") = some (esParts "k1") := by decide +kernel
  have hpeek : ntcJwtPeekHeader (esToken "k1") = some (lit "ES256", lit "k1") := by
    decide +kernel
  have hkid : (strDoc (esFields "k1")).kidOf = lit "k1" := by decide +kernel
  have hlaw := (@jwks_kid_selection_iff acceptAll _ _ _ _ _ (lit "ES256") (lit "k1") _ _ _ _ 0
    hsplit (esToken_header "k1" (by decide +kernel)) (esHeader_text (by decide))
    (by rw [hkid]; decide) k1Json_parse k1Json_text).2 hpeek
  rw [hkid] at hlaw
  refine hlaw.2.2.2 ⟨by decide +kernel, by decide +kernel, by decide +kernel, ?_, ?_⟩
  · intro item hitem _
    rw [k1Doc_jwks, List.mem_singleton] at hitem
    rw [hitem]
    exact ⟨by decide +kernel, by decide +kernel⟩
  · have hitems : k1Doc.keptItems = k1Doc.jwkItems := rfl
    rw [JsonDoc.keptJwks, hitems, ← JsonDoc.jwks, k1Doc_jwks]
    rfl

/-- A token for a kid of 80 letters is checked under `k1`. -/
theorem long_kid_takes_first_key :
    TextOf 4 k1Json k1Doc ∧ ntcJwksParse k1Json = some [k1Key] ∧
      jwtSplit (esToken longKid) = some (esParts longKid) ∧
      DecodesTo (esParts longKid).h (strObject (esFields longKid)) ∧
      TextOf 2 (strObject (esFields longKid)) (strDoc (esFields longKid)) ∧
      (strDoc (esFields longKid)).kidOf = lit longKid ∧
      (∀ item ∈ k1Doc.jwks, item.kidOf ≠ lit longKid) ∧
      ntcJwtVerifyJwks (jwtOps acceptAll) (esToken longKid) [k1Key] 0 ≠ none := by
  refine ⟨k1Json_text, k1Json_parse, by decide +kernel, esToken_header longKid (by decide +kernel),
    esHeader_text (by decide), by decide +kernel, ?_, by decide +kernel⟩
  intro item hitem
  rw [k1Doc_jwks, List.mem_singleton] at hitem
  rw [hitem]
  decide +kernel

end Naitron
