/-
  Naitron.Server.Oauth

  The callback of the OAuth login of `src/core/server.c`, up to the token
  request: what `handle_oauth` reads from the query string, looks up among the
  pending logins and writes into the body it posts.

  Every step has a buffer of its own.  The code comes through intact exactly
  when none of them cuts it, but for the cuts through an escaped percent sign
  of `take_formDecode_take_iff`.
-/

import Naitron.KvStore
import Naitron.Lib.FormUrl

namespace Naitron

open Naitron.Lib

-- ============================================================================
-- The code
-- ============================================================================

/-- The loop of `url_encode` at offset `o` of `out[cap]`. -/
def urlEncodeLoop (cap : Nat) : Bytes → Nat → Bytes
  | [], _ => []
  | ch :: s, o =>
      if o + 4 < cap then encodeByte ch ++ urlEncodeLoop cap s (o + (encodeByte ch).length)
      else []

/-- `url_encode`: what it leaves in `out[cap]`. -/
def urlEncode (s : Bytes) (cap : Nat) : Bytes := urlEncodeLoop cap (cstr s) 0

/-- `url_decode`, which reads and leaves a C string. -/
def urlDecode (s : Bytes) : Bytes := cstr (formDecode (cstr s))

/-- `query_get` from `p` on: what it copies into `out[cap]`. -/
def queryGet (p key : Bytes) (cap : Nat) : Option Bytes :=
  if p = [] then none
  else
    let amp := memchr p 38
    let seg := p.take (amp.getD p.length)
    if key.length < seg.length ∧ seg.take key.length = key ∧ seg[key.length]? = some 61 then
      some ((seg.drop (key.length + 1)).take (cap - 1))
    else
      match amp with
      | none => none
      | some i => queryGet (p.drop (i + 1)) key cap
termination_by p.length
decreasing_by
  have hp : 0 < p.length := List.length_pos_iff.mpr ‹_›
  rw [List.length_drop]
  omega

/-- The fields of `gateway` that the token request is made of. -/
structure OauthConfig where
  oauthClientId : CStr 160
  oauthClientSecret : CStr 256
  oauthRedirectUri : CStr 256

/-- The text of the token request before the client secret. -/
def oauthText (cfg : OauthConfig) (code verifier : Bytes) : Bytes :=
  let er := urlEncode cfg.oauthRedirectUri.bytes 400
  let ec := urlEncode code 600
  lit "grant_type=authorization_code&code=" ++ ec ++ lit "&redirect_uri=" ++ er
    ++ lit "&client_id=" ++ cfg.oauthClientId.bytes ++ lit "&code_verifier=" ++ verifier

/-- The body of the token request in `body[1800]`. -/
def oauthBody (cfg : OauthConfig) (code verifier : Bytes) : Bytes :=
  let bn := (oauthText cfg code verifier).length
  let body := clip 1800 (oauthText cfg code verifier)
  if cfg.oauthClientSecret.bytes ≠ [] ∧ 0 < bn ∧ bn < 1800 then
    body ++ clip (1800 - bn)
      (lit "&client_secret=" ++ urlEncode cfg.oauthClientSecret.bytes 400)
  else body

variable {cap : Nat}

/-- The callback of `handle_oauth` up to `ntc_https_post`: the body of the
    token request, `none` for the answer 400, and the pending logins. -/
def oauthCallback (cfg : OauthConfig) (pending : NtcKvstore cap) (now : Int) (query : Bytes) :
    Option Bytes × NtcKvstore cap :=
  let code := urlDecode ((queryGet query (lit "code") 512).getD [])
  let state := urlDecode ((queryGet query (lit "state") 64).getD [])
  if code = [] ∨ state = [] then (none, pending)
  else
    match ntcKvGet pending state now 64 with
    | (none, pending) => (none, pending)
    | (some verifier, pending) => (some (oauthBody cfg code verifier), ntcKvDel pending state)

/-- A login with this state is pending. -/
def OauthPending (pending : NtcKvstore cap) (now : Int) (state : Bytes) : Prop :=
  (ntcKvGet pending state now 64).1.isSome

instance (pending : NtcKvstore cap) (now : Int) (state : Bytes) :
    Decidable (OauthPending pending now state) :=
  inferInstanceAs (Decidable (_ = true))

-- ============================================================================
-- The query string
-- ============================================================================

/-- The test of `query_get` is that of a field with the name. -/
theorem queryGet_test_iff (seg key : Bytes) :
    (key.length < seg.length ∧ seg.take key.length = key ∧ seg[key.length]? = some 61) ↔
      fieldValue key seg = some (seg.drop (key.length + 1)) := by
  rw [fieldValue_eq_some_iff]
  constructor
  · rintro ⟨hlt, htake, hsep⟩
    have hsplit := List.take_append_drop key.length seg
    rw [htake, List.drop_eq_getElem_cons hlt] at hsplit
    rw [List.getElem?_eq_getElem hlt] at hsep
    rw [Option.some.inj hsep] at hsplit
    exact hsplit.symm
  · intro h
    rw [h]
    refine ⟨?_, List.take_left, ?_⟩
    · rw [List.length_append, List.length_cons]
      omega
    · rw [List.getElem?_append_right (le_refl _), Nat.sub_self]
      rfl

theorem fieldValue_of_not_test {seg key : Bytes}
    (h : ¬ (key.length < seg.length ∧ seg.take key.length = key ∧
      seg[key.length]? = some 61)) : fieldValue key seg = none := by
  rw [queryGet_test_iff, fieldValue] at h
  rw [fieldValue]
  split_ifs at h ⊢ with hprefix
  · exact absurd rfl h
  · rfl

/-- `query_get` clips the value of the first field with the name. -/
theorem queryGet_eq (p key : Bytes) (cap : Nat) :
    queryGet p key cap = (formField key p).map fun v => v.take (cap - 1) := by
  induction hlen : p.length using Nat.strong_induction_on generalizing p with
  | _ len ih =>
  subst hlen
  rw [queryGet]
  by_cases hnil : p = []
  · rw [if_pos hnil, hnil, formField_single List.not_mem_nil]
    have htest : fieldValue key [] = none := by
      apply fieldValue_of_not_test
      rintro ⟨hlt, _⟩
      exact absurd hlt (Nat.not_lt_zero _)
    rw [htest]
    rfl
  rw [if_neg hnil]
  cases hamp : memchr p 38 with
  | none =>
      have hno : 38 ∉ p := fun hmem => by
        have hall := List.findIdx?_eq_none_iff.mp hamp 38 hmem
        exact absurd hall (by decide)
      dsimp only
      rw [Option.getD_none, List.take_length, formField_single hno]
      split_ifs with htest
      · rw [(queryGet_test_iff p key).mp htest]
        rfl
      · rw [fieldValue_of_not_test htest]
        rfl
  | some i =>
      obtain ⟨a, b, rfl, hno, rfl⟩ := memchr_split hamp
      dsimp only
      rw [Option.getD_some, List.take_left, formField_append hno]
      split_ifs with htest
      · rw [(queryGet_test_iff a key).mp htest]
        rfl
      · have hrest : (a ++ 38 :: b).drop (a.length + 1) = b := by
          rw [← List.drop_drop, List.drop_left]
          rfl
        have hlt : b.length < (a ++ 38 :: b).length := by
          rw [List.length_append, List.length_cons]
          omega
        rw [fieldValue_of_not_test htest, Option.none_or, hrest]
        exact ih b.length hlt b rfl

-- ============================================================================
-- The encoder
-- ============================================================================

/-- What `url_encode` writes of a string: a character is written as long as
    those before it leave room for it. -/
theorem urlEncodeLoop_eq (cap : Nat) (s : Bytes) (o : Nat) :
    ∃ k ≤ s.length, urlEncodeLoop cap s o = formEncode (s.take k) ∧
      ∀ j < s.length, j < k ↔ o + (formEncode (s.take j)).length + 4 < cap := by
  induction s generalizing o with
  | nil => exact ⟨0, le_refl 0, rfl, fun j hj => absurd hj (Nat.not_lt_zero j)⟩
  | cons ch s ih =>
      rw [urlEncodeLoop]
      split_ifs with hroom
      · obtain ⟨k, hk, hout, hmax⟩ := ih (o + (encodeByte ch).length)
        refine ⟨k + 1, Nat.succ_le_succ hk, ?_, ?_⟩
        · rw [hout, List.take_succ_cons, formEncode, formEncode, List.flatMap_cons]
        · intro j hj
          cases j with
          | zero => exact iff_of_true (Nat.succ_pos k) hroom
          | succ j =>
              have hj' := hmax j (Nat.lt_of_succ_lt_succ hj)
              rw [List.take_succ_cons, formEncode, List.flatMap_cons, List.length_append]
              rw [formEncode] at hj'
              omega
      · refine ⟨0, Nat.zero_le _, rfl, fun j hj => ?_⟩
        omega

/-- `url_encode` reaches the end of the string. -/
def EncodesWithin (cap : Nat) (s : Bytes) : Prop :=
  s = [] ∨ (formEncode s.dropLast).length + 4 < cap

instance (cap : Nat) (s : Bytes) : Decidable (EncodesWithin cap s) :=
  inferInstanceAs (Decidable (_ ∨ _))

theorem encodesWithin_take_iff {cap : Nat} {s : Bytes} {k j : Nat} (hj : j ≤ s.length)
    (hmax : ∀ i < s.length, i < k ↔ 0 + (formEncode (s.take i)).length + 4 < cap) :
    EncodesWithin cap (s.take j) ↔ j ≤ k := by
  rw [EncodesWithin]
  cases j with
  | zero => exact iff_of_true (Or.inl List.take_zero) (Nat.zero_le k)
  | succ j =>
      have hnil : s.take (j + 1) ≠ [] := by
        intro h
        have hlen := congrArg List.length h
        rw [List.length_take_of_le hj] at hlen
        exact absurd hlen (Nat.succ_ne_zero j)
      have hlast : (s.take (j + 1)).dropLast = s.take j := by
        rw [List.dropLast_eq_take, List.length_take_of_le hj, List.take_take]
        congr 1
        omega
      have hwritten := hmax j hj
      rw [or_iff_right hnil, hlast]
      omega

/-- A string is written whole, or what is written decodes to less. -/
theorem decode_urlEncode_iff {s : Bytes} (hs : 0 ∉ s) (cap : Nat) :
    formDecode (urlEncode s cap) = s ↔ EncodesWithin cap s := by
  obtain ⟨k, hk, hout, hmax⟩ := urlEncodeLoop_eq cap s 0
  have hend := encodesWithin_take_iff (le_refl s.length) hmax
  rw [List.take_length] at hend
  rw [urlEncode, cstr_of_noNul hs, hout, formDecode_formEncode, hend]
  constructor
  · intro h
    have hlen := congrArg List.length h
    rw [List.length_take_of_le hk] at hlen
    omega
  · exact List.take_of_length_le

/-- The field of a value that was read into a buffer of `n + 1` characters. -/
theorem decode_urlEncode_take_iff {raw : Bytes} (hraw : 0 ∉ formDecode raw) (n cap : Nat) :
    formDecode (urlEncode (formDecode (raw.take n)) cap) = formDecode raw ↔
      EncodesWithin cap (formDecode raw) ∧
        (raw.length ≤ n ∨ CutsEscapedPercent raw n ∨
          (CutAt raw n 2 [37, 50, 53] ∧ cap ≤ (formEncode (formDecode raw)).length + 4)) := by
  have hnul := notMem_formDecode_take (by decide) rfl raw n hraw
  obtain ⟨k, hk, hout, hmax⟩ := urlEncodeLoop_eq cap (formDecode (raw.take n)) 0
  rw [urlEncode, cstr_of_noNul hnul, hout, formDecode_formEncode, take_formDecode_take_iff]
  -- the value is still in front of what the buffer decodes to
  have hfront : raw.length ≤ n ∨ CutsEscapedPercent raw n ∨ CutAt raw n 2 [37, 50, 53] →
      (formDecode (raw.take n)).take (formDecode raw).length = formDecode raw := by
    intro h
    refine (take_formDecode_take_iff raw n _).mpr ⟨le_refl _, ?_⟩
    exact h.imp_right (Or.imp_right fun hcut => ⟨rfl, hcut⟩)
  have hreach : raw.length ≤ n ∨ CutsEscapedPercent raw n ∨ CutAt raw n 2 [37, 50, 53] →
      (EncodesWithin cap (formDecode raw) ↔ (formDecode raw).length ≤ k) := by
    intro h
    have htake := hfront h
    have hle : (formDecode raw).length ≤ (formDecode (raw.take n)).length := by
      have hlen := congrArg List.length htake
      rw [List.length_take] at hlen
      omega
    have hiff := encodesWithin_take_iff hle hmax
    rwa [htake] at hiff
  constructor
  · rintro ⟨hlen, h | h | ⟨hkeq, h⟩⟩
    · exact ⟨(hreach (Or.inl h)).mpr hlen, Or.inl h⟩
    · exact ⟨(hreach (Or.inr (Or.inl h))).mpr hlen, Or.inr (Or.inl h)⟩
    · refine ⟨(hreach (Or.inr (Or.inr h))).mpr hlen, ?_⟩
      by_cases hmore : (formDecode raw).length < (formDecode (raw.take n)).length
      · -- the character that the cut brought in is not written
        have hstop := hmax _ hmore
        rw [hfront (Or.inr (Or.inr h))] at hstop
        exact Or.inr (Or.inr ⟨h, by omega⟩)
      · have hwhole : (formDecode (raw.take n)).take ((formDecode raw).length + 1)
            = formDecode raw := by
          have hfirst := hfront (Or.inr (Or.inr h))
          rw [List.take_of_length_le (by omega)] at hfirst
          rw [List.take_of_length_le (by omega), hfirst]
        obtain ⟨_, hcut | hcut | ⟨heq, _⟩⟩ := (take_formDecode_take_iff raw n _).mp hwhole
        · exact Or.inl hcut
        · exact Or.inr (Or.inl hcut)
        · omega
  · rintro ⟨henc, h | h | ⟨h, hfull⟩⟩
    · exact ⟨(hreach (Or.inl h)).mp henc, Or.inl h⟩
    · exact ⟨(hreach (Or.inr (Or.inl h))).mp henc, Or.inr (Or.inl h)⟩
    · have hlen := (hreach (Or.inr (Or.inr h))).mp henc
      refine ⟨hlen, Or.inr (Or.inr ⟨?_, h⟩)⟩
      by_cases hmore : (formDecode raw).length < (formDecode (raw.take n)).length
      · have hstop := hmax _ hmore
        rw [hfront (Or.inr (Or.inr h))] at hstop
        omega
      · omega

-- ============================================================================
-- The body
-- ============================================================================

theorem urlEncodeLoop_fits (cap : Nat) (s : Bytes) (o : Nat) (ho : o < cap) :
    o + (urlEncodeLoop cap s o).length < cap := by
  induction s generalizing o with
  | nil => exact ho
  | cons ch s ih =>
      rw [urlEncodeLoop]
      split_ifs with hroom
      · have hlen : (encodeByte ch).length ≤ 3 := by
          rw [encodeByte]
          split_ifs
          · exact Nat.le_add_left 1 2
          · exact le_refl 3
        have hrest := ih (o + (encodeByte ch).length) (by omega)
        rw [List.length_append]
        omega
      · exact ho

theorem urlEncode_length_lt (s : Bytes) {cap : Nat} (h : 0 < cap) :
    (urlEncode s cap).length < cap := by
  have hfits := urlEncodeLoop_fits cap (cstr s) 0 h
  rw [urlEncode]
  omega

theorem urlEncode_eq_formEncode (s : Bytes) (cap : Nat) :
    ∃ k, urlEncode s cap = formEncode ((cstr s).take k) := by
  obtain ⟨k, _, hout, _⟩ := urlEncodeLoop_eq cap (cstr s) 0
  exact ⟨k, hout⟩

theorem zero_notMem_urlEncode (s : Bytes) (cap : Nat) : 0 ∉ urlEncode s cap := by
  obtain ⟨k, hk⟩ := urlEncode_eq_formEncode s cap
  rw [hk]
  exact formEncode_notMem (by decide) _

theorem ampersand_notMem_urlEncode (s : Bytes) (cap : Nat) : 38 ∉ urlEncode s cap := by
  obtain ⟨k, hk⟩ := urlEncode_eq_formEncode s cap
  rw [hk]
  exact formEncode_notMem (by decide) _

theorem oauthText_length_lt (cfg : OauthConfig) (code : Bytes) (verifier : CStr 64) :
    (oauthText cfg code verifier.bytes).length < 1800 := by
  have hcode := urlEncode_length_lt code (show 0 < 600 by omega)
  have huri := urlEncode_length_lt cfg.oauthRedirectUri.bytes (show 0 < 400 by omega)
  have hid := cfg.oauthClientId.fits
  have hverifier := verifier.fits
  have h1 : (lit "grant_type=authorization_code&code=").length = 35 := by decide
  have h2 : (lit "&redirect_uri=").length = 14 := by decide
  have h3 : (lit "&client_id=").length = 11 := by decide
  have h4 : (lit "&code_verifier=").length = 15 := by decide
  simp only [oauthText, List.length_append, h1, h2, h3, h4]
  omega

theorem zero_notMem_oauthText (cfg : OauthConfig) (code : Bytes) (verifier : CStr 64) :
    0 ∉ oauthText cfg code verifier.bytes := by
  have h1 : 0 ∉ lit "grant_type=authorization_code&code=" := by decide
  have h2 : 0 ∉ lit "&redirect_uri=" := by decide
  have h3 : 0 ∉ lit "&client_id=" := by decide
  have h4 : 0 ∉ lit "&code_verifier=" := by decide
  simp only [oauthText, List.mem_append, not_or]
  exact ⟨⟨⟨⟨⟨⟨⟨h1, zero_notMem_urlEncode _ _⟩, h2⟩, zero_notMem_urlEncode _ _⟩, h3⟩,
    cfg.oauthClientId.noNul⟩, h4⟩, verifier.noNul⟩

/-- The body is never cut before the client secret. -/
theorem oauthBody_eq (cfg : OauthConfig) (code : Bytes) (verifier : CStr 64) :
    ∃ rest, oauthBody cfg code verifier.bytes = oauthText cfg code verifier.bytes ++ rest := by
  have hclip := clip_of_fits (zero_notMem_oauthText cfg code verifier)
    (oauthText_length_lt cfg code verifier)
  rw [oauthBody, hclip]
  split_ifs
  · exact ⟨_, rfl⟩
  · exact ⟨[], (List.append_nil _).symm⟩

/-- The fields at the front of the body. -/
theorem oauthBody_fields (cfg : OauthConfig) (code : Bytes) (verifier : CStr 64) :
    formField (lit "code") (oauthBody cfg code verifier.bytes) = some (urlEncode code 600) ∧
      formField (lit "redirect_uri") (oauthBody cfg code verifier.bytes)
        = some (urlEncode cfg.oauthRedirectUri.bytes 400) := by
  obtain ⟨rest, hrest⟩ := oauthBody_eq cfg code verifier
  have hfields : oauthText cfg code verifier.bytes ++ rest
      = lit "grant_type=authorization_code" ++ 38 :: ((lit "code" ++ 61 :: urlEncode code 600)
          ++ 38 :: ((lit "redirect_uri" ++ 61 :: urlEncode cfg.oauthRedirectUri.bytes 400)
            ++ 38 :: (lit "client_id=" ++ cfg.oauthClientId.bytes ++ lit "&code_verifier="
              ++ verifier.bytes ++ rest))) := by
    have h1 : lit "grant_type=authorization_code&code="
        = lit "grant_type=authorization_code" ++ 38 :: (lit "code" ++ [61]) := by decide
    have h2 : lit "&redirect_uri=" = 38 :: (lit "redirect_uri" ++ [61]) := by decide
    have h3 : lit "&client_id=" = 38 :: lit "client_id=" := by decide
    rw [oauthText, h1, h2, h3]
    simp only [List.append_assoc, List.cons_append, List.nil_append]
  have hgrant : 38 ∉ lit "grant_type=authorization_code" := by decide
  have hcode : 38 ∉ lit "code" ++ 61 :: urlEncode code 600 := by
    rw [List.mem_append, List.mem_cons, not_or, not_or]
    exact ⟨by decide, by decide, ampersand_notMem_urlEncode _ _⟩
  have huri : 38 ∉ lit "redirect_uri" ++ 61 :: urlEncode cfg.oauthRedirectUri.bytes 400 := by
    rw [List.mem_append, List.mem_cons, not_or, not_or]
    exact ⟨by decide, by decide, ampersand_notMem_urlEncode _ _⟩
  rw [hrest, hfields]
  refine ⟨?_, ?_⟩
  · rw [formField_append hgrant, formField_append hcode,
      (fieldValue_eq_some_iff (lit "code") _ _).mpr rfl]
    rfl
  · rw [formField_append hgrant, formField_append hcode, formField_append huri,
      (fieldValue_eq_some_iff (lit "redirect_uri") _ _).mpr rfl]
    rfl

-- ============================================================================
-- The callback
-- ============================================================================

/-- The login that is found has a state without NULs and a verifier of at most
    63 characters. -/
theorem OauthPending.found {pending : NtcKvstore cap} {now : Int} {state : Bytes}
    (h : OauthPending pending now state) :
    0 ∉ state ∧ ∃ verifier : CStr 64,
      ntcKvGet pending state now 64 = (some verifier.bytes, pending) := by
  rw [OauthPending, ntcKvGet] at h
  rw [ntcKvGet]
  cases hfind : kvFind pending state with
  | none =>
      rw [hfind] at h
      exact absurd h Bool.false_ne_true
  | some i =>
      rw [hfind] at h
      dsimp only at h ⊢
      split_ifs at h ⊢ with hexp
      · exact absurd h Bool.false_ne_true
      · refine ⟨?_, .set 64 (pending.e i).val.bytes, rfl⟩
        have hkey := slotOf_some hfind
        rw [KvEntry.occupiedKey] at hkey
        split_ifs at hkey with hocc
        rw [← Option.some.inj hkey]
        exact (pending.e i).key.noNul

/-- A parameter as the callback reads it. -/
theorem urlDecode_queryGet {query key raw : Bytes} (n : Nat)
    (hraw : formField key query = some raw) (hnul : 0 ∉ formDecode raw) :
    urlDecode ((queryGet query key (n + 1)).getD []) = formDecode (raw.take n) := by
  have hrawNul : 0 ∉ raw.take n := fun hmem =>
    hnul (mem_formDecode (by decide) rfl rfl raw (List.mem_of_mem_take hmem))
  have htake := notMem_formDecode_take (by decide) rfl raw n hnul
  rw [queryGet_eq, hraw]
  show cstr (formDecode (cstr (raw.take n))) = _
  rw [cstr_of_noNul hrawNul, cstr_of_noNul htake]

theorem formDecode_take_eq_nil_iff {raw : Bytes} {n : Nat} (hn : n ≠ 0) :
    formDecode (raw.take n) = [] ↔ raw = [] := by
  rw [formDecode_eq_nil_iff, List.take_eq_nil_iff, or_iff_right hn]

/-- The token request carries the code and the redirect URI. -/
def OauthExchanges (cfg : OauthConfig) (pending : NtcKvstore cap) (now : Int)
    (query code : Bytes) : Prop :=
  ∃ body, (oauthCallback cfg pending now query).1 = some body ∧
    (formField (lit "code") body).map formDecode = some code ∧
    (formField (lit "redirect_uri") body).map formDecode = some cfg.oauthRedirectUri.bytes

/-- The request of a callback whose parameters were read. -/
theorem oauthExchanges_iff {cfg : OauthConfig} {pending : NtcKvstore cap} {now : Int}
    {query code state : Bytes}
    (hcode : urlDecode ((queryGet query (lit "code") 512).getD []) = code)
    (hstate : urlDecode ((queryGet query (lit "state") 64).getD []) = state) (c : Bytes) :
    OauthExchanges cfg pending now query c ↔
      code ≠ [] ∧ state ≠ [] ∧ OauthPending pending now state ∧
      formDecode (urlEncode cfg.oauthRedirectUri.bytes 400) = cfg.oauthRedirectUri.bytes ∧
      formDecode (urlEncode code 600) = c := by
  rw [OauthExchanges, oauthCallback, hcode, hstate]
  by_cases hempty : code = [] ∨ state = []
  · rw [if_pos hempty]
    refine iff_of_false ?_ ?_
    · rintro ⟨body, hbody, _⟩
      exact Option.some_ne_none body hbody.symm
    · rintro ⟨hc, hs, _⟩
      exact hempty.elim hc hs
  rw [if_neg hempty]
  rw [not_or] at hempty
  by_cases hpending : OauthPending pending now state
  · obtain ⟨_, verifier, hget⟩ := hpending.found
    obtain ⟨hfieldCode, hfieldUri⟩ := oauthBody_fields cfg code verifier
    rw [hget]
    constructor
    · rintro ⟨body, hbody, hc, huri⟩
      rw [← Option.some.inj hbody, hfieldCode] at hc
      rw [← Option.some.inj hbody, hfieldUri] at huri
      exact ⟨hempty.1, hempty.2, hpending, Option.some.inj huri, Option.some.inj hc⟩
    · rintro ⟨_, _, _, huri, hc⟩
      refine ⟨_, rfl, ?_, ?_⟩
      · rw [hfieldCode, Option.map_some, hc]
      · rw [hfieldUri, Option.map_some, huri]
  · refine iff_of_false ?_ fun h => hpending h.2.2.1
    rintro ⟨body, hbody, _⟩
    apply hpending
    rw [OauthPending]
    cases hget : ntcKvGet pending state now 64 with
    | mk found pending' =>
        rw [hget] at hbody
        cases found with
        | none => exact absurd hbody.symm (Option.some_ne_none body)
        | some verifier => rfl

/-- The authorization code is exchanged intact exactly when no buffer of the
    callback cuts it, its state or the redirect URI; a cut of the code through
    an escaped percent sign goes unnoticed. -/
theorem handleOauth_exchanges_iff (cfg : OauthConfig) (pending : NtcKvstore cap) (now : Int)
    (query raw rawState : Bytes) (hcode : formField (lit "code") query = some raw)
    (hnul : 0 ∉ formDecode raw) (hstate : formField (lit "state") query = some rawState)
    (hpending : OauthPending pending now (formDecode rawState)) :
    OauthExchanges cfg pending now query (formDecode raw) ↔
      raw ≠ [] ∧ rawState ≠ [] ∧
      OauthPending pending now (formDecode (rawState.take 63)) ∧
      EncodesWithin 400 cfg.oauthRedirectUri.bytes ∧
      EncodesWithin 600 (formDecode raw) ∧
      (raw.length ≤ 511 ∨ CutsEscapedPercent raw 511 ∨
        (CutAt raw 511 2 (lit "%25") ∧ 600 ≤ (formEncode (formDecode raw)).length + 4)) := by
  obtain ⟨hstateNul, _⟩ := hpending.found
  rw [oauthExchanges_iff (urlDecode_queryGet 511 hcode hnul)
      (urlDecode_queryGet 63 hstate hstateNul), decode_urlEncode_take_iff hnul,
    decode_urlEncode_iff cfg.oauthRedirectUri.noNul, ne_eq,
    formDecode_take_eq_nil_iff (by decide), ne_eq, formDecode_take_eq_nil_iff (by decide)]
  exact Iff.rfl

/-- One pending login, under the state `s`. -/
def oneLogin : NtcKvstore 1 :=
  ntcKvPut ⟨fun _ => ⟨.empty 96, .empty 1024, 0⟩⟩ (lit "s") (lit "verifier") 600

/-- A client without a secret. -/
def publicClient : OauthConfig where
  oauthClientId := .set 160 (lit "app")
  oauthClientSecret := .empty 256
  oauthRedirectUri := .set 256 (lit "http://a/cb")

/-- A code with a slash and a space. -/
theorem handleOauth_exchanges_escaped :
    OauthExchanges publicClient oneLogin 0 (lit "state=s&code=a%2fb+c") (lit "a/b c") :=
  (handleOauth_exchanges_iff publicClient oneLogin 0 (lit "state=s&code=a%2fb+c")
    (lit "a%2fb+c") (lit "s") rfl (by decide) rfl rfl).mpr
    ⟨by decide, by decide, rfl, by decide, by decide, Or.inl (by decide)⟩

theorem formDecode_letters (n : Nat) : formDecode (List.replicate n 97) = List.replicate n 97 := by
  have hencode : formEncode (List.replicate n 97) = List.replicate n 97 := by
    induction n with
    | zero => rfl
    | succ n ih =>
        rw [List.replicate_succ, formEncode, List.flatMap_cons]
        rw [formEncode] at ih
        rw [ih]
        rfl
  have h := formDecode_formEncode (List.replicate n 97)
  rwa [hencode] at h

/-- A code of six hundred letters is cut. -/
theorem handleOauth_cuts_long_code :
    formField (lit "code") (lit "state=s" ++ 38 :: (lit "code" ++ 61 :: List.replicate 600 97))
        = some (List.replicate 600 97) ∧
      0 ∉ formDecode (List.replicate 600 97) ∧
      formField (lit "state") (lit "state=s" ++ 38 :: (lit "code" ++ 61 :: List.replicate 600 97))
        = some (lit "s") ∧
      OauthPending oneLogin 0 (formDecode (lit "s")) ∧
      ¬ OauthExchanges publicClient oneLogin 0
        (lit "state=s" ++ 38 :: (lit "code" ++ 61 :: List.replicate 600 97))
        (formDecode (List.replicate 600 97)) := by
  have hfirst : 38 ∉ lit "state=s" := by decide
  have hlast : 38 ∉ lit "code" ++ 61 :: List.replicate 600 97 := by
    rw [List.mem_append, List.mem_cons, List.mem_replicate, not_or, not_or, not_and]
    exact ⟨by decide, by decide, fun _ => by decide⟩
  have hcode : formField (lit "code")
      (lit "state=s" ++ 38 :: (lit "code" ++ 61 :: List.replicate 600 97))
        = some (List.replicate 600 97) := by
    rw [formField_append hfirst, formField_single hlast,
      (fieldValue_eq_some_iff (lit "code") _ _).mpr rfl]
    rfl
  have hstate : formField (lit "state")
      (lit "state=s" ++ 38 :: (lit "code" ++ 61 :: List.replicate 600 97)) = some (lit "s") := by
    rw [formField_append hfirst]
    rfl
  have hnul : 0 ∉ formDecode (List.replicate 600 97) := by
    rw [formDecode_letters, List.mem_replicate, not_and]
    exact fun _ => by decide
  refine ⟨hcode, hnul, hstate, rfl, fun h => ?_⟩
  have hparts := (oauthExchanges_iff (urlDecode_queryGet 511 hcode hnul)
    (urlDecode_queryGet 63 hstate (by decide)) _).mp h
  have hno : ∀ {tail : Bytes} {n j : Nat}, 37 ∈ tail → ¬ CutAt (List.replicate 600 97) n j tail := by
    rintro tail n j hmem ⟨before, _, heq⟩
    have hin : (37 : UInt8) ∈ List.replicate 600 97 := by
      rw [heq]
      exact List.mem_append_right before hmem
    exact absurd (List.eq_of_mem_replicate hin) (by decide)
  obtain ⟨_, hlen | (hcut | hcut | hcut) | ⟨hcut, _⟩⟩ :=
    (decode_urlEncode_take_iff hnul 511 600).mp hparts.2.2.2.2
  · rw [List.length_replicate] at hlen
    omega
  · exact hno List.mem_cons_self hcut
  · exact hno List.mem_cons_self hcut
  · exact hno List.mem_cons_self hcut
  · exact hno List.mem_cons_self hcut

end Naitron
