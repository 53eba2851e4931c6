/-
  Naitron.JwtClaims

  The strings `sub` and `scope` of a payload on their way through the JSON
  parser and the buffers of `jwt_parse_claims`.

  The parser keeps 64 members of the payload and encodes each half of a
  surrogate pair by itself; `char sub[128]` and `char scope[256]` keep what
  stands before the first NUL, as far as they have room.
-/

import Naitron.JwtKeys
import Naitron.Lib.Split

namespace Naitron

-- ============================================================================
-- The payload
-- ============================================================================

/-- The text of a document, with anything behind it. -/
structure BeginsWith (n : Nat) (s : Bytes) (doc : JsonDoc) : Prop where
  split : ∃ ws x rest, IsWs ws ∧ Derives n x doc ∧ s = ws ++ (x ++ rest)

theorem TextOf.beginsWith {n : Nat} {s : Bytes} {doc : JsonDoc} (h : TextOf n s doc) :
    BeginsWith n s doc := by
  obtain ⟨ws, x, ws', hws, -, hx, hs⟩ := h
  exact ⟨ws, x, ws', hws, hx, hs⟩

/-- An object is parsed as it stands at the beginning of a text. -/
theorem BeginsWith.parse {n : Nat} {s : Bytes} {keys : List (List StrPiece)}
    {vals : List JsonDoc} {tree : NtcJson} (h : BeginsWith n s (.obj keys vals))
    (hparse : ntcJsonParse s = some tree) : tree = (JsonDoc.obj keys vals).code := by
  obtain ⟨ws, x, rest, hws, hx, hs⟩ := h
  rw [ntcJsonParse_eq] at hparse
  obtain ⟨⟨doc, rest'⟩, hread, rfl⟩ := Option.map_eq_some_iff.mp hparse
  obtain ⟨ws', x', hws', hx', hends, hs'⟩ := (docReader ntcJsonMaxDepth).sound hread
  obtain ⟨hdoc, -⟩ :=
    hx.unique hws (fun l hl => (by cases hl)) hws' hx' hends (hs.symm.trans hs')
  rw [hdoc]

/-- The object of an accepted payload. -/
theorem jwtPayload_code {p buf : Bytes} {n : Nat} {keys : List (List StrPiece)}
    {vals : List JsonDoc} {pj : NtcJson} (hdec : DecodesTo p buf)
    (htext : BeginsWith n buf (.obj keys vals)) (h : jwtPayload p = some pj) :
    pj = (JsonDoc.obj keys vals).code := by
  obtain ⟨hjson, -⟩ := Option.filter_eq_some_iff.mp h
  obtain ⟨buf', hbuf, hparse⟩ := Option.bind_eq_some_iff.mp hjson
  obtain rfl : buf' = buf := by
    rw [hdec.decode] at hbuf
    split at hbuf
    · exact (Option.some.inj hbuf).symm
    · cases hbuf
  split at hparse
  · cases hparse
  · exact htext.parse hparse

-- ============================================================================
-- Claims
-- ============================================================================

/-- Where the member of a name stands. -/
def claimIndex (ms : List (List StrPiece × JsonDoc)) (name : Bytes) : Nat :=
  ms.findIdx fun m => textOf m.1 == some name

/-- The characters of the string in the member of a name; none if there is no
    such string. -/
def claimPieces (ms : List (List StrPiece × JsonDoc)) (name : Bytes) : List StrPiece :=
  match ms.find? fun m => textOf m.1 == some name with
  | some (_, .str ps) => ps
  | _ => []

/-- At most one member has the name, and this is its string: empty, if there is
    no such string. -/
structure IsClaim (ms : List (List StrPiece × JsonDoc)) (name text : Bytes) : Prop where
  once : (ms.filter fun m => textOf m.1 == some name).length ≤ 1
  text : textOf (claimPieces ms name) = some text

theorem findIdx_congr {α : Type} {p q : α → Bool} {l : List α} (h : ∀ a ∈ l, p a = q a) :
    l.findIdx p = l.findIdx q := by
  induction l with
  | nil => rfl
  | cons a l ih =>
      rw [List.findIdx_cons, List.findIdx_cons, h a List.mem_cons_self,
        ih fun b hb => h b (List.mem_cons_of_mem a hb)]

/-- What `jwt_parse_claims` has of a claim with an ASCII name. -/
theorem jsonStrField_claim {n : Nat} {s : Bytes} {keys : List (List StrPiece)}
    {vals : List JsonDoc} (htext : BeginsWith n s (.obj keys vals)) {name : String}
    (hascii : ∀ c ∈ lit name, c < 0x80) :
    jsonStrField (JsonDoc.obj keys vals).code name =
      if claimIndex (keys.zip vals) (lit name) < ntcJsonMaxMembers then
        codeString (claimPieces (keys.zip vals) (lit name))
      else [] := by
  obtain ⟨-, x, -, -, hx, -⟩ := htext
  have hsame : ∀ m ∈ keys.zip vals,
      (codeString m.1 == lit name) = (textOf m.1 == some (lit name)) := by
    intro m hm
    rw [Bool.eq_iff_iff, beq_iff_eq, beq_iff_eq]
    exact codeString_eq_name (hx.key_valid m hm) hascii
  have hindex : (JsonDoc.obj keys vals).fieldIndex (lit name) =
      claimIndex (keys.zip vals) (lit name) := findIdx_congr hsame
  have hstr : (JsonDoc.obj keys vals).strField (lit name) =
      codeString (claimPieces (keys.zip vals) (lit name)) := by
    rw [JsonDoc.strField, JsonDoc.field, claimPieces,
      show (JsonDoc.obj keys vals).members = keys.zip vals from rfl, List.find?_congr hsame]
    cases (keys.zip vals).find? fun m => textOf m.1 == some (lit name) with
    | none => rfl
    | some m =>
        obtain ⟨key, value⟩ := m
        cases value <;> rfl
  rw [jsonStrField_code, hindex, hstr]

/-- A text that a `char buf[cap]` holds whole. -/
def FitsBuffer (cap : Nat) (s : Bytes) : Prop := s.length < cap ∧ 0 ∉ s

theorem clip_eq_self_iff {cap : Nat} (hcap : 0 < cap) (s : Bytes) :
    clip cap s = s ↔ FitsBuffer cap s := by
  constructor
  · intro h
    have hlen := clip_length_le cap s
    have hnul := zero_notMem_clip cap s
    rw [h] at hlen hnul
    exact ⟨by omega, hnul⟩
  · rintro ⟨hlen, hnul⟩
    exact clip_of_fits hnul hlen

-- ============================================================================
-- The subject
-- ============================================================================

/-- An empty text has no characters. -/
theorem codeString_of_empty {ps : List StrPiece} (h : textOf ps = some []) :
    codeString ps = [] := by
  refine (codeString_eq_iff h).mpr fun p hp => ?_
  by_contra hsur
  obtain ⟨pre, d, -, -, hprefix⟩ := textOf_diverges ps h ⟨p, hp, Bool.not_eq_false _ ▸ hsur⟩
  exact absurd (List.prefix_nil.mp hprefix) (List.append_ne_nil_of_right_ne_nil _ (by simp))

/-- No beginning of what the parser has is a text with a surrogate in it. -/
theorem prefix_codeString_iff {ps : List StrPiece} {t : Bytes} (h : textOf ps = some t) :
    t <+: codeString ps ↔ ∀ p ∈ ps, p.isSurrogate = false := by
  constructor
  · intro hprefix p hp
    by_contra hsur
    obtain ⟨pre, d, hd, hcode, htext⟩ :=
      textOf_diverges ps h ⟨p, hp, Bool.not_eq_false _ ▸ hsur⟩
    have hlen : (pre ++ [0xED]).length = (pre ++ [d]).length := by
      rw [List.length_append, List.length_append]
      rfl
    have heq := (List.prefix_of_prefix_length_le hcode (htext.trans hprefix) hlen.le).eq_of_length
      hlen
    obtain rfl : 0xED = d := List.singleton_inj.mp (List.append_cancel_left heq)
    exact absurd hd (by decide)
  · intro hnone
    rw [(codeString_eq_iff h).mpr hnone]

theorem clip_prefix (cap : Nat) (s : Bytes) : clip cap s <+: s :=
  (List.take_prefix _ _).trans (List.takeWhile_prefix _)

/-- The subject is whole in `char sub[128]`. -/
theorem clip_subject_iff {ps : List StrPiece} {sub : Bytes} (h : textOf ps = some sub) :
    clip 128 (codeString ps) = sub ↔
      (∀ p ∈ ps, p.isSurrogate = false) ∧ FitsBuffer 128 sub := by
  constructor
  · intro heq
    have hnone := (prefix_codeString_iff h).mp (heq ▸ clip_prefix 128 (codeString ps))
    rw [(codeString_eq_iff h).mpr hnone] at heq
    exact ⟨hnone, (clip_eq_self_iff (by decide) sub).mp heq⟩
  · rintro ⟨hnone, hfits⟩
    rw [(codeString_eq_iff h).mpr hnone]
    exact (clip_eq_self_iff (by decide) sub).mpr hfits

/-- The subject is empty, or it is among the members that the parser keeps, has
    no surrogates and fits `char sub[128]`. -/
def SubjectFits (ms : List (List StrPiece × JsonDoc)) (sub : Bytes) : Prop :=
  sub = [] ∨
    (claimIndex ms (lit "sub") < ntcJsonMaxMembers ∧
      (∀ p ∈ claimPieces ms (lit "sub"), p.isSurrogate = false) ∧ FitsBuffer 128 sub)

theorem subjectFits_iff {ms : List (List StrPiece × JsonDoc)} {sub : Bytes}
    (h : textOf (claimPieces ms (lit "sub")) = some sub) :
    clip 128 (if claimIndex ms (lit "sub") < ntcJsonMaxMembers then
        codeString (claimPieces ms (lit "sub")) else []) = sub ↔ SubjectFits ms sub := by
  by_cases hnil : sub = []
  · subst hnil
    rw [codeString_of_empty h, ite_self]
    exact iff_of_true rfl (.inl rfl)
  rw [SubjectFits, or_iff_right hnil]
  by_cases hlt : claimIndex ms (lit "sub") < ntcJsonMaxMembers
  · rw [if_pos hlt, clip_subject_iff h, and_iff_right hlt]
  · rw [if_neg hlt]
    exact iff_of_false (fun heq => hnil heq.symm) fun hfits => hlt hfits.1

-- ============================================================================
-- Spaces
-- ============================================================================

/-- A character that is a space. -/
def StrPiece.isSpace (p : StrPiece) : Bool := p.code == [chSpace]

theorem StrPiece.isSpace_iff {p : StrPiece} : p.isSpace = true ↔ p.code = [chSpace] := beq_iff_eq

/-- A byte with its upper bit set is not ASCII. -/
theorem ofNat_or_ne {a : Nat} (x : Nat) (ha : a.testBit 7 = true) :
    UInt8.ofNat (a ||| x) ≠ chSpace := by
  intro h
  have hval : (a ||| x) % 2 ^ 8 = 32 := by
    have hnat := congrArg UInt8.toNat h
    rwa [UInt8.toNat_ofNat'] at hnat
  have hbit : ((a ||| x) % 2 ^ 8).testBit 7 = true := by
    rw [Nat.testBit_mod_two_pow, Nat.testBit_or, ha]
    rfl
  rw [hval] at hbit
  exact absurd hbit (by decide)

theorem encodeUnit_space {u : Nat} (h : chSpace ∈ encodeUnit u) : encodeUnit u = [chSpace] := by
  rw [encodeUnit] at h ⊢
  split at h
  · rename_i hlt
    rw [if_pos hlt, List.mem_singleton.mp h]
  · split at h <;> simp only [List.mem_cons, List.not_mem_nil, or_false] at h
    · rcases h with h | h <;> exact absurd h.symm (ofNat_or_ne _ (by decide))
    · rcases h with h | h | h <;> exact absurd h.symm (ofNat_or_ne _ (by decide))

theorem simpleEscape_ne_space (e : UInt8) : simpleEscape e ≠ some chSpace := by
  intro h
  rw [simpleEscape] at h
  split_ifs at h <;> exact absurd (Option.some.inj h) (by decide)

/-- A space byte is a character of its own. -/
theorem StrPiece.isSpace_of_mem {p : StrPiece} (h : chSpace ∈ p.code) : p.isSpace = true := by
  rw [StrPiece.isSpace_iff]
  cases p with
  | raw b =>
      rw [StrPiece.code, ← List.mem_singleton.mp h]
  | escape e =>
      rw [StrPiece.code, Option.mem_toList] at h
      exact absurd h (simpleEscape_ne_space e)
  | unit a b c d =>
      rw [StrPiece.code] at h ⊢
      cases hu : hex4 a b c d with
      | none =>
          rw [hu] at h
          exact absurd h List.not_mem_nil
      | some u =>
          rw [hu] at h
          exact encodeUnit_space h

theorem codeString_append (ps qs : List StrPiece) :
    codeString (ps ++ qs) = codeString ps ++ codeString qs := List.flatMap_append

/-- A space divides the characters as it divides the bytes. -/
theorem codeString_split : ∀ {ps : List StrPiece} {a r : Bytes},
    codeString ps = a ++ chSpace :: r →
      ∃ before p after, ps = before ++ p :: after ∧ codeString before = a ∧ p.isSpace = true ∧
        codeString after = r
  | [], a, r, h => by
      exact absurd h.symm (List.append_ne_nil_of_right_ne_nil a (List.cons_ne_nil _ _))
  | p :: ps, a, r, h => by
      rw [codeString_cons] at h
      rcases List.append_eq_append_iff.mp h with ⟨a', rfl, hrest⟩ | ⟨c, hcode, hrest⟩
      · obtain ⟨before, q, after, rfl, rfl, hq, hafter⟩ := codeString_split hrest
        exact ⟨p :: before, q, after, rfl, rfl, hq, hafter⟩
      cases c with
      | nil =>
          -- the space is the first byte of the rest
          rw [List.append_nil] at hcode
          have hrest' : codeString ps = [] ++ chSpace :: r := hrest.symm
          obtain ⟨before, q, after, rfl, hbefore, hq, hafter⟩ := codeString_split hrest'
          refine ⟨p :: before, q, after, rfl, ?_, hq, hafter⟩
          rw [codeString_cons, hbefore, List.append_nil, hcode]
      | cons d c =>
          obtain ⟨rfl, hr⟩ := List.cons.inj hrest
          have hspace : p.isSpace = true :=
            StrPiece.isSpace_of_mem (hcode ▸ List.mem_append_right _ List.mem_cons_self)
          rw [StrPiece.isSpace_iff.mp hspace] at hcode
          obtain ⟨rfl, rfl⟩ : a = [] ∧ c = [] := by
            have hlen := congrArg List.length hcode
            rw [List.length_append, List.length_cons, List.length_cons] at hlen
            exact ⟨List.length_eq_zero_iff.mp (by simp at hlen; omega),
              List.length_eq_zero_iff.mp (by simp at hlen; omega)⟩
          exact ⟨[], p, ps, rfl, rfl, hspace, hr.symm⟩

theorem StrPiece.isSurrogate_of_isSpace {p : StrPiece} (hp : p.isSpace = true) :
    p.isSurrogate = false := by
  by_contra hsur
  rw [Bool.not_eq_false] at hsur
  have hmem := code_of_isSurrogate hsur
  rw [StrPiece.isSpace_iff.mp hp] at hmem
  exact absurd (List.mem_singleton.mp hmem) (by decide)

theorem textOf_cons_space {p : StrPiece} (hp : p.isSpace = true) (ps : List StrPiece) :
    textOf (p :: ps) = (textOf ps).map (chSpace :: ·) := by
  have hsur := StrPiece.isSurrogate_of_isSpace hp
  rw [StrPiece.isSpace_iff] at hp
  cases p with
  | raw b =>
      obtain rfl : b = chSpace := List.singleton_inj.mp hp
      rfl
  | escape e =>
      rw [StrPiece.code, Option.toList_eq_singleton_iff] at hp
      exact absurd hp (simpleEscape_ne_space e)
  | unit a b c d =>
      cases hu : hex4 a b c d with
      | none =>
          rw [StrPiece.code, hu] at hp
          cases hp
      | some u =>
          rw [code_unit hu] at hp
          rw [isSurrogate_unit hu, Bool.or_eq_false_iff] at hsur
          rw [textOf.eq_def]
          dsimp only
          rw [hu, Option.bind_some, hsur.1, hsur.2, ← encodeUnit_eq_utf8 (hex4_lt hu) hsur.1 hsur.2,
            hp]
          rfl

/-- A space divides the text. -/
theorem textOf_split {p : StrPiece} (hp : p.isSpace = true) (before after : List StrPiece) :
    ∀ {t : Bytes}, textOf (before ++ p :: after) = some t →
      ∃ t₁ t₂, textOf before = some t₁ ∧ textOf after = some t₂ ∧ t = t₁ ++ chSpace :: t₂ := by
  fun_induction textOf before with
  | case1 =>
      intro t h
      rw [List.nil_append, textOf_cons_space hp] at h
      obtain ⟨t', ht', rfl⟩ := Option.map_eq_some_iff.mp h
      exact ⟨[], t', rfl, ht', rfl⟩
  | case2 b ps ih =>
      intro t h
      obtain ⟨t', ht', rfl⟩ := Option.map_eq_some_iff.mp h
      obtain ⟨t₁, t₂, h₁, h₂, rfl⟩ := ih ht'
      exact ⟨b :: t₁, t₂, by rw [h₁]; rfl, h₂, rfl⟩
  | case3 e ps ih =>
      intro t h
      obtain ⟨b, hb, hmap⟩ := Option.bind_eq_some_iff.mp h
      obtain ⟨t', ht', rfl⟩ := Option.map_eq_some_iff.mp hmap
      obtain ⟨t₁, t₂, h₁, h₂, rfl⟩ := ih ht'
      exact ⟨b :: t₁, t₂, by rw [hb, h₁]; rfl, h₂, rfl⟩
  | case4 a b c d ps ihPair ih =>
      intro t h
      rw [List.cons_append, textOf.eq_def] at h
      obtain ⟨hi, hhi, hrest⟩ := Option.bind_eq_some_iff.mp h
      rw [hhi, Option.bind_some]
      by_cases hhigh : isHigh hi = true
      · rw [if_pos hhigh] at hrest ⊢
        -- the other half of the pair is no space
        cases ps with
        | nil =>
            cases p with
            | raw | escape => cases hrest
            | unit a' b' c' d' =>
                obtain ⟨lo, hlo, hpair⟩ := Option.bind_eq_some_iff.mp hrest
                have hsur := StrPiece.isSurrogate_of_isSpace hp
                rw [isSurrogate_unit hlo, Bool.or_eq_false_iff] at hsur
                rw [hsur.2] at hpair
                cases hpair
        | cons q ps =>
            cases q with
            | raw | escape => cases hrest
            | unit a' b' c' d' =>
                obtain ⟨lo, hlo, hpair⟩ := Option.bind_eq_some_iff.mp hrest
                by_cases hlow : isLow lo = true
                · rw [if_pos hlow] at hpair
                  obtain ⟨t', ht', rfl⟩ := Option.map_eq_some_iff.mp hpair
                  obtain ⟨t₁, t₂, h₁, h₂, rfl⟩ := ihPair ht'
                  refine ⟨utf8 (pairValue hi lo) ++ t₁, t₂, ?_, h₂, (List.append_assoc _ _ _).symm⟩
                  dsimp only
                  rw [hlo, Option.bind_some, if_pos hlow, h₁]
                  rfl
                · rw [if_neg hlow] at hpair
                  cases hpair
      · rw [if_neg hhigh] at hrest ⊢
        by_cases hlow : isLow hi = true
        · rw [if_pos hlow] at hrest
          cases hrest
        · rw [if_neg hlow] at hrest ⊢
          obtain ⟨t', ht', rfl⟩ := Option.map_eq_some_iff.mp hrest
          obtain ⟨t₁, t₂, h₁, h₂, rfl⟩ := ih ht'
          exact ⟨utf8 hi ++ t₁, t₂, by rw [h₁]; rfl, h₂, (List.append_assoc _ _ _).symm⟩

-- ============================================================================
-- The scope
-- ============================================================================

/-- `qs` are the characters of an item, between spaces or the ends. -/
structure ItemAt (ps before qs after : List StrPiece) : Prop where
  split : ps = before ++ (qs ++ after)
  nonempty : qs ≠ []
  inside : ∀ p ∈ qs, p.isSpace = false
  left : ∀ p ∈ before.getLast?, p.isSpace = true
  right : ∀ p ∈ after.head?, p.isSpace = true

/-- Where a text is cut on its way through a `char buf[256]`: at the last byte
    there is room for, or the first NUL. -/
def scopeCut (s : Bytes) : Nat := min 255 (s.takeWhile (· ≠ 0)).length

theorem clip_scope (s : Bytes) : clip 256 s = s.take (scopeCut s) := by
  have hprefix : cstr s = s.take (s.takeWhile (· ≠ 0)).length :=
    List.prefix_iff_eq_take.mp (List.takeWhile_prefix _)
  rw [clip, hprefix, List.take_take, scopeCut]

/-- Every item that begins before the cut ends before it and has no surrogates,
    or what is left of it is an item of the scope. -/
def ItemsFit (ps : List StrPiece) (scope : Bytes) : Prop :=
  ∀ before qs after, ItemAt ps before qs after →
    (codeString before).length < scopeCut (codeString ps) →
      ((codeString (before ++ qs)).length ≤ scopeCut (codeString ps) ∧
        ∀ p ∈ qs, p.isSurrogate = false) ∨
      (codeString qs).take (scopeCut (codeString ps) - (codeString before).length) ∈
        Lib.parts chSpace scope

/-- The bytes of characters that are no spaces. -/
theorem space_notMem {qs : List StrPiece} (h : ∀ p ∈ qs, p.isSpace = false) :
    chSpace ∉ codeString qs := by
  intro hmem
  obtain ⟨p, hp, hcode⟩ := List.mem_flatMap.mp hmem
  have hspace := StrPiece.isSpace_of_mem hcode
  rw [h p hp] at hspace
  cases hspace

theorem head_codeString {after : List StrPiece} (h : ∀ p ∈ after.head?, p.isSpace = true) :
    ∀ c ∈ (codeString after).head?, c = chSpace := by
  cases after with
  | nil => exact fun c hc => (by cases hc)
  | cons p after =>
      intro c hc
      rw [codeString_cons, StrPiece.isSpace_iff.mp (h p rfl)] at hc
      exact (Option.some.inj hc).symm

theorem getLast_codeString {before : List StrPiece}
    (h : ∀ p ∈ before.getLast?, p.isSpace = true) :
    ∀ c ∈ (codeString before).getLast?, c = chSpace := by
  rcases List.eq_nil_or_concat' before with rfl | ⟨before, p, rfl⟩
  · exact fun c hc => (by cases hc)
  · intro c hc
    have hp : codeString [p] = [chSpace] := by
      rw [codeString_cons, StrPiece.isSpace_iff.mp (h p List.getLast?_concat)]
      rfl
    rw [codeString_append, hp, List.getLast?_concat] at hc
    exact (Option.some.inj hc).symm

theorem codeString_ne_nil {qs : List StrPiece} {t : Bytes} (hne : qs ≠ [])
    (h : textOf qs = some t) : codeString qs ≠ [] := by
  cases qs with
  | nil => exact absurd rfl hne
  | cons p qs =>
      rw [codeString_cons]
      refine List.append_ne_nil_of_left_ne_nil ?_ _
      cases p with
      | raw b => exact List.cons_ne_nil _ _
      | escape e =>
          obtain ⟨b, hb, -⟩ := Option.bind_eq_some_iff.mp h
          rw [StrPiece.code, hb]
          exact List.cons_ne_nil _ _
      | unit a b c d =>
          rw [textOf.eq_def] at h
          obtain ⟨u, hu, -⟩ := Option.bind_eq_some_iff.mp h
          rw [code_unit hu, encodeUnit]
          split_ifs <;> exact List.cons_ne_nil _ _

/-- The text around an item. -/
theorem ItemAt.text {ps before qs after : List StrPiece} {t : Bytes}
    (h : ItemAt ps before qs after) (ht : textOf ps = some t) :
    ∃ a w b, t = a ++ (w ++ b) ∧ textOf qs = some w ∧ (∀ c ∈ a.getLast?, c = chSpace) ∧
      ∀ c ∈ b.head?, c = chSpace := by
  -- what stands in front of the item, then what stands behind it
  have hright : ∀ {t : Bytes}, textOf (qs ++ after) = some t →
      ∃ w b, t = w ++ b ∧ textOf qs = some w ∧ ∀ c ∈ b.head?, c = chSpace := by
    intro t ht
    cases hafter : after with
    | nil =>
        rw [hafter, List.append_nil] at ht
        exact ⟨t, [], (List.append_nil t).symm, ht, fun c hc => (by cases hc)⟩
    | cons p after' =>
        rw [hafter] at ht
        obtain ⟨t₁, t₂, h₁, -, rfl⟩ := textOf_split (h.right p (by rw [hafter]; rfl)) qs after' ht
        exact ⟨t₁, chSpace :: t₂, rfl, h₁, fun c hc => (Option.some.inj hc).symm⟩
  have hsplit := h.split
  subst hsplit
  rcases List.eq_nil_or_concat' before with rfl | ⟨before, p, rfl⟩
  · obtain ⟨w, b, rfl, hw, hb⟩ := hright ht
    exact ⟨[], w, b, rfl, hw, fun c hc => (by cases hc), hb⟩
  · rw [List.append_assoc, List.singleton_append] at ht
    obtain ⟨t₁, t₂, -, h₂, rfl⟩ := textOf_split (h.left p List.getLast?_concat) before _ ht
    obtain ⟨w, b, rfl, hw, hb⟩ := hright h₂
    refine ⟨t₁ ++ [chSpace], w, b, by rw [List.append_assoc]; rfl, hw, fun c hc => ?_, hb⟩
    rw [List.getLast?_concat] at hc
    exact (Option.some.inj hc).symm

/-- An item without surrogates is an item of the text. -/
theorem ItemAt.mem_parts {ps before qs after : List StrPiece} {t : Bytes}
    (h : ItemAt ps before qs after) (ht : textOf ps = some t)
    (hnone : ∀ p ∈ qs, p.isSurrogate = false) : codeString qs ∈ Lib.parts chSpace t := by
  obtain ⟨a, w, b, rfl, hw, ha, hb⟩ := h.text ht
  refine Lib.mem_parts_iff.mpr
    ⟨codeString_ne_nil h.nonempty hw, space_notMem h.inside, a, b, ?_, ha, hb⟩
  rw [(codeString_eq_iff hw).mpr hnone]

theorem mem_head?_of_take {s : Bytes} {n : Nat} {c : UInt8} (h : c ∈ (s.take n).head?) :
    c ∈ s.head? := by
  rw [List.head?_take] at h
  split at h
  · cases h
  · exact h

theorem takeWhile_item {w b : Bytes} (hsep : chSpace ∉ w) (hb : ∀ c ∈ b.head?, c = chSpace) :
    (w ++ b).takeWhile (· ≠ chSpace) = w := by
  have hw : ∀ c ∈ w, decide (c ≠ chSpace) = true :=
    fun c hc => decide_eq_true fun heq => hsep (heq ▸ hc)
  rw [List.takeWhile_append_of_pos hw]
  cases b with
  | nil => exact List.append_nil w
  | cons c b =>
      rw [List.takeWhile_cons_of_neg (by rw [hb c rfl]; decide), List.append_nil]

/-- An item of the bytes, as far as they are kept, is what is kept of an item of
    the characters. -/
theorem item_of_part {ps : List StrPiece} {n : Nat} {w : Bytes}
    (h : w ∈ Lib.parts chSpace ((codeString ps).take n)) :
    ∃ before qs after, ItemAt ps before qs after ∧ (codeString before).length < n ∧
      w = (codeString qs).take (n - (codeString before).length) := by
  obtain ⟨hne, hsep, a, b, htake, ha, hb⟩ := Lib.mem_parts_iff.mp h
  have hlen : a.length < n := by
    have hall := congrArg List.length htake
    rw [List.length_take, List.length_append, List.length_append] at hall
    have hw := List.length_pos_iff.mpr hne
    omega
  have hs : codeString ps = a ++ (w ++ (b ++ (codeString ps).drop n)) := by
    conv_lhs => rw [← List.take_append_drop n (codeString ps), htake]
    simp only [List.append_assoc]
  -- the characters in front of the item
  obtain ⟨before, rest, rfl, rfl, hrest, hleft⟩ : ∃ before rest, ps = before ++ rest ∧
      codeString before = a ∧ codeString rest = w ++ (b ++ (codeString ps).drop n) ∧
      ∀ p ∈ before.getLast?, p.isSpace = true := by
    rcases List.eq_nil_or_concat' a with rfl | ⟨a, c, rfl⟩
    · exact ⟨[], ps, rfl, rfl, hs, fun p hp => (by cases hp)⟩
    · obtain rfl := ha c List.getLast?_concat
      rw [List.append_assoc, List.singleton_append] at hs
      obtain ⟨before, p, rest, rfl, rfl, hp, hrest⟩ := codeString_split hs
      refine ⟨before ++ [p], rest, ?_, ?_, hrest, fun q hq => ?_⟩
      · rw [List.append_assoc, List.singleton_append]
      · rw [codeString_append, codeString_cons, StrPiece.isSpace_iff.mp hp]
        rfl
      · rw [List.getLast?_concat] at hq
        exact Option.some.inj hq ▸ hp
  -- the characters of the item
  have hqs := List.takeWhile_append_dropWhile (p := fun p : StrPiece => !p.isSpace) (l := rest)
  obtain ⟨qs, hq⟩ : ∃ qs, qs = rest.takeWhile fun p : StrPiece => !p.isSpace := ⟨_, rfl⟩
  obtain ⟨after, hafter⟩ : ∃ after, after = rest.dropWhile fun p : StrPiece => !p.isSpace :=
    ⟨_, rfl⟩
  rw [← hq, ← hafter] at hqs
  have hinside : ∀ p ∈ qs, p.isSpace = false := by
    intro p hp
    rw [hq] at hp
    have hnot := List.mem_takeWhile_imp hp
    simpa using hnot
  have hright : ∀ p ∈ after.head?, p.isSpace = true := by
    intro p hp
    have hnot := List.head?_dropWhile_not (fun p : StrPiece => !p.isSpace) rest
    rw [← hafter, Option.mem_def.mp hp] at hnot
    simpa using hnot
  have hbytes : codeString rest = codeString qs ++ codeString after := by
    rw [← hqs, codeString_append]
  have hqsne : qs ≠ [] := by
    rintro rfl
    obtain ⟨c, w', rfl⟩ := List.exists_cons_of_ne_nil hne
    have hhead := head_codeString hright c (by
      rw [show codeString after = codeString rest from hbytes.symm, hrest]
      rfl)
    exact hsep (hhead ▸ List.mem_cons_self)
  refine ⟨before, qs, after, ⟨by rw [hqs], hqsne, hinside, hleft, hright⟩, hlen, ?_⟩
  -- both are what stands before the first space
  have hcut : (codeString qs).take (n - (codeString before).length) ++
      (codeString after).take (n - (codeString before).length - (codeString qs).length) =
        w ++ b := by
    rw [← List.take_append, ← hbytes]
    rw [codeString_append, List.take_append, List.take_of_length_le hlen.le] at htake
    exact List.append_cancel_left htake
  have hw := takeWhile_item hsep hb
  rw [← hcut, takeWhile_item] at hw
  · exact hw.symm
  · exact fun hmem => space_notMem hinside (List.mem_of_mem_take hmem)
  · exact fun c hc => head_codeString hright c (mem_head?_of_take hc)

/-- What is kept of an item is an item of what is kept. -/
theorem ItemAt.part {ps before qs after : List StrPiece} {n : Nat} {t : Bytes}
    (h : ItemAt ps before qs after) (ht : textOf ps = some t)
    (hn : (codeString before).length < n) :
    (codeString qs).take (n - (codeString before).length) ∈
      Lib.parts chSpace ((codeString ps).take n) := by
  obtain ⟨_, w, _, -, hw, -, -⟩ := h.text ht
  refine Lib.mem_parts_iff.mpr ⟨?_, ?_, codeString before,
    (codeString after).take (n - (codeString before).length - (codeString qs).length), ?_,
    getLast_codeString h.left, ?_⟩
  · intro hnil
    rcases List.take_eq_nil_iff.mp hnil with hzero | hempty
    · omega
    · exact codeString_ne_nil h.nonempty hw hempty
  · exact fun hmem => space_notMem h.inside (List.mem_of_mem_take hmem)
  · rw [← List.take_append, ← codeString_append, h.split, codeString_append before,
      List.take_append, List.take_of_length_le hn.le]
  · exact fun c hc => head_codeString h.right c (mem_head?_of_take hc)

/-- Every item that is left in `char scope[256]` is an item of the scope. -/
theorem itemsFit_iff {ps : List StrPiece} {scope : Bytes} (h : textOf ps = some scope) :
    (∀ w ∈ Lib.parts chSpace (clip 256 (codeString ps)), w ∈ Lib.parts chSpace scope) ↔
      ItemsFit ps scope := by
  rw [clip_scope]
  constructor
  · intro hparts before qs after hitem hstart
    exact .inr (hparts _ (hitem.part h hstart))
  · intro hfit w hw
    obtain ⟨before, qs, after, hitem, hstart, rfl⟩ := item_of_part hw
    rcases hfit before qs after hitem hstart with ⟨hend, hnone⟩ | hleft
    · rw [List.take_of_length_le]
      · exact hitem.mem_parts h hnone
      · rw [codeString_append, List.length_append] at hend
        omega
    · exact hleft

/-- The scope is behind the members that the parser keeps, or its items fit
    `char scope[256]`. -/
def ScopeFits (ms : List (List StrPiece × JsonDoc)) (scope : Bytes) : Prop :=
  ntcJsonMaxMembers ≤ claimIndex ms (lit "scope") ∨ ItemsFit (claimPieces ms (lit "scope")) scope

theorem scopeFits_iff {ms : List (List StrPiece × JsonDoc)} {scope : Bytes}
    (h : textOf (claimPieces ms (lit "scope")) = some scope) :
    (∀ w ∈ Lib.parts chSpace (clip 256 (if claimIndex ms (lit "scope") < ntcJsonMaxMembers then
        codeString (claimPieces ms (lit "scope")) else [])), w ∈ Lib.parts chSpace scope) ↔
      ScopeFits ms scope := by
  by_cases hlt : claimIndex ms (lit "scope") < ntcJsonMaxMembers
  · rw [if_pos hlt, itemsFit_iff h, ScopeFits, or_iff_right (not_le.mpr hlt)]
  · rw [if_neg hlt]
    exact iff_of_true (fun w hw => absurd hw List.not_mem_nil) (.inl (not_lt.mp hlt))

end Naitron
