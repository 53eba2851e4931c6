/-
  Naitron.SchemaReading

  Exactly when `ntc_schema_validate` decides whether an instance satisfies a
  schema.

  The validator reads some keywords in another way than JSON Schema: `enum`
  compares scalars only, `additionalProperties` counts only beside
  `properties`, names pass through `char key[96]` and `char tn[24]`, bounds on
  a length through `size_t`.  What both readings find broken is `Broken`, what
  only the validator does `TurnedAway`, what only JSON Schema does `LetIn`.
-/

import Naitron.SchemaSpec

namespace Naitron

-- ============================================================================
-- Two readings
-- ============================================================================

/-- The keywords for the length of a value, and its length. -/
def NtcJson.lengthKeys : NtcJson → Option (String × String × Nat)
  | .str b => some ("minLength", "maxLength", b.length)
  | .arr items => some ("minItems", "maxItems", items.length)
  | _ => none

/-- A keyword that the instance breaks, as the validator and as JSON Schema
    read it. -/
inductive BrokenHere (U : Bytes → Nat) (s v : NtcJson) : Prop
  | type {t : Bytes} {ty : JsonType} (h : ntcJsonGet s (lit "type") = some (.str t))
      (hname : JsonType.ofName t = some ty) (hno : ¬ ty.Has v)
  | enum {items : List NtcJson} (h : ntcJsonGet s (lit "enum") = some (.arr items))
      (hno : ∀ x ∈ items, ¬ x.Same v)
  | number {text : Bytes} (hv : v = .num text)
      (hno : ¬ Within s "minimum" "maximum" (strtod text))
  | short {minKey maxKey : String} {len : Nat} {t : Bytes}
      (hv : v.lengthKeys = some (minKey, maxKey, len))
      (h : ntcJsonGet s (lit minKey) = some (.num t)) (hcode : len < sizeOfNum U t)
      (hno : lengthNum len < strtod t)
  | long {minKey maxKey : String} {len : Nat} {t : Bytes}
      (hv : v.lengthKeys = some (minKey, maxKey, len))
      (h : ntcJsonGet s (lit maxKey) = some (.num t)) (hcode : sizeOfNum U t < len)
      (hno : strtod t < lengthNum len)
  | required {vkeys : List Bytes} {vvals names : List NtcJson} {name : Bytes}
      (hv : v = .obj vkeys vvals) (h : ntcJsonGet s (lit "required") = some (.arr names))
      (hname : .str name ∈ names) (hcode : ntcJsonGet v (clip 96 name) = none)
      (hno : ntcJsonGet v name = none)
  | additional {vkeys pkeys : List Bytes} {vvals pvals : List NtcJson} {key : Bytes}
      (hv : v = .obj vkeys vvals)
      (h : ntcJsonGet s (lit "additionalProperties") = some (.bool false))
      (hprops : ntcJsonGet s (lit "properties") = some (.obj pkeys pvals)) (hkey : key ∈ vkeys)
      (hcode : clip 96 key ∉ (propertiesOf s).map Prod.fst)
      (hno : key ∉ (propertiesOf s).map Prod.fst)

/-- A keyword that only the validator finds broken: a name of no type that
    `char tn[24]` cuts to one of a type, an `enum` that has an equal array or
    object, a bound beyond `size_t`, a name that `char key[96]` cuts. -/
inductive TurnedAwayHere (U : Bytes → Nat) (s v : NtcJson) : Prop
  | type {t : Bytes} (h : ntcJsonGet s (lit "type") = some (.str t))
      (hname : JsonType.ofName t = none) (hcode : typeOk (clip 24 t) v = false)
  | enum {items : List NtcJson} {x : NtcJson} (h : ntcJsonGet s (lit "enum") = some (.arr items))
      (hv : ¬ v.IsScalar) (hx : x ∈ items) (hsame : x.Same v)
  | short {minKey maxKey : String} {len : Nat} {t : Bytes}
      (hv : v.lengthKeys = some (minKey, maxKey, len))
      (h : ntcJsonGet s (lit minKey) = some (.num t)) (hbig : toSize (strtod t) = none)
      (hcode : len < U t) (hlen : strtod t ≤ lengthNum len)
  | long {minKey maxKey : String} {len : Nat} {t : Bytes}
      (hv : v.lengthKeys = some (minKey, maxKey, len))
      (h : ntcJsonGet s (lit maxKey) = some (.num t)) (hbig : toSize (strtod t) = none)
      (hcode : U t < len) (hlen : lengthNum len ≤ strtod t)
  | required {vkeys : List Bytes} {vvals names : List NtcJson} {name : Bytes}
      (hv : v = .obj vkeys vvals) (h : ntcJsonGet s (lit "required") = some (.arr names))
      (hname : .str name ∈ names) (hcode : ntcJsonGet v (clip 96 name) = none)
      (hx : ntcJsonGet v name ≠ none)
  | additional {vkeys pkeys : List Bytes} {vvals pvals : List NtcJson} {key : Bytes}
      (hv : v = .obj vkeys vvals)
      (h : ntcJsonGet s (lit "additionalProperties") = some (.bool false))
      (hprops : ntcJsonGet s (lit "properties") = some (.obj pkeys pvals)) (hkey : key ∈ vkeys)
      (hcode : clip 96 key ∉ (propertiesOf s).map Prod.fst)
      (hx : key ∈ (propertiesOf s).map Prod.fst)

/-- A keyword that only JSON Schema finds broken: `additionalProperties` without
    an object `properties`, a bound beyond `size_t`, a name that `char key[96]`
    cuts. -/
inductive LetInHere (U : Bytes → Nat) (s v : NtcJson) : Prop
  | unlisted {vkeys : List Bytes} {vvals : List NtcJson} {key : Bytes} (hv : v = .obj vkeys vvals)
      (h : ntcJsonGet s (lit "additionalProperties") = some (.bool false))
      (hprops : ∀ pkeys pvals, ntcJsonGet s (lit "properties") ≠ some (.obj pkeys pvals))
      (hkey : key ∈ vkeys)
  | short {minKey maxKey : String} {len : Nat} {t : Bytes}
      (hv : v.lengthKeys = some (minKey, maxKey, len))
      (h : ntcJsonGet s (lit minKey) = some (.num t)) (hbig : toSize (strtod t) = none)
      (hcode : U t ≤ len) (hlen : lengthNum len < strtod t)
  | long {minKey maxKey : String} {len : Nat} {t : Bytes}
      (hv : v.lengthKeys = some (minKey, maxKey, len))
      (h : ntcJsonGet s (lit maxKey) = some (.num t)) (hbig : toSize (strtod t) = none)
      (hcode : len ≤ U t) (hlen : strtod t < lengthNum len)
  | required {vkeys : List Bytes} {vvals names : List NtcJson} {name : Bytes}
      (hv : v = .obj vkeys vvals) (h : ntcJsonGet s (lit "required") = some (.arr names))
      (hname : .str name ∈ names) (hcode : ntcJsonGet v (clip 96 name) ≠ none)
      (hx : ntcJsonGet v name = none)
  | additional {vkeys pkeys : List Bytes} {vvals pvals : List NtcJson} {key : Bytes}
      (hv : v = .obj vkeys vvals)
      (h : ntcJsonGet s (lit "additionalProperties") = some (.bool false))
      (hprops : ntcJsonGet s (lit "properties") = some (.obj pkeys pvals)) (hkey : key ∈ vkeys)
      (hcode : clip 96 key ∈ (propertiesOf s).map Prod.fst)
      (hx : key ∉ (propertiesOf s).map Prod.fst)

/-- Somewhere below, where both come to, a keyword that both find broken. -/
inductive Broken (U : Bytes → Nat) : NtcJson → NtcJson → Prop
  | here {s v : NtcJson} (h : BrokenHere U s v) : Broken U s v
  | item {s sub x : NtcJson} {items : List NtcJson} (h : ntcJsonGet s (lit "items") = some sub)
      (hx : x ∈ items) (hb : Broken U sub x) : Broken U s (.arr items)
  | member {s v x : NtcJson} {m : Bytes × NtcJson} (hm : m ∈ propertiesOf s)
      (hcode : ntcJsonGet v (clip 96 m.1) = some x) (hx : ntcJsonGet v m.1 = some x)
      (hb : Broken U m.2 x) : Broken U s v

/-- Somewhere below, a keyword that only one of the two readings finds broken
    (`Here`), or one in a member that only this one looks at; `mine` and
    `theirs` are what the two look a member up by. -/
inductive BrokenForOne (U : Bytes → Nat) (Here : NtcJson → NtcJson → Prop)
    (mine theirs : Bytes → Bytes) : NtcJson → NtcJson → Prop
  | here {s v : NtcJson} (h : Here s v) : BrokenForOne U Here mine theirs s v
  | item {s sub x : NtcJson} {items : List NtcJson} (h : ntcJsonGet s (lit "items") = some sub)
      (hx : x ∈ items) (hb : BrokenForOne U Here mine theirs sub x) :
      BrokenForOne U Here mine theirs s (.arr items)
  | member {s v x : NtcJson} {m : Bytes × NtcJson} (hm : m ∈ propertiesOf s)
      (hmine : ntcJsonGet v (mine m.1) = some x) (htheirs : ntcJsonGet v (theirs m.1) = some x)
      (hb : BrokenForOne U Here mine theirs m.2 x) : BrokenForOne U Here mine theirs s v
  | missed {s v x : NtcJson} {m : Bytes × NtcJson} (hm : m ∈ propertiesOf s)
      (hmine : ntcJsonGet v (mine m.1) = some x) (htheirs : ntcJsonGet v (theirs m.1) ≠ some x)
      (hb : BrokenForOne U Here mine theirs m.2 x) : BrokenForOne U Here mine theirs s v
  | missedBoth {s v x : NtcJson} {m : Bytes × NtcJson} (hm : m ∈ propertiesOf s)
      (hmine : ntcJsonGet v (mine m.1) = some x) (htheirs : ntcJsonGet v (theirs m.1) ≠ some x)
      (hb : Broken U m.2 x) : BrokenForOne U Here mine theirs s v

/-- A keyword that only the validator finds broken. -/
def TurnedAway (U : Bytes → Nat) : NtcJson → NtcJson → Prop :=
  BrokenForOne U (TurnedAwayHere U) (clip 96) id

/-- A keyword that only JSON Schema finds broken. -/
def LetIn (U : Bytes → Nat) : NtcJson → NtcJson → Prop :=
  BrokenForOne U (LetInHere U) id (clip 96)

-- ============================================================================
-- One check
-- ============================================================================

theorem failIf_eq_none {b : Bool} {e : SchemaError} : failIf b e = none ↔ b = false := by
  cases b with
  | true => exact iff_of_false (fun h => by cases h) (fun h => by cases h)
  | false => exact iff_of_true rfl rfl

/-- `type_ok` knows every type, and no buffer cuts its name. -/
theorem typeOk_iff {t : Bytes} {ty : JsonType} {v : NtcJson} (h : JsonType.ofName t = some ty)
    (hv : v.IntegerNumbers) : typeOk (clip 24 t) v = true ↔ ty.Has v := by
  have hwhole : ∀ text, v = .num text →
      (isWhole (strtod text) = true ↔ ∃ n : ℤ, strtod text = intNum n) := by
    rintro text rfl
    obtain ⟨n, hn⟩ := hv text (NtcJson.self_mem_nodes _)
    refine iff_of_true ?_ ⟨n, hn⟩
    rw [hn]
    show ((n : ℚ) == (⌊(n : ℚ)⌋ : ℚ)) = true
    rw [Int.floor_intCast]
    exact beq_self_eq_true _
  rw [JsonType.ofName] at h
  split at h
  · rename_i ht
    obtain rfl := Option.some.inj h
    rw [ht]
    cases v with
    | obj => exact iff_of_true rfl trivial
    | null | bool | num | str | arr => exact iff_of_false Bool.false_ne_true id
  split at h
  · rename_i ht
    obtain rfl := Option.some.inj h
    rw [ht]
    cases v with
    | arr => exact iff_of_true rfl trivial
    | null | bool | num | str | obj => exact iff_of_false Bool.false_ne_true id
  split at h
  · rename_i ht
    obtain rfl := Option.some.inj h
    rw [ht]
    cases v with
    | str => exact iff_of_true rfl trivial
    | null | bool | num | arr | obj => exact iff_of_false Bool.false_ne_true id
  split at h
  · rename_i ht
    obtain rfl := Option.some.inj h
    rw [ht]
    cases v with
    | bool => exact iff_of_true rfl trivial
    | null | num | str | arr | obj => exact iff_of_false Bool.false_ne_true id
  split at h
  · rename_i ht
    obtain rfl := Option.some.inj h
    rw [ht]
    cases v with
    | null => exact iff_of_true rfl trivial
    | bool | num | str | arr | obj => exact iff_of_false Bool.false_ne_true id
  split at h
  · rename_i ht
    obtain rfl := Option.some.inj h
    rw [ht]
    cases v with
    | num => exact iff_of_true rfl trivial
    | null | bool | str | arr | obj => exact iff_of_false Bool.false_ne_true id
  split at h
  · rename_i ht
    obtain rfl := Option.some.inj h
    rw [ht]
    cases v with
    | num text => exact hwhole text rfl
    | null | bool | str | arr | obj => exact iff_of_false Bool.false_ne_true id
  · cases h

theorem typeCheck_fails {s v : NtcJson} : typeCheck s v ≠ none ↔
    ∃ t, ntcJsonGet s (lit "type") = some (.str t) ∧ typeOk (clip 24 t) v = false := by
  rw [typeCheck]
  split
  · rename_i t hget
    rw [Ne, failIf_eq_none, Bool.not_eq_false', Bool.not_eq_true]
    constructor
    · exact fun h => ⟨t, hget, h⟩
    · rintro ⟨t', hget', h⟩
      rw [hget] at hget'
      cases hget'
      exact h
  · rename_i hnot
    refine iff_of_false (fun h => h rfl) ?_
    rintro ⟨t, hget, -⟩
    exact hnot t hget

/-- `json_eq` is equality of scalars. -/
theorem jsonEq_iff {x v : NtcJson} : jsonEq x v = true ↔ v.IsScalar ∧ x.Same v := by
  cases v with
  | arr | obj =>
      refine iff_of_false (fun h => ?_) fun h => h.1
      cases x <;> cases h
  | null =>
      cases x with
      | null => exact iff_of_true rfl ⟨trivial, trivial⟩
      | bool | num | str | arr | obj => exact iff_of_false Bool.false_ne_true fun h => h.2
  | bool b =>
      cases x with
      | bool a => exact beq_iff_eq.trans (and_iff_right trivial).symm
      | null | num | str | arr | obj => exact iff_of_false Bool.false_ne_true fun h => h.2
  | num b =>
      cases x with
      | num a => exact beq_iff_eq.trans (and_iff_right trivial).symm
      | null | bool | str | arr | obj => exact iff_of_false Bool.false_ne_true fun h => h.2
  | str b =>
      cases x with
      | str a => exact beq_iff_eq.trans (and_iff_right trivial).symm
      | null | bool | num | arr | obj => exact iff_of_false Bool.false_ne_true fun h => h.2

theorem enumCheck_fails {s v : NtcJson} : enumCheck s v ≠ none ↔
    ∃ items, ntcJsonGet s (lit "enum") = some (.arr items) ∧
      ∀ x ∈ items, ¬ (v.IsScalar ∧ x.Same v) := by
  rw [enumCheck]
  split
  · rename_i items hget
    rw [Ne, failIf_eq_none, Bool.not_eq_false', List.any_eq_true]
    simp only [jsonEq_iff, not_exists, not_and]
    constructor
    · exact fun h => ⟨items, hget, h⟩
    · rintro ⟨items', hget', h⟩
      rw [hget] at hget'
      cases hget'
      exact h
  · rename_i hnot
    refine iff_of_false (fun h => h rfl) ?_
    rintro ⟨items, hget, -⟩
    exact hnot items hget

variable {U : Bytes → Nat}

theorem numberTest_eq_false {bound : Option NtcJson} {test : Bytes → Bool} :
    numberTest bound test = false ↔ ∀ t, bound = some (.num t) → test t = false := by
  cases bound with
  | none => exact iff_of_true rfl fun t ht => by cases ht
  | some value =>
      cases value with
      | num t =>
          refine ⟨fun h t' ht => ?_, fun h => h t rfl⟩
          cases ht
          exact h
      | null | bool | str | arr | obj => exact iff_of_true rfl fun t ht => by cases ht

/-- A bound that is an integer within `size_t`. -/
theorem sizeOfNum_eq {t : Bytes} {n : ℤ} (hn : strtod t = intNum n) (hpos : 0 ≤ n)
    (hsize : toSize (strtod t) ≠ none) : (sizeOfNum U t : ℤ) = n := by
  have hto : toSize (strtod t) =
      if (-1 : ℚ) < n ∧ (n : ℚ) < 2 ^ 64 then some (truncate n).toNat else none := by
    rw [hn]
    rfl
  have hrange : (-1 : ℚ) < n ∧ (n : ℚ) < 2 ^ 64 := by
    by_contra hout
    rw [hto, if_neg hout] at hsize
    exact hsize rfl
  rw [sizeOfNum, hto, if_pos hrange, Option.getD_some, truncate_intCast, Int.toNat_of_nonneg hpos]

/-- An integer up to `2 ^ 53` is the number it is written as. -/
theorem strtod_eq {text : Bytes} {d : Decimal} {n : ℤ} (hd : readDecimal text = some d)
    (hn : d.value = n) (hsmall : |n| ≤ 2 ^ 53) : strtod text = intNum n := by
  have hle := abs_le.mp hsmall
  have hpow : (2 : ℚ) ^ 53 < 2 ^ 1024 := pow_lt_pow_right₀ (by norm_num) (by norm_num)
  have hup : (n : ℚ) ≤ 2 ^ 53 := by exact_mod_cast hle.2
  have hdown : -2 ^ 53 ≤ (n : ℚ) := by exact_mod_cast hle.1
  have hbig : ¬ (2 : ℚ) ^ 1024 ≤ n := not_le.mpr (hup.trans_lt hpow)
  have hlow : ¬ (n : ℚ) ≤ -2 ^ 1024 := not_le.mpr ((neg_lt_neg hpow).trans_le hdown)
  rw [strtod, hd]
  dsimp only
  rw [hn, Lib.nearest64_intCast hsmall]
  exact (if_neg hbig).trans (if_neg hlow)

theorem intNum_le_intNum {m n : ℤ} : intNum m ≤ intNum n ↔ m ≤ n := by
  rw [intNum, intNum, WithBot.coe_le_coe, WithTop.coe_le_coe, Int.cast_le]

theorem lengthCheck_fails {s : NtcJson} {minKey maxKey : String} {short long : SchemaError}
    {len : Nat} : lengthCheck U s minKey maxKey short long len ≠ none ↔
      ∃ t, (ntcJsonGet s (lit minKey) = some (.num t) ∧ len < sizeOfNum U t) ∨
        (ntcJsonGet s (lit maxKey) = some (.num t) ∧ sizeOfNum U t < len) := by
  rw [Ne, lengthCheck, orFail_eq_none, failIf_eq_none, failIf_eq_none, numberTest_eq_false,
    numberTest_eq_false, not_and_or, exists_or]
  simp only [decide_eq_false_iff_not, not_forall, not_not, exists_prop]

theorem boundsCheck_num {s : NtcJson} {text : Bytes} :
    boundsCheck U s (.num text) = none ↔ Within s "minimum" "maximum" (strtod text) := by
  rw [boundsCheck, orFail_eq_none, failIf_eq_none, failIf_eq_none, numberTest_eq_false,
    numberTest_eq_false, Within]
  simp only [decide_eq_false_iff_not, not_lt]

/-- A bound on a length is what `size_t` makes of it, or too big for it. -/
theorem lengthBound_cases {s : NtcJson} (hint : s.IntegerNumbers) (hpos : s.NonNegBounds)
    {key : String} (hkey : key ∈ ["minLength", "maxLength", "minItems", "maxItems"]) {t : Bytes}
    (h : ntcJsonGet s (lit key) = some (.num t)) :
    (toSize (strtod t) = none ∧ sizeOfNum U t = U t) ∨
      ((∀ len : Nat, lengthNum len < strtod t ↔ len < sizeOfNum U t) ∧
        ∀ len : Nat, strtod t < lengthNum len ↔ sizeOfNum U t < len) := by
  cases hsize : toSize (strtod t) with
  | none =>
      left
      rw [sizeOfNum, hsize]
      exact ⟨rfl, rfl⟩
  | some k =>
      right
      obtain ⟨n, hn⟩ := hint t (NtcJson.nodes_get h (NtcJson.self_mem_nodes _))
      have hnonneg := hpos s (NtcJson.self_mem_nodes s) key hkey t h
      rw [hn, lengthNum, intNum_le_intNum] at hnonneg
      have heq : (sizeOfNum U t : ℤ) = n :=
        sizeOfNum_eq hn hnonneg (by rw [hsize]; exact Option.some_ne_none k)
      rw [hn]
      constructor
      · intro len
        rw [← not_le, lengthNum, intNum_le_intNum]
        omega
      · intro len
        rw [← not_le, lengthNum, intNum_le_intNum]
        omega

theorem lengthKeys_mem {v : NtcJson} {minKey maxKey : String} {len : Nat}
    (h : v.lengthKeys = some (minKey, maxKey, len)) :
    minKey ∈ ["minLength", "maxLength", "minItems", "maxItems"] ∧
      maxKey ∈ ["minLength", "maxLength", "minItems", "maxItems"] := by
  cases v with
  | null | bool | num | obj => cases h
  | str | arr =>
      cases h
      exact ⟨by decide, by decide⟩

theorem boundsCheck_length {s v : NtcJson} {minKey maxKey : String} {len : Nat}
    (hv : v.lengthKeys = some (minKey, maxKey, len)) :
    (boundsCheck U s v ≠ none ↔
      ∃ t, (ntcJsonGet s (lit minKey) = some (.num t) ∧ len < sizeOfNum U t) ∨
        (ntcJsonGet s (lit maxKey) = some (.num t) ∧ sizeOfNum U t < len)) ∧
    (¬ BoundsHold s v ↔
      ∃ t, (ntcJsonGet s (lit minKey) = some (.num t) ∧ lengthNum len < strtod t) ∨
        (ntcJsonGet s (lit maxKey) = some (.num t) ∧ strtod t < lengthNum len)) := by
  have hwithin : ¬ Within s minKey maxKey (lengthNum len) ↔
      ∃ t, (ntcJsonGet s (lit minKey) = some (.num t) ∧ lengthNum len < strtod t) ∨
        (ntcJsonGet s (lit maxKey) = some (.num t) ∧ strtod t < lengthNum len) := by
    rw [Within, not_and_or, exists_or]
    simp only [not_forall, not_le, exists_prop]
  cases v with
  | null | bool | num | obj => cases hv
  | str | arr =>
      cases hv
      exact ⟨lengthCheck_fails, hwithin⟩

theorem requiredCheck_fails {s v : NtcJson} : requiredCheck s v ≠ none ↔
    ∃ names name, ntcJsonGet s (lit "required") = some (.arr names) ∧ .str name ∈ names ∧
      ntcJsonGet v (clip 96 name) = none := by
  rw [requiredCheck]
  split
  · rename_i names hget
    rw [Ne, List.findSome?_eq_none_iff]
    push Not
    constructor
    · rintro ⟨x, hx, hfail⟩
      split at hfail
      · rename_i name
        rw [Ne, failIf_eq_none, Bool.not_eq_false, Option.isNone_iff_eq_none] at hfail
        exact ⟨names, name, hget, hx, hfail⟩
      · exact absurd rfl hfail
    · rintro ⟨names', name, hget', hname, hnone⟩
      rw [hget] at hget'
      cases hget'
      refine ⟨.str name, hname, ?_⟩
      dsimp only
      rw [Ne, failIf_eq_none, hnone]
      exact fun h => by cases h
  · rename_i hnot
    refine iff_of_false (fun h => h rfl) ?_
    rintro ⟨names, _, hget, -⟩
    exact hnot names hget

/-- A name that is looked up in an object of equally many names and values. -/
theorem ntcJsonGet_isNone {keys : List Bytes} {vals : List NtcJson} {key : Bytes} :
    (ntcJsonGet (.obj keys vals) key).isNone = false ↔ key ∈ (keys.zip vals).map Prod.fst := by
  rw [ntcJsonGet, Option.isNone_map, Option.isNone_eq_false_iff, List.find?_isSome]
  simp only [beq_iff_eq, List.mem_map]

theorem additionalCheck_fails {s : NtcJson} {vkeys : List Bytes} : additionalCheck s vkeys ≠ none ↔
    ∃ pkeys pvals key, ntcJsonGet s (lit "additionalProperties") = some (.bool false) ∧
      ntcJsonGet s (lit "properties") = some (.obj pkeys pvals) ∧ key ∈ vkeys ∧
      clip 96 key ∉ (propertiesOf s).map Prod.fst := by
  rw [additionalCheck]
  split
  · rename_i pkeys pvals hfalse hprops
    have hnames : propertiesOf s = pkeys.zip pvals := by rw [propertiesOf, hprops]
    rw [Ne, List.findSome?_eq_none_iff, hnames]
    simp only [failIf_eq_none, ntcJsonGet_isNone, not_forall, exists_prop]
    constructor
    · rintro ⟨key, hkey, hno⟩
      exact ⟨pkeys, pvals, key, hfalse, hprops, hkey, hno⟩
    · rintro ⟨_, _, key, -, -, hkey, hno⟩
      exact ⟨key, hkey, hno⟩
  · rename_i hnot
    refine iff_of_false (fun h => h rfl) ?_
    rintro ⟨pkeys, pvals, _, hfalse, hprops, -⟩
    exact hnot pkeys pvals hfalse hprops

/-- What the validator asks of an instance before it goes into its parts. -/
def ChecksPass (U : Bytes → Nat) (s v : NtcJson) : Prop :=
  typeCheck s v = none ∧ enumCheck s v = none ∧ boundsCheck U s v = none ∧
    ∀ vkeys vvals, v = .obj vkeys vvals → requiredCheck s v = none ∧ additionalCheck s vkeys = none

/-- What JSON Schema asks of it. -/
def KeywordsHold (s v : NtcJson) : Prop :=
  TypeHolds s v ∧ EnumHolds s v ∧ BoundsHold s v ∧
    ∀ vkeys vvals, v = .obj vkeys vvals → RequiredHolds s v ∧ AdditionalHolds s vkeys

/-- A keyword that is broken in both readings. -/
theorem BrokenHere.fails {s v : NtcJson} (hv : v.IntegerNumbers) (h : BrokenHere U s v) :
    ¬ ChecksPass U s v ∧ ¬ KeywordsHold s v := by
  cases h with
  | type h hname hno =>
      refine ⟨fun hpass => ?_, fun hhold => hno (hhold.1 _ _ h hname)⟩
      refine typeCheck_fails.mpr ⟨_, h, ?_⟩ hpass.1
      rw [← Bool.not_eq_true, typeOk_iff hname hv]
      exact hno
  | enum h hno =>
      refine ⟨fun hpass => ?_, fun hhold => ?_⟩
      · exact enumCheck_fails.mpr ⟨_, h, fun x hx hsame => hno x hx hsame.2⟩ hpass.2.1
      · obtain ⟨x, hx, hsame⟩ := hhold.2.1 _ h
        exact hno x hx hsame
  | number hv hno =>
      subst hv
      exact ⟨fun hpass => hno (boundsCheck_num.mp hpass.2.2.1), fun hhold => hno hhold.2.2.1⟩
  | short hv h hcode hno =>
      obtain ⟨hcheck, hhold⟩ := boundsCheck_length (U := U) (s := s) hv
      exact ⟨fun hpass => hcheck.mpr ⟨_, .inl ⟨h, hcode⟩⟩ hpass.2.2.1,
        fun hall => hhold.mpr ⟨_, .inl ⟨h, hno⟩⟩ hall.2.2.1⟩
  | long hv h hcode hno =>
      obtain ⟨hcheck, hhold⟩ := boundsCheck_length (U := U) (s := s) hv
      exact ⟨fun hpass => hcheck.mpr ⟨_, .inr ⟨h, hcode⟩⟩ hpass.2.2.1,
        fun hall => hhold.mpr ⟨_, .inr ⟨h, hno⟩⟩ hall.2.2.1⟩
  | required hv h hname hcode hno =>
      refine ⟨fun hpass => ?_, fun hhold => ?_⟩
      · exact requiredCheck_fails.mpr ⟨_, _, h, hname, hcode⟩ (hpass.2.2.2 _ _ hv).1
      · have hsome := (hhold.2.2.2 _ _ hv).1 _ h _ hname
        rw [hno] at hsome
        cases hsome
  | additional hv h hprops hkey hcode hno =>
      refine ⟨fun hpass => ?_, fun hhold => hno ((hhold.2.2.2 _ _ hv).2 h _ hkey)⟩
      exact additionalCheck_fails.mpr ⟨_, _, _, h, hprops, hkey, hcode⟩ (hpass.2.2.2 _ _ hv).2

theorem TurnedAwayHere.fails {s v : NtcJson} (h : TurnedAwayHere U s v) : ¬ ChecksPass U s v := by
  intro hpass
  cases h with
  | type h _ hcode => exact typeCheck_fails.mpr ⟨_, h, hcode⟩ hpass.1
  | enum h hv _ _ =>
      exact enumCheck_fails.mpr ⟨_, h, fun _ _ hsame => hv hsame.1⟩ hpass.2.1
  | short hv h hbig hcode _ =>
      refine (boundsCheck_length (U := U) (s := s) hv).1.mpr ⟨_, .inl ⟨h, ?_⟩⟩ hpass.2.2.1
      rw [sizeOfNum, hbig]
      exact hcode
  | long hv h hbig hcode _ =>
      refine (boundsCheck_length (U := U) (s := s) hv).1.mpr ⟨_, .inr ⟨h, ?_⟩⟩ hpass.2.2.1
      rw [sizeOfNum, hbig]
      exact hcode
  | required hv h hname hcode _ =>
      exact requiredCheck_fails.mpr ⟨_, _, h, hname, hcode⟩ (hpass.2.2.2 _ _ hv).1
  | additional hv h hprops hkey hcode _ =>
      exact additionalCheck_fails.mpr ⟨_, _, _, h, hprops, hkey, hcode⟩ (hpass.2.2.2 _ _ hv).2

theorem LetInHere.fails {s v : NtcJson} (h : LetInHere U s v) : ¬ KeywordsHold s v := by
  intro hhold
  cases h with
  | unlisted hv h hprops hkey =>
      have hmem := (hhold.2.2.2 _ _ hv).2 h _ hkey
      rw [propertiesOf] at hmem
      split at hmem
      · rename_i pkeys pvals hget
        exact hprops pkeys pvals hget
      · cases hmem
  | short hv h _ _ hlen =>
      exact (boundsCheck_length (U := U) (s := s) hv).2.mpr ⟨_, .inl ⟨h, hlen⟩⟩ hhold.2.2.1
  | long hv h _ _ hlen =>
      exact (boundsCheck_length (U := U) (s := s) hv).2.mpr ⟨_, .inr ⟨h, hlen⟩⟩ hhold.2.2.1
  | required hv h hname _ hx =>
      have hsome := (hhold.2.2.2 _ _ hv).1 _ h _ hname
      rw [hx] at hsome
      cases hsome
  | additional hv h _ hkey _ hx => exact hx ((hhold.2.2.2 _ _ hv).2 h _ hkey)

/-- The validator's own tests, by what the two readings make of them. -/
theorem checksPass_iff {s v : NtcJson} (hs : s.IntegerNumbers) (hv : v.IntegerNumbers)
    (hpos : s.NonNegBounds) :
    ChecksPass U s v ↔ ¬ BrokenHere U s v ∧ ¬ TurnedAwayHere U s v := by
  refine ⟨fun hpass => ⟨fun h => (h.fails hv).1 hpass, fun h => h.fails hpass⟩, ?_⟩
  rintro ⟨hbroken, haway⟩
  refine ⟨?_, ?_, ?_, fun vkeys vvals hobj => ⟨?_, ?_⟩⟩
  · by_contra hfail
    obtain ⟨t, hget, hbad⟩ := typeCheck_fails.mp hfail
    cases hname : JsonType.ofName t with
    | none => exact haway (.type hget hname hbad)
    | some ty =>
        refine hbroken (.type hget hname fun hhas => ?_)
        rw [(typeOk_iff hname hv).mpr hhas] at hbad
        cases hbad
  · by_contra hfail
    obtain ⟨items, hget, hnone⟩ := enumCheck_fails.mp hfail
    refine hbroken (.enum hget fun x hx hsame => ?_)
    exact haway (.enum hget (fun hscalar => hnone x hx ⟨hscalar, hsame⟩) hx hsame)
  · by_contra hfail
    cases hkeys : v.lengthKeys with
    | none =>
        cases v with
        | null | bool | obj => exact hfail rfl
        | num text => exact hbroken (.number rfl fun hin => hfail (boundsCheck_num.mpr hin))
        | str | arr => cases hkeys
    | some k =>
        obtain ⟨minKey, maxKey, len⟩ := k
        obtain ⟨hmin, hmax⟩ := lengthKeys_mem hkeys
        obtain ⟨t, ⟨hget, hlt⟩ | ⟨hget, hlt⟩⟩ := (boundsCheck_length (s := s) hkeys).1.mp hfail
        · obtain ⟨hbig, hU⟩ | ⟨hcmp, -⟩ := lengthBound_cases (U := U) hs hpos hmin hget
          · by_cases hlen : lengthNum len < strtod t
            · exact hbroken (.short hkeys hget hlt hlen)
            · exact haway (.short hkeys hget hbig (hU ▸ hlt) (not_lt.mp hlen))
          · exact hbroken (.short hkeys hget hlt ((hcmp len).mpr hlt))
        · obtain ⟨hbig, hU⟩ | ⟨-, hcmp⟩ := lengthBound_cases (U := U) hs hpos hmax hget
          · by_cases hlen : strtod t < lengthNum len
            · exact hbroken (.long hkeys hget hlt hlen)
            · exact haway (.long hkeys hget hbig (hU ▸ hlt) (not_lt.mp hlen))
          · exact hbroken (.long hkeys hget hlt ((hcmp len).mpr hlt))
  · by_contra hfail
    obtain ⟨names, name, hget, hname, hnone⟩ := requiredCheck_fails.mp hfail
    by_cases hx : ntcJsonGet v name = none
    · exact hbroken (.required hobj hget hname hnone hx)
    · exact haway (.required hobj hget hname hnone hx)
  · by_contra hfail
    obtain ⟨pkeys, pvals, key, hfalse, hprops, hkey, hno⟩ := additionalCheck_fails.mp hfail
    by_cases hx : key ∈ (propertiesOf s).map Prod.fst
    · exact haway (.additional hobj hfalse hprops hkey hno hx)
    · exact hbroken (.additional hobj hfalse hprops hkey hno hx)

/-- The keywords of JSON Schema, likewise. -/
theorem keywordsHold_iff {s v : NtcJson} (hs : s.IntegerNumbers) (hv : v.IntegerNumbers)
    (hpos : s.NonNegBounds) :
    KeywordsHold s v ↔ ¬ BrokenHere U s v ∧ ¬ LetInHere U s v := by
  refine ⟨fun hhold => ⟨fun h => (h.fails hv).2 hhold, fun h => h.fails hhold⟩, ?_⟩
  rintro ⟨hbroken, hletin⟩
  refine ⟨?_, ?_, ?_, fun vkeys vvals hobj => ⟨?_, ?_⟩⟩
  · intro t ty hget hname
    by_contra hno
    exact hbroken (.type hget hname hno)
  · intro items hget
    by_contra hno
    exact hbroken (.enum hget fun x hx hsame => hno ⟨x, hx, hsame⟩)
  · by_contra hfail
    cases hkeys : v.lengthKeys with
    | none =>
        cases v with
        | null | bool | obj => exact hfail trivial
        | num text => exact hbroken (.number rfl hfail)
        | str | arr => cases hkeys
    | some k =>
        obtain ⟨minKey, maxKey, len⟩ := k
        obtain ⟨hmin, hmax⟩ := lengthKeys_mem hkeys
        obtain ⟨t, ⟨hget, hlt⟩ | ⟨hget, hlt⟩⟩ :=
          (boundsCheck_length (U := U) (s := s) hkeys).2.mp hfail
        · obtain ⟨hbig, hU⟩ | ⟨hcmp, -⟩ := lengthBound_cases (U := U) hs hpos hmin hget
          · by_cases hcode : len < U t
            · exact hbroken (.short hkeys hget (hU ▸ hcode) hlt)
            · exact hletin (.short hkeys hget hbig (not_lt.mp hcode) hlt)
          · exact hbroken (.short hkeys hget ((hcmp len).mp hlt) hlt)
        · obtain ⟨hbig, hU⟩ | ⟨-, hcmp⟩ := lengthBound_cases (U := U) hs hpos hmax hget
          · by_cases hcode : U t < len
            · exact hbroken (.long hkeys hget (hU ▸ hcode) hlt)
            · exact hletin (.long hkeys hget hbig (not_lt.mp hcode) hlt)
          · exact hbroken (.long hkeys hget ((hcmp len).mp hlt) hlt)
  · intro names hget name hname
    by_contra hfail
    rw [Option.not_isSome_iff_eq_none] at hfail
    by_cases hcode : ntcJsonGet v (clip 96 name) = none
    · exact hbroken (.required hobj hget hname hcode hfail)
    · exact hletin (.required hobj hget hname hcode hfail)
  · intro hfalse key hkey
    by_contra hno
    by_cases hprops : ∃ pkeys pvals, ntcJsonGet s (lit "properties") = some (.obj pkeys pvals)
    · obtain ⟨pkeys, pvals, hprops⟩ := hprops
      by_cases hcode : clip 96 key ∈ (propertiesOf s).map Prod.fst
      · exact hletin (.additional hobj hfalse hprops hkey hcode hno)
      · exact hbroken (.additional hobj hfalse hprops hkey hcode hno)
    · exact hletin (.unlisted hobj hfalse
        (fun pkeys pvals hget => hprops ⟨pkeys, pvals, hget⟩) hkey)

-- ============================================================================
-- The validator
-- ============================================================================

theorem validateItems_iff {s : NtcJson} {items : List NtcJson} :
    validateItems U s items = none ↔ ∀ x ∈ items, ntcSchemaValidate U s x = none := by
  induction items with
  | nil =>
      rw [validateItems]
      exact iff_of_true rfl fun x hx => absurd hx List.not_mem_nil
  | cons x items ih => rw [validateItems, orFail_eq_none, ih, List.forall_mem_cons]

theorem validateProps_iff {v : NtcJson} : ∀ {keys : List Bytes} {subs : List NtcJson},
    validateProps U keys subs v = none ↔ ∀ m ∈ keys.zip subs, ∀ x,
      ntcJsonGet v (clip 96 m.1) = some x → ntcSchemaValidate U m.2 x = none := by
  intro keys
  induction keys with
  | nil =>
      intro subs
      rw [validateProps.eq_def]
      exact iff_of_true rfl fun m hm => absurd hm List.not_mem_nil
  | cons key keys ih =>
      intro subs
      cases subs with
      | nil =>
          rw [validateProps.eq_def]
          exact iff_of_true rfl fun m hm => absurd hm List.not_mem_nil
      | cons sub subs =>
          rw [validateProps, orFail_eq_none, ih, List.zip_cons_cons, List.forall_mem_cons]
          refine and_congr_left fun _ => ?_
          cases hget : ntcJsonGet v (clip 96 key) with
          | none => exact iff_of_true rfl fun x hx => by cases hx
          | some iv => exact ⟨fun h x hx => Option.some.inj hx ▸ h, fun h => h iv rfl⟩

/-- The parts of an instance that the schemas of `items` and of `properties`
    are about, with the name that a member is looked up by. -/
def PartsSatisfy (P : NtcJson → NtcJson → Prop) (name : Bytes → Bytes) (s v : NtcJson) : Prop :=
  (∀ sub items, ntcJsonGet s (lit "items") = some sub → v = .arr items → ∀ x ∈ items, P sub x) ∧
    ∀ m ∈ propertiesOf s, ∀ x, ntcJsonGet v (name m.1) = some x → P m.2 x

theorem validate_noObject {s v : NtcJson} (h : ∀ keys vals, s ≠ .obj keys vals) :
    ntcSchemaValidate U s v = none := by
  cases s with
  | null | bool | num | str | arr => rw [ntcSchemaValidate.eq_def]
  | obj keys vals => exact absurd rfl (h keys vals)

/-- The validator on an object. -/
theorem validate_obj_iff {keys : List Bytes} {vals : List NtcJson} {v : NtcJson} :
    ntcSchemaValidate U (.obj keys vals) v = none ↔ ChecksPass U (.obj keys vals) v ∧
      PartsSatisfy (fun sub x => ntcSchemaValidate U sub x = none) (clip 96) (.obj keys vals)
        v := by
  generalize hs : NtcJson.obj keys vals = s
  have hpart : ∀ v : NtcJson, (∀ key, ntcJsonGet v key = none) → ∀ m ∈ propertiesOf s, ∀ x,
      ntcJsonGet v (clip 96 m.1) = some x → ntcSchemaValidate U m.2 x = none := by
    intro v hnone m _ x hx
    rw [hnone] at hx
    cases hx
  rw [← hs, ntcSchemaValidate.eq_def]
  dsimp only
  rw [hs, orFail_eq_none, orFail_eq_none, orFail_eq_none, ChecksPass, and_assoc, and_assoc,
    and_assoc]
  refine and_congr_right fun _ => and_congr_right fun _ => and_congr_right fun _ => ?_
  cases v with
  | null | bool | num | str =>
      refine iff_of_true rfl ⟨?_, ?_, hpart _ fun _ => rfl⟩
      · exact fun _ _ heq => by cases heq
      · exact fun _ _ _ heq => by cases heq
  | arr items =>
      dsimp only
      have hitems : PartsSatisfy (fun sub x => ntcSchemaValidate U sub x = none) (clip 96) s
          (.arr items) ↔ ∀ sub, ntcJsonGet s (lit "items") = some sub →
            ∀ x ∈ items, ntcSchemaValidate U sub x = none := by
        constructor
        · exact fun hall sub hget => hall.1 sub items hget rfl
        · refine fun hall => ⟨fun sub items' hget heq => ?_, hpart _ fun _ => rfl⟩
          cases heq
          exact hall sub hget
      rw [hitems, and_iff_right (fun _ _ heq => by cases heq)]
      split
      · rename_i ikeys ivals hget
        rw [validateItems_iff]
        constructor
        · intro hall sub hsub
          rw [hget] at hsub
          cases hsub
          exact hall
        · exact fun hall => hall _ hget
      · rename_i hnot
        refine iff_of_true rfl fun sub hsub x _ => validate_noObject fun ikeys ivals heq => ?_
        exact hnot ikeys ivals (heq ▸ hsub)
  | obj vkeys vvals =>
      dsimp only
      have hprops : PartsSatisfy (fun sub x => ntcSchemaValidate U sub x = none) (clip 96) s
          (.obj vkeys vvals) ↔ ∀ m ∈ propertiesOf s, ∀ x,
            ntcJsonGet (.obj vkeys vvals) (clip 96 m.1) = some x →
              ntcSchemaValidate U m.2 x = none :=
        and_iff_right fun _ _ _ heq => by cases heq
      have hmembers : (∀ ks xs, NtcJson.obj vkeys vvals = .obj ks xs →
          requiredCheck s (.obj vkeys vvals) = none ∧ additionalCheck s ks = none) ↔
            requiredCheck s (.obj vkeys vvals) = none ∧ additionalCheck s vkeys = none := by
        refine ⟨fun hall => hall vkeys vvals rfl, fun hall ks xs heq => ?_⟩
        cases heq
        exact hall
      rw [orFail_eq_none, orFail_eq_none, hprops, hmembers, and_assoc]
      refine and_congr_right fun _ => ?_
      rw [and_comm]
      refine and_congr_right fun _ => ?_
      rw [propertiesOf]
      split
      · rename_i pkeys pvals hget
        rw [validateProps_iff, hget]
      · rename_i hnot
        refine iff_of_true rfl fun m hm => ?_
        split at hm
        · rename_i pkeys pvals hget
          exact absurd hget (hnot pkeys pvals)
        · cases hm

theorem satisfies_obj_iff {keys : List Bytes} {vals : List NtcJson} {v : NtcJson} :
    Satisfies (.obj keys vals) v ↔ KeywordsHold (.obj keys vals) v ∧
      PartsSatisfy Satisfies id (.obj keys vals) v := by
  constructor
  · intro h
    cases h with
    | noObject hno => exact absurd rfl (hno keys vals)
    | keywords htype henum hbounds hitems hrequired hprops hadditional =>
        exact ⟨⟨htype, henum, hbounds, fun _ _ heq => ⟨hrequired _ _ heq, hadditional _ _ heq⟩⟩,
          hitems, hprops⟩
  · rintro ⟨⟨htype, henum, hbounds, hmembers⟩, hitems, hprops⟩
    exact .keywords htype henum hbounds hitems (fun _ _ heq => (hmembers _ _ heq).1) hprops
      fun _ _ heq => (hmembers _ _ heq).2

-- ============================================================================
-- When the validator decides
-- ============================================================================

theorem sizeOf_propertiesOf {s : NtcJson} {m : Bytes × NtcJson} (h : m ∈ propertiesOf s) :
    sizeOf m.2 < sizeOf s := by
  rw [propertiesOf] at h
  split at h
  · rename_i pkeys pvals hget
    have hlt := sizeOf_ntcJsonGet hget
    have hmem := List.sizeOf_lt_of_mem (List.of_mem_zip h).2
    rw [NtcJson.obj.sizeOf_spec pkeys] at hlt
    omega
  · cases h

/-- A reading that a schema's keywords and parts decide: what it accepts breaks
    no keyword for both readings, and none for this one. -/
theorem reading_iff {P Here : NtcJson → NtcJson → Prop} {mine theirs : Bytes → Bytes}
    (hnames : ∀ v name x, (ntcJsonGet v (clip 96 name) = some x ∧ ntcJsonGet v name = some x) ↔
      (ntcJsonGet v (mine name) = some x ∧ ntcJsonGet v (theirs name) = some x))
    (hread : ∀ s v : NtcJson, s.IntegerNumbers → v.IntegerNumbers → s.NonNegBounds →
      (P s v ↔ (¬ BrokenHere U s v ∧ ¬ Here s v) ∧ PartsSatisfy P mine s v)) :
    ∀ (n : Nat) (s v : NtcJson), sizeOf s ≤ n → s.IntegerNumbers → v.IntegerNumbers →
      s.NonNegBounds → (P s v ↔ ¬ Broken U s v ∧ ¬ BrokenForOne U Here mine theirs s v) := by
  intro n
  induction n with
  | zero =>
      intro s v hn
      cases s <;> simp at hn
  | succ n ih =>
      intro s v hn hs hv hpos
      have hitem : ∀ sub items x, ntcJsonGet s (lit "items") = some sub → v = .arr items →
          x ∈ items → (P sub x ↔ ¬ Broken U sub x ∧ ¬ BrokenForOne U Here mine theirs sub x) := by
        rintro sub items x hget rfl hx
        have hlt := sizeOf_ntcJsonGet hget
        have hsub : sub.nodes ⊆ s.nodes := NtcJson.nodes_get hget
        exact ih sub x (by omega) (hs.sub hsub) (hv.sub (NtcJson.nodes_item hx)) (hpos.sub hsub)
      have hmember : ∀ m ∈ propertiesOf s, ∀ x, ntcJsonGet v (mine m.1) = some x →
          (P m.2 x ↔ ¬ Broken U m.2 x ∧ ¬ BrokenForOne U Here mine theirs m.2 x) := by
        intro m hm x hx
        have hlt := sizeOf_propertiesOf hm
        have hsub := propertiesOf_nodes hm
        exact ih m.2 x (by omega) (hs.sub hsub) (hv.sub (NtcJson.nodes_get hx)) (hpos.sub hsub)
      rw [hread s v hs hv hpos]
      constructor
      · rintro ⟨⟨hbroken, hhere⟩, hitems, hprops⟩
        constructor
        · intro hb
          cases hb with
          | here h => exact hbroken h
          | item h hx hb => exact ((hitem _ _ _ h rfl hx).mp (hitems _ _ h rfl _ hx)).1 hb
          | member hm hcode hx hb =>
              obtain ⟨hmine, -⟩ := (hnames _ _ _).mp ⟨hcode, hx⟩
              exact ((hmember _ hm _ hmine).mp (hprops _ hm _ hmine)).1 hb
        · intro hb
          cases hb with
          | here h => exact hhere h
          | item h hx hb => exact ((hitem _ _ _ h rfl hx).mp (hitems _ _ h rfl _ hx)).2 hb
          | member hm hmine _ hb => exact ((hmember _ hm _ hmine).mp (hprops _ hm _ hmine)).2 hb
          | missed hm hmine _ hb => exact ((hmember _ hm _ hmine).mp (hprops _ hm _ hmine)).2 hb
          | missedBoth hm hmine _ hb =>
              exact ((hmember _ hm _ hmine).mp (hprops _ hm _ hmine)).1 hb
      · rintro ⟨hbroken, hone⟩
        refine ⟨⟨fun h => hbroken (.here h), fun h => hone (.here h)⟩, ?_, ?_⟩
        · rintro sub items hget rfl x hx
          exact (hitem sub items x hget rfl hx).mpr
            ⟨fun hb => hbroken (.item hget hx hb), fun hb => hone (.item hget hx hb)⟩
        · intro m hm x hmine
          refine (hmember m hm x hmine).mpr ?_
          by_cases htheirs : ntcJsonGet v (theirs m.1) = some x
          · obtain ⟨hcode, hx⟩ := (hnames v m.1 x).mpr ⟨hmine, htheirs⟩
            exact ⟨fun hb => hbroken (.member hm hcode hx hb),
              fun hb => hone (.member hm hmine htheirs hb)⟩
          · exact ⟨fun hb => hone (.missedBoth hm hmine htheirs hb),
              fun hb => hone (.missed hm hmine htheirs hb)⟩

/-- A schema that is no object has no keywords and no parts. -/
theorem noObject_reading {s : NtcJson} (h : ∀ keys vals, s ≠ .obj keys vals) (v : NtcJson) :
    ¬ BrokenHere U s v ∧ ¬ TurnedAwayHere U s v ∧ ¬ LetInHere U s v ∧
      ∀ P name, PartsSatisfy P name s v := by
  have hget : ∀ key, ntcJsonGet s key = none := by
    intro key
    cases s with
    | null | bool | num | str | arr => rfl
    | obj keys vals => exact absurd rfl (h keys vals)
  have hno : ∀ {key : Bytes} {x : NtcJson}, ntcJsonGet s key ≠ some x := by
    intro key x hx
    rw [hget] at hx
    cases hx
  refine ⟨fun hb => ?_, fun ht => ?_, fun hl => ?_, fun P name => ⟨fun _ _ hx => absurd hx hno, ?_⟩⟩
  · cases hb with
    | number _ hout => exact hout ⟨fun _ hx => absurd hx hno, fun _ hx => absurd hx hno⟩
    | type h | enum h | short _ h | long _ h | required _ h | additional _ h => exact hno h
  · cases ht with
    | type h | enum h | short _ h | long _ h | required _ h | additional _ h => exact hno h
  · cases hl with
    | unlisted _ h | short _ h | long _ h | required _ h | additional _ h => exact hno h
  · intro m hm
    rw [propertiesOf, hget] at hm
    cases hm

theorem validate_iff (U : Bytes → Nat) {s v : NtcJson} (hs : s.IntegerNumbers)
    (hv : v.IntegerNumbers) (hpos : s.NonNegBounds) :
    ntcSchemaValidate U s v = none ↔ ¬ Broken U s v ∧ ¬ TurnedAway U s v := by
  refine reading_iff (P := fun s v => ntcSchemaValidate U s v = none) (fun _ _ _ => Iff.rfl) ?_
    (sizeOf s) s v le_rfl hs hv hpos
  intro s v hs hv hpos
  by_cases hobj : ∃ keys vals, s = .obj keys vals
  · obtain ⟨keys, vals, rfl⟩ := hobj
    rw [validate_obj_iff, checksPass_iff hs hv hpos]
  · have hno : ∀ keys vals, s ≠ .obj keys vals := fun keys vals heq => hobj ⟨keys, vals, heq⟩
    obtain ⟨hbroken, haway, -, hparts⟩ := noObject_reading (U := U) hno v
    exact iff_of_true (validate_noObject hno) ⟨⟨hbroken, haway⟩, hparts _ _⟩

theorem satisfies_iff (U : Bytes → Nat) {s v : NtcJson} (hs : s.IntegerNumbers)
    (hv : v.IntegerNumbers) (hpos : s.NonNegBounds) :
    Satisfies s v ↔ ¬ Broken U s v ∧ ¬ LetIn U s v := by
  refine reading_iff (P := Satisfies) (fun _ _ _ => and_comm) ?_ (sizeOf s) s v le_rfl hs hv hpos
  intro s v hs hv hpos
  by_cases hobj : ∃ keys vals, s = .obj keys vals
  · obtain ⟨keys, vals, rfl⟩ := hobj
    rw [satisfies_obj_iff, keywordsHold_iff (U := U) hs hv hpos]
    exact Iff.rfl
  · have hno : ∀ keys vals, s ≠ .obj keys vals := fun keys vals heq => hobj ⟨keys, vals, heq⟩
    obtain ⟨hbroken, -, hletin, hparts⟩ := noObject_reading (U := U) hno v
    exact iff_of_true (.noObject hno) ⟨⟨hbroken, hletin⟩, hparts _ _⟩

/-- `ntc_schema_validate` decides whether an instance satisfies a schema
    exactly if the instance breaks a keyword that both readings find broken, or
    if, of the keywords that only one of them finds broken, it breaks some of
    either kind or none. -/
theorem schema_validate_iff (U : Bytes → Nat) {s v : NtcJson} (hs : s.IntegerNumbers)
    (hv : v.IntegerNumbers) (hpos : s.NonNegBounds) :
    (ntcSchemaValidate U s v = none ↔ Satisfies s v) ↔
      Broken U s v ∨ (TurnedAway U s v ↔ LetIn U s v) := by
  rw [validate_iff U hs hv hpos, satisfies_iff U hs hv hpos]
  tauto

/-- A schema for users. -/
def userSchema : NtcJson :=
  .obj [lit "type", lit "required", lit "properties"]
    [.str (lit "object"), .arr [.str (lit "name")],
      .obj [lit "name", lit "age"]
        [.obj [lit "type", lit "maxLength"] [.str (lit "string"), .num (lit "5")],
          .obj [lit "type", lit "minimum"] [.str (lit "integer"), .num (lit "0")]]]

/-- A user with too long a name. -/
def userRobert : NtcJson := .obj [lit "name", lit "age"] [.str (lit "robert"), .num (lit "7")]

theorem strtod_digit {text : Bytes} {n : Nat} (hread : readDecimal text = some ⟨false, n, 0⟩)
    (hn : n ≤ 9) : strtod text = intNum n := by
  refine strtod_eq (d := ⟨false, n, 0⟩) hread (by simp [Decimal.value]) ?_
  rw [abs_le]
  omega

theorem toSize_intNum {n : Nat} (hn : n ≤ 9) : toSize (intNum n) = some n := by
  have hrange : (-1 : ℚ) < (n : ℤ) ∧ ((n : ℤ) : ℚ) < 2 ^ 64 := by
    have hle : ((n : ℤ) : ℚ) ≤ 9 := by exact_mod_cast hn
    have hpos : (0 : ℚ) ≤ (n : ℤ) := by exact_mod_cast n.zero_le
    constructor <;> linarith
  show (if (-1 : ℚ) < (n : ℤ) ∧ ((n : ℤ) : ℚ) < 2 ^ 64 then some (truncate (n : ℤ)).toNat
    else none) = some n
  rw [if_pos hrange, truncate_intCast, Int.toNat_natCast]

theorem userSchema_numbers {text : Bytes} (h : .num text ∈ userSchema.nodes) :
    ∃ n : Nat, strtod text = intNum n := by
  simp only [userSchema, NtcJson.nodes, NtcJson.nodesOf, List.mem_cons, List.mem_append,
    List.not_mem_nil, reduceCtorEq, NtcJson.num.injEq, or_false, false_or] at h
  rcases h with rfl | rfl
  · exact ⟨5, strtod_digit (by decide) (by decide)⟩
  · exact ⟨0, strtod_digit (by decide) (by decide)⟩

theorem userRobert_integers : userRobert.IntegerNumbers := by
  intro text h
  simp only [userRobert, NtcJson.nodes, NtcJson.nodesOf, List.mem_cons, List.mem_append,
    List.not_mem_nil, reduceCtorEq, NtcJson.num.injEq, or_false, false_or] at h
  exact ⟨7, h ▸ strtod_digit (n := 7) (by decide) (by decide)⟩

theorem userSchema_bounds : userSchema.NonNegBounds := by
  intro o ho key _ t hget
  have hnode : .num t ∈ o.nodes := NtcJson.nodes_get hget (NtcJson.self_mem_nodes _)
  obtain ⟨n, hn⟩ := userSchema_numbers (NtcJson.nodes_trans ho hnode)
  rw [hn]
  exact intNum_le_intNum.mpr (by omega)

/-- The validator and JSON Schema agree on a user with too long a name. -/
theorem schema_validate_iff_robert :
    ntcSchemaValidate (fun _ => 0) userSchema userRobert = none ↔
      Satisfies userSchema userRobert := by
  have hints : userSchema.IntegerNumbers := fun text h =>
    (userSchema_numbers h).imp' _ fun _ hn => hn
  have hfive : strtod (lit "5") = intNum (5 : Nat) := strtod_digit (by decide) (by decide)
  refine (schema_validate_iff (fun _ => 0) hints userRobert_integers
    userSchema_bounds).mpr (.inl ?_)
  have hname : (lit "name",
      .obj [lit "type", lit "maxLength"] [.str (lit "string"), .num (lit "5")])
      ∈ propertiesOf userSchema := List.mem_cons_self
  refine .member (x := .str (lit "robert")) hname rfl rfl (.here (.long rfl rfl ?_ ?_))
  · rw [sizeOfNum, hfive, toSize_intNum (by decide)]
    decide
  · rw [hfive, ← not_le, lengthNum, intNum_le_intNum]
    decide

/-- `{"enum":[[]]}` turns the empty array away, and
    `{"additionalProperties":false}` lets a member in. -/
theorem validator_departs_from_jsonSchema :
    (ntcSchemaValidate (fun _ => 0) (.obj [lit "enum"] [.arr [.arr []]]) (.arr []) ≠ none ∧
      Satisfies (.obj [lit "enum"] [.arr [.arr []]]) (.arr [])) ∧
    ntcSchemaValidate (fun _ => 0) (.obj [lit "additionalProperties"] [.bool false])
        (.obj [lit "a"] [.null]) = none ∧
      ¬ Satisfies (.obj [lit "additionalProperties"] [.bool false])
        (.obj [lit "a"] [.null]) := by
  have hitems : ∀ {P : NtcJson → NtcJson → Prop} {name : Bytes → Bytes},
      PartsSatisfy P name (.obj [lit "enum"] [.arr [.arr []]]) (.arr []) :=
    ⟨fun _ _ h => (by cases h), fun _ h => absurd h List.not_mem_nil⟩
  have hmembers : ∀ {P : NtcJson → NtcJson → Prop} {name : Bytes → Bytes},
      PartsSatisfy P name (.obj [lit "additionalProperties"] [.bool false])
        (.obj [lit "a"] [.null]) :=
    ⟨fun _ _ h => (by cases h), fun _ h => absurd h List.not_mem_nil⟩
  refine ⟨⟨?_, ?_⟩, ?_, ?_⟩
  · intro h
    have henum := (validate_obj_iff.mp h).1.2.1
    revert henum
    decide
  · refine satisfies_obj_iff.mpr ⟨⟨?_, fun items h => ?_, ?_, ?_⟩, hitems⟩
    · exact fun _ _ h => by cases h
    · cases h
      exact ⟨.arr [], List.mem_singleton_self _, trivial⟩
    · exact ⟨fun _ h => (by cases h), fun _ h => (by cases h)⟩
    · exact fun _ _ h => by cases h
  · refine validate_obj_iff.mpr ⟨⟨rfl, rfl, rfl, fun _ _ h => ?_⟩, hmembers⟩
    cases h
    exact ⟨rfl, rfl⟩
  · intro h
    have hadditional := ((satisfies_obj_iff.mp h).1.2.2.2 _ _ rfl).2 rfl (lit "a")
      (List.mem_singleton_self _)
    cases hadditional

end Naitron
