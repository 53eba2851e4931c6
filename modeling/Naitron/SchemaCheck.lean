/-
  Naitron.SchemaCheck

  `ntc_schema_validate` of `src/common/schema.c`.

  A check that fails is a `SchemaError`, `none` is a check that passes; the
  first failure of the sequence is the result.  `U` is what a conversion to
  `size_t` gives where C leaves it undefined.
-/

import Naitron.Json
import Naitron.Strtod

namespace Naitron

-- ============================================================================
-- Errors
-- ============================================================================

/-- What `ntc_schema_validate` gives to `fail`. -/
inductive SchemaError where
  | expectedType (tn : Bytes)
  | notInEnum
  | belowMinimum
  | aboveMaximum
  | tooShort
  | tooLong
  | tooFewItems
  | tooManyItems
  | missingProperty (key : Bytes)
  | unexpectedProperty (key : Bytes)
deriving DecidableEq, Repr

/-- The text of an error, with the buffers `m[64]` and `m[128]`. -/
def SchemaError.text : SchemaError → Bytes
  | .expectedType tn => clip 64 (lit "expected type " ++ tn)
  | .notInEnum => lit "value not in enum"
  | .belowMinimum => lit "below minimum"
  | .aboveMaximum => lit "above maximum"
  | .tooShort => lit "string too short"
  | .tooLong => lit "string too long"
  | .tooFewItems => lit "too few items"
  | .tooManyItems => lit "too many items"
  | .missingProperty key => clip 128 (lit "missing required property '" ++ key ++ lit "'")
  | .unexpectedProperty key => clip 128 (lit "unexpected property '" ++ key ++ lit "'")

/-- `fail` into `verr[160]`. -/
def SchemaError.verr (e : SchemaError) : Bytes := clip 160 e.text

-- ============================================================================
-- Checks
-- ============================================================================

/-- `type_ok`. -/
def typeOk (t : Bytes) (v : NtcJson) : Bool :=
  if t = lit "object" then v matches .obj _ _
  else if t = lit "array" then v matches .arr _
  else if t = lit "string" then v matches .str _
  else if t = lit "boolean" then v matches .bool _
  else if t = lit "null" then v matches .null
  else if t = lit "number" then v matches .num _
  else if t = lit "integer" then
    match v with
    | .num text => isWhole (strtod text)
    | _ => false
  else true

/-- `json_eq`. -/
def jsonEq : NtcJson → NtcJson → Bool
  | .null, .null => true
  | .bool a, .bool b => a == b
  | .num a, .num b => strtod a == strtod b
  | .str a, .str b => a == b
  | _, _ => false

/-- The first of two failures. -/
def orFail (a b : Option SchemaError) : Option SchemaError := a.or b

/-- A failure when the test is true. -/
def failIf (b : Bool) (e : SchemaError) : Option SchemaError := if b then some e else none

/-- `t->type == NTC_JSON_NUM` and a comparison with the number. -/
def numberTest (bound : Option NtcJson) (test : Bytes → Bool) : Bool :=
  match bound with
  | some (.num text) => test text
  | _ => false

def typeCheck (s v : NtcJson) : Option SchemaError :=
  match ntcJsonGet s (lit "type") with
  | some (.str t) => failIf (!typeOk (clip 24 t) v) (.expectedType (clip 24 t))
  | _ => none

def enumCheck (s v : NtcJson) : Option SchemaError :=
  match ntcJsonGet s (lit "enum") with
  | some (.arr items) => failIf (!items.any fun item => jsonEq item v) .notInEnum
  | _ => none

section Bounds

variable (U : Bytes → Nat)

/-- `(size_t)mn->num`. -/
def sizeOfNum (text : Bytes) : Nat := (toSize (strtod text)).getD (U text)

/-- The pair of tests on a length. -/
def lengthCheck (s : NtcJson) (minKey maxKey : String) (short long : SchemaError) (len : Nat) :
    Option SchemaError :=
  orFail
    (failIf (numberTest (ntcJsonGet s (lit minKey)) fun t => decide (len < sizeOfNum U t)) short)
    (failIf (numberTest (ntcJsonGet s (lit maxKey)) fun t => decide (sizeOfNum U t < len)) long)

/-- The keywords for numbers, strings and the length of an array. -/
def boundsCheck (s : NtcJson) : NtcJson → Option SchemaError
  | .num text =>
      orFail
        (failIf (numberTest (ntcJsonGet s (lit "minimum")) fun t =>
          decide (strtod text < strtod t)) .belowMinimum)
        (failIf (numberTest (ntcJsonGet s (lit "maximum")) fun t =>
          decide (strtod t < strtod text)) .aboveMaximum)
  | .str b => lengthCheck U s "minLength" "maxLength" .tooShort .tooLong b.length
  | .arr items => lengthCheck U s "minItems" "maxItems" .tooFewItems .tooManyItems items.length
  | _ => none

end Bounds

/-- The loop over `required`. -/
def requiredCheck (s v : NtcJson) : Option SchemaError :=
  match ntcJsonGet s (lit "required") with
  | some (.arr names) => names.findSome? fun name =>
      match name with
      | .str b => failIf (ntcJsonGet v (clip 96 b)).isNone (.missingProperty (clip 96 b))
      | _ => none
  | _ => none

/-- The loop behind `additionalProperties`. -/
def additionalCheck (s : NtcJson) (keys : List Bytes) : Option SchemaError :=
  match ntcJsonGet s (lit "additionalProperties"), ntcJsonGet s (lit "properties") with
  | some (.bool false), some (.obj pkeys pvals) => keys.findSome? fun key =>
      failIf (ntcJsonGet (.obj pkeys pvals) (clip 96 key)).isNone (.unexpectedProperty (clip 96 key))
  | _, _ => none

-- ============================================================================
-- The recursion
-- ============================================================================

/-- What `ntc_json_get` returns is smaller than the object. -/
theorem sizeOf_ntcJsonGet {o v : NtcJson} {key : Bytes} (h : ntcJsonGet o key = some v) :
    sizeOf v < sizeOf o := by
  cases o with
  | null | bool | num | str | arr => cases h
  | obj keys vals =>
      obtain ⟨kv, hkv, rfl⟩ := Option.map_eq_some_iff.mp h
      have hmem := (List.of_mem_zip (List.mem_of_find?_eq_some hkv)).2
      have hlt := List.sizeOf_lt_of_mem hmem
      rw [NtcJson.obj.sizeOf_spec]
      omega

section Validate

variable (U : Bytes → Nat)

mutual

/-- `ntc_schema_validate` with an instance that is there. -/
def ntcSchemaValidate (s v : NtcJson) : Option SchemaError :=
  match s with
  | .obj keys vals =>
      orFail (typeCheck (.obj keys vals) v) <| orFail (enumCheck (.obj keys vals) v) <|
        orFail (boundsCheck U (.obj keys vals) v) <|
          match v with
          | .arr items =>
              match _h : ntcJsonGet (.obj keys vals) (lit "items") with
              | some (.obj ikeys ivals) => validateItems (.obj ikeys ivals) items
              | _ => none
          | .obj vkeys vvals =>
              orFail (requiredCheck (.obj keys vals) (.obj vkeys vvals)) <|
                orFail
                  (match _h : ntcJsonGet (.obj keys vals) (lit "properties") with
                  | some (.obj pkeys pvals) => validateProps pkeys pvals (.obj vkeys vvals)
                  | _ => none)
                  (additionalCheck (.obj keys vals) vkeys)
          | _ => none
  | _ => none
termination_by (sizeOf s, 0, 0)
decreasing_by
  · have hlt := sizeOf_ntcJsonGet ‹_›
    exact Prod.Lex.left _ _ hlt
  · have hlt := sizeOf_ntcJsonGet ‹_›
    rw [NtcJson.obj.sizeOf_spec pkeys] at hlt
    exact Prod.Lex.left _ _ (by omega)

/-- The loop over the items of an array. -/
def validateItems (s : NtcJson) : List NtcJson → Option SchemaError
  | [] => none
  | item :: items => orFail (ntcSchemaValidate s item) (validateItems s items)
termination_by items => (sizeOf s, 1, items.length)
decreasing_by
  · exact Prod.Lex.right _ (Prod.Lex.left _ _ (by omega))
  · exact Prod.Lex.right _ (Prod.Lex.right _ (Nat.lt_succ_self _))

/-- The loop over the properties of a schema. -/
def validateProps : List Bytes → List NtcJson → NtcJson → Option SchemaError
  | key :: keys, sub :: subs, v =>
      orFail
        (match ntcJsonGet v (clip 96 key) with
        | some iv => ntcSchemaValidate sub iv
        | none => none)
        (validateProps keys subs v)
  | _, _, _ => none
termination_by _ subs _ => (sizeOf subs, 0, 0)
decreasing_by
  · exact Prod.Lex.left _ _ (by rw [List.cons.sizeOf_spec]; omega)
  · exact Prod.Lex.left _ _ (by rw [List.cons.sizeOf_spec]; omega)

end

theorem orFail_eq_none {a b : Option SchemaError} : orFail a b = none ↔ a = none ∧ b = none :=
  Option.or_eq_none_iff

theorem orFail_eq_some {a b : Option SchemaError} {e : SchemaError} (h : orFail a b = some e) :
    a = some e ∨ b = some e := by
  rw [orFail, Option.or_eq_some_iff] at h
  exact h.imp_right And.right

theorem failIf_eq_some {b : Bool} {e e' : SchemaError} (h : failIf b e = some e') : e' = e := by
  rw [failIf] at h
  split at h
  · exact (Option.some.inj h).symm
  · cases h

variable {U}

/-- A failure among the items. -/
theorem validateItems_some {s : NtcJson} {items : List NtcJson} {e : SchemaError}
    (h : validateItems U s items = some e) :
    ∃ item ∈ items, ntcSchemaValidate U s item = some e := by
  induction items with
  | nil =>
      rw [validateItems] at h
      cases h
  | cons item items ih =>
      rw [validateItems] at h
      rcases orFail_eq_some h with h | h
      · exact ⟨item, List.mem_cons_self, h⟩
      · obtain ⟨x, hx, hval⟩ := ih h
        exact ⟨x, List.mem_cons_of_mem item hx, hval⟩

/-- A failure among the properties. -/
theorem validateProps_some {v : NtcJson} {e : SchemaError} : ∀ {keys : List Bytes}
    {subs : List NtcJson}, validateProps U keys subs v = some e →
    ∃ sub ∈ subs, ∃ iv, ntcSchemaValidate U sub iv = some e := by
  intro keys
  induction keys with
  | nil =>
      intro subs h
      rw [validateProps] at h
      · cases h
      · exact fun _ _ _ _ hnil => by cases hnil
  | cons key keys ih =>
      intro subs h
      cases subs with
      | nil =>
          rw [validateProps] at h
          · cases h
          · exact fun _ _ _ _ _ hnil => by cases hnil
      | cons sub subs =>
          rw [validateProps] at h
          rcases orFail_eq_some h with h | h
          · cases hget : ntcJsonGet v (clip 96 key) with
            | none =>
                rw [hget] at h
                cases h
            | some iv =>
                rw [hget] at h
                exact ⟨sub, List.mem_cons_self, iv, h⟩
          · obtain ⟨x, hx, hval⟩ := ih h
            exact ⟨x, List.mem_cons_of_mem sub hx, hval⟩

/-- Names in an error went through `tn[24]` or `key[96]`. -/
def SchemaError.Short : SchemaError → Prop
  | .expectedType tn => ∃ t, tn = clip 24 t
  | .missingProperty key => ∃ b, key = clip 96 b
  | .unexpectedProperty key => ∃ b, key = clip 96 b
  | _ => True

theorem typeCheck_short {s v : NtcJson} {e : SchemaError} (h : typeCheck s v = some e) :
    e.Short := by
  rw [typeCheck] at h
  split at h
  · rw [failIf_eq_some h]
    exact ⟨_, rfl⟩
  · cases h

theorem enumCheck_short {s v : NtcJson} {e : SchemaError} (h : enumCheck s v = some e) :
    e.Short := by
  rw [enumCheck] at h
  split at h
  · rw [failIf_eq_some h]
    trivial
  · cases h

theorem lengthCheck_short {s : NtcJson} {minKey maxKey : String} {short long e : SchemaError}
    {len : Nat} (hshort : short.Short) (hlong : long.Short)
    (h : lengthCheck U s minKey maxKey short long len = some e) : e.Short := by
  rw [lengthCheck] at h
  rcases orFail_eq_some h with h | h
  · rw [failIf_eq_some h]
    exact hshort
  · rw [failIf_eq_some h]
    exact hlong

theorem boundsCheck_short {s v : NtcJson} {e : SchemaError} (h : boundsCheck U s v = some e) :
    e.Short := by
  cases v with
  | null | bool | obj => cases h
  | num text =>
      rw [boundsCheck] at h
      rcases orFail_eq_some h with h | h
      · rw [failIf_eq_some h]
        trivial
      · rw [failIf_eq_some h]
        trivial
  | str b => exact @lengthCheck_short U _ _ _ .tooShort .tooLong e _ trivial trivial h
  | arr items => exact @lengthCheck_short U _ _ _ .tooFewItems .tooManyItems e _ trivial trivial h

theorem requiredCheck_short {s v : NtcJson} {e : SchemaError} (h : requiredCheck s v = some e) :
    e.Short := by
  rw [requiredCheck] at h
  split at h
  · obtain ⟨name, -, hname⟩ := List.exists_of_findSome?_eq_some h
    split at hname
    · rw [failIf_eq_some hname]
      exact ⟨_, rfl⟩
    · cases hname
  · cases h

theorem additionalCheck_short {s : NtcJson} {keys : List Bytes} {e : SchemaError}
    (h : additionalCheck s keys = some e) : e.Short := by
  rw [additionalCheck] at h
  split at h
  · obtain ⟨key, -, hkey⟩ := List.exists_of_findSome?_eq_some h
    rw [failIf_eq_some hkey]
    exact ⟨_, rfl⟩
  · cases h

/-- Every error of the validator has its names cut. -/
theorem ntcSchemaValidate_short : ∀ (n : Nat) (s v : NtcJson) (e : SchemaError), sizeOf s ≤ n →
    ntcSchemaValidate U s v = some e → e.Short := by
  intro n
  induction n with
  | zero =>
      intro s v e hn _
      cases s <;> simp at hn
  | succ n ih =>
      intro s v e hn h
      rw [ntcSchemaValidate.eq_def] at h
      split at h
      swap
      · cases h
      rename_i keys vals
      rcases orFail_eq_some h with h | h
      · exact typeCheck_short h
      rcases orFail_eq_some h with h | h
      · exact enumCheck_short h
      rcases orFail_eq_some h with h | h
      · exact boundsCheck_short h
      split at h
      · split at h
        · rename_i hget
          have hlt := sizeOf_ntcJsonGet hget
          obtain ⟨item, -, hitem⟩ := validateItems_some h
          exact ih _ item e (by omega) hitem
        · cases h
      · rcases orFail_eq_some h with h | h
        · exact requiredCheck_short h
        rcases orFail_eq_some h with h | h
        · split at h
          · rename_i pkeys pvals hget
            have hlt := sizeOf_ntcJsonGet hget
            obtain ⟨sub, hsub, iv, hiv⟩ := validateProps_some h
            have hsize := List.sizeOf_lt_of_mem hsub
            rw [NtcJson.obj.sizeOf_spec pkeys] at hlt
            exact ih sub iv e (by omega) hiv
          · cases h
        · exact additionalCheck_short h
      · cases h

end Validate

end Naitron
