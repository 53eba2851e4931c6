/-
  Naitron.Server.SchemaReply

  The answer of `gw_validate_body` to a body that the schema turns away: the
  reason goes through `ntc_json_escape` into `esc[200]`, whose result nobody
  looks at, and from there into a reply of 256 bytes.
-/

import Naitron.JsonEmit
import Naitron.SchemaCheck
import Naitron.Server.Dispatch

namespace Naitron

-- ============================================================================
-- The reason
-- ============================================================================

/-- The words of an error, and the name in it. -/
def SchemaError.pieces : SchemaError → Bytes × Bytes × Bytes
  | .expectedType tn => (lit "expected type ", tn, [])
  | .missingProperty key => (lit "missing required property '", key, lit "'")
  | .unexpectedProperty key => (lit "unexpected property '", key, lit "'")
  | e => (e.text, [], [])

/-- Words around a name that went through a buffer fit the two buffers behind
    it. -/
theorem clip_clip_name {cap n : Nat} {a c : Bytes} (b : Bytes) (ha : 0 ∉ a) (hc : 0 ∉ c)
    (hn : a.length + c.length + cap ≤ n) (hcap : 0 < cap) (hle : n ≤ 160) :
    clip 160 (clip n (a ++ clip cap b ++ c)) = a ++ clip cap b ++ c := by
  have hnul : 0 ∉ a ++ clip cap b ++ c := by
    simp only [List.mem_append, not_or]
    exact ⟨⟨ha, zero_notMem_clip cap b⟩, hc⟩
  have hlen : (a ++ clip cap b ++ c).length < n := by
    have hclip := clip_length_le cap b
    rw [List.length_append, List.length_append]
    omega
  rw [clip_of_fits hnul hlen, clip_of_fits hnul (by omega)]

/-- None of the buffers `m` and `verr` cuts an error. -/
theorem SchemaError.verr_eq {e : SchemaError} (h : e.Short) :
    e.verr = e.pieces.1 ++ e.pieces.2.1 ++ e.pieces.2.2 := by
  cases e with
  | expectedType tn =>
      obtain ⟨t, rfl⟩ := h
      have hclip := @clip_clip_name 24 64 (lit "expected type ") [] t (by decide) (by decide)
        (by decide) (by decide) (by decide)
      rw [List.append_nil] at hclip
      rw [verr, text, pieces, List.append_nil]
      exact hclip
  | missingProperty key =>
      obtain ⟨b, rfl⟩ := h
      exact @clip_clip_name 96 128 (lit "missing required property '") (lit "'") b (by decide)
        (by decide) (by decide) (by decide) (by decide)
  | unexpectedProperty key =>
      obtain ⟨b, rfl⟩ := h
      exact @clip_clip_name 96 128 (lit "unexpected property '") (lit "'") b (by decide)
        (by decide) (by decide) (by decide) (by decide)
  | notInEnum | belowMinimum | aboveMaximum | tooShort | tooLong | tooFewItems | tooManyItems =>
      decide

/-- The escaped error is as long as its words and the escaped name. -/
theorem SchemaError.length_escape {e : SchemaError} (h : e.Short) :
    (escapeBytes e.verr).length = (escapeBytes e.pieces.1).length +
      (escapeBytes e.pieces.2.1).length + (escapeBytes e.pieces.2.2).length := by
  rw [e.verr_eq h, escapeBytes_append, escapeBytes_append, List.length_append, List.length_append]

-- ============================================================================
-- The reply
-- ============================================================================

/-- The names in the error leave room for its words in `esc[200]`, escaped. -/
def SchemaError.NameFits (e : SchemaError) : Prop :=
  (∀ key, e = .missingProperty key → (escapeBytes key).length ≤ 171) ∧
    ∀ key, e = .unexpectedProperty key → (escapeBytes key).length ≤ 177

theorem SchemaError.escape_fits_iff {e : SchemaError} (h : e.Short) :
    (escapeBytes e.verr).length < 200 ↔ e.NameFits := by
  have hlen := e.length_escape h
  cases e with
  | expectedType tn =>
      obtain ⟨t, rfl⟩ := h
      have hclip := clip_length_le 24 t
      have hesc := length_escapeBytes_le (clip 24 t)
      have hwords : (escapeBytes (lit "expected type ")).length = 14 := by decide
      refine iff_of_true ?_ ⟨fun key hkey => (by cases hkey), fun key hkey => (by cases hkey)⟩
      rw [hlen, pieces]
      dsimp only
      rw [hwords, show (escapeBytes []).length = 0 from rfl]
      omega
  | missingProperty key =>
      have hwords : (escapeBytes (lit "missing required property '")).length = 27 := by decide
      have hend : (escapeBytes (lit "'")).length = 1 := by decide
      rw [hlen, pieces]
      dsimp only
      rw [hwords, hend, NameFits]
      refine ⟨fun hlt => ⟨fun key' hkey => ?_, fun key' hkey => (by cases hkey)⟩, fun hfits => ?_⟩
      · cases hkey
        omega
      · have hkey := hfits.1 key rfl
        omega
  | unexpectedProperty key =>
      have hwords : (escapeBytes (lit "unexpected property '")).length = 21 := by decide
      have hend : (escapeBytes (lit "'")).length = 1 := by decide
      rw [hlen, pieces]
      dsimp only
      rw [hwords, hend, NameFits]
      refine ⟨fun hlt => ⟨fun key' hkey => (by cases hkey), fun key' hkey => ?_⟩, fun hfits => ?_⟩
      · cases hkey
        omega
      · have hkey := hfits.2 key rfl
        omega
  | notInEnum | belowMinimum | aboveMaximum | tooShort | tooLong | tooFewItems | tooManyItems =>
      exact iff_of_true (by decide)
        ⟨fun key hkey => (by cases hkey), fun key hkey => (by cases hkey)⟩

theorem length_validationError (detail : Bytes) :
    (validationError detail).length = 41 + detail.length := by
  have hhead : (lit "\x7b\"error\":\"validation failed\",\"detail\":\"").length = 39 := by decide
  have htail : (lit "\"\x7d").length = 2 := by decide
  rw [validationError, List.length_append, List.length_append, hhead, htail]
  omega

/-- The reason of a rejected body reaches the reply whole, within the 255
    characters of its buffer, exactly when the name in it leaves room for the
    words around it. -/
theorem schema_detail_complete_iff (U : Bytes → Nat) {s v : NtcJson} {e : SchemaError}
    (h : ntcSchemaValidate U s v = some e) :
    (∃ esc, ntcJsonEscape 200 e.verr = some esc ∧ (validationError esc).length ≤ 255) ↔
      e.NameFits := by
  have hshort := ntcSchemaValidate_short (sizeOf s) s v e le_rfl h
  rw [← e.escape_fits_iff hshort]
  constructor
  · rintro ⟨esc, hesc, -⟩
    rw [ntcJsonEscape] at hesc
    by_contra hlong
    rw [if_neg hlong] at hesc
    cases hesc
  · intro hfits
    refine ⟨escapeBytes e.verr, if_pos hfits, ?_⟩
    rw [length_validationError]
    omega

/-- A schema that allows no member. -/
def closedSchema : NtcJson :=
  .obj [lit "properties", lit "additionalProperties"] [.obj [] [], .bool false]

/-- The error for a member that a closed schema does not allow. -/
theorem closedSchema_rejects (U : Bytes → Nat) (name : Bytes) :
    ntcSchemaValidate U closedSchema (.obj [name] [.null]) =
      some (.unexpectedProperty (clip 96 name)) := by
  have htype : typeCheck closedSchema (.obj [name] [.null]) = none := rfl
  have henum : enumCheck closedSchema (.obj [name] [.null]) = none := rfl
  have hrequired : requiredCheck closedSchema (.obj [name] [.null]) = none := rfl
  have hadditional : additionalCheck closedSchema [name] =
      some (.unexpectedProperty (clip 96 name)) := rfl
  have hprops : validateProps U [] [] (.obj [name] [.null]) = none := by
    rw [validateProps]
    exact fun _ _ _ _ hnil => by cases hnil
  rw [closedSchema] at htype henum hrequired hadditional ⊢
  rw [ntcSchemaValidate, htype, henum, hrequired, hadditional]
  show orFail none (orFail none (orFail none (orFail none (orFail
    (validateProps U [] [] (.obj [name] [.null])) _)))) = _
  rw [hprops]
  rfl

/-- A schema that asks for a name. -/
def nameSchema : NtcJson := .obj [lit "required"] [.arr [.str (lit "name")]]

theorem nameSchema_rejects (U : Bytes → Nat) :
    ntcSchemaValidate U nameSchema (.obj [] []) = some (.missingProperty (lit "name")) := by
  have htype : typeCheck nameSchema (.obj [] []) = none := rfl
  have henum : enumCheck nameSchema (.obj [] []) = none := rfl
  have hrequired : requiredCheck nameSchema (.obj [] []) =
      some (.missingProperty (lit "name")) := by decide
  rw [nameSchema] at htype henum hrequired ⊢
  rw [ntcSchemaValidate, htype, henum, hrequired]
  rfl

/-- A missing name is reported. -/
theorem schema_detail_complete_name :
    ∃ esc, ntcJsonEscape 200 (SchemaError.missingProperty (lit "name")).verr = some esc ∧
      (validationError esc).length ≤ 255 := by
  refine (schema_detail_complete_iff (fun _ => 0) (nameSchema_rejects _)).mpr ⟨?_, ?_⟩
  · intro key hkey
    cases hkey
    decide
  · intro key hkey
    cases hkey

/-- A member named by thirty control characters leaves no room for the reason. -/
theorem control_name_has_no_detail :
    ∃ e, ntcSchemaValidate (fun _ => 0) closedSchema (.obj [List.replicate 30 1] [.null]) = some e ∧
      ntcJsonEscape 200 e.verr = none :=
  ⟨_, closedSchema_rejects _ _, by decide +kernel⟩

end Naitron
