/-
  Naitron.SchemaSpec

  The JSON-Schema subset that `include/ntc/schema.h` documents, as a relation
  between a schema and an instance.

  A number is the double that the parser makes of it, a length is a number of
  bytes.
-/

import Naitron.SchemaCheck

namespace Naitron

-- ============================================================================
-- Meaning of the keywords
-- ============================================================================

/-- The number of an integer. -/
def intNum (n : ℤ) : WithBot (WithTop ℚ) := ((n : ℚ) : WithTop ℚ)

/-- The number of a length. -/
def lengthNum (n : Nat) : WithBot (WithTop ℚ) := intNum n

/-- The types that `type` can name. -/
inductive JsonType where
  | object | array | string | number | integer | boolean | null
deriving DecidableEq, Repr

def JsonType.ofName (t : Bytes) : Option JsonType :=
  if t = lit "object" then some .object
  else if t = lit "array" then some .array
  else if t = lit "string" then some .string
  else if t = lit "boolean" then some .boolean
  else if t = lit "null" then some .null
  else if t = lit "number" then some .number
  else if t = lit "integer" then some .integer
  else none

def JsonType.Has : JsonType → NtcJson → Prop
  | .object, .obj _ _ => True
  | .array, .arr _ => True
  | .string, .str _ => True
  | .number, .num _ => True
  | .integer, .num text => ∃ n : ℤ, strtod text = intNum n
  | .boolean, .bool _ => True
  | .null, .null => True
  | _, _ => False

mutual

/-- Structural equality; the order of the members of an object does not
    matter. -/
def NtcJson.Same : NtcJson → NtcJson → Prop
  | .null, .null => True
  | .bool a, .bool b => a = b
  | .num a, .num b => strtod a = strtod b
  | .str a, .str b => a = b
  | .arr xs, .arr ys => NtcJson.SameItems xs ys
  | .obj ks xs, .obj ls ys => NtcJson.SameMembers ks xs (.obj ls ys) ∧ ∀ l ∈ ls, l ∈ ks
  | _, _ => False

def NtcJson.SameItems : List NtcJson → List NtcJson → Prop
  | [], [] => True
  | x :: xs, y :: ys => NtcJson.Same x y ∧ NtcJson.SameItems xs ys
  | _, _ => False

/-- Every member has its like in the object. -/
def NtcJson.SameMembers : List Bytes → List NtcJson → NtcJson → Prop
  | k :: ks, x :: xs, o =>
      (∃ y, ntcJsonGet o k = some y ∧ NtcJson.Same x y) ∧ NtcJson.SameMembers ks xs o
  | _, _, _ => True

end

/-- The members of `properties`. -/
def propertiesOf (s : NtcJson) : List (Bytes × NtcJson) :=
  match ntcJsonGet s (lit "properties") with
  | some (.obj pkeys pvals) => pkeys.zip pvals
  | _ => []

def TypeHolds (s v : NtcJson) : Prop :=
  ∀ t ty, ntcJsonGet s (lit "type") = some (.str t) → JsonType.ofName t = some ty → ty.Has v

/-- A value without parts. -/
def NtcJson.IsScalar : NtcJson → Prop
  | .arr _ => False
  | .obj _ _ => False
  | _ => True

def EnumHolds (s v : NtcJson) : Prop :=
  ∀ items, ntcJsonGet s (lit "enum") = some (.arr items) → ∃ x ∈ items, x.Same v

/-- A number within the bounds under two keywords. -/
def Within (s : NtcJson) (minKey maxKey : String) (n : WithBot (WithTop ℚ)) : Prop :=
  (∀ t, ntcJsonGet s (lit minKey) = some (.num t) → strtod t ≤ n) ∧
    ∀ t, ntcJsonGet s (lit maxKey) = some (.num t) → n ≤ strtod t

def BoundsHold (s : NtcJson) : NtcJson → Prop
  | .num text => Within s "minimum" "maximum" (strtod text)
  | .str b => Within s "minLength" "maxLength" (lengthNum b.length)
  | .arr items => Within s "minItems" "maxItems" (lengthNum items.length)
  | _ => True

def RequiredHolds (s v : NtcJson) : Prop :=
  ∀ names, ntcJsonGet s (lit "required") = some (.arr names) → ∀ name, .str name ∈ names →
    (ntcJsonGet v name).isSome = true

def AdditionalHolds (s : NtcJson) (vkeys : List Bytes) : Prop :=
  ntcJsonGet s (lit "additionalProperties") = some (.bool false) →
    ∀ key ∈ vkeys, key ∈ (propertiesOf s).map Prod.fst

/-- The instance satisfies every keyword of the schema; a schema that is no
    object has none. -/
inductive Satisfies : NtcJson → NtcJson → Prop
  | noObject {s v : NtcJson} (h : ∀ keys vals, s ≠ .obj keys vals) : Satisfies s v
  | keywords {s v : NtcJson} (htype : TypeHolds s v) (henum : EnumHolds s v)
      (hbounds : BoundsHold s v)
      (hitems : ∀ sub items, ntcJsonGet s (lit "items") = some sub → v = .arr items →
        ∀ x ∈ items, Satisfies sub x)
      (hrequired : ∀ vkeys vvals, v = .obj vkeys vvals → RequiredHolds s v)
      (hprops : ∀ m ∈ propertiesOf s, ∀ x, ntcJsonGet v m.1 = some x → Satisfies m.2 x)
      (hadditional : ∀ vkeys vvals, v = .obj vkeys vvals → AdditionalHolds s vkeys) :
      Satisfies s v

-- ============================================================================
-- Trees
-- ============================================================================

mutual

/-- The values in a tree. -/
def NtcJson.nodes : NtcJson → List NtcJson
  | .arr items => .arr items :: NtcJson.nodesOf items
  | .obj keys vals => .obj keys vals :: NtcJson.nodesOf vals
  | .null => [.null]
  | .bool b => [.bool b]
  | .num text => [.num text]
  | .str s => [.str s]

def NtcJson.nodesOf : List NtcJson → List NtcJson
  | [] => []
  | x :: xs => x.nodes ++ NtcJson.nodesOf xs

end

/-- Every number of the tree is an integer. -/
def NtcJson.IntegerNumbers (root : NtcJson) : Prop :=
  ∀ text, .num text ∈ root.nodes → ∃ n : ℤ, strtod text = intNum n

/-- Bounds on a length are not negative. -/
def NtcJson.NonNegBounds (root : NtcJson) : Prop :=
  ∀ s ∈ root.nodes, ∀ key ∈ ["minLength", "maxLength", "minItems", "maxItems"], ∀ t,
    ntcJsonGet s (lit key) = some (.num t) → lengthNum 0 ≤ strtod t

theorem NtcJson.self_mem_nodes (x : NtcJson) : x ∈ x.nodes := by
  cases x with
  | null | bool | num | str => exact List.mem_singleton_self _
  | arr | obj => exact List.mem_cons_self

theorem NtcJson.nodes_subset_nodesOf {xs : List NtcJson} {x : NtcJson} (h : x ∈ xs) :
    x.nodes ⊆ NtcJson.nodesOf xs := by
  induction xs with
  | nil => cases h
  | cons y ys ih =>
      rw [NtcJson.nodesOf]
      rcases List.mem_cons.mp h with rfl | h
      · exact List.subset_append_left _ _
      · exact List.Subset.trans (ih h) (List.subset_append_right _ _)

theorem NtcJson.nodes_item {items : List NtcJson} {x : NtcJson} (h : x ∈ items) :
    x.nodes ⊆ (NtcJson.arr items).nodes :=
  List.Subset.trans (NtcJson.nodes_subset_nodesOf h) (List.subset_cons_self _ _)

theorem NtcJson.nodes_get {o x : NtcJson} {key : Bytes} (h : ntcJsonGet o key = some x) :
    x.nodes ⊆ o.nodes := by
  cases o with
  | null | bool | num | str | arr => cases h
  | obj keys vals =>
      obtain ⟨kv, hkv, rfl⟩ := Option.map_eq_some_iff.mp h
      have hmem := (List.of_mem_zip (List.mem_of_find?_eq_some hkv)).2
      exact List.Subset.trans (NtcJson.nodes_subset_nodesOf hmem) (List.subset_cons_self _ _)

mutual

theorem NtcJson.nodes_trans : ∀ {root o : NtcJson}, o ∈ root.nodes → o.nodes ⊆ root.nodes
  | .arr items, o, h => by
      rcases List.mem_cons.mp h with rfl | h
      · exact List.Subset.refl _
      · exact List.Subset.trans (NtcJson.nodesOf_trans h) (List.subset_cons_self _ _)
  | .obj keys vals, o, h => by
      rcases List.mem_cons.mp h with rfl | h
      · exact List.Subset.refl _
      · exact List.Subset.trans (NtcJson.nodesOf_trans h) (List.subset_cons_self _ _)
  | .null, o, h | .bool _, o, h | .num _, o, h | .str _, o, h => by
      rw [List.mem_singleton.mp h]
      exact List.Subset.refl _

theorem NtcJson.nodesOf_trans : ∀ {xs : List NtcJson} {o : NtcJson}, o ∈ NtcJson.nodesOf xs →
    o.nodes ⊆ NtcJson.nodesOf xs
  | [], o, h => absurd h List.not_mem_nil
  | x :: xs, o, h => by
      rcases List.mem_append.mp h with h | h
      · exact List.Subset.trans (NtcJson.nodes_trans h) (List.subset_append_left _ _)
      · exact List.Subset.trans (NtcJson.nodesOf_trans h) (List.subset_append_right _ _)

end

theorem propertiesOf_nodes {s : NtcJson} {m : Bytes × NtcJson} (h : m ∈ propertiesOf s) :
    m.2.nodes ⊆ s.nodes := by
  rw [propertiesOf] at h
  split at h
  · rename_i pkeys pvals hget
    have hsub := NtcJson.nodes_subset_nodesOf (List.of_mem_zip h).2
    have hobj : (NtcJson.obj pkeys pvals).nodes ⊆ s.nodes := NtcJson.nodes_get hget
    exact List.Subset.trans hsub (List.Subset.trans (List.subset_cons_self _ _) hobj)
  · cases h

theorem NtcJson.IntegerNumbers.sub {root a : NtcJson} (h : root.IntegerNumbers)
    (ha : a.nodes ⊆ root.nodes) : a.IntegerNumbers := fun text ht => h text (ha ht)

theorem NtcJson.NonNegBounds.sub {root a : NtcJson} (h : root.NonNegBounds)
    (ha : a.nodes ⊆ root.nodes) : a.NonNegBounds := fun s hs => h s (ha hs)

end Naitron
