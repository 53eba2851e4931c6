/-
  Naitron.Schema

  The request-schema lookup of `src/core/server.c` (`seg_pattern_match`,
  `gw_schema_for`) and its relation to the router.

  Two matchers decide what a path is.  The router compares the non-empty
  pieces of pattern and path and strips a leading colon from both sides;
  `seg_pattern_match` compares every piece between slashes, empty ones
  included, and byte by byte.  `MatchersAgree` says when the two accept the
  same path for a pattern.
-/

import Naitron.Router

namespace Naitron

-- ============================================================================
-- The code
-- ============================================================================

/-- The loop of `seg_pattern_match`.  Every iteration consumes a slash of the
    pattern, so its length is fuel enough. -/
def segPatternLoop : Nat → Bytes → Bytes → Bool
  | fuel + 1, p0 :: pp, x0 :: xp =>
      if p0 ≠ chSlash ∨ x0 ≠ chSlash then false
      else
        let ps := pp.takeWhile (· != chSlash)
        let xs := xp.takeWhile (· != chSlash)
        if ps.head? = some chColon then
          if xs.isEmpty then false
          else segPatternLoop fuel (pp.dropWhile (· != chSlash)) (xp.dropWhile (· != chSlash))
        else if ps ≠ xs then false
        else segPatternLoop fuel (pp.dropWhile (· != chSlash)) (xp.dropWhile (· != chSlash))
  | _, pp, xp => pp.isEmpty && xp.isEmpty

/-- `seg_pattern_match`. -/
def segPatternMatch (pat path : Bytes) : Bool := segPatternLoop pat.length pat path

/-- The method and pattern of a schema key `"METHOD /pattern"`, cut at the
    first space. -/
def schemaKey (key : Bytes) : Option (Bytes × Bytes) :=
  (memchr key chSpace).map fun mlen => (key.take mlen, key.drop (mlen + 1))

/-- What the loop of `gw_schema_for` tests of one key. -/
def schemaKeyFits (method path key : Bytes) : Bool :=
  match schemaKey key with
  | none => false
  | some (m, pattern) => m == method && segPatternMatch pattern path

variable {σ : Type}

/-- `gw_schema_for` with the key it stopped at; `doc` holds the members of the
    schema object in order. -/
def gwSchemaEntry (doc : List (Bytes × σ)) (method path : Bytes) : Option (Bytes × σ) :=
  doc.find? fun e => schemaKeyFits method path e.1

/-- `gw_schema_for`; `root` is `none` without a schema object. -/
def gwSchemaFor (root : Option (List (Bytes × σ))) (method path : Bytes) : Option σ :=
  match root with
  | none => none
  | some doc => (gwSchemaEntry doc method path).map (·.2)

/-- The methods whose bodies `gw_validate_body` looks at. -/
def bodyMethod (method : Bytes) : Bool :=
  method == lit "POST" || method == lit "PUT" || method == lit "PATCH"

-- ============================================================================
-- seg_pattern_match piece by piece
-- ============================================================================

/-- The pieces `seg_pattern_match` walks over: everything between slashes
    after the first one; `none` when the string is not empty and has no
    leading slash. -/
def rawSegs : Bytes → Option (List Bytes)
  | [] => some []
  | c :: rest => if c = chSlash then some (rest.splitOn chSlash) else none

/-- How `seg_pattern_match` compares one pattern piece with one path piece. -/
def segSame (a b : Bytes) : Prop := if a.head? = some chColon then b ≠ [] else a = b

/-- Two strings cut by `rawSegs` and compared piece by piece. -/
def rawMatch (p x : Bytes) : Prop :=
  ∃ l m, rawSegs p = some l ∧ rawSegs x = some m ∧ List.Forall₂ segSame l m

theorem rawSegs_slash (s : Bytes) :
    rawSegs (chSlash :: s) = (rawSegs (s.dropWhile (· != chSlash))).map
      (s.takeWhile (· != chSlash) :: ·) := by
  rw [rawSegs, if_pos rfl, Lib.splitOn_eq_takeWhile]
  cases hd : s.dropWhile (· != chSlash) with
  | nil => rfl
  | cons d rest =>
      have hds : d = chSlash := by
        have := List.head?_dropWhile_not (· != chSlash) s
        rw [hd] at this
        simpa using this
      simp [rawSegs, hds]

theorem rawMatch_nil_left (x : Bytes) : rawMatch [] x ↔ x = [] := by
  constructor
  · rintro ⟨l, m, hl, hm, h⟩
    cases hl
    cases h
    cases x with
    | nil => rfl
    | cons c rest =>
        rw [rawSegs] at hm
        split at hm
        · exact absurd (Option.some.inj hm) (List.splitOn_ne_nil _ _)
        · cases hm
  · rintro rfl
    exact ⟨[], [], rfl, rfl, .nil⟩

theorem rawMatch_nil_right (p : Bytes) : rawMatch p [] ↔ p = [] := by
  constructor
  · rintro ⟨l, m, hl, hm, h⟩
    cases hm
    cases h
    cases p with
    | nil => rfl
    | cons c rest =>
        rw [rawSegs] at hl
        split at hl
        · exact absurd (Option.some.inj hl) (List.splitOn_ne_nil _ _)
        · cases hl
  · rintro rfl
    exact ⟨[], [], rfl, rfl, .nil⟩

theorem rawMatch_slash (p x : Bytes) :
    rawMatch (chSlash :: p) (chSlash :: x) ↔
      segSame (p.takeWhile (· != chSlash)) (x.takeWhile (· != chSlash)) ∧
        rawMatch (p.dropWhile (· != chSlash)) (x.dropWhile (· != chSlash)) := by
  simp only [rawMatch, rawSegs_slash, Option.map_eq_some_iff]
  constructor
  · rintro ⟨_, _, ⟨l, hl, rfl⟩, ⟨m, hm, rfl⟩, h⟩
    rw [List.forall₂_cons] at h
    exact ⟨h.1, l, m, hl, hm, h.2⟩
  · rintro ⟨hseg, l, m, hl, hm, h⟩
    exact ⟨_, _, ⟨l, hl, rfl⟩, ⟨m, hm, rfl⟩, .cons hseg h⟩

theorem segPatternLoop_iff :
    ∀ (fuel : Nat) (p x : Bytes), p.length ≤ fuel →
      (segPatternLoop fuel p x = true ↔ rawMatch p x) := by
  intro fuel
  induction fuel with
  | zero =>
      intro p x hlen
      have hp : p = [] := List.eq_nil_of_length_eq_zero (by omega)
      subst hp
      simp [segPatternLoop, rawMatch_nil_left]
  | succ fuel ih =>
      intro p x hlen
      rcases p with _ | ⟨p0, pp⟩
      · simp [segPatternLoop, rawMatch_nil_left]
      rcases x with _ | ⟨x0, xp⟩
      · simp [segPatternLoop, rawMatch_nil_right]
      rw [segPatternLoop]
      by_cases hslash : p0 ≠ chSlash ∨ x0 ≠ chSlash
      · -- one side does not start with a slash: it has no raw pieces at all
        rw [if_pos hslash]
        simp only [Bool.false_eq_true, false_iff]
        rintro ⟨l, m, hl, hm, -⟩
        simp only [rawSegs] at hl hm
        rcases hslash with h | h
        · rw [if_neg h] at hl; cases hl
        · rw [if_neg h] at hm; cases hm
      · rw [if_neg hslash]
        push Not at hslash
        obtain ⟨rfl, rfl⟩ := hslash
        have hrest : (pp.dropWhile (· != chSlash)).length ≤ fuel := by
          have : (pp.dropWhile (· != chSlash)).length ≤ pp.length :=
            (List.dropWhile_sublist _).length_le
          simp only [List.length_cons] at hlen
          omega
        rw [rawMatch_slash, ← ih _ _ hrest]
        by_cases hparam : (pp.takeWhile (· != chSlash)).head? = some chColon
        · simp [segSame, hparam]
        · simp [segSame, hparam]

theorem segPatternMatch_iff_rawMatch (p x : Bytes) :
    segPatternMatch p x = true ↔ rawMatch p x :=
  segPatternLoop_iff _ p x le_rfl

-- ============================================================================
-- The two matchers on the non-empty pieces
-- ============================================================================

/-- Pattern and path have their empty pieces in the same places: both are
    empty, or both start with a slash and repeat or end with one alike. -/
def sameLayout (p x : Bytes) : Prop :=
  ∃ l m, rawSegs p = some l ∧ rawSegs x = some m ∧ l.map List.isEmpty = m.map List.isEmpty

theorem pieces_of_rawSegs {s : Bytes} {l : List Bytes} (h : rawSegs s = some l) :
    pieces s = l.filter fun p => !p.isEmpty := by
  cases s with
  | nil => cases h; rfl
  | cons c rest =>
      rw [rawSegs] at h
      split at h
      · rename_i hc
        cases h
        rw [hc]
        exact Lib.parts_cons_sep chSlash rest
      · cases h

theorem segSame_isEmpty {a b : Bytes} (h : segSame a b) : a.isEmpty = b.isEmpty := by
  rw [segSame] at h
  cases a with
  | nil =>
      rw [if_neg (by simp)] at h
      rw [← h]
  | cons c a =>
      cases b with
      | nil => split at h <;> simp at h
      | cons d b => rfl

theorem map_isEmpty_of_forall₂ {l m : List Bytes} (h : List.Forall₂ segSame l m) :
    l.map List.isEmpty = m.map List.isEmpty := by
  induction h with
  | nil => rfl
  | cons hab _ ih => simp [segSame_isEmpty hab, ih]

/-- `seg_pattern_match` wants equal layouts and, of the non-empty pieces,
    `segSame`. -/
theorem segPatternMatch_iff (p x : Bytes) :
    segPatternMatch p x = true ↔
      sameLayout p x ∧ List.Forall₂ segSame (pieces p) (pieces x) := by
  rw [segPatternMatch_iff_rawMatch]
  have hweak : ∀ a b : Bytes, a.isEmpty = b.isEmpty → ((a ≠ [] → segSame a b) ↔ segSame a b) := by
    intro a b hab
    cases a with
    | nil =>
        have hb : b = [] := List.isEmpty_iff.mp hab.symm
        simp [hb, segSame]
    | cons c a => simp
  constructor
  · rintro ⟨l, m, hl, hm, h⟩
    have hmap := map_isEmpty_of_forall₂ h
    refine ⟨⟨l, m, hl, hm, hmap⟩, ?_⟩
    rw [pieces_of_rawSegs hl, pieces_of_rawSegs hm, Lib.forall₂_filter_iff hmap]
    exact h.imp (S := fun a b => a ≠ [] → segSame a b) fun _ _ hab _ => hab
  · rintro ⟨⟨l, m, hl, hm, hmap⟩, h⟩
    rw [pieces_of_rawSegs hl, pieces_of_rawSegs hm, Lib.forall₂_filter_iff hmap] at h
    refine ⟨l, m, hl, hm, ?_⟩
    have hempty : List.Forall₂ (fun a b : Bytes => a.isEmpty = b.isEmpty) l m := by
      rwa [← List.forall₂_eq_eq_eq, List.forall₂_map_left_iff, List.forall₂_map_right_iff] at hmap
    rw [List.forall₂_iff_zip] at h hempty ⊢
    exact ⟨h.1, fun hab => (hweak _ _ (hempty.2 hab)).mp (h.2 hab)⟩

/-- Piece `a` of a pattern faces piece `b` of a path: `a` starts with a colon,
    or `b` is `a`, or `b` is `a` behind a colon. -/
def pieceLike (a b : Bytes) : Prop := a.head? = some chColon ∨ b = a ∨ b = chColon :: a

/-- No path piece is the literal pattern piece it faces behind a colon. -/
def noColonCopy (p x : Bytes) : Prop :=
  ∀ ab ∈ (pieces p).zip (pieces x), ab.2 = chColon :: ab.1 → ab.1.head? = some chColon

/-- No bare `:` of the pattern faces a piece other than `:` and `::`. -/
def noBareColon (p x : Bytes) : Prop :=
  ∀ ab ∈ (pieces p).zip (pieces x),
    ab.1 = [chColon] → ab.2 = [chColon] ∨ ab.2 = [chColon, chColon]

/-- When `seg_pattern_match` and the router give the same answer: the
    non-empty pieces do not correspond at all; or the two strings have one
    layout and no colon copy exactly when the pattern fits the router's
    segment array and has no bare colon. -/
def MatchersAgree (p x : Bytes) : Prop :=
  List.Forall₂ pieceLike (pieces p) (pieces x) →
    (sameLayout p x ∧ noColonCopy p x ↔
      (pieces p).length ≤ ntcMaxSegments ∧ noBareColon p x)

theorem ne_nil_of_mem_pieces {s a : Bytes} (h : a ∈ pieces s) : a ≠ [] := by
  have := (List.mem_filter.mp h).2
  simpa using this

theorem segSame_iff {a b : Bytes} (hb : b ≠ []) :
    segSame a b ↔ pieceLike a b ∧ (b = chColon :: a → a.head? = some chColon) := by
  by_cases ha : a.head? = some chColon
  · simp [segSame, pieceLike, ha, hb]
  · rw [segSame, if_neg ha, pieceLike]
    constructor
    · rintro rfl
      exact ⟨Or.inr (Or.inl rfl), fun h => absurd (congrArg List.length h) (by simp)⟩
    · rintro ⟨h | h | h, himp⟩
      · exact absurd h ha
      · exact h.symm
      · exact absurd (himp h) ha

theorem mkSeg_s_eq {a b : Bytes} (ha : a.head? ≠ some chColon) :
    (mkSeg b).s = a ↔ b = a ∨ b = chColon :: a ∧ a ≠ [] := by
  rcases b with _ | ⟨c, _ | ⟨d, b⟩⟩
  · simp [mkSeg]
  · simp only [mkSeg, List.cons.injEq]
    constructor
    · exact Or.inl
    · rintro (h | ⟨⟨-, h⟩, hne⟩)
      · exact h
      · exact absurd h.symm hne
  · by_cases hc : c = chColon
    · subst hc
      simp only [mkSeg, if_true, List.cons.injEq, true_and]
      constructor
      · rintro rfl
        exact Or.inr ⟨rfl, by simp⟩
      · rintro (h | ⟨h, -⟩)
        · subst h
          simp at ha
        · exact h
    · simp only [mkSeg, hc, if_false, List.cons.injEq, false_and, or_false]

theorem mkSeg_of_head_ne {a : Bytes} (ha : a.head? ≠ some chColon) : mkSeg a = ⟨a, false⟩ := by
  rcases a with _ | ⟨c, _ | ⟨d, a⟩⟩
  · rfl
  · rfl
  · have hc : c ≠ chColon := by simpa using ha
    simp [mkSeg, hc]

theorem routerSame_iff {a b : Bytes} (ha : a ≠ []) :
    routerSame a b ↔
      pieceLike a b ∧ (a = [chColon] → b = [chColon] ∨ b = [chColon, chColon]) := by
  by_cases hcolon : a.head? = some chColon
  · rcases a with _ | ⟨c, _ | ⟨d, a⟩⟩
    · simp at hcolon
    · -- a bare colon is no parameter: the router compares it literally
      have hc : c = chColon := by simpa using hcolon
      subst hc
      simp only [routerSame, pieceLike, mkSeg, Bool.false_eq_true, false_or, List.head?_cons,
        true_or, true_and, forall_const]
      rcases b with _ | ⟨e, _ | ⟨f, b⟩⟩
      · simp
      · simp [eq_comm]
      · by_cases he : e = chColon
        · simp [he, eq_comm]
        · simp [he, eq_comm]
    · have hc : c = chColon := by simpa using hcolon
      subst hc
      simp [routerSame, pieceLike, mkSeg]
  · have hbare : a ≠ [chColon] := by
      rintro rfl
      simp at hcolon
    simp only [routerSame, mkSeg_of_head_ne hcolon, pieceLike, hcolon, false_or, hbare,
      false_implies, and_true, Bool.false_eq_true]
    rw [eq_comm, mkSeg_s_eq hcolon]
    simp [ha]

/-- Pairing by a conjunction whose second half is read off the zipped pieces. -/
theorem forall₂_pieces_and {R S : Bytes → Bytes → Prop} {T : Bytes × Bytes → Prop} {p x : Bytes}
    (h : ∀ a b, a ≠ [] → b ≠ [] → (R a b ↔ S a b ∧ T (a, b))) :
    List.Forall₂ R (pieces p) (pieces x) ↔
      List.Forall₂ S (pieces p) (pieces x) ∧ ∀ ab ∈ (pieces p).zip (pieces x), T ab := by
  have hne : ∀ a b, (a, b) ∈ (pieces p).zip (pieces x) → a ≠ [] ∧ b ≠ [] := fun a b hab =>
    ⟨ne_nil_of_mem_pieces (List.of_mem_zip hab).1, ne_nil_of_mem_pieces (List.of_mem_zip hab).2⟩
  simp only [List.forall₂_iff_zip]
  constructor
  · rintro ⟨hlen, hR⟩
    have hST : ∀ a b, (a, b) ∈ (pieces p).zip (pieces x) → S a b ∧ T (a, b) := fun a b hab =>
      (h a b (hne a b hab).1 (hne a b hab).2).mp (hR hab)
    exact ⟨⟨hlen, fun hab => (hST _ _ hab).1⟩, fun ab hab => (hST ab.1 ab.2 hab).2⟩
  · rintro ⟨⟨hlen, hS⟩, hT⟩
    exact ⟨hlen, fun hab => (h _ _ (hne _ _ hab).1 (hne _ _ hab).2).mpr ⟨hS hab, hT _ hab⟩⟩

theorem segPatternMatch_iff_like (p x : Bytes) :
    segPatternMatch p x = true ↔
      List.Forall₂ pieceLike (pieces p) (pieces x) ∧ sameLayout p x ∧ noColonCopy p x := by
  rw [segPatternMatch_iff, noColonCopy,
    forall₂_pieces_and (T := fun ab => ab.2 = chColon :: ab.1 → ab.1.head? = some chColon)
      fun a b _ hb => segSame_iff hb]
  tauto

theorem routerMatches_iff_like (p x : Bytes) :
    routerMatches p x = true ↔
      List.Forall₂ pieceLike (pieces p) (pieces x) ∧
        (pieces p).length ≤ ntcMaxSegments ∧ noBareColon p x := by
  rw [routerMatches_iff, noBareColon,
    forall₂_pieces_and
      (T := fun ab => ab.1 = [chColon] → ab.2 = [chColon] ∨ ab.2 = [chColon, chColon])
      fun a b ha _ => routerSame_iff ha]
  tauto

theorem segPatternMatch_eq_routerMatches_iff (p x : Bytes) :
    segPatternMatch p x = routerMatches p x ↔ MatchersAgree p x := by
  rw [Bool.eq_iff_iff, segPatternMatch_iff_like, routerMatches_iff_like, MatchersAgree]
  tauto

-- ============================================================================
-- The lookup
-- ============================================================================

theorem schemaKey_append {m : Bytes} (hm : chSpace ∉ m) (pattern : Bytes) :
    schemaKey (m ++ chSpace :: pattern) = some (m, pattern) := by
  rw [schemaKey, memchr_append hm]
  simp

theorem space_notMem_bodyMethod {m : Bytes} (h : bodyMethod m = true) : chSpace ∉ m := by
  simp only [bodyMethod, Bool.or_eq_true, beq_iff_eq] at h
  rcases h with (rfl | rfl) | rfl <;> decide

theorem schemaKeyFits_iff {method path key : Bytes} :
    schemaKeyFits method path key = true ↔
      ∃ pat, schemaKey key = some (method, pat) ∧ segPatternMatch pat path = true := by
  rw [schemaKeyFits]
  cases schemaKey key with
  | none => simp
  | some mp =>
      obtain ⟨m, pat⟩ := mp
      simp [and_assoc]

/-- `seg_pattern_match` answers as the router does exactly on agreeing pairs;
    and a request that the router resolves to a forward route with a schema
    key of its own finds a schema that the router matches too, if pattern and
    path agree for every key of its method. -/
theorem gwSchemaFor_agrees_with_router :
    (∀ p x : Bytes, segPatternMatch p x = routerMatches p x ↔ MatchersAgree p x) ∧
    ∀ (doc : List (Bytes × σ)) (r : NtcRouter) (method path : Bytes) (rt : RouteT)
      (params : List NtcHeader) (svc : Nat) (sch : σ),
      bodyMethod method = true → rt.handler = .forward svc →
      (method ++ chSpace :: rt.pattern, sch) ∈ doc →
      ntcRouterMatch r method path = .found rt params →
      (∀ e ∈ doc, ∀ pat, schemaKey e.1 = some (method, pat) → MatchersAgree pat path) →
      ∃ e pat, gwSchemaEntry doc method path = some e ∧
        gwSchemaFor (some doc) method path = some e.2 ∧
        schemaKey e.1 = some (method, pat) ∧ routerMatches pat path = true := by
  refine ⟨segPatternMatch_eq_routerMatches_iff, ?_⟩
  intro doc r method path rt params svc sch hmethod _ hkey hfound hagree
  have hroute : routerMatches rt.pattern path = true := (ntcRouterMatch_found hfound).2.2
  have hown : schemaKey (method ++ chSpace :: rt.pattern) = some (method, rt.pattern) :=
    schemaKey_append (space_notMem_bodyMethod hmethod) _
  have hseg : segPatternMatch rt.pattern path = true := by
    rw [(segPatternMatch_eq_routerMatches_iff _ _).mpr (hagree _ hkey _ hown)]
    exact hroute
  -- the route's own key fits, so the search stops somewhere
  have hsome : (gwSchemaEntry doc method path).isSome := by
    rw [gwSchemaEntry, List.find?_isSome]
    exact ⟨_, hkey, schemaKeyFits_iff.mpr ⟨_, hown, hseg⟩⟩
  obtain ⟨e, he⟩ := Option.isSome_iff_exists.mp hsome
  have hfits : schemaKeyFits method path e.1 = true :=
    List.find?_some (p := fun e : Bytes × σ => schemaKeyFits method path e.1) he
  obtain ⟨pat, hpat, hpatseg⟩ := schemaKeyFits_iff.mp hfits
  refine ⟨e, pat, he, by simp [gwSchemaFor, he], hpat, ?_⟩
  rw [← (segPatternMatch_eq_routerMatches_iff _ _).mpr
    (hagree e (List.mem_of_find?_eq_some he) _ hpat)]
  exact hpatseg

/-- The forward route `POST /users`. -/
def usersRoute : RouteT :=
  ⟨lit "POST", lit "/users", [⟨lit "users", false⟩], .forward 0, by decide⟩

theorem gwSchemaFor_agrees_with_router_users :
    (segPatternMatch (lit "/users") (lit "/users") = routerMatches (lit "/users") (lit "/users") ↔
      MatchersAgree (lit "/users") (lit "/users")) ∧
    ∃ e pat, gwSchemaEntry [(lit "POST /users", ())] (lit "POST") (lit "/users") = some e ∧
      gwSchemaFor (some [(lit "POST /users", ())]) (lit "POST") (lit "/users") = some e.2 ∧
      schemaKey e.1 = some (lit "POST", pat) ∧ routerMatches pat (lit "/users") = true := by
  refine ⟨(@gwSchemaFor_agrees_with_router Unit).1 _ _, ?_⟩
  refine (@gwSchemaFor_agrees_with_router Unit).2 _ [usersRoute] (lit "POST") (lit "/users")
    usersRoute [] 0 ()
    (by decide) rfl (by decide) (by decide) ?_
  intro e he pat hpat
  rw [List.mem_singleton] at he
  subst he
  have hkey : schemaKey (lit "POST /users") = some (lit "POST", lit "/users") := by decide
  rw [hkey] at hpat
  cases hpat
  exact (segPatternMatch_eq_routerMatches_iff _ _).mp (by decide)

/-- `POST /users/` is routed to `POST /users`, whose schema the lookup does
    not find: the router ignores the trailing slash, `seg_pattern_match` does
    not. -/
theorem gwSchemaFor_misses_trailing_slash :
    (∃ rt params, ntcRouterMatch [usersRoute] (lit "POST") (lit "/users/") = .found rt params ∧
      rt.pattern = lit "/users" ∧ rt.handler = .forward 0) ∧
    routerMatches (lit "/users") (lit "/users/") = true ∧
    segPatternMatch (lit "/users") (lit "/users/") = false ∧
    gwSchemaFor (some [(lit "POST /users", ())]) (lit "POST") (lit "/users/") = none := by
  refine ⟨⟨usersRoute, [], ?_⟩, ?_⟩ <;> decide

end Naitron
