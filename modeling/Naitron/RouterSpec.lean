/-
  Naitron.RouterSpec

  What routing is for: the first route of the request's method whose pattern
  has the path's pieces, its literal pieces as they stand, and the path's
  pieces in the place of its parameters.

  `ntc_router_match` differs from it in the pieces of a path that begin with a
  colon, which the splitter strips as if they named parameters.
-/

import Naitron.Router

namespace Naitron

-- ============================================================================
-- The specification
-- ============================================================================

/-- The name of the parameter that a piece of a pattern stands for. -/
def paramName? (a : Bytes) : Option Bytes :=
  match a with
  | c :: d :: rest => if c = chColon then some (d :: rest) else none
  | _ => none

/-- A piece of a pattern against one of a path. -/
def PieceMatches (a b : Bytes) : Prop := (paramName? a).isSome = true ∨ a = b

instance : DecidableRel PieceMatches := fun _ _ => inferInstanceAs (Decidable (_ ∨ _))

/-- A path has the pieces a pattern asks for. -/
def PathMatches (pattern path : Bytes) : Prop :=
  List.Forall₂ PieceMatches (pieces pattern) (pieces path)

instance : DecidableRel PathMatches := fun _ _ => inferInstanceAs (Decidable (List.Forall₂ _ _ _))

/-- The parameters of a pattern, each with what is taken of the piece of the
    path in its place. -/
def captureBy (value : Bytes → Bytes) (pattern path : Bytes) : List NtcHeader :=
  ((pieces pattern).zip (pieces path)).filterMap fun ab =>
    (paramName? ab.1).map fun name => ⟨name, value ab.2⟩

/-- The parameters of a pattern, each with the piece of the path in its place. -/
def capture (pattern path : Bytes) : List NtcHeader := captureBy id pattern path

/-- What a caller of the router learns. -/
inductive RouteAnswer where
  | found (handler : Handler) (params : List NtcHeader)
  | notFound
  | methodNotAllowed
deriving DecidableEq

def NtcRouteStatus.answer : NtcRouteStatus → RouteAnswer
  | .found rt params => .found rt.handler params
  | .notFound => .notFound
  | .methodNotAllowed => .methodNotAllowed

/-- The routing of a request. -/
def routeSpec (r : NtcRouter) (method path : Bytes) : RouteAnswer :=
  (r.find? fun rt => decide (PathMatches rt.pattern path) && method == rt.method).elim
    (if ∃ rt ∈ r, PathMatches rt.pattern path then .methodNotAllowed else .notFound)
    fun rt => .found rt.handler (capture rt.pattern path)

-- ============================================================================
-- The code's rules
-- ============================================================================

/-- The route loop finds the first route that matches. -/
theorem matchLoop_eq (method : Bytes) (ps : List SegT) :
    ∀ (routes : List RouteT) (mismatch : Bool),
      matchLoop method ps routes mismatch =
        (routes.find? fun rt => segsMatch rt.segs ps && method == rt.method).elim
          (if mismatch = true ∨ ∃ rt ∈ routes, segsMatch rt.segs ps = true then .methodNotAllowed
            else .notFound)
          fun rt => .found rt (captureParams rt.segs ps) := by
  intro routes
  induction routes with
  | nil =>
      intro mismatch
      simp [matchLoop]
  | cons rt routes ih =>
      intro mismatch
      rw [matchLoop, List.find?_cons]
      by_cases hseg : segsMatch rt.segs ps = true
      · by_cases hmethod : method = rt.method
        · simp [hseg, hmethod]
        · rw [if_neg (by simp [hseg]), if_pos hmethod, ih true, beq_eq_false_iff_ne.mpr hmethod]
          simp [hseg]
      · rw [if_pos (by simpa using hseg), ih mismatch]
        simp [hseg]

theorem mkSeg_eq (a : Bytes) : mkSeg a = ⟨(paramName? a).getD a, (paramName? a).isSome⟩ := by
  rcases a with _ | ⟨c, _ | ⟨d, rest⟩⟩
  · rfl
  · rfl
  · rw [mkSeg, paramName?]
    split <;> rfl

theorem paramName?_some {a name : Bytes} (h : paramName? a = some name) :
    a = chColon :: name := by
  rcases a with _ | ⟨c, _ | ⟨d, rest⟩⟩
  · cases h
  · cases h
  · rw [paramName?] at h
    split at h
    · rename_i hc
      cases h
      rw [hc]
    · cases h

/-- Pieces are not empty. -/
theorem piece_ne_nil {a s : Bytes} (h : a ∈ pieces s) : a ≠ [] := by
  have hne := (List.mem_filter.mp h).2
  rintro rfl
  cases hne

/-- The code's comparison: a colon in front of a piece of the path is not
    seen. -/
def PieceLenient (a b : Bytes) : Prop :=
  (paramName? a).isSome = true ∨ a = b ∨ chColon :: a = b

/-- A pattern matches a path, were some of the path's colons left out. -/
def PathLenient (pattern path : Bytes) : Prop :=
  List.Forall₂ PieceLenient (pieces pattern) (pieces path)

theorem routerSame_iff_lenient {a b : Bytes} (ha : a ≠ []) : routerSame a b ↔ PieceLenient a b := by
  rw [routerSame, PieceLenient, mkSeg_eq, mkSeg_eq]
  dsimp only
  cases hname : paramName? a with
  | some name => simp
  | none =>
      simp only [Option.isSome_none, Bool.false_eq_true, Option.getD_none, false_or]
      constructor
      · intro heq
        cases hb : paramName? b with
        | none =>
            rw [hb] at heq
            exact .inl heq
        | some name =>
            rw [hb] at heq
            refine .inr ?_
            rw [paramName?_some hb, heq]
            rfl
      · rintro (rfl | rfl)
        · rw [hname]
          rfl
        · obtain ⟨d, rest, rfl⟩ := List.exists_cons_of_ne_nil ha
          rw [paramName?, if_pos rfl]
          rfl

theorem pathLenient_iff (pattern path : Bytes) :
    List.Forall₂ routerSame (pieces pattern) (pieces path) ↔ PathLenient pattern path := by
  rw [PathLenient, List.forall₂_iff_zip, List.forall₂_iff_zip]
  refine and_congr_right fun _ => forall_congr' fun a => forall_congr' fun b => ?_
  exact imp_congr_right fun hab =>
    routerSame_iff_lenient (piece_ne_nil (List.of_mem_zip hab).1)

/-- A pattern that matches does so leniently. -/
theorem PathMatches.lenient {pattern path : Bytes} (h : PathMatches pattern path) :
    PathLenient pattern path :=
  List.Forall₂.imp (fun _ _ hab => hab.imp id Or.inl) h

theorem RouteT.segs_eq (rt : RouteT) : rt.segs = (pieces rt.pattern).map mkSeg := by
  have h := rt.hsegs
  rw [splitSegments_eq] at h
  split at h
  · exact (Option.some.inj h).symm
  · cases h

theorem segsMatch_iff_lenient (rt : RouteT) (path : Bytes) :
    segsMatch rt.segs ((pieces path).map mkSeg) = true ↔ PathLenient rt.pattern path := by
  rw [rt.segs_eq, segsMatch_iff, pathLenient_iff]

/-- The parameters a pattern declares. -/
def patternParams (pattern : Bytes) : List Bytes := (pieces pattern).filterMap paramName?

theorem length_zip_filterMap_le (value : Bytes → Bytes) : ∀ l m : List Bytes,
    ((l.zip m).filterMap fun ab =>
      (paramName? ab.1).map fun name => (⟨name, value ab.2⟩ : NtcHeader)).length ≤
        (l.filterMap paramName?).length
  | [], _ => Nat.zero_le _
  | _ :: _, [] => Nat.zero_le _
  | a :: l, b :: m => by
      have ih := length_zip_filterMap_le value l m
      rw [List.zip_cons_cons, List.filterMap_cons, List.filterMap_cons]
      dsimp only
      cases paramName? a with
      | none => exact ih
      | some name => exact Nat.succ_le_succ ih

/-- The captures of the code: of the pieces of a path without their colon. -/
theorem captureParams_eq (rt : RouteT) (path : Bytes)
    (h : (patternParams rt.pattern).length ≤ ntcMaxParams) :
    captureParams rt.segs ((pieces path).map mkSeg) =
      captureBy (fun b => (mkSeg b).s) rt.pattern path := by
  have hall : ∀ capture : SegT × SegT → Option NtcHeader,
      (∀ rs p, capture (rs, p) = if rs.isParam then some ⟨rs.s, p.s⟩ else none) →
      (((pieces rt.pattern).map mkSeg).zip ((pieces path).map mkSeg)).filterMap capture =
        captureBy (fun b => (mkSeg b).s) rt.pattern path := by
    intro capture hcapture
    rw [List.zip_map, List.filterMap_map]
    refine List.filterMap_congr fun ab _ => ?_
    obtain ⟨a, b⟩ := ab
    rw [Function.comp_apply, Prod.map_apply, hcapture, mkSeg_eq a]
    dsimp only
    cases paramName? a <;> rfl
  have hlen := length_zip_filterMap_le (fun b => (mkSeg b).s) (pieces rt.pattern) (pieces path)
  rw [captureParams, rt.segs_eq, hall _ fun _ _ => rfl]
  exact List.take_of_length_le (hlen.trans h)

/-- What the code answers, in terms of the pieces of patterns and path. -/
theorem ntcRouterMatch_answer {r : NtcRouter} (method : Bytes) {path : Bytes}
    (hpath : (pieces path).length ≤ ntcMaxSegments)
    (hparams : ∀ rt ∈ r, (patternParams rt.pattern).length ≤ ntcMaxParams) :
    (∀ rt, r.find? (fun rt => segsMatch rt.segs ((pieces path).map mkSeg) && method == rt.method) =
        some rt →
      (ntcRouterMatch r method path).answer =
        .found rt.handler (captureBy (fun b => (mkSeg b).s) rt.pattern path)) ∧
    ((∀ rt ∈ r, method = rt.method → ¬ PathLenient rt.pattern path) →
      ((∃ rt ∈ r, PathLenient rt.pattern path) →
        (ntcRouterMatch r method path).answer = .methodNotAllowed) ∧
      ((¬ ∃ rt ∈ r, PathLenient rt.pattern path) →
        (ntcRouterMatch r method path).answer = .notFound)) := by
  have hany : (false = true ∨ ∃ rt ∈ r, segsMatch rt.segs ((pieces path).map mkSeg) = true) ↔
      ∃ rt ∈ r, PathLenient rt.pattern path := by
    simp only [Bool.false_eq_true, false_or, segsMatch_iff_lenient]
  rw [ntcRouterMatch, splitSegments_eq, if_pos hpath]
  dsimp only
  rw [matchLoop_eq]
  constructor
  · intro rt hfind
    rw [hfind]
    exact congrArg _ (captureParams_eq rt path (hparams rt (List.mem_of_find?_eq_some hfind)))
  · intro hmethod
    have hnone : r.find? (fun rt =>
        segsMatch rt.segs ((pieces path).map mkSeg) && method == rt.method) = none := by
      rw [List.find?_eq_none]
      intro rt hrt hboth
      rw [Bool.and_eq_true, segsMatch_iff_lenient, beq_iff_eq] at hboth
      exact hmethod rt hrt hboth.2 hboth.1
    rw [hnone]
    refine ⟨fun hsome => ?_, fun hno => ?_⟩
    · rw [Option.elim_none, if_pos (hany.mpr hsome)]
      rfl
    · rw [Option.elim_none, if_neg fun h => hno (hany.mp h)]
      rfl

-- ============================================================================
-- Colons in the path
-- ============================================================================

/-- No piece of the path begins with a colon that something follows. -/
def NoColonPiece (path : Bytes) : Prop := ∀ b ∈ pieces path, paramName? b = none

instance (path : Bytes) : Decidable (NoColonPiece path) :=
  inferInstanceAs (Decidable (∀ b ∈ pieces path, paramName? b = none))

/-- A stripped piece is the piece, or it was longer by a colon. -/
theorem mkSeg_s (b : Bytes) : (paramName? b = none ∧ (mkSeg b).s = b) ∨ b = chColon :: (mkSeg b).s := by
  rw [mkSeg_eq]
  cases hb : paramName? b with
  | none => exact .inl ⟨rfl, rfl⟩
  | some name => exact .inr (paramName?_some hb)

/-- Pieces that begin with a colon, each in a path with a longer one, are
    none. -/
theorem noColonPiece_of_longer {path : Bytes}
    (h : ∀ b ∈ pieces path, (paramName? b).isSome = true → ∃ b' ∈ pieces path, b' = chColon :: b) :
    NoColonPiece path := by
  intro b hb
  cases hname : paramName? b with
  | none => rfl
  | some name =>
      have hgrow : ∀ n : Nat, ∃ b ∈ pieces path, (paramName? b).isSome = true ∧ n ≤ b.length := by
        intro n
        induction n with
        | zero => exact ⟨b, hb, by rw [hname]; rfl, Nat.zero_le _⟩
        | succ n ih =>
            obtain ⟨x, hx, hsome, hlen⟩ := ih
            obtain ⟨x', hx', rfl⟩ := h x hx hsome
            refine ⟨chColon :: x, hx', ?_, Nat.succ_le_succ hlen⟩
            obtain ⟨d, rest, rfl⟩ := List.exists_cons_of_ne_nil (piece_ne_nil hx)
            rw [paramName?, if_pos rfl]
            rfl
      obtain ⟨x, hx, -, hlong⟩ := hgrow (((pieces path).map List.length).sum + 1)
      have hle := List.single_le_sum (l := (pieces path).map List.length)
        (fun _ _ => Nat.zero_le _) x.length (List.mem_map_of_mem hx)
      omega

/-- Where the code's first match has the specification's answer, the path has
    no colon that it could have missed. -/
theorem noColonPiece_of_found {pattern pattern' path : Bytes} (h : PathMatches pattern' path)
    (hsame : captureBy (fun b => (mkSeg b).s) pattern path = capture pattern' path) :
    NoColonPiece path := by
  refine noColonPiece_of_longer fun b hb hsome => ?_
  -- the piece is captured: no literal equals it
  obtain ⟨j, hj, rfl⟩ := List.mem_iff_getElem.mp hb
  have hlen := h.length_eq
  have hj' : j < ((pieces pattern').zip (pieces path)).length := by
    rw [List.length_zip, hlen, Nat.min_self]
    exact hj
  have hzip : ((pieces pattern')[j], (pieces path)[j]) ∈ (pieces pattern').zip (pieces path) := by
    rw [← List.getElem_zip (h := hj')]
    exact List.getElem_mem _
  have hpiece := (List.forall₂_iff_zip.mp h).2 hzip
  have hparam : (paramName? (pieces pattern')[j]).isSome = true := by
    rcases hpiece with hparam | heq
    · exact hparam
    · rw [heq]
      exact hsome
  obtain ⟨name, hname⟩ := Option.isSome_iff_exists.mp hparam
  have hcaptured : (⟨name, (pieces path)[j]⟩ : NtcHeader) ∈ capture pattern' path :=
    List.mem_filterMap.mpr ⟨_, hzip, by rw [hname]; rfl⟩
  -- so the code captured it too, from a longer one
  rw [← hsame] at hcaptured
  obtain ⟨⟨a, b'⟩, hab, heq⟩ := List.mem_filterMap.mp hcaptured
  obtain ⟨name', -, hheader⟩ := Option.map_eq_some_iff.mp heq
  have hvalue : (mkSeg b').s = (pieces path)[j] := congrArg NtcHeader.value hheader
  refine ⟨b', (List.of_mem_zip hab).2, ?_⟩
  rcases mkSeg_s b' with ⟨hno, hplain⟩ | hcolon
  · rw [← hvalue, hplain, hno] at hsome
    cases hsome
  · rw [← hvalue]
    exact hcolon

/-- Without such colons the code's rules are the specification's. -/
theorem NoColonPiece.lenient_iff {path : Bytes} (h : NoColonPiece path) (pattern : Bytes) :
    PathLenient pattern path ↔ PathMatches pattern path := by
  refine ⟨fun hl => ?_, PathMatches.lenient⟩
  rw [PathLenient, List.forall₂_iff_zip] at hl
  refine List.forall₂_iff_zip.mpr ⟨hl.1, fun {a b} hab => ?_⟩
  obtain ⟨ha, hb⟩ := List.of_mem_zip hab
  rcases hl.2 hab with hparam | heq | hcolon
  · exact .inl hparam
  · exact .inr heq
  · obtain ⟨d, rest, rfl⟩ := List.exists_cons_of_ne_nil (piece_ne_nil ha)
    have hno := h b hb
    rw [← hcolon, paramName?, if_pos rfl] at hno
    cases hno

theorem NoColonPiece.captureBy_eq {path : Bytes} (h : NoColonPiece path) (pattern : Bytes) :
    captureBy (fun b => (mkSeg b).s) pattern path = capture pattern path := by
  refine List.filterMap_congr fun ab hab => ?_
  obtain ⟨a, b⟩ := ab
  have hb : (mkSeg b).s = b := by
    rw [mkSeg_eq, h b (List.of_mem_zip hab).2]
    rfl
  dsimp only
  rw [hb, id_eq]

/-- `ntc_router_match` answers as specified exactly when no piece of the path
    begins with a colon that something follows, or no route of the method
    matches even with these colons left out and one that matches so does as
    the path stands. -/
theorem ntcRouterMatch_eq_routeSpec_iff {r : NtcRouter} (method : Bytes) {path : Bytes}
    (hpath : (pieces path).length ≤ ntcMaxSegments)
    (hparams : ∀ rt ∈ r, (patternParams rt.pattern).length ≤ ntcMaxParams) :
    (ntcRouterMatch r method path).answer = routeSpec r method path ↔
      NoColonPiece path ∨
        (∀ rt ∈ r, method = rt.method → ¬ PathLenient rt.pattern path) ∧
          ((∃ rt ∈ r, PathLenient rt.pattern path) → ∃ rt ∈ r, PathMatches rt.pattern path) := by
  obtain ⟨hfound, hnone⟩ := ntcRouterMatch_answer method hpath hparams
  -- the two searches, in terms of the rules
  have hcode : ∀ rt : RouteT,
      (segsMatch rt.segs ((pieces path).map mkSeg) && method == rt.method) = true ↔
        PathLenient rt.pattern path ∧ method = rt.method := by
    intro rt
    rw [Bool.and_eq_true, segsMatch_iff_lenient, beq_iff_eq]
  have hspec : ∀ rt : RouteT, (decide (PathMatches rt.pattern path) && method == rt.method) = true ↔
      PathMatches rt.pattern path ∧ method = rt.method := by
    intro rt
    rw [Bool.and_eq_true, decide_eq_true_iff, beq_iff_eq]
  have hnoSpec : (∀ rt ∈ r, method = rt.method → ¬ PathLenient rt.pattern path) →
      routeSpec r method path =
        if ∃ rt ∈ r, PathMatches rt.pattern path then .methodNotAllowed else .notFound := by
    intro hno
    have hfind : r.find? (fun rt => decide (PathMatches rt.pattern path) && method == rt.method) =
        none := by
      refine List.find?_eq_none.mpr fun rt hrt hboth => ?_
      obtain ⟨hmatch, hmethod⟩ := (hspec rt).mp hboth
      exact hno rt hrt hmethod hmatch.lenient
    rw [routeSpec, hfind, Option.elim_none]
  constructor
  · intro heq
    cases hfind : r.find? fun rt =>
        segsMatch rt.segs ((pieces path).map mkSeg) && method == rt.method with
    | some rt =>
        rw [hfound rt hfind, routeSpec] at heq
        cases hfind' : r.find? fun rt =>
            decide (PathMatches rt.pattern path) && method == rt.method with
        | none =>
            rw [hfind', Option.elim_none] at heq
            split at heq <;> cases heq
        | some rt' =>
            rw [hfind', Option.elim_some, RouteAnswer.found.injEq] at heq
            have hrt' := List.find?_some hfind'
            exact .inl (noColonPiece_of_found ((hspec rt').mp hrt').1 heq.2)
    | none =>
        have hno : ∀ rt ∈ r, method = rt.method → ¬ PathLenient rt.pattern path :=
          fun rt hrt hmethod hl =>
            List.find?_eq_none.mp hfind rt hrt ((hcode rt).mpr ⟨hl, hmethod⟩)
        refine .inr ⟨hno, fun hsome => ?_⟩
        by_contra hnot
        rw [(hnone hno).1 hsome, hnoSpec hno, if_neg hnot] at heq
        cases heq
  · rintro (hclean | ⟨hno, hflag⟩)
    · have hsame : (fun rt : RouteT =>
          segsMatch rt.segs ((pieces path).map mkSeg) && method == rt.method) =
            fun rt => decide (PathMatches rt.pattern path) && method == rt.method := by
        funext rt
        rw [Bool.eq_iff_iff, hcode, hspec, hclean.lenient_iff]
      cases hfind : r.find? fun rt =>
          segsMatch rt.segs ((pieces path).map mkSeg) && method == rt.method with
      | some rt =>
          rw [hfound rt hfind, routeSpec, ← hsame, hfind, Option.elim_some,
            hclean.captureBy_eq]
      | none =>
          have hno : ∀ rt ∈ r, method = rt.method → ¬ PathLenient rt.pattern path :=
            fun rt hrt hmethod hl =>
              List.find?_eq_none.mp hfind rt hrt ((hcode rt).mpr ⟨hl, hmethod⟩)
          rw [hnoSpec hno]
          by_cases hsome : ∃ rt ∈ r, PathMatches rt.pattern path
          · obtain ⟨rt, hrt, hmatch⟩ := hsome
            rw [(hnone hno).1 ⟨rt, hrt, hmatch.lenient⟩, if_pos ⟨rt, hrt, hmatch⟩]
          · rw [(hnone hno).2 fun ⟨rt, hrt, hl⟩ =>
              hsome ⟨rt, hrt, (hclean.lenient_iff rt.pattern).mp hl⟩, if_neg hsome]
    · rw [hnoSpec hno]
      by_cases hsome : ∃ rt ∈ r, PathLenient rt.pattern path
      · rw [(hnone hno).1 hsome, if_pos (hflag hsome)]
      · rw [(hnone hno).2 hsome, if_neg fun ⟨rt, hrt, hmatch⟩ => hsome ⟨rt, hrt, hmatch.lenient⟩]

/-- `GET /users/:id`. -/
def userRoute : RouteT :=
  ⟨lit "GET", lit "/users/:id", [⟨lit "users", false⟩, ⟨lit "id", true⟩], .forward 0, by decide⟩

theorem ntcRouterMatch_eq_routeSpec_user :
    (ntcRouterMatch [userRoute] (lit "GET") (lit "/users/7")).answer =
      routeSpec [userRoute] (lit "GET") (lit "/users/7") :=
  (ntcRouterMatch_eq_routeSpec_iff (lit "GET") (by decide) (by decide)).mpr (.inl (by decide))

/-- The route is found for a path it does not match, and the identifier that
    it captures is not the one in the path. -/
theorem colon_in_path_is_stripped :
    ¬ ∀ (r : NtcRouter) (method path : Bytes), (pieces path).length ≤ ntcMaxSegments →
      (∀ rt ∈ r, (patternParams rt.pattern).length ≤ ntcMaxParams) →
      (ntcRouterMatch r method path).answer = routeSpec r method path := by
  intro h
  have hcase := h [userRoute] (lit "GET") (lit "/:users/7") (by decide) (by decide)
  revert hcase
  decide

end Naitron
