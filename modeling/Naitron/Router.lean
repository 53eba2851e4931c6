/-
  Naitron.Router

  Method and path routing, `src/common/router.c`.

  `split_segments` cuts a path or pattern into its non-empty `/`-separated
  pieces, strips the colon of every `:name` piece and marks it as a
  parameter.  It runs on patterns and on request paths alike, so a request
  segment `:x` is compared as `x`.  `ntc_router_match` walks the routes in
  registration order and stops at the first one whose segments and method
  match.

  `pieces` is the segmentation in terms of `List.splitOn`; `splitSegments_eq`
  connects the loop to it.
-/

import Naitron.HttpRequest
import Naitron.Lib.Split

namespace Naitron

/-- `NTC_MAX_SEGMENTS`. -/
def ntcMaxSegments : Nat := 16

/-- `seg_t`. -/
structure SegT where
  s : Bytes
  isParam : Bool
deriving DecidableEq, Repr

/-- The segment `split_segments` stores for one non-empty piece. -/
def mkSeg (seg : Bytes) : SegT :=
  match seg with
  | c :: d :: rest => if c = chColon then ⟨d :: rest, true⟩ else ⟨seg, false⟩
  | _ => ⟨seg, false⟩

/-- The loop of `split_segments` with `n` segments already stored.  One
    iteration skips slashes and takes a non-empty piece, so the length of the
    input is fuel enough. -/
def splitLoop (max : Nat) : Nat → Nat → Bytes → Option (List SegT)
  | 0, _, _ => some []
  | fuel + 1, n, s =>
      let s := s.dropWhile (· == chSlash)
      if s.isEmpty then some []
      else if max ≤ n then none
      else
        (splitLoop max fuel (n + 1) (s.dropWhile (· != chSlash))).map
          (mkSeg (s.takeWhile (· != chSlash)) :: ·)

/-- `split_segments`; `none` is the result `-1`. -/
def splitSegments (s : Bytes) (max : Nat) : Option (List SegT) :=
  splitLoop max (s.length + 1) 0 s

/-! ## Routes -/

/-- The handlers the gateway registers: `forward_marker` with the service it
    forwards to, and the built-in pages of builtin.c. -/
inductive Handler where
  | forward (svc : Nat)
  | health
  | version
  | echo
deriving DecidableEq, Repr

/-- `route_t`; `udata` is inside `handler`.  The stored segments are those of
    the stored pattern. -/
structure RouteT where
  method : Bytes
  pattern : Bytes
  segs : List SegT
  handler : Handler
  hsegs : splitSegments pattern ntcMaxSegments = some segs
deriving DecidableEq

/-- `ntc_router`: the routes in registration order. -/
abbrev NtcRouter := List RouteT

/-- `ntc_router_add` once its allocations have succeeded; `none` is
    `NTC_ERR_INVALID`. -/
def ntcRouterAdd (r : NtcRouter) (method pattern : Bytes) (h : Handler) : Option NtcRouter :=
  match hsegs : splitSegments pattern ntcMaxSegments with
  | none => none
  | some segs => some (r ++ [⟨method, pattern, segs, h, hsegs⟩])

/-- The segment loop of `ntc_router_match` for one route. -/
def segsMatch (segs ps : List SegT) : Bool :=
  segs.length == ps.length && (segs.zip ps).all fun (rs, p) => rs.isParam || rs.s == p.s

/-- The parameters `ntc_router_match` captures from one route, at most
    `NTC_MAX_PARAMS`. -/
def captureParams (segs ps : List SegT) : List NtcHeader :=
  ((segs.zip ps).filterMap fun (rs, p) =>
    if rs.isParam then some ⟨rs.s, p.s⟩ else none).take ntcMaxParams

/-- `ntc_route_status` with the out parameters of a match. -/
inductive NtcRouteStatus where
  | found (rt : RouteT) (params : List NtcHeader)
  | notFound
  | methodNotAllowed
deriving DecidableEq

/-- The loop over the routes, with the `method_mismatch` flag. -/
def matchLoop (method : Bytes) (ps : List SegT) : List RouteT → Bool → NtcRouteStatus
  | [], mismatch => if mismatch then .methodNotAllowed else .notFound
  | rt :: rest, mismatch =>
      if !segsMatch rt.segs ps then matchLoop method ps rest mismatch
      else if method ≠ rt.method then matchLoop method ps rest true
      else .found rt (captureParams rt.segs ps)

/-- `ntc_router_match`.  A path of more than `NTC_MAX_SEGMENTS` segments
    (`pn < 0`) matches no route. -/
def ntcRouterMatch (r : NtcRouter) (method path : Bytes) : NtcRouteStatus :=
  match splitSegments path ntcMaxSegments with
  | none => .notFound
  | some ps => matchLoop method ps r false

/-- Whether the router's rules match `path` against `pattern`, the method
    aside. -/
def routerMatches (pattern path : Bytes) : Bool :=
  match splitSegments pattern ntcMaxSegments, splitSegments path ntcMaxSegments with
  | some segs, some ps => segsMatch segs ps
  | _, _ => false

-- ============================================================================
-- The segmentation
-- ============================================================================

/-- The non-empty `/`-separated pieces of a path. -/
abbrev pieces (s : Bytes) : List Bytes := Lib.parts chSlash s

theorem dropWhile_slash_eq_cons {s rest : Bytes} {c : UInt8}
    (h : s.dropWhile (· == chSlash) = c :: rest) : c ≠ chSlash := by
  have := List.head?_dropWhile_not (· == chSlash) s
  rw [h] at this
  simpa using this

/-- The loop of `split_segments`, started with `n` segments and fuel for the
    whole input. -/
theorem splitLoop_eq (max : Nat) :
    ∀ (fuel n : Nat) (s : Bytes), s.length < fuel →
      splitLoop max fuel n s =
        if n + (pieces s).length ≤ max ∨ pieces s = [] then some ((pieces s).map mkSeg)
        else none := by
  intro fuel
  induction fuel with
  | zero => intro n s hlen; omega
  | succ fuel ih =>
      intro n s hlen
      have hskip : pieces (s.dropWhile (· == chSlash)) = pieces s :=
        Lib.parts_dropWhile_sep chSlash s
      rw [splitLoop, ← hskip]
      cases hs : s.dropWhile (· == chSlash) with
      | nil => simp [pieces, Lib.parts_nil]
      | cons c rest =>
          have hc : c ≠ chSlash := dropWhile_slash_eq_cons hs
          -- the loop consumes at least `c`, so the fuel left still suffices
          have hrest : ((c :: rest).dropWhile (· != chSlash)).length < fuel := by
            have h1 : (s.dropWhile (· == chSlash)).length ≤ s.length :=
              (List.dropWhile_sublist _).length_le
            have h2 : (rest.dropWhile (· != chSlash)).length ≤ rest.length :=
              (List.dropWhile_sublist _).length_le
            rw [hs, List.length_cons] at h1
            rw [List.dropWhile_cons_of_pos (by simpa using hc)]
            omega
          simp only [List.isEmpty_cons, Bool.false_eq_true, if_false]
          have hpieces : pieces (c :: rest) = (c :: rest).takeWhile (· != chSlash) ::
              pieces ((c :: rest).dropWhile (· != chSlash)) := Lib.parts_eq_cons hc
          rw [ih _ _ hrest, hpieces]
          by_cases hn : max ≤ n
          · simp only [hn, if_true, List.length_cons]
            rw [if_neg]
            simp only [reduceCtorEq, or_false]
            omega
          · simp only [hn, if_false, List.length_cons, reduceCtorEq, or_false]
            by_cases hfit : n + 1 + (pieces ((c :: rest).dropWhile (· != chSlash))).length ≤ max
            · rw [if_pos (Or.inl hfit), if_pos (by omega)]
              rfl
            · have hne : pieces ((c :: rest).dropWhile (· != chSlash)) ≠ [] := by
                intro he
                rw [he] at hfit
                simp only [List.length_nil] at hfit
                omega
              rw [if_neg (by simp only [hne, or_false]; exact hfit), if_neg (by omega)]
              rfl

/-- `split_segments` stores the non-empty pieces, or fails on more than
    `max` of them. -/
theorem splitSegments_eq (s : Bytes) (max : Nat) :
    splitSegments s max =
      if (pieces s).length ≤ max then some ((pieces s).map mkSeg) else none := by
  rw [splitSegments, splitLoop_eq max _ 0 s (Nat.lt_succ_self _)]
  by_cases hp : pieces s = []
  · simp [hp]
  · simp [hp]

/-- How `ntc_router_match` compares one pattern piece with one path piece. -/
def routerSame (a b : Bytes) : Prop := (mkSeg a).isParam = true ∨ (mkSeg a).s = (mkSeg b).s

theorem segsMatch_iff (l m : List Bytes) :
    segsMatch (l.map mkSeg) (m.map mkSeg) = true ↔ List.Forall₂ routerSame l m := by
  rw [List.forall₂_iff_zip]
  simp only [segsMatch, List.length_map, Bool.and_eq_true, beq_iff_eq, List.all_eq_true,
    Bool.or_eq_true, List.zip_map, List.mem_map, Prod.exists, forall_exists_index, and_imp,
    Prod.map_apply, routerSame]
  refine and_congr_right fun _ => ?_
  constructor
  · intro h a b hab
    exact h _ a b hab rfl
  · rintro h x a b hab rfl
    exact h hab

/-- The router's rules in terms of the pieces of pattern and path. -/
theorem routerMatches_iff (pattern path : Bytes) :
    routerMatches pattern path = true ↔
      (pieces pattern).length ≤ ntcMaxSegments ∧
        List.Forall₂ routerSame (pieces pattern) (pieces path) := by
  rw [routerMatches, splitSegments_eq, splitSegments_eq]
  by_cases hp : (pieces pattern).length ≤ ntcMaxSegments
  · by_cases hx : (pieces path).length ≤ ntcMaxSegments
    · simp only [hp, hx, if_true, true_and]
      exact segsMatch_iff _ _
    · have : ¬ List.Forall₂ routerSame (pieces pattern) (pieces path) := by
        intro h
        have := h.length_eq
        omega
      simp [hp, hx, this]
  · simp [hp]

/-! ## Registered routes -/

theorem matchLoop_found {method : Bytes} {ps : List SegT} {rt : RouteT} {params : List NtcHeader} :
    ∀ {routes : List RouteT} {mismatch : Bool},
      matchLoop method ps routes mismatch = .found rt params →
      rt ∈ routes ∧ segsMatch rt.segs ps = true ∧ method = rt.method := by
  intro routes
  induction routes with
  | nil =>
      intro mismatch h
      rw [matchLoop] at h
      split at h <;> cases h
  | cons hd rest ih =>
      intro mismatch h
      rw [matchLoop] at h
      split at h
      · exact ⟨List.mem_cons_of_mem _ (ih h).1, (ih h).2⟩
      · split at h
        · exact ⟨List.mem_cons_of_mem _ (ih h).1, (ih h).2⟩
        · rename_i hseg hm
          cases h
          exact ⟨List.mem_cons_self, by simpa using hseg, by simpa using hm⟩

/-- A route that `ntc_router_match` resolves to is registered for that method
    and its pattern matches the path by the router's rules. -/
theorem ntcRouterMatch_found {r : NtcRouter} {method path : Bytes} {rt : RouteT}
    {params : List NtcHeader} (h : ntcRouterMatch r method path = .found rt params) :
    rt ∈ r ∧ method = rt.method ∧ routerMatches rt.pattern path = true := by
  rw [ntcRouterMatch] at h
  cases hps : splitSegments path ntcMaxSegments with
  | none => rw [hps] at h; cases h
  | some ps =>
      rw [hps] at h
      obtain ⟨hmem, hseg, hmethod⟩ := matchLoop_found h
      refine ⟨hmem, hmethod, ?_⟩
      rw [routerMatches, rt.hsegs, hps]
      exact hseg

end Naitron
