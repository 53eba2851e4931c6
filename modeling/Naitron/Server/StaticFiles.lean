/-
  Naitron.Server.StaticFiles

  `serve_static` of `src/core/server.c`: the files under `static_dir` that
  answer a `GET` no route matches.

  The name it opens goes through two buffers, `rel` and `full`.  The results
  say that neither cuts it, that it is the path of the request without its
  first byte, and that it stays inside `static_dir`.
-/

import Naitron.Jwt
import Naitron.Lib.Lexical
import Naitron.Server.State

namespace Naitron

open Naitron.Lib

-- ============================================================================
-- The code
-- ============================================================================

/-- A regular file or another one, its `st_size`, and the bytes that can be
    read from it. -/
structure StaticFile where
  regular : Bool
  size : Nat
  content : Bytes

/-- `strrchr`: the string from the last `c` on. -/
def strrchr (s : Bytes) (c : UInt8) : Option Bytes :=
  if c ∈ s then some (c :: (s.reverse.takeWhile (· != c)).reverse) else none

/-- `mime_for`. -/
def mimeFor (path : Bytes) : Bytes :=
  match strrchr path chDot with
  | none => lit "application/octet-stream"
  | some d =>
      if d = lit ".html" ∨ d = lit ".htm" then lit "text/html; charset=utf-8"
      else if d = lit ".css" then lit "text/css"
      else if d = lit ".js" ∨ d = lit ".mjs" then lit "application/javascript"
      else if d = lit ".json" then lit "application/json"
      else if d = lit ".svg" then lit "image/svg+xml"
      else if d = lit ".png" then lit "image/png"
      else if d = lit ".jpg" ∨ d = lit ".jpeg" then lit "image/jpeg"
      else if d = lit ".ico" then lit "image/x-icon"
      else if d = lit ".txt" then lit "text/plain; charset=utf-8"
      else if d = lit ".wasm" then lit "application/wasm"
      else lit "application/octet-stream"

/-- The loop of `serve_static` over the name: a NUL or two dots in a row. -/
def traverses : Bytes → Bool
  | [] => false
  | c :: rest => c == 0 || (c == chDot && rest.head? == some chDot) || traverses rest

/-- The buffer `rel[512]`; `none` to fall through. -/
def staticRel (path : Bytes) : Option Bytes :=
  if path.length ≤ 1 then some (clip 512 (lit "index.html"))
  else
    let p := path.drop 1
    if 512 - 12 ≤ p.length then none
    else if traverses p then none
    else if p.getLast? = some chSlash then some (p ++ clip (512 - p.length) (lit "index.html"))
    else some p

/-- The name in `full[800]` that `serve_static` opens, if it comes to `open`. -/
def staticOpens (dir : CStr 256) (req : NtcRequest) : Option Bytes :=
  if dir.bytes = [] ∨ req.method ≠ lit "GET" then none
  else (staticRel req.path).map fun rel => clip 800 (dir.bytes ++ chSlash :: rel)

/-- `serve_static`: the page it answers with, `none` to fall through.  `fs` is
    what `open`, `fstat` and `read` find under a name, `alloc` whether the
    arena has room. -/
def serveStatic (dir : CStr 256) (fs : Bytes → Option StaticFile) (alloc : Bool)
    (req : NtcRequest) : Option Page :=
  (staticOpens dir req).bind fun full =>
    (fs full).bind fun f =>
      if !f.regular ∨ 10 * 1024 * 1024 < f.size then none
      else if !alloc then none
      else if (f.content.take f.size).length ≠ f.size then none
      else
        some
          { status := 200
            contentType := mimeFor ((staticRel req.path).getD [])
            body := f.content.take f.size }

-- ============================================================================
-- The name it opens
-- ============================================================================

/-- The name a path asks for: the path without its first byte, and
    `index.html` behind a directory. -/
def requestedName (path : Bytes) : Bytes :=
  path.drop 1
    ++ if path.length ≤ 1 ∨ path.getLast? = some chSlash then lit "index.html" else []

/-- Two dots in a row. -/
abbrev dotDot : Bytes := [chDot, chDot]

theorem traverses_cons (c : UInt8) (rest : Bytes) :
    traverses (c :: rest)
      = (c == 0 || (c == chDot && rest.head? == some chDot) || traverses rest) := rfl

theorem traverses_iff (p : Bytes) : traverses p = true ↔ 0 ∈ p ∨ dotDot <:+: p := by
  induction p with
  | nil => simp [traverses]
  | cons c rest ih =>
      have hhead : dotDot <+: c :: rest ↔ c = chDot ∧ rest.head? = some chDot := by
        rw [List.cons_prefix_cons]
        cases rest with
        | nil => simp
        | cons d rest => simp [List.cons_prefix_cons, eq_comm]
      rw [traverses_cons, Bool.or_eq_true, Bool.or_eq_true, ih, List.infix_cons_iff, hhead,
        List.mem_cons, Bool.and_eq_true, beq_iff_eq, beq_iff_eq, beq_iff_eq]
      constructor
      · rintro ((h | h) | h | h)
        · exact Or.inl (Or.inl h.symm)
        · exact Or.inr (Or.inl h)
        · exact Or.inl (Or.inr h)
        · exact Or.inr (Or.inr h)
      · rintro ((h | h) | h | h)
        · exact Or.inl (Or.inl h.symm)
        · exact Or.inr (Or.inl h)
        · exact Or.inl (Or.inr h)
        · exact Or.inr (Or.inr h)

theorem length_index : (lit "index.html").length = 10 := by decide

theorem zero_notMem_index : 0 ∉ lit "index.html" := by decide

theorem traverses_index : traverses (lit "index.html") = false := by decide

/-- Nothing comes together where a name behind a slash goes on. -/
theorem traverses_append_slash (q : Bytes) :
    ∀ p : Bytes, p.getLast? = some chSlash → traverses (p ++ q) = (traverses p || traverses q) := by
  intro p
  induction p with
  | nil =>
      intro h
      cases h
  | cons c rest ih =>
      intro hlast
      cases rest with
      | nil =>
          rw [List.getLast?_singleton] at hlast
          cases hlast
          rfl
      | cons d rest =>
          have hrest := ih (by rwa [List.getLast?_cons_cons] at hlast)
          rw [List.cons_append, traverses_cons, hrest, traverses_cons c (d :: rest), List.cons_append,
            List.head?_cons, List.head?_cons, ← Bool.or_assoc]

/-- `rel` is the requested name, uncut, whenever the code comes to open it. -/
theorem staticRel_eq {path rel : Bytes} (h : staticRel path = some rel) :
    rel = requestedName path ∧ traverses rel = false ∧ rel.length < 512 := by
  have hindex : clip 512 (lit "index.html") = lit "index.html" :=
    clip_of_fits zero_notMem_index (by rw [length_index]; decide)
  rw [staticRel] at h
  split_ifs at h with hshort
  · have hrel : lit "index.html" = rel := by
      rw [← hindex]
      exact Option.some.inj h
    rw [← hrel, requestedName, if_pos (Or.inl hshort),
      List.drop_eq_nil_of_le (by omega : path.length ≤ 1)]
    exact ⟨rfl, traverses_index, by rw [length_index]; decide⟩
  · have hlast : path.getLast? = (path.drop 1).getLast? := by
      cases path with
      | nil => exact absurd (Nat.zero_le 1) hshort
      | cons c rest =>
          cases rest with
          | nil => exact absurd (le_refl 1) hshort
          | cons d rest => rw [List.getLast?_cons_cons, List.drop_succ_cons, List.drop_zero]
    dsimp only at h
    split_ifs at h with hlong htrav hslash
    · have hroom : clip (512 - (path.drop 1).length) (lit "index.html") = lit "index.html" :=
        clip_of_fits zero_notMem_index (by rw [length_index]; omega)
      have hrel : path.drop 1 ++ lit "index.html" = rel := by
        rw [← hroom]
        exact Option.some.inj h
      rw [← hrel, requestedName, if_pos (Or.inr (hlast.trans hslash))]
      refine ⟨rfl, ?_, ?_⟩
      · rw [traverses_append_slash _ _ hslash, traverses_index, Bool.or_false]
        exact Bool.eq_false_of_not_eq_true htrav
      · rw [List.length_append, length_index]
        omega
    · have hrel : path.drop 1 = rel := Option.some.inj h
      rw [← hrel, requestedName, if_neg fun h' => h'.elim hshort fun h' => hslash (hlast ▸ h'),
        List.append_nil]
      exact ⟨rfl, Bool.eq_false_of_not_eq_true htrav, by omega⟩

/-- A path of at most 500 bytes without NULs and double dots is not turned
    away. -/
theorem staticRel_of_fits {path : Bytes} (hlen : path.length ≤ 500) (hnul : 0 ∉ path)
    (hdots : ¬ dotDot <:+: path) : staticRel path = some (requestedName path) := by
  have hok : staticRel path ≠ none := by
    rw [staticRel]
    split_ifs with hshort
    · exact Option.some_ne_none _
    · have hclean : ¬ traverses (path.drop 1) = true := by
        rw [traverses_iff]
        rintro (h | h)
        · exact hnul (List.mem_of_mem_drop h)
        · exact hdots (h.trans (List.drop_suffix 1 path).isInfix)
      have hfits : ¬ 512 - 12 ≤ (path.drop 1).length := by
        rw [List.length_drop]
        omega
      dsimp only
      rw [if_neg hfits, if_neg hclean]
      split_ifs <;> exact Option.some_ne_none _
  obtain ⟨rel, hrel⟩ := Option.ne_none_iff_exists'.mp hok
  rw [hrel, (staticRel_eq hrel).1]

/-- `full` holds the whole name. -/
theorem staticFull_eq (dir : CStr 256) {rel : Bytes} (hnul : 0 ∉ rel) (hlen : rel.length < 512) :
    clip 800 (dir.bytes ++ chSlash :: rel) = dir.bytes ++ chSlash :: rel := by
  have hdir := dir.fits
  apply clip_of_fits
  · rw [List.mem_append, List.mem_cons]
    rintro (h | h | h)
    · exact dir.noNul h
    · exact absurd h (by decide)
    · exact hnul h
  · rw [List.length_append, List.length_cons]
    omega

/-- Whatever the path: a name that `serve_static` opens is `static_dir`, a
    slash and the requested name, without NUL and double-dot components, and
    resolves to no place outside `static_dir`.  A `GET` for a path of at most
    500 bytes without NUL and two dots in a row comes to open exactly that
    name. -/
theorem serveStatic_confined (dir : CStr 256) (req : NtcRequest) :
    (∀ full, staticOpens dir req = some full →
      full = dir.bytes ++ chSlash :: requestedName req.path ∧
        0 ∉ requestedName req.path ∧
        dotDot ∉ (requestedName req.path).splitOn chSlash ∧
        Confined chSlash chDot dir.bytes full) ∧
    (dir.bytes ≠ [] → req.method = lit "GET" → req.path.length ≤ 500 → 0 ∉ req.path →
      ¬ dotDot <:+: req.path →
      staticOpens dir req = some (dir.bytes ++ chSlash :: requestedName req.path)) := by
  constructor
  · intro full h
    rw [staticOpens] at h
    split_ifs at h with hoff
    have hdir : dir.bytes ≠ [] := fun heq => hoff (Or.inl heq)
    obtain ⟨rel, hrel, hfull⟩ := Option.map_eq_some_iff.mp h
    obtain ⟨hname, htrav, hlen⟩ := staticRel_eq hrel
    have hclean : ¬ (0 ∈ rel ∨ dotDot <:+: rel) := by
      rw [← traverses_iff, htrav]
      exact Bool.false_ne_true
    have hnul : 0 ∉ rel := fun h => hclean (Or.inl h)
    have hcomps : dotDot ∉ rel.splitOn chSlash :=
      dots_notMem_splitOn fun h => hclean (Or.inr h)
    rw [staticFull_eq dir hnul hlen] at hfull
    rw [← hfull, ← hname]
    exact ⟨rfl, hnul, hcomps, confined_append hdir hcomps⟩
  · intro hdir hget hlen hnul hdots
    have hrel := staticRel_of_fits hlen hnul hdots
    obtain ⟨_, htrav, hshort⟩ := staticRel_eq hrel
    have hnul' : 0 ∉ requestedName req.path := by
      intro h
      have := (traverses_iff _).mpr (Or.inl h)
      rw [htrav] at this
      cases this
    rw [staticOpens, if_neg fun h => h.elim hdir fun h => h hget, hrel, Option.map_some,
      staticFull_eq dir hnul' hshort]

/-- A request for the directory `/docs/`. -/
theorem serveStatic_confined_docs :
    staticOpens (.set 256 (lit "www")) { method := lit "GET", path := lit "/docs/" }
        = some (lit "www" ++ chSlash :: lit "docs/index.html") ∧
      Confined chSlash chDot (lit "www") (lit "www" ++ chSlash :: lit "docs/index.html") := by
  obtain ⟨hconf, hopen⟩ := serveStatic_confined (.set 256 (lit "www"))
    { method := lit "GET", path := lit "/docs/" }
  have hname := hopen (by decide) rfl (by decide) (by decide) (by decide)
  exact ⟨hname, (hconf _ hname).2.2.2⟩

end Naitron
