/-
  Naitron.Cookie

  The cookies of `src/core/session.c`: `ntc_cookie_get` on a `Cookie` header
  and `ntc_cookie_format` for a `Set-Cookie` header.

  The scan skips blanks and semicolons together.  What it finds is the first
  cookie of that name among those between the semicolons, so a browser that
  sends back what `ntc_cookie_format` wrote is recognised by it.
-/

import Naitron.Bytes
import Naitron.Lib.FormUrl
import Naitron.Lib.Split

namespace Naitron

open Naitron.Lib

-- ============================================================================
-- The code
-- ============================================================================

abbrev chSemicolon : UInt8 := 59

/-- The characters in front of a cookie. -/
def cookieSep (c : UInt8) : Bool := c == chSpace || c == chSemicolon

/-- The loop of `ntc_cookie_get`; a turn takes a byte at least. -/
def cookieLoop (name : Bytes) : Nat → Bytes → Option Bytes
  | 0, _ => none
  | n + 1, s =>
      if s = [] then none
      else
        let p := s.dropWhile cookieSep
        if (name ++ [61]).isPrefixOf p then
          some ((p.drop (name.length + 1)).takeWhile (· != chSemicolon))
        else cookieLoop name n (p.dropWhile (· != chSemicolon))

/-- `ntc_cookie_get`: what it leaves in `out[cap]`. -/
def ntcCookieGet (header name : Bytes) (cap : Nat) : Option Bytes :=
  (cookieLoop name (cstr header).length (cstr header)).map (·.take (cap - 1))

/-- `ntc_cookie_format`: its result, and what it leaves in `out[cap]`. -/
def ntcCookieFormat (cap : Nat) (name value : Bytes) (secure : Bool) (maxAge : Int) :
    Int × Bytes :=
  let text := name ++ [61] ++ value ++ lit "; Path=/; HttpOnly; SameSite=Lax" ++
    (if secure then lit "; Secure" else [])
  if cap ≤ text.length then (-1, clip cap text)
  else if 0 ≤ maxAge then
    let age := lit "; Max-Age=" ++ decimal maxAge.toNat
    (text.length + age.length, text ++ clip (cap - text.length) age)
  else (text.length, text)

-- ============================================================================
-- The cookies of a header
-- ============================================================================

/-- What stands between semicolons, behind the blanks. -/
def cookies (s : Bytes) : List Bytes :=
  (s.splitOn chSemicolon).map (·.dropWhile (· == chSpace))

/-- The value of the first cookie of a name. -/
def cookieValue (name s : Bytes) : Option Bytes := (cookies s).findSome? (fieldValue name)

theorem fieldValue_nil (name : Bytes) : fieldValue name [] = none := by
  cases hfield : fieldValue name [] with
  | none => rfl
  | some v =>
      have hnil := (fieldValue_eq_some_iff name [] v).mp hfield
      exact absurd hnil (List.append_ne_nil_of_right_ne_nil name (List.cons_ne_nil 61 v)).symm

theorem cookieValue_nil (name : Bytes) : cookieValue name [] = none := by
  rw [cookieValue, cookies, List.splitOn_nil, List.map_singleton, List.findSome?_singleton]
  exact fieldValue_nil name

theorem cookieValue_semicolon (name s : Bytes) :
    cookieValue name (chSemicolon :: s) = cookieValue name s := by
  have hsplit : (chSemicolon :: s).splitOn chSemicolon = [] :: s.splitOn chSemicolon := by
    rw [splitOn_eq_takeWhile]
    rfl
  rw [cookieValue, cookies, hsplit, List.map_cons, List.findSome?_cons, List.dropWhile_nil,
    fieldValue_nil]
  rfl

theorem cookieValue_space (name s : Bytes) :
    cookieValue name (chSpace :: s) = cookieValue name s := by
  have htake : (chSpace :: s).takeWhile (· != chSemicolon) =
      chSpace :: s.takeWhile (· != chSemicolon) := List.takeWhile_cons_of_pos (by decide)
  have hdrop : (chSpace :: s).dropWhile (· != chSemicolon) = s.dropWhile (· != chSemicolon) :=
    List.dropWhile_cons_of_pos (by decide)
  rw [cookieValue, cookies, splitOn_eq_takeWhile, htake, hdrop, List.map_cons,
    List.dropWhile_cons_of_pos (by decide), ← List.map_cons, ← splitOn_eq_takeWhile]
  rfl

/-- Blanks and semicolons in front do not matter. -/
theorem cookieValue_dropWhile (name s : Bytes) :
    cookieValue name (s.dropWhile cookieSep) = cookieValue name s := by
  induction s with
  | nil => rfl
  | cons c s ih =>
      by_cases hspace : c = chSpace
      · rw [hspace, List.dropWhile_cons_of_pos (by decide), ih, cookieValue_space]
      by_cases hsemi : c = chSemicolon
      · rw [hsemi, List.dropWhile_cons_of_pos (by decide), ih, cookieValue_semicolon]
      · rw [List.dropWhile_cons_of_neg]
        rw [cookieSep, beq_false_of_ne hspace, beq_false_of_ne hsemi]
        exact Bool.false_ne_true

/-- A header that does not begin with a blank: its first cookie, and what
    follows it. -/
theorem cookieValue_first {name p : Bytes} (hp : ∀ c ∈ p.head?, c ≠ chSpace) :
    cookieValue name p = (fieldValue name (p.takeWhile (· != chSemicolon))).or
      (cookieValue name (p.dropWhile (· != chSemicolon))) := by
  have htrim : (p.takeWhile (· != chSemicolon)).dropWhile (· == chSpace) =
      p.takeWhile (· != chSemicolon) := by
    cases p with
    | nil => rfl
    | cons c p =>
        have hspace : (c == chSpace) = false := beq_false_of_ne (hp c rfl)
        rw [List.takeWhile_cons]
        split
        · exact List.dropWhile_cons_of_neg (by rw [hspace]; exact Bool.false_ne_true)
        · rfl
  rw [cookieValue, cookies, splitOn_eq_takeWhile, List.map_cons, List.findSome?_cons, htrim]
  cases hdrop : p.dropWhile (· != chSemicolon) with
  | nil =>
      rw [cookieValue_nil]
      cases fieldValue name (p.takeWhile (· != chSemicolon)) with
      | none => rfl
      | some v => rfl
  | cons d rest =>
      have hd : d = chSemicolon := by
        have hnot := List.head?_dropWhile_not (· != chSemicolon) p
        rw [hdrop] at hnot
        simpa using hnot
      rw [hd, cookieValue_semicolon]
      cases fieldValue name (p.takeWhile (· != chSemicolon)) with
      | none => rfl
      | some v => rfl

/-- A name without a semicolon is found where its cookie is. -/
theorem fieldValue_takeWhile {name : Bytes} (hname : chSemicolon ∉ name) (p : Bytes) :
    fieldValue name (p.takeWhile (· != chSemicolon)) =
      if (name ++ [61]).isPrefixOf p then
        some ((p.drop (name.length + 1)).takeWhile (· != chSemicolon))
      else none := by
  have hall : ∀ c ∈ name ++ [61], (c != chSemicolon) = true := by
    intro c hc
    refine bne_iff_ne.mpr ?_
    rintro rfl
    obtain hc | hc := List.mem_append.mp hc
    · exact hname hc
    · exact absurd (List.mem_singleton.mp hc) (by decide)
  split
  next h =>
    obtain ⟨rest, rfl⟩ := List.isPrefixOf_iff_prefix.mp h
    have hdrop : (name ++ [61] ++ rest).drop (name.length + 1) = rest := by
      rw [show name.length + 1 = (name ++ [61]).length by rw [List.length_append]; rfl,
        List.drop_left]
    rw [List.takeWhile_append_of_pos hall, fieldValue_eq_some_iff, hdrop, List.append_assoc]
    rfl
  next h =>
    cases hfield : fieldValue name (p.takeWhile (· != chSemicolon)) with
    | none => rfl
    | some v =>
        have heq := (fieldValue_eq_some_iff name _ v).mp hfield
        have hfront : name ++ [61] <+: p.takeWhile (· != chSemicolon) := by
          rw [heq]
          exact ⟨v, List.append_assoc _ _ _⟩
        exact absurd (List.isPrefixOf_iff_prefix.mpr (hfront.trans (List.takeWhile_prefix _))) h

/-- The loop finds the first cookie of the name. -/
theorem cookieLoop_eq {name : Bytes} (hname : chSemicolon ∉ name) :
    ∀ {n : Nat} {s : Bytes}, s.length ≤ n → cookieLoop name n s = cookieValue name s := by
  intro n
  induction n with
  | zero =>
      intro s hs
      obtain rfl := List.length_eq_zero_iff.mp (Nat.le_zero.mp hs)
      rw [cookieLoop, cookieValue_nil]
  | succ n ih =>
      intro s hs
      have hskip : ∀ c ∈ (s.dropWhile cookieSep).head?, cookieSep c = false := by
        intro c hc
        have hnot := List.head?_dropWhile_not cookieSep s
        rw [Option.mem_def.mp hc] at hnot
        simpa using hnot
      have hhead : ∀ c ∈ (s.dropWhile cookieSep).head?, c ≠ chSpace := by
        rintro c hc rfl
        exact absurd (hskip _ hc) (by decide)
      have hlen := (List.dropWhile_suffix (l := s) cookieSep).length_le
      rw [cookieLoop, ← cookieValue_dropWhile]
      generalize s.dropWhile cookieSep = p at hskip hhead hlen
      by_cases hnil : s = []
      · subst hnil
        obtain rfl := List.length_eq_zero_iff.mp (Nat.le_zero.mp hlen)
        rw [if_pos rfl, cookieValue_nil]
      · have hrest : (p.dropWhile (· != chSemicolon)).length ≤ n := by
          cases p with
          | nil => exact Nat.zero_le n
          | cons c p =>
              have hc : (c != chSemicolon) = true := by
                refine bne_iff_ne.mpr ?_
                rintro rfl
                exact absurd (hskip _ rfl) (by decide)
              have hle := (List.dropWhile_suffix (l := p) (· != chSemicolon)).length_le
              rw [List.length_cons] at hlen
              rw [List.dropWhile_cons, if_pos hc]
              omega
        dsimp only
        rw [if_neg hnil, cookieValue_first hhead, fieldValue_takeWhile hname, ih hrest]
        split
        · rfl
        · rfl

/-- `ntc_cookie_get` finds the first cookie of the name, up to the size of the
    buffer. -/
theorem ntcCookieGet_eq {name : Bytes} (hname : chSemicolon ∉ name) (header : Bytes) (cap : Nat) :
    ntcCookieGet header name cap = (cookieValue name (cstr header)).map (·.take (cap - 1)) := by
  rw [ntcCookieGet, cookieLoop_eq hname le_rfl]

/-- A cookie whose name only begins like the one looked for is passed over, as
    are blanks. -/
theorem ntcCookieGet_session :
    cookieValue (lit "ntc_session") (cstr (lit "ntc_session_x=1;;  ntc_session=zzz; a=2")) =
        some (lit "zzz") ∧
      ntcCookieGet (lit "ntc_session_x=1;;  ntc_session=zzz; a=2") (lit "ntc_session") 3 =
        some (lit "zz") := by
  have hvalue : cookieValue (lit "ntc_session")
      (cstr (lit "ntc_session_x=1;;  ntc_session=zzz; a=2")) = some (lit "zzz") := by
    decide +kernel
  refine ⟨hvalue, ?_⟩
  rw [ntcCookieGet_eq (by decide), hvalue]
  rfl

-- ============================================================================
-- Through a browser
-- ============================================================================

theorem cookieValue_append {c : Bytes} (hc : chSemicolon ∉ c) (name s : Bytes) :
    cookieValue name (c ++ chSemicolon :: s) =
      (fieldValue name (c.dropWhile (· == chSpace))).or (cookieValue name s) := by
  rw [cookieValue, cookies, List.splitOn_append_cons_self, List.splitOn_eq_singleton hc,
    List.map_append, List.map_singleton, List.singleton_append, List.findSome?_cons]
  cases fieldValue name (c.dropWhile (· == chSpace)) with
  | none => rfl
  | some v => rfl

/-- A header with other cookies, the cookie `name=value`, and whatever follows
    it. -/
def cookieHeader (before : List Bytes) (name value rest : Bytes) : Bytes :=
  before.flatMap (· ++ lit "; ") ++ (name ++ 61 :: value) ++ rest

/-- No cookie in front has the name, and what follows is another cookie. -/
structure CookieFirst (before : List Bytes) (name rest : Bytes) : Prop where
  others : ∀ c ∈ before, chSemicolon ∉ c ∧ fieldValue name (c.dropWhile (· == chSpace)) = none
  next : rest = [] ∨ rest.head? = some chSemicolon

/-- A name as `ntc_cookie_format` is given it. -/
def CookieName (name : Bytes) : Prop := chSemicolon ∉ name ∧ name.head? ≠ some chSpace

theorem dropWhile_cookie {name : Bytes} (hname : CookieName name) (value : Bytes) :
    (name ++ 61 :: value).dropWhile (· == chSpace) = name ++ 61 :: value := by
  cases name with
  | nil => rfl
  | cons c name =>
      have hc : c ≠ chSpace := fun h => hname.2 (congrArg some h)
      exact List.dropWhile_cons_of_neg fun h => hc (beq_iff_eq.mp h)

theorem cookieValue_header {before : List Bytes} {name value rest : Bytes}
    (hname : CookieName name) (hvalue : chSemicolon ∉ value)
    (h : CookieFirst before name rest) :
    cookieValue name (cookieHeader before name value rest) = some value := by
  rw [cookieHeader]
  obtain ⟨hothers, hnext⟩ := h
  induction before with
  | nil =>
      have hpair : chSemicolon ∉ name ++ 61 :: value := by
        rw [List.mem_append, List.mem_cons, not_or, not_or]
        exact ⟨hname.1, by decide, hvalue⟩
      have hfield : fieldValue name ((name ++ 61 :: value).dropWhile (· == chSpace)) =
          some value := by
        rw [dropWhile_cookie hname, fieldValue_eq_some_iff]
      rw [List.flatMap_nil, List.nil_append]
      cases rest with
      | nil =>
          rw [List.append_nil, cookieValue, cookies, List.splitOn_eq_singleton hpair,
            List.map_singleton, List.findSome?_singleton, hfield]
      | cons d rest =>
          obtain hnil | hhead := hnext
          · exact absurd hnil (List.cons_ne_nil d rest)
          · rw [Option.some.inj hhead, cookieValue_append hpair, hfield, Option.some_or]
  | cons c before ih =>
      obtain ⟨hc, hnone⟩ := hothers c List.mem_cons_self
      have hrest := ih fun c' hc' => hothers c' (List.mem_cons_of_mem c hc')
      have hsep : lit "; " = [chSemicolon, chSpace] := by decide
      rw [List.flatMap_cons, hsep, List.append_assoc, List.append_assoc, List.append_assoc,
        List.cons_append, cookieValue_append hc, hnone, Option.none_or, List.singleton_append,
        cookieValue_space, ← List.append_assoc]
      rw [hsep] at hrest
      exact hrest

/-- The text of a cookie begins with its pair. -/
theorem ntcCookieFormat_pair {name value : Bytes} (hname : chSemicolon ∉ name)
    (hvalue : chSemicolon ∉ value) {cap : Nat} (hcap : name.length + value.length + 45 < cap)
    (secure : Bool) (maxAge : Int) :
    (ntcCookieFormat cap name value secure maxAge).2.takeWhile (· != chSemicolon) =
      name ++ 61 :: value := by
  have hpair : ∀ c ∈ name ++ 61 :: value, (c != chSemicolon) = true := by
    intro c hc
    refine bne_iff_ne.mpr ?_
    rintro rfl
    rw [List.mem_append, List.mem_cons] at hc
    obtain hc | hc | hc := hc
    · exact hname hc
    · exact absurd hc (by decide)
    · exact hvalue hc
  have htext : ∃ rest, name ++ [61] ++ value ++ lit "; Path=/; HttpOnly; SameSite=Lax" ++
      (if secure then lit "; Secure" else []) = (name ++ 61 :: value) ++ chSemicolon :: rest ∧
        rest.length ≤ 41 := by
    have hpath : lit "; Path=/; HttpOnly; SameSite=Lax" =
        chSemicolon :: lit " Path=/; HttpOnly; SameSite=Lax" := by decide
    refine ⟨lit " Path=/; HttpOnly; SameSite=Lax" ++ (if secure then lit "; Secure" else []),
      ?_, ?_⟩
    · rw [hpath]
      simp
    · cases secure with
      | false => decide
      | true => decide
  obtain ⟨rest, htext, hrest⟩ := htext
  have hstop : ∀ tail : Bytes, (name ++ 61 :: value ++ chSemicolon :: rest ++ tail).takeWhile
      (· != chSemicolon) = name ++ 61 :: value := by
    intro tail
    rw [List.append_assoc, List.takeWhile_append_of_pos hpair, List.cons_append,
      List.takeWhile_cons_of_neg (by decide), List.append_nil]
  have hlen : (name ++ 61 :: value ++ chSemicolon :: rest).length < cap := by
    rw [List.length_append, List.length_append, List.length_cons, List.length_cons]
    omega
  rw [ntcCookieFormat, htext]
  dsimp only
  rw [if_neg (by omega)]
  split
  · exact hstop _
  · have hnil := hstop []
    rwa [List.append_nil] at hnil

/-- The cookie that `ntc_cookie_format` writes is found in the header that a
    browser sends back, as long as the value fits the buffer. -/
theorem ntcCookieGet_header {before : List Bytes} {name value rest : Bytes} {cap : Nat}
    (hname : CookieName name) (hvalue : chSemicolon ∉ value) (h : CookieFirst before name rest)
    (hnul : 0 ∉ cookieHeader before name value []) (hcap : value.length < cap) :
    ntcCookieGet (cookieHeader before name value rest) name cap = some value := by
  have hheader : cookieHeader before name value rest =
      cookieHeader before name value [] ++ rest := by
    rw [cookieHeader, cookieHeader, List.append_nil]
  have hcstr : cstr (cookieHeader before name value rest) =
      cookieHeader before name value (cstr rest) := by
    have hall : ∀ c ∈ cookieHeader before name value [], decide (c ≠ 0) = true := by
      intro c hc
      refine decide_eq_true ?_
      rintro rfl
      exact hnul hc
    rw [hheader, cstr, List.takeWhile_append_of_pos hall]
    rw [cookieHeader, cookieHeader, List.append_nil]
    rfl
  have hnext : cstr rest = [] ∨ (cstr rest).head? = some chSemicolon := by
    obtain rfl | hhead := h.next
    · exact .inl rfl
    · cases rest with
      | nil => cases hhead
      | cons d rest =>
          rw [Option.some.inj hhead]
          exact .inr rfl
  rw [ntcCookieGet, cookieLoop_eq hname.1 le_rfl, hcstr,
    cookieValue_header hname hvalue ⟨h.others, hnext⟩, Option.map_some,
    List.take_of_length_le (by omega)]

end Naitron
