/-
  Naitron.JsonGrammar

  JSON texts, and a reader of them that keeps everything it reads.

  `JsonDoc` is a document with its numbers and strings as they are written.
  `Derives` says which text a document has; it takes any run of number
  characters for a number and any byte in a string, as the scanners do, and
  `JsonDoc.Strict` is what RFC 8259 asks of both.  `readDoc` reads texts back:
  it finds a document exactly where there is one, so the document of a text is
  determined.
-/

import Naitron.Json

namespace Naitron

-- ============================================================================
-- Documents
-- ============================================================================

/-- A character of a string as it is written. -/
inductive StrPiece where
  | raw (b : UInt8)
  | escape (e : UInt8)
  | unit (a b c d : UInt8)
deriving DecidableEq, Repr

/-- A JSON document. -/
inductive JsonDoc where
  | null
  | bool (b : Bool)
  | num (lexeme : Bytes)
  | str (ps : List StrPiece)
  | arr (items : List JsonDoc)
  | obj (keys : List (List StrPiece)) (vals : List JsonDoc)
deriving Repr

namespace StrPiece

def bytes : StrPiece → Bytes
  | .raw b => [b]
  | .escape e => [chBackslash, e]
  | .unit a b c d => [chBackslash, 117, a, b, c, d]

/-- A piece that the scanner takes. -/
def Valid : StrPiece → Prop
  | .raw b => b ≠ chQuote ∧ b ≠ chBackslash
  | .escape e => (simpleEscape e).isSome = true
  | .unit a b c d => (hex4 a b c d).isSome = true

/-- No control character stands for itself. -/
def Strict : StrPiece → Prop
  | .raw b => 32 ≤ b
  | _ => True

end StrPiece

/-- A string with its quotes. -/
def quoted (ps : List StrPiece) : Bytes := chQuote :: (ps.flatMap StrPiece.bytes ++ [chQuote])

/-- White space. -/
def IsWs (s : Bytes) : Prop := ∀ c ∈ s, isJsonWs c = true

-- ============================================================================
-- Texts
-- ============================================================================

section Lists

variable {α β : Type}

/-- Texts of elements, with commas between them. -/
inductive Listed (R : Bytes → α → Prop) : Bytes → List α → Prop
  | one {x : Bytes} {a : α} (h : R x a) : Listed R x [a]
  | more {x xs : Bytes} {a : α} {as : List α} (h : R x a) (hs : Listed R xs as) :
      Listed R (x ++ chComma :: xs) (a :: as)

/-- A list of elements behind its opening bracket. -/
inductive Bracketed (R : Bytes → α → Prop) (close : UInt8) : Bytes → List α → Prop
  | empty {ws : Bytes} (h : IsWs ws) : Bracketed R close (ws ++ [close]) []
  | full {xs : Bytes} {as : List α} (h : Listed R xs as) : Bracketed R close (xs ++ [close]) as

/-- With white space around it. -/
inductive Padded (R : Bytes → α → Prop) : Bytes → α → Prop
  | mk {before x after : Bytes} {a : α} (hb : IsWs before) (h : R x a) (ha : IsWs after) :
      Padded R (before ++ (x ++ after)) a

/-- A member of an object. -/
inductive Member (R : Bytes → α → Prop) : Bytes → List StrPiece × α → Prop
  | mk {before after x : Bytes} {key : List StrPiece} {a : α} (hb : IsWs before)
      (hkey : ∀ p ∈ key, p.Valid) (ha : IsWs after) (h : Padded R x a) :
      Member R (before ++ (quoted key ++ (after ++ chColon :: x))) (key, a)

theorem Listed.imp {R S : Bytes → α → Prop} (h : ∀ {x a}, R x a → S x a) {s : Bytes}
    {as : List α} (hs : Listed R s as) : Listed S s as := by
  induction hs with
  | one hx => exact .one (h hx)
  | more hx _ ih => exact .more (h hx) ih

theorem Bracketed.imp {R S : Bytes → α → Prop} (h : ∀ {x a}, R x a → S x a) {close : UInt8}
    {s : Bytes} {as : List α} (hs : Bracketed R close s as) : Bracketed S close s as := by
  cases hs with
  | empty hws => exact .empty hws
  | full hxs => exact .full (hxs.imp h)

theorem Padded.imp {R S : Bytes → α → Prop} (h : ∀ {x a}, R x a → S x a) {s : Bytes} {a : α}
    (hs : Padded R s a) : Padded S s a := by
  obtain ⟨hb, hx, ha⟩ := hs
  exact .mk hb (h hx) ha

theorem Member.imp {R S : Bytes → α → Prop} (h : ∀ {x a}, R x a → S x a) {s : Bytes}
    {m : List StrPiece × α} (hs : Member R s m) : Member S s m := by
  obtain ⟨hb, hkey, ha, hx⟩ := hs
  exact .mk hb hkey ha (hx.imp h)

end Lists

/-- A number as the scanner takes it. -/
def ScannedNumber (l : Bytes) : Prop :=
  (∃ c ∈ l.head?, c = 45 ∨ (48 ≤ c ∧ c ≤ 57)) ∧ ∀ c ∈ l, isNumChar c = true

/-- The text of a document of at most this many levels. -/
def Derives : Nat → Bytes → JsonDoc → Prop
  | 0, _, _ => False
  | _ + 1, s, .null => s = lit "null"
  | _ + 1, s, .bool b => s = if b then lit "true" else lit "false"
  | _ + 1, s, .num l => s = l ∧ ScannedNumber l
  | _ + 1, s, .str ps => s = quoted ps ∧ ∀ p ∈ ps, p.Valid
  | n + 1, s, .arr items => ∃ x, s = 91 :: x ∧ Bracketed (Padded (Derives n)) 93 x items
  | n + 1, s, .obj keys vals => keys.length = vals.length ∧
      ∃ x, s = 123 :: x ∧ Bracketed (Member (Derives n)) 125 x (keys.zip vals)

/-- More levels may be used. -/
theorem Derives.succ : ∀ {n : Nat} {s : Bytes} {doc : JsonDoc}, Derives n s doc →
    Derives (n + 1) s doc
  | 0, _, _, h => h.elim
  | n + 1, s, doc, h => by
      cases doc with
      | null | bool | num | str => exact h
      | arr items =>
          obtain ⟨x, hs, hx⟩ := h
          exact ⟨x, hs, hx.imp (Padded.imp Derives.succ)⟩
      | obj keys vals =>
          obtain ⟨hlen, x, hs, hx⟩ := h
          exact ⟨hlen, x, hs, hx.imp (Member.imp Derives.succ)⟩

theorem Derives.mono {m n : Nat} (hmn : m ≤ n) {s : Bytes} {doc : JsonDoc} (h : Derives m s doc) :
    Derives n s doc := by
  induction hmn with
  | refl => exact h
  | step _ ih => exact ih.succ

/-- A number goes on as long as it can. -/
def Ends (doc : JsonDoc) (rest : Bytes) : Prop :=
  ∀ l, doc = .num l → ∀ c ∈ rest.head?, isNumChar c = false

-- ============================================================================
-- Reading strings
-- ============================================================================

/-- The pieces of a string behind its opening quote, and what follows it. -/
def readString : Bytes → Option (List StrPiece × Bytes)
  | [] => none
  | c :: s =>
      if c = chQuote then some ([], s)
      else if c ≠ chBackslash then (readString s).map fun r => (.raw c :: r.1, r.2)
      else
        match s with
        | [] => none
        | e :: s =>
            if e = 117 then
              match s with
              | a :: b :: c :: d :: s =>
                  (hex4 a b c d).bind fun _ =>
                    (readString s).map fun r => (.unit a b c d :: r.1, r.2)
              | _ => none
            else
              (simpleEscape e).bind fun _ => (readString s).map fun r => (.escape e :: r.1, r.2)

theorem readString_sound (s : Bytes) : ∀ {ps : List StrPiece} {rest : Bytes},
    readString s = some (ps, rest) →
      s = ps.flatMap StrPiece.bytes ++ chQuote :: rest ∧ ∀ p ∈ ps, p.Valid := by
  fun_induction readString s with
  | case1 => exact fun h => (by cases h)
  | case2 s =>
      intro ps rest h
      cases h
      exact ⟨rfl, fun p hp => absurd hp List.not_mem_nil⟩
  | case3 c s hquote hback ih =>
      intro ps rest h
      obtain ⟨⟨qs, rest'⟩, hr, heq⟩ := Option.map_eq_some_iff.mp h
      cases heq
      obtain ⟨rfl, hvalid⟩ := ih hr
      refine ⟨rfl, fun p hp => ?_⟩
      rcases List.mem_cons.mp hp with rfl | hp
      · exact ⟨hquote, hback⟩
      · exact hvalid p hp
  | case4 => exact fun h => (by cases h)
  | case5 bs hquote hback a b c d s ih =>
      intro ps rest h
      obtain ⟨cp, hcp, hmap⟩ := Option.bind_eq_some_iff.mp h
      obtain ⟨⟨qs, rest'⟩, hr, heq⟩ := Option.map_eq_some_iff.mp hmap
      cases heq
      obtain ⟨rfl, hvalid⟩ := ih hr
      obtain rfl := not_not.mp hback
      refine ⟨rfl, fun p hp => ?_⟩
      rcases List.mem_cons.mp hp with rfl | hp
      · exact Option.isSome_iff_exists.mpr ⟨cp, hcp⟩
      · exact hvalid p hp
  | case6 => exact fun h => (by cases h)
  | case7 bs hquote hback e s hu ih =>
      intro ps rest h
      obtain ⟨b, hb, hmap⟩ := Option.bind_eq_some_iff.mp h
      obtain ⟨⟨qs, rest'⟩, hr, heq⟩ := Option.map_eq_some_iff.mp hmap
      cases heq
      obtain ⟨rfl, hvalid⟩ := ih hr
      obtain rfl := not_not.mp hback
      refine ⟨rfl, fun p hp => ?_⟩
      rcases List.mem_cons.mp hp with rfl | hp
      · exact Option.isSome_iff_exists.mpr ⟨b, hb⟩
      · exact hvalid p hp

theorem readString_complete : ∀ {ps : List StrPiece}, (∀ p ∈ ps, p.Valid) → ∀ rest : Bytes,
    readString (ps.flatMap StrPiece.bytes ++ chQuote :: rest) = some (ps, rest)
  | [], _, rest => by
      rw [List.flatMap_nil, List.nil_append, readString.eq_def]
      exact if_pos rfl
  | p :: ps, h, rest => by
      have ih := readString_complete (fun q hq => h q (List.mem_cons_of_mem p hq)) rest
      have hp := h p List.mem_cons_self
      rw [List.flatMap_cons, List.append_assoc]
      cases p with
      | raw b =>
          show readString (b :: (ps.flatMap StrPiece.bytes ++ chQuote :: rest)) = _
          rw [readString.eq_def]
          dsimp only
          rw [if_neg hp.1, if_pos hp.2, ih]
          rfl
      | escape e =>
          obtain ⟨b, hb⟩ := Option.isSome_iff_exists.mp hp
          have hu : e ≠ 117 := by
            rintro rfl
            cases hb
          show readString (chBackslash :: e :: (ps.flatMap StrPiece.bytes ++ chQuote :: rest)) = _
          rw [readString.eq_def]
          dsimp only
          rw [if_neg (by decide), if_neg (by decide), if_neg hu, hb, Option.bind_some, ih]
          rfl
      | unit a b c d =>
          obtain ⟨cp, hcp⟩ := Option.isSome_iff_exists.mp hp
          show readString (chBackslash :: 117 :: a :: b :: c :: d ::
            (ps.flatMap StrPiece.bytes ++ chQuote :: rest)) = _
          rw [readString.eq_def]
          dsimp only
          rw [if_neg (by decide), if_neg (by decide), if_pos rfl, hcp, Option.bind_some, ih]
          rfl

-- ============================================================================
-- Reading lists
-- ============================================================================

theorem skipWs_append {ws s : Bytes} (h : IsWs ws) : skipWs (ws ++ s) = skipWs s := by
  rw [skipWs, skipWs, List.dropWhile_append_of_pos h]

/-- A text is its white space and what is left without it. -/
theorem skipWs_split (s : Bytes) : ∃ ws, IsWs ws ∧ s = ws ++ skipWs s :=
  ⟨s.takeWhile isJsonWs, fun _ hc => List.mem_takeWhile_imp hc, List.takeWhile_append_dropWhile.symm⟩

theorem skipWs_cons {c : UInt8} {s : Bytes} (h : isJsonWs c = false) :
    skipWs (c :: s) = c :: s := by
  rw [skipWs, List.dropWhile_cons, if_neg (by rw [h]; exact Bool.false_ne_true)]

section Lists

variable {α : Type}

/-- The loop over elements. -/
def readElems (elem : Bytes → Option (α × Bytes)) (close : UInt8) :
    Nat → Bytes → Option (List α × Bytes)
  | 0, _ => none
  | fuel + 1, s =>
      match elem s with
      | none => none
      | some (x, s) =>
          match skipWs s with
          | [] => none
          | c :: s =>
              if c = chComma then (readElems elem close fuel s).map fun r => (x :: r.1, r.2)
              else if c = close then some ([x], s)
              else none

def readList (elem : Bytes → Option (α × Bytes)) (close : UInt8) (s : Bytes) :
    Option (List α × Bytes) :=
  match skipWs s with
  | [] => none
  | c :: rest =>
      if c = close then some ([], rest)
      else readElems elem close ((c :: rest).length + 1) (c :: rest)

def readMember (value : Bytes → Option (α × Bytes)) (s : Bytes) :
    Option ((List StrPiece × α) × Bytes) :=
  match skipWs s with
  | [] => none
  | c :: s =>
      if c ≠ chQuote then none
      else
        (readString s).bind fun (k, s) =>
          match skipWs s with
          | [] => none
          | c :: s => if c = chColon then (value s).map fun r => ((k, r.1), r.2) else none

/-- A reader of the elements of a list: it finds them, and their texts are
    told apart from the end of the list by their first character. -/
structure ElemReader (elem : Bytes → Option (α × Bytes)) (P : Bytes → α → Prop)
    (close : UInt8) : Prop where
  sound : ∀ {s a rest}, elem s = some (a, rest) →
    ∃ x, s = x ++ rest ∧ ∀ ws, IsWs ws → P (x ++ ws) a
  complete : ∀ {x a c}, P x a → isNumChar c = false → ∀ s, ∃ ws, IsWs ws ∧
    elem (x ++ c :: s) = some (a, ws ++ c :: s)
  pad : ∀ {ws x a}, IsWs ws → P x a → P (ws ++ x) a
  start : ∀ {x a}, P x a → ∃ ws c y, IsWs ws ∧ isJsonWs c = false ∧ c ≠ close ∧
    x = ws ++ c :: y ∧ P (c :: y) a

/-- What may close a list. -/
structure Closes (close : UInt8) : Prop where
  comma : close ≠ chComma
  num : isNumChar close = false
  ws : isJsonWs close = false

variable {elem : Bytes → Option (α × Bytes)} {P : Bytes → α → Prop} {close : UInt8}

theorem readElems_sound (h : ElemReader elem P close) : ∀ {fuel : Nat} {s : Bytes} {as : List α}
    {rest : Bytes}, readElems elem close fuel s = some (as, rest) →
      ∃ xs, Listed P xs as ∧ s = xs ++ close :: rest := by
  intro fuel
  induction fuel with
  | zero => exact fun hr => (by cases hr)
  | succ fuel ih =>
      intro s as rest hr
      rw [readElems] at hr
      split at hr
      · cases hr
      · rename_i a s₁ helem
        obtain ⟨x, rfl, hx⟩ := h.sound helem
        obtain ⟨ws, hws, hsplit⟩ := skipWs_split s₁
        split at hr
        · cases hr
        · rename_i c s₂ hskip
          rw [hskip] at hsplit
          split at hr
          · rename_i hc
            obtain ⟨⟨as', rest'⟩, hrest, heq⟩ := Option.map_eq_some_iff.mp hr
            cases heq
            obtain ⟨xs, hlist, rfl⟩ := ih hrest
            refine ⟨_, .more (hx ws hws) hlist, ?_⟩
            rw [hsplit, hc]
            simp only [List.append_assoc, List.cons_append]
          · split at hr
            · rename_i hc
              cases hr
              refine ⟨_, .one (hx ws hws), ?_⟩
              rw [hsplit, hc, List.append_assoc]
            · cases hr

theorem readElems_complete (h : ElemReader elem P close) (hclose : Closes close) {xs : Bytes}
    {as : List α} (hlist : Listed P xs as) (rest : Bytes) : ∀ {fuel : Nat}, xs.length < fuel →
      readElems elem close fuel (xs ++ close :: rest) = some (as, rest) := by
  induction hlist with
  | one hx =>
      intro fuel hfuel
      obtain ⟨fuel, rfl⟩ := Nat.exists_eq_succ_of_ne_zero (Nat.ne_of_gt (Nat.zero_lt_of_lt hfuel))
      obtain ⟨ws, hws, helem⟩ := h.complete hx hclose.num rest
      rw [readElems, helem]
      dsimp only
      rw [skipWs_append hws, skipWs_cons hclose.ws]
      dsimp only
      rw [if_neg hclose.comma, if_pos rfl]
  | @more x xs a as hx _ ih =>
      intro fuel hfuel
      obtain ⟨fuel, rfl⟩ := Nat.exists_eq_succ_of_ne_zero (Nat.ne_of_gt (Nat.zero_lt_of_lt hfuel))
      rw [List.length_append, List.length_cons] at hfuel
      obtain ⟨ws, hws, helem⟩ := h.complete hx (c := chComma) (by decide) (xs ++ close :: rest)
      rw [List.append_assoc, List.cons_append, readElems, helem]
      dsimp only
      rw [skipWs_append hws, skipWs_cons (by decide)]
      dsimp only
      rw [if_pos rfl, ih (by omega)]
      rfl

theorem Listed.pad (h : ElemReader elem P close) {ws xs : Bytes} {as : List α} (hws : IsWs ws)
    (hlist : Listed P xs as) : Listed P (ws ++ xs) as := by
  cases hlist with
  | one hx => exact .one (h.pad hws hx)
  | more hx hs =>
      rw [← List.append_assoc]
      exact .more (h.pad hws hx) hs

theorem Listed.start (h : ElemReader elem P close) {xs : Bytes} {as : List α}
    (hlist : Listed P xs as) : ∃ ws c y, IsWs ws ∧ isJsonWs c = false ∧ c ≠ close ∧
      xs = ws ++ c :: y ∧ Listed P (c :: y) as := by
  cases hlist with
  | one hx =>
      obtain ⟨ws, c, y, hws, hc, hne, rfl, hy⟩ := h.start hx
      exact ⟨ws, c, y, hws, hc, hne, rfl, .one hy⟩
  | @more x xs a as hx hs =>
      obtain ⟨ws, c, y, hws, hc, hne, rfl, hy⟩ := h.start hx
      refine ⟨ws, c, y ++ chComma :: xs, hws, hc, hne, ?_, .more hy hs⟩
      rw [List.append_assoc, List.cons_append]

theorem readList_sound (h : ElemReader elem P close) {s : Bytes} {as : List α} {rest : Bytes}
    (hr : readList elem close s = some (as, rest)) :
    ∃ x, Bracketed P close x as ∧ s = x ++ rest := by
  obtain ⟨ws, hws, hsplit⟩ := skipWs_split s
  rw [readList] at hr
  split at hr
  · cases hr
  · rename_i c r hskip
    rw [hskip] at hsplit
    split at hr
    · rename_i hc
      cases hr
      refine ⟨_, .empty hws, ?_⟩
      rw [hsplit, hc, List.append_assoc]
      rfl
    · obtain ⟨xs, hlist, heq⟩ := readElems_sound h hr
      refine ⟨_, .full (hlist.pad h hws), ?_⟩
      rw [hsplit, heq]
      simp only [List.append_assoc, List.cons_append, List.nil_append]

theorem readList_complete (h : ElemReader elem P close) (hclose : Closes close) {x : Bytes}
    {as : List α} (hx : Bracketed P close x as) (rest : Bytes) :
    readList elem close (x ++ rest) = some (as, rest) := by
  cases hx with
  | @empty ws hws =>
      rw [List.append_assoc, readList, skipWs_append hws, List.singleton_append,
        skipWs_cons hclose.ws]
      dsimp only
      rw [if_pos rfl]
  | @full xs as hlist =>
      obtain ⟨ws, c, y, hws, hc, hne, rfl, hy⟩ := hlist.start h
      rw [List.append_assoc, List.append_assoc, List.singleton_append, readList,
        skipWs_append hws, List.cons_append, skipWs_cons hc]
      dsimp only
      rw [if_neg hne, ← List.cons_append]
      refine readElems_complete h hclose hy rest ?_
      rw [List.length_append]
      omega

end Lists

-- ============================================================================
-- Reading documents
-- ============================================================================

def readWord (word : Bytes) (doc : JsonDoc) (s : Bytes) : Option (JsonDoc × Bytes) :=
  if word.isPrefixOf s then some (doc, s.drop word.length) else none

/-- A reader of documents that keeps them whole. -/
def readDoc : Nat → Bytes → Option (JsonDoc × Bytes)
  | 0, _ => none
  | n + 1, s =>
      match skipWs s with
      | [] => none
      | c :: s =>
          if c = 123 then
            (readList (readMember (readDoc n)) 125 s).map fun r =>
              (.obj (r.1.map Prod.fst) (r.1.map Prod.snd), r.2)
          else if c = 91 then (readList (readDoc n) 93 s).map fun r => (.arr r.1, r.2)
          else if c = chQuote then (readString s).map fun r => (.str r.1, r.2)
          else if c = 116 then readWord (lit "true") (.bool true) (c :: s)
          else if c = 102 then readWord (lit "false") (.bool false) (c :: s)
          else if c = 110 then readWord (lit "null") .null (c :: s)
          else if c = 45 ∨ (48 ≤ c ∧ c ≤ 57) then
            some (.num ((c :: s).takeWhile isNumChar), (c :: s).dropWhile isNumChar)
          else none

/-- The reader finds the documents of texts. -/
structure DocReader (n : Nat) : Prop where
  sound : ∀ {s doc rest}, readDoc n s = some (doc, rest) →
    ∃ ws x, IsWs ws ∧ Derives n x doc ∧ Ends doc rest ∧ s = ws ++ (x ++ rest)
  complete : ∀ {ws x doc rest}, IsWs ws → Derives n x doc → Ends doc rest →
    readDoc n (ws ++ (x ++ rest)) = some (doc, rest)

theorem isJsonWs_iff {c : UInt8} : isJsonWs c = true ↔ c = 32 ∨ c = 9 ∨ c = 10 ∨ c = 13 := by
  simp only [isJsonWs, Bool.or_eq_true, beq_iff_eq, or_assoc]

/-- Texts begin with no white space, and not as the end of a list. -/
theorem Derives.start : ∀ {n : Nat} {x : Bytes} {doc : JsonDoc}, Derives n x doc →
    ∃ c y, x = c :: y ∧ isJsonWs c = false ∧ c ≠ 93
  | 0, _, _, h => h.elim
  | n + 1, x, doc, h => by
      cases doc with
      | null =>
          obtain rfl : x = lit "null" := h
          exact ⟨110, lit "ull", rfl, by decide, by decide⟩
      | bool b =>
          obtain rfl : x = if b then lit "true" else lit "false" := h
          cases b with
          | true => exact ⟨116, lit "rue", rfl, by decide, by decide⟩
          | false => exact ⟨102, lit "alse", rfl, by decide, by decide⟩
      | num l =>
          obtain ⟨rfl, ⟨c, hc, hfirst⟩, -⟩ := h
          obtain ⟨y, rfl⟩ := List.head?_eq_some_iff.mp hc
          refine ⟨c, y, rfl, ?_⟩
          rcases hfirst with rfl | ⟨hlo, hhi⟩
          · exact ⟨by decide, by decide⟩
          · refine ⟨Bool.eq_false_iff.mpr fun hws => ?_, ?_⟩
            · rcases isJsonWs_iff.mp hws with rfl | rfl | rfl | rfl <;>
                exact absurd hlo (by decide)
            · rintro rfl
              exact absurd hhi (by decide)
      | str ps =>
          obtain ⟨rfl, -⟩ := h
          exact ⟨chQuote, _, rfl, by decide, by decide⟩
      | arr items =>
          obtain ⟨y, rfl, -⟩ := h
          exact ⟨91, y, rfl, by decide, by decide⟩
      | obj keys vals =>
          obtain ⟨-, y, rfl, -⟩ := h
          exact ⟨123, y, rfl, by decide, by decide⟩

/-- White space ends a number. -/
theorem ends_append {ws s : Bytes} {c : UInt8} (hws : IsWs ws) (hc : isNumChar c = false)
    (doc : JsonDoc) : Ends doc (ws ++ c :: s) := by
  intro l _ d hd
  cases ws with
  | nil =>
      obtain rfl : c = d := by simpa using hd
      exact hc
  | cons w ws =>
      obtain rfl : w = d := by simpa using hd
      rcases isJsonWs_iff.mp (hws w List.mem_cons_self) with rfl | rfl | rfl | rfl <;> decide

theorem IsWs.append {s t : Bytes} (hs : IsWs s) (ht : IsWs t) : IsWs (s ++ t) :=
  fun c hc => (List.mem_append.mp hc).elim (hs c) (ht c)

theorem isWs_nil : IsWs [] := fun _ hc => absurd hc List.not_mem_nil

theorem DocReader.items {n : Nat} (h : DocReader n) :
    ElemReader (readDoc n) (Padded (Derives n)) 93 where
  sound := by
    intro s doc rest hr
    obtain ⟨ws, x, hws, hx, -, rfl⟩ := h.sound hr
    refine ⟨ws ++ x, (List.append_assoc _ _ _).symm, fun ws' hws' => ?_⟩
    rw [List.append_assoc]
    exact .mk hws hx hws'
  complete := by
    rintro _ doc c ⟨hb, hx, ha⟩ hc s
    refine ⟨_, ha, ?_⟩
    rw [List.append_assoc, List.append_assoc]
    exact h.complete hb hx (ends_append ha hc doc)
  pad := by
    rintro ws _ doc hws ⟨hb, hx, ha⟩
    rw [← List.append_assoc]
    exact .mk (hws.append hb) hx ha
  start := by
    rintro _ doc ⟨hb, hx, ha⟩
    obtain ⟨c, y, rfl, hc, hne⟩ := hx.start
    exact ⟨_, c, _, hb, hc, hne, rfl, .mk isWs_nil hx ha⟩

theorem quoted_append (key : List StrPiece) (s : Bytes) :
    quoted key ++ s = chQuote :: (key.flatMap StrPiece.bytes ++ chQuote :: s) := by
  rw [quoted, List.cons_append, List.append_assoc]
  rfl

theorem DocReader.members {n : Nat} (h : DocReader n) :
    ElemReader (readMember (readDoc n)) (Member (Derives n)) 125 where
  sound := by
    intro s m rest hr
    obtain ⟨before, hb, hsplit⟩ := skipWs_split s
    rw [readMember] at hr
    split at hr
    · cases hr
    · rename_i c s₁ hskip
      rw [hskip] at hsplit
      split at hr
      · cases hr
      · rename_i hquote
        obtain ⟨⟨key, s₂⟩, hstr, hrest⟩ := Option.bind_eq_some_iff.mp hr
        obtain ⟨rfl, hkey⟩ := readString_sound _ hstr
        obtain ⟨after, ha, hsplit'⟩ := skipWs_split s₂
        dsimp only at hrest
        split at hrest
        · cases hrest
        · rename_i d s₃ hskip'
          rw [hskip'] at hsplit'
          split at hrest
          · rename_i hcolon
            obtain ⟨⟨doc, rest'⟩, hdoc, heq⟩ := Option.map_eq_some_iff.mp hrest
            cases heq
            obtain ⟨ws, x, hws, hx, -, rfl⟩ := h.sound hdoc
            obtain rfl := not_not.mp hquote
            refine ⟨before ++ (quoted key ++ (after ++ chColon :: (ws ++ x))), ?_, fun ws' hws' => ?_⟩
            · rw [hsplit, hsplit', hcolon]
              simp only [List.append_assoc, List.cons_append, quoted_append]
            · have hpad : Padded (Derives n) (ws ++ (x ++ ws')) doc := .mk hws hx hws'
              have hm := Member.mk hb hkey ha hpad
              simp only [List.append_assoc, List.cons_append] at hm ⊢
              exact hm
          · cases hrest
  complete := by
    rintro _ _ c ⟨hb, hkey, ha, hws, hx, hws'⟩ hc s
    refine ⟨_, hws', ?_⟩
    rw [List.append_assoc, List.append_assoc, readMember, skipWs_append hb, quoted_append,
      skipWs_cons (by decide)]
    dsimp only
    rw [if_neg (by decide), readString_complete hkey, Option.bind_some]
    dsimp only
    rw [List.append_assoc, skipWs_append ha, List.cons_append, skipWs_cons (by decide)]
    dsimp only
    rw [if_pos rfl, List.append_assoc, List.append_assoc,
      h.complete hws hx (ends_append hws' hc _)]
    rfl
  pad := by
    rintro ws _ _ hws ⟨hb, hkey, ha, hx⟩
    rw [← List.append_assoc]
    exact .mk (hws.append hb) hkey ha hx
  start := by
    rintro _ _ ⟨hb, hkey, ha, hx⟩
    refine ⟨_, chQuote, _, hb, by decide, by decide, ?_, .mk isWs_nil hkey ha hx⟩
    rfl

theorem closes_arr : Closes 93 := ⟨by decide, by decide, by decide⟩

theorem closes_obj : Closes 125 := ⟨by decide, by decide, by decide⟩

theorem readWord_sound {word s rest : Bytes} {doc doc' : JsonDoc}
    (h : readWord word doc s = some (doc', rest)) : doc' = doc ∧ s = word ++ rest := by
  rw [readWord] at h
  split at h
  · rename_i hpre
    cases h
    obtain ⟨t, rfl⟩ := List.isPrefixOf_iff_prefix.mp hpre
    exact ⟨rfl, by rw [List.drop_left]⟩
  · cases h

theorem readWord_complete (word rest : Bytes) (doc : JsonDoc) :
    readWord word doc (word ++ rest) = some (doc, rest) := by
  rw [readWord, if_pos (List.isPrefixOf_iff_prefix.mpr (List.prefix_append _ _)), List.drop_left]

theorem docReader_sound {n : Nat} (ih : DocReader n) {s : Bytes} {doc : JsonDoc} {rest : Bytes}
    (h : readDoc (n + 1) s = some (doc, rest)) :
    ∃ ws x, IsWs ws ∧ Derives (n + 1) x doc ∧ Ends doc rest ∧ s = ws ++ (x ++ rest) := by
  obtain ⟨ws, hws, hsplit⟩ := skipWs_split s
  rw [readDoc] at h
  split at h
  · cases h
  · rename_i c s₁ hskip
    rw [hskip] at hsplit
    split at h
    · rename_i hc
      obtain ⟨⟨ms, rest'⟩, hlist, heq⟩ := Option.map_eq_some_iff.mp h
      cases heq
      obtain ⟨x, hx, rfl⟩ := readList_sound ih.members hlist
      refine ⟨ws, 123 :: x, hws, ⟨by simp, x, rfl, ?_⟩, fun l hl => (by cases hl), ?_⟩
      · rw [← List.unzip_fst, ← List.unzip_snd, List.zip_unzip]
        exact hx
      · rw [hsplit, hc]
        rfl
    split at h
    · rename_i hc
      obtain ⟨⟨items, rest'⟩, hlist, heq⟩ := Option.map_eq_some_iff.mp h
      cases heq
      obtain ⟨x, hx, rfl⟩ := readList_sound ih.items hlist
      refine ⟨ws, 91 :: x, hws, ⟨x, rfl, hx⟩, fun l hl => (by cases hl), ?_⟩
      rw [hsplit, hc]
      rfl
    split at h
    · rename_i hc
      obtain ⟨⟨ps, rest'⟩, hstr, heq⟩ := Option.map_eq_some_iff.mp h
      cases heq
      obtain ⟨rfl, hps⟩ := readString_sound _ hstr
      refine ⟨ws, quoted ps, hws, ⟨rfl, hps⟩, fun l hl => (by cases hl), ?_⟩
      rw [hsplit, hc, quoted_append]
    split at h
    · obtain ⟨rfl, heq⟩ := readWord_sound h
      exact ⟨ws, lit "true", hws, rfl, fun l hl => (by cases hl), by rw [hsplit, heq]⟩
    split at h
    · obtain ⟨rfl, heq⟩ := readWord_sound h
      exact ⟨ws, lit "false", hws, rfl, fun l hl => (by cases hl), by rw [hsplit, heq]⟩
    split at h
    · obtain ⟨rfl, heq⟩ := readWord_sound h
      exact ⟨ws, lit "null", hws, rfl, fun l hl => (by cases hl), by rw [hsplit, heq]⟩
    split at h
    · rename_i hc
      cases h
      have hcnum : isNumChar c = true := by
        rcases hc with rfl | ⟨hlo, hhi⟩
        · rfl
        · simp [isNumChar, hlo, hhi]
      refine ⟨ws, (c :: s₁).takeWhile isNumChar, hws, ⟨rfl, ⟨c, ?_, hc⟩, fun d hd =>
        List.mem_takeWhile_imp hd⟩, ?_, ?_⟩
      · rw [List.takeWhile_cons, if_pos hcnum]
        rfl
      · intro l _ d hd
        have hhead := List.head?_dropWhile_not isNumChar (c :: s₁)
        rw [Option.mem_def.mp hd] at hhead
        simpa using hhead
      · rw [List.takeWhile_append_dropWhile]
        exact hsplit
    · cases h

/-- A number character that begins a number begins nothing else. -/
theorem number_start {c : UInt8} (h : c = 45 ∨ (48 ≤ c ∧ c ≤ 57)) :
    c ≠ 123 ∧ c ≠ 91 ∧ c ≠ chQuote ∧ c ≠ 116 ∧ c ≠ 102 ∧ c ≠ 110 := by
  refine ⟨?_, ?_, ?_, ?_, ?_, ?_⟩ <;>
    · rintro rfl
      revert h
      decide

theorem docReader_complete {n : Nat} (ih : DocReader n) {ws x rest : Bytes} {doc : JsonDoc}
    (hws : IsWs ws) (hx : Derives (n + 1) x doc) (hends : Ends doc rest) :
    readDoc (n + 1) (ws ++ (x ++ rest)) = some (doc, rest) := by
  obtain ⟨c, y, rfl, hc, -⟩ := hx.start
  rw [readDoc, skipWs_append hws, List.cons_append, skipWs_cons hc]
  dsimp only
  cases doc with
  | null =>
      have hword : c :: y = lit "null" := hx
      obtain ⟨rfl, rfl⟩ :=
        List.cons_eq_cons.mp (hword.trans (show lit "null" = 110 :: lit "ull" from rfl))
      exact readWord_complete (lit "null") rest .null
  | bool b =>
      have hword : c :: y = if b then lit "true" else lit "false" := hx
      cases b with
      | true =>
          obtain ⟨rfl, rfl⟩ :=
            List.cons_eq_cons.mp (hword.trans (show lit "true" = 116 :: lit "rue" from rfl))
          exact readWord_complete (lit "true") rest (.bool true)
      | false =>
          obtain ⟨rfl, rfl⟩ :=
            List.cons_eq_cons.mp (hword.trans (show lit "false" = 102 :: lit "alse" from rfl))
          exact readWord_complete (lit "false") rest (.bool false)
  | num l =>
      obtain ⟨rfl, ⟨d, hd, hfirst⟩, hall⟩ := hx
      obtain rfl : c = d := by simpa using hd
      obtain ⟨h1, h2, h3, h4, h5, h6⟩ := number_start hfirst
      rw [if_neg h1, if_neg h2, if_neg h3, if_neg h4, if_neg h5, if_neg h6, if_pos hfirst,
        ← List.cons_append, List.takeWhile_append_of_pos hall, List.dropWhile_append_of_pos hall]
      have hstop : rest.takeWhile isNumChar = [] ∧ rest.dropWhile isNumChar = rest := by
        cases rest with
        | nil => exact ⟨rfl, rfl⟩
        | cons e rest =>
            have he := hends _ rfl e rfl
            rw [List.takeWhile_cons, List.dropWhile_cons, if_neg (by rw [he]; decide),
              if_neg (by rw [he]; decide)]
            exact ⟨rfl, rfl⟩
      rw [hstop.1, hstop.2, List.append_nil]
  | str ps =>
      obtain ⟨hq, hps⟩ := hx
      obtain ⟨rfl, rfl⟩ := List.cons_eq_cons.mp hq
      rw [if_neg (by decide), if_neg (by decide), if_pos rfl, List.append_assoc,
        List.singleton_append, readString_complete hps]
      rfl
  | arr items =>
      obtain ⟨x, hbr, hitems⟩ := hx
      obtain ⟨rfl, rfl⟩ := List.cons_eq_cons.mp hbr
      rw [if_neg (by decide), if_pos rfl, readList_complete ih.items closes_arr hitems]
      rfl
  | obj keys vals =>
      obtain ⟨hlen, x, hbr, hmembers⟩ := hx
      obtain ⟨rfl, rfl⟩ := List.cons_eq_cons.mp hbr
      rw [if_pos rfl, readList_complete ih.members closes_obj hmembers, Option.map_some,
        List.map_fst_zip (le_of_eq hlen), List.map_snd_zip (le_of_eq hlen.symm)]

theorem docReader : ∀ n : Nat, DocReader n
  | 0 => ⟨fun h => (by cases h), fun _ hx _ => hx.elim⟩
  | n + 1 => ⟨docReader_sound (docReader n), docReader_complete (docReader n)⟩

/-- A text has one document behind its white space, and it ends in one place. -/
theorem Derives.unique {m n : Nat} {ws ws' x x' rest rest' : Bytes} {doc doc' : JsonDoc}
    (hws : IsWs ws) (hx : Derives m x doc) (hends : Ends doc rest) (hws' : IsWs ws')
    (hx' : Derives n x' doc') (hends' : Ends doc' rest')
    (h : ws ++ (x ++ rest) = ws' ++ (x' ++ rest')) : doc = doc' ∧ rest = rest' := by
  have hread := (docReader (max m n)).complete hws (hx.mono (le_max_left m n)) hends
  have hread' := (docReader (max m n)).complete hws' (hx'.mono (le_max_right m n)) hends'
  rw [h, hread', Option.some.injEq, Prod.mk.injEq] at hread
  exact ⟨hread.1.symm, hread.2.symm⟩

-- ============================================================================
-- What the parser makes of a document
-- ============================================================================

/-- The bytes a piece of a string leaves in the parser's buffer. -/
def StrPiece.code : StrPiece → Bytes
  | .raw b => [b]
  | .escape e => (simpleEscape e).toList
  | .unit a b c d => ((hex4 a b c d).map encodeUnit).getD []

def codeString (ps : List StrPiece) : Bytes := ps.flatMap StrPiece.code

mutual

/-- The value that the parser returns for a document. -/
def JsonDoc.code : JsonDoc → NtcJson
  | .null => .null
  | .bool b => .bool b
  | .num l => .num (l.take 63)
  | .str ps => .str (codeString ps)
  | .arr items => .arr ((JsonDoc.codes items).take ntcJsonMaxMembers)
  | .obj keys vals => .obj ((keys.map codeString).take ntcJsonMaxMembers)
      ((JsonDoc.codes vals).take ntcJsonMaxMembers)

def JsonDoc.codes : List JsonDoc → List NtcJson
  | [] => []
  | doc :: docs => doc.code :: JsonDoc.codes docs

end

theorem JsonDoc.codes_eq : ∀ docs : List JsonDoc, JsonDoc.codes docs = docs.map JsonDoc.code
  | [] => rfl
  | doc :: docs => by rw [JsonDoc.codes, codes_eq docs, List.map_cons]

theorem parseString_eq (s : Bytes) :
    parseString s = (readString s).map fun r => (codeString r.1, r.2) := by
  fun_induction readString s with
  | case1 => rfl
  | case2 s =>
      rw [parseString.eq_def]
      exact if_pos rfl
  | case3 c s hquote hback ih =>
      rw [parseString.eq_def]
      dsimp only
      rw [if_neg hquote, if_pos hback, ih, Option.map_map, Option.map_map]
      rfl
  | case4 c hquote hback =>
      rw [parseString.eq_def]
      dsimp only
      rw [if_neg hquote, if_neg hback]
      rfl
  | case5 bs hquote hback a b c d s ih =>
      rw [parseString.eq_def]
      dsimp only
      rw [if_neg hquote, if_neg hback, if_pos rfl, ih]
      cases hcp : hex4 a b c d with
      | none => rfl
      | some cp =>
          rw [Option.bind_some, Option.bind_some, Option.map_map, Option.map_map]
          refine congrArg (fun f => (readString s).map f) (funext fun r => ?_)
          simp only [Function.comp_apply, codeString, List.flatMap_cons, StrPiece.code, hcp,
            Option.map_some, Option.getD_some]
  | case6 bs hquote hback s hshort =>
      rw [parseString.eq_def]
      dsimp only
      rw [if_neg hquote, if_neg hback, if_pos rfl]
      split
      · rename_i a b c d s
        exact absurd rfl (hshort a b c d s)
      · rfl
  | case7 bs hquote hback e s hu ih =>
      rw [parseString.eq_def]
      dsimp only
      rw [if_neg hquote, if_neg hback, if_neg hu, ih]
      cases hb : simpleEscape e with
      | none => rfl
      | some b =>
          rw [Option.bind_some, Option.bind_some, Option.map_map, Option.map_map]
          refine congrArg (fun f => (readString s).map f) (funext fun r => ?_)
          simp only [Function.comp_apply, codeString, List.flatMap_cons, StrPiece.code, hb,
            Option.toList_some, List.singleton_append]

section Lists

variable {α β : Type} {pe : Bytes → Option (β × Bytes)} {re : Bytes → Option (α × Bytes)}
  {f : α → β}

/-- The loop keeps the first elements. -/
theorem parseElems_eq (h : ∀ s, pe s = (re s).map fun r => (f r.1, r.2)) (close : UInt8) :
    ∀ (fuel k : Nat) (s : Bytes), parseElems pe close fuel k s =
      (readElems re close fuel s).map fun r => ((r.1.map f).take (ntcJsonMaxMembers - k), r.2) := by
  intro fuel
  induction fuel with
  | zero => exact fun k s => rfl
  | succ fuel ih =>
      intro k s
      rw [parseElems, readElems, h]
      cases re s with
      | none => rfl
      | some r =>
          obtain ⟨x, s₁⟩ := r
          dsimp only [Option.map_some]
          cases skipWs s₁ with
          | nil => rfl
          | cons c s₂ =>
              dsimp only
              by_cases hk : k < ntcJsonMaxMembers
              · have hleft : ntcJsonMaxMembers - k = ntcJsonMaxMembers - (k + 1) + 1 := by omega
                rw [if_pos hk, hleft]
                split
                · rw [ih, Option.map_map, Option.map_map]
                  rfl
                · split
                  · rw [Option.map_some, List.map_singleton, List.take_succ_cons, List.take_nil]
                  · rfl
              · have hleft : ntcJsonMaxMembers - k = 0 := by omega
                rw [if_neg hk, hleft]
                split
                · rw [ih, Option.map_map, Option.map_map]
                  refine congrArg (fun f => Option.map f _) (funext fun r => ?_)
                  have hzero : ntcJsonMaxMembers - (k + ([] : List β).length) = 0 := hleft
                  simp only [Function.comp_apply, hzero, List.take_zero, List.nil_append]
                · split <;> rfl

theorem parseList_eq (h : ∀ s, pe s = (re s).map fun r => (f r.1, r.2)) (close : UInt8)
    (s : Bytes) : parseList pe close s =
      (readList re close s).map fun r => ((r.1.map f).take ntcJsonMaxMembers, r.2) := by
  rw [parseList, readList]
  cases skipWs s with
  | nil => rfl
  | cons c s =>
      dsimp only
      split
      · rfl
      · exact parseElems_eq h close _ 0 _

theorem parseMember_eq (h : ∀ s, pe s = (re s).map fun r => (f r.1, r.2)) (s : Bytes) :
    parseMember pe s =
      (readMember re s).map fun r => ((codeString r.1.1, f r.1.2), r.2) := by
  rw [parseMember, readMember]
  cases skipWs s with
  | nil => rfl
  | cons c s =>
      dsimp only
      split
      · rfl
      · rw [parseString_eq]
        cases readString s with
        | none => rfl
        | some r =>
            obtain ⟨key, s₁⟩ := r
            dsimp only [Option.map_some, Option.bind_some]
            cases skipWs s₁ with
            | nil => rfl
            | cons c s₂ =>
                dsimp only
                split
                · rw [h, Option.map_map, Option.map_map]
                  rfl
                · rfl

end Lists

theorem parseLiteral_eq (word : Bytes) (doc : JsonDoc) (s : Bytes) :
    parseLiteral word doc.code s = (readWord word doc s).map fun r => (r.1.code, r.2) := by
  rw [parseLiteral, readWord]
  split <;> rfl

/-- The parser is the reader, with what the parser drops left out. -/
theorem parseValue_eq : ∀ (n : Nat) (s : Bytes),
    parseValue n s = (readDoc n s).map fun r => (r.1.code, r.2) := by
  intro n
  induction n with
  | zero => exact fun s => rfl
  | succ n ih =>
      intro s
      rw [parseValue, readDoc]
      cases skipWs s with
      | nil => rfl
      | cons c s =>
          dsimp only
          split
          · rw [parseList_eq (f := fun m : List StrPiece × JsonDoc =>
                (codeString m.1, m.2.code)) (parseMember_eq ih), Option.map_map, Option.map_map]
            refine congrArg (fun f => Option.map f _) (funext fun r => ?_)
            simp only [Function.comp_apply, JsonDoc.code, JsonDoc.codes_eq, List.map_take,
              List.map_map]
            rfl
          split
          · rw [parseList_eq ih, Option.map_map, Option.map_map]
            refine congrArg (fun f => Option.map f _) (funext fun r => ?_)
            simp only [Function.comp_apply, JsonDoc.code, JsonDoc.codes_eq]
          split
          · rw [parseString_eq, Option.map_map, Option.map_map]
            rfl
          split
          · exact parseLiteral_eq _ (.bool true) _
          split
          · exact parseLiteral_eq _ (.bool false) _
          split
          · exact parseLiteral_eq _ .null _
          split <;> rfl

end Naitron
