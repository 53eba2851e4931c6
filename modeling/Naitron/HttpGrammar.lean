/-
  Naitron.HttpGrammar

  The grammar of a request head, and that `ntc_http_parse_request` accepts
  exactly the strings it describes.

  A head is a request line and header lines, cut at CRLF; it ends at the first
  CRLFCRLF of the buffer.  `HttpHead` is such a head taken apart, `Valid` says
  which ones are well formed, `request` what they denote.
-/

import Naitron.HttpRequest

namespace Naitron

-- ============================================================================
-- Occurrences
-- ============================================================================

/-- `pat` occurs in `s` at offset `i` and at no earlier one. -/
def FirstAt (pat s : Bytes) (i : Nat) : Prop := pat <+: s.drop i ∧ ∀ j < i, ¬ pat <+: s.drop j

theorem FirstAt.cons_zero {pat s : Bytes} (h : pat <+: s) : FirstAt pat s 0 :=
  ⟨h, fun _ hj => absurd hj (Nat.not_lt_zero _)⟩

/-- The first occurrence behind a byte at which there is none. -/
theorem firstAt_cons_succ {pat s : Bytes} {a : UInt8} {i : Nat} (h : ¬ pat <+: a :: s) :
    FirstAt pat (a :: s) (i + 1) ↔ FirstAt pat s i := by
  constructor
  · rintro ⟨hat, hfirst⟩
    exact ⟨hat, fun j hj => hfirst (j + 1) (Nat.succ_lt_succ hj)⟩
  · rintro ⟨hat, hfirst⟩
    refine ⟨hat, fun j hj => ?_⟩
    cases j with
    | zero => exact h
    | succ j => exact hfirst j (Nat.lt_of_succ_lt_succ hj)

theorem findEoh_iff : ∀ {buf : Bytes} {i : Nat},
    findEoh buf = some i ↔ FirstAt (crlf ++ crlf) buf i := by
  intro buf
  induction buf with
  | nil =>
      intro i
      rw [findEoh]
      refine ⟨fun h => ?_, fun h => ?_⟩
      · cases h
      · have hlen := h.1.length_le
        simp at hlen
  | cons a rest ih =>
      intro i
      rw [findEoh]
      by_cases hhere : crlf ++ crlf <+: a :: rest
      · rw [if_pos (List.isPrefixOf_iff_prefix.mpr hhere)]
        refine ⟨fun h => ?_, fun h => ?_⟩
        · cases h
          exact .cons_zero hhere
        · cases i with
          | zero => rfl
          | succ i => exact absurd hhere (h.2 0 (Nat.succ_pos i))
      · rw [if_neg fun h => hhere (List.isPrefixOf_iff_prefix.mp h)]
        cases i with
        | zero =>
            refine ⟨fun h => ?_, fun h => absurd h.1 hhere⟩
            obtain ⟨j, -, hj⟩ := Option.map_eq_some_iff.mp h
            cases hj
        | succ i =>
            rw [firstAt_cons_succ hhere, ← ih, Option.map_eq_some_iff]
            refine ⟨?_, fun h => ⟨i, h, rfl⟩⟩
            rintro ⟨j, hj, hij⟩
            cases hij
            exact hj

/-- No end of the head: CRLFCRLF occurs nowhere. -/
theorem findEoh_none_iff {buf : Bytes} : findEoh buf = none ↔ ¬ crlf ++ crlf <:+: buf := by
  induction buf with
  | nil =>
      refine ⟨fun _ h => ?_, fun _ => rfl⟩
      have hlen := h.length_le
      simp at hlen
  | cons a rest ih =>
      rw [findEoh, List.infix_cons_iff]
      by_cases hhere : crlf ++ crlf <+: a :: rest
      · rw [if_pos (List.isPrefixOf_iff_prefix.mpr hhere)]
        refine ⟨fun h => ?_, fun h => absurd (Or.inl hhere) h⟩
        cases h
      · rw [if_neg fun h => hhere (List.isPrefixOf_iff_prefix.mp h), Option.map_eq_none_iff, ih]
        exact ⟨fun h hor => hor.elim hhere h, fun h hin => h (Or.inr hin)⟩

-- ============================================================================
-- Lines
-- ============================================================================

/-- Text without a line end. -/
def NoCrlf (s : Bytes) : Prop := ¬ crlf <:+: s

/-- Lines, each with its line end. -/
def unlines (ls : List Bytes) : Bytes := ls.flatMap (· ++ crlf)

/-- `find_crlf` finds the end of a line. -/
theorem findCrlf_line : ∀ (l : Bytes), NoCrlf l → ∀ rest : Bytes,
    findCrlf (l ++ (crlf ++ rest)) = some l.length
  | [], _, _ => rfl
  | [a], _, rest => by
      have hne : ¬ (a = chCr ∧ chCr = chLf) := fun h => absurd h.2 (by decide)
      show findCrlf (a :: chCr :: chLf :: rest) = some 1
      rw [findCrlf, if_neg hne]
      rfl
  | a :: b :: l, h, rest => by
      have hne : ¬ (a = chCr ∧ b = chLf) := by
        rintro ⟨rfl, rfl⟩
        exact h ⟨[], l, rfl⟩
      have hl : NoCrlf (b :: l) := fun hin => h (hin.trans (List.suffix_cons a (b :: l)).isInfix)
      have ih := findCrlf_line (b :: l) hl rest
      show findCrlf (a :: b :: (l ++ (crlf ++ rest))) = some (l.length + 2)
      rw [findCrlf, if_neg hne]
      rw [List.cons_append] at ih
      rw [ih]
      rfl

/-- What `find_crlf` finds is the end of the first line. -/
theorem findCrlf_some : ∀ {s : Bytes} {i : Nat}, findCrlf s = some i →
    NoCrlf (s.take i) ∧ s = s.take i ++ (crlf ++ s.drop (i + 2))
  | [], _, h => by cases h
  | [_], _, h => by cases h
  | a :: b :: rest, i, h => by
      rw [findCrlf] at h
      split at h
      · rename_i hhere
        cases h
        obtain ⟨rfl, rfl⟩ := hhere
        refine ⟨fun hin => ?_, rfl⟩
        have hlen := hin.length_le
        simp at hlen
      · rename_i hne
        obtain ⟨j, hj, rfl⟩ := Option.map_eq_some_iff.mp h
        obtain ⟨hno, heq⟩ := findCrlf_some hj
        refine ⟨?_, ?_⟩
        · rw [List.take_succ_cons]
          intro hin
          rcases List.infix_cons_iff.mp hin with hpre | hin
          · have hpre' : chCr :: [chLf] <+: a :: (b :: rest).take j := hpre
            obtain ⟨ha, htake⟩ := List.cons_prefix_cons.mp hpre'
            have hb : [chLf] <+: b :: rest := htake.trans (List.take_prefix j (b :: rest))
            exact hne ⟨ha.symm, (List.cons_prefix_cons.mp hb).1.symm⟩
          · exact hno hin
        · conv_lhs => rw [heq]
          rfl

theorem findCrlf_none : ∀ {s : Bytes}, findCrlf s = none → NoCrlf s
  | [], _ => fun hin => by
      have hlen := hin.length_le
      simp at hlen
  | [_], _ => fun hin => by
      have hlen := hin.length_le
      simp at hlen
  | a :: b :: rest, h => by
      rw [findCrlf] at h
      split at h
      · cases h
      · rename_i hne
        have hno := findCrlf_none (Option.map_eq_none_iff.mp h)
        intro hin
        rcases List.infix_cons_iff.mp hin with hpre | hin
        · have hpre' : chCr :: [chLf] <+: a :: b :: rest := hpre
          obtain ⟨ha, hb⟩ := List.cons_prefix_cons.mp hpre'
          exact hne ⟨ha.symm, (List.cons_prefix_cons.mp hb).1.symm⟩
        · exact hno hin

/-- The lines of a text, the last without its line end, are pieces of it
    between line ends. -/
structure SplitsAtCrlf (s : Bytes) (ls : List Bytes) : Prop where
  text : s = crlf.intercalate ls
  lines : ∀ l ∈ ls, NoCrlf l

theorem intercalate_crlf_cons (l l' : Bytes) (ls : List Bytes) :
    crlf.intercalate (l :: l' :: ls) = l ++ (crlf ++ crlf.intercalate (l' :: ls)) := by
  simp [List.intercalate]

theorem intercalate_crlf : ∀ (l : Bytes) (ls : List Bytes),
    crlf.intercalate (l :: ls) ++ crlf = unlines (l :: ls)
  | l, [] => by simp [unlines, List.intercalate]
  | l, l' :: ls => by
      have ih := intercalate_crlf l' ls
      rw [unlines, List.flatMap_cons, ← unlines, ← ih]
      simp [List.intercalate]

/-- Every text splits into lines. -/
theorem exists_splitsAtCrlf (n : Nat) :
    ∀ s : Bytes, s.length ≤ n → ∃ l ls, SplitsAtCrlf s (l :: ls) := by
  induction n with
  | zero =>
      intro s hlen
      obtain rfl := List.length_eq_zero_iff.mp (Nat.le_zero.mp hlen)
      exact ⟨[], [], rfl, by simp [NoCrlf]⟩
  | succ n ih =>
      intro s hlen
      cases hfind : findCrlf s with
      | none => exact ⟨s, [], by simp [List.intercalate], by simpa using findCrlf_none hfind⟩
      | some i =>
          obtain ⟨hno, heq⟩ := findCrlf_some hfind
          have hshort : (s.drop (i + 2)).length ≤ n := by
            have hlen' := congrArg List.length heq
            simp only [List.length_append, List.length_cons, List.length_nil] at hlen'
            omega
          obtain ⟨l, ls, htext, hlines⟩ := ih (s.drop (i + 2)) hshort
          refine ⟨s.take i, l :: ls, ?_, ?_⟩
          · rw [intercalate_crlf_cons, ← htext]
            exact heq
          · rintro x (_ | ⟨_, hx⟩)
            · exact hno
            · exact hlines x hx

/-- The lines of a text are determined. -/
theorem findCrlf_unlines {l : Bytes} (hl : NoCrlf l) (ls : List Bytes) :
    findCrlf (unlines (l :: ls)) = some l.length := by
  rw [unlines, List.flatMap_cons, List.append_assoc]
  exact findCrlf_line l hl _

/-- A text without CR. -/
theorem noCrlf_of_notMem {s : Bytes} (h : chCr ∉ s) : NoCrlf s :=
  fun hin => h (hin.subset List.mem_cons_self)

/-- No end of the head inside a line. -/
theorem findEoh_line : ∀ (l : Bytes), NoCrlf l → ∀ rest : Bytes,
    findEoh (l ++ (crlf ++ rest)) = (findEoh (crlf ++ rest)).map (· + l.length)
  | [], _, rest => by simp
  | a :: l, h, rest => by
      have hl : NoCrlf l := fun hin => h (hin.trans (List.suffix_cons a l).isInfix)
      have hnot : ¬ crlf ++ crlf <+: a :: (l ++ (crlf ++ rest)) := by
        intro hpre
        have hpre' : chCr :: (chLf :: crlf) <+: a :: (l ++ (crlf ++ rest)) := hpre
        obtain ⟨rfl, hnext⟩ := List.cons_prefix_cons.mp hpre'
        cases l with
        | nil =>
            have hnext' : chLf :: crlf <+: chCr :: (chLf :: rest) := hnext
            exact absurd (List.cons_prefix_cons.mp hnext').1 (by decide)
        | cons b l =>
            obtain ⟨rfl, -⟩ := List.cons_prefix_cons.mp hnext
            exact h ⟨[], l, rfl⟩
      rw [List.cons_append, findEoh, if_neg fun hp => hnot (List.isPrefixOf_iff_prefix.mp hp),
        findEoh_line l hl rest, Option.map_map]
      rfl

/-- Nor at the end of a line that another follows. -/
theorem findEoh_lineEnd {l : Bytes} (h : NoCrlf l) (hne : l ≠ []) (rest : Bytes) :
    findEoh (crlf ++ (l ++ (crlf ++ rest))) =
      (findEoh (l ++ (crlf ++ rest))).map (· + 2) := by
  obtain ⟨a, l, rfl⟩ := List.exists_cons_of_ne_nil hne
  have hnot : ¬ crlf ++ crlf <+: chCr :: chLf :: (a :: l ++ (crlf ++ rest)) := by
    intro hpre
    have hpre' : [chCr, chLf, chCr, chLf] <+: chCr :: chLf :: a :: (l ++ (crlf ++ rest)) := hpre
    simp only [List.cons_prefix_cons, true_and] at hpre'
    obtain ⟨rfl, hnext⟩ := hpre'
    cases l with
    | nil =>
        have hnext' : [chLf] <+: chCr :: (chLf :: rest) := hnext
        exact absurd (List.cons_prefix_cons.mp hnext').1 (by decide)
    | cons b l =>
        obtain ⟨rfl, -⟩ := List.cons_prefix_cons.mp hnext
        exact h ⟨[], l, rfl⟩
  have hnot' : ¬ crlf ++ crlf <+: chLf :: (a :: l ++ (crlf ++ rest)) := by
    intro hpre
    have hpre' : chCr :: (chLf :: crlf) <+: chLf :: (a :: l ++ (crlf ++ rest)) := hpre
    exact absurd (List.cons_prefix_cons.mp hpre').1 (by decide)
  show findEoh (chCr :: chLf :: (a :: l ++ (crlf ++ rest))) = _
  rw [findEoh, if_neg fun hp => hnot (List.isPrefixOf_iff_prefix.mp hp), findEoh,
    if_neg fun hp => hnot' (List.isPrefixOf_iff_prefix.mp hp), Option.map_map]
  rfl

/-- The end of the head is the empty line behind its lines. -/
theorem findEoh_unlines (rest : Bytes) :
    ∀ (l : Bytes) (ls : List Bytes), (∀ x ∈ l :: ls, NoCrlf x) → (∀ x ∈ ls, x ≠ []) →
      findEoh (unlines (l :: ls) ++ (crlf ++ rest)) = some (crlf.intercalate (l :: ls)).length
  | l, [], hno, _ => by
      have hnil : findEoh (crlf ++ (crlf ++ rest)) = some 0 := rfl
      rw [unlines, List.flatMap_cons, List.flatMap_nil, List.append_nil, List.append_assoc,
        findEoh_line l (hno l List.mem_cons_self), hnil, Option.map_some, Nat.zero_add,
        List.intercalate, List.intersperse_singleton, List.flatten_singleton]
  | l, l' :: ls, hno, hne => by
      have ih := findEoh_unlines rest l' ls (fun x hx => hno x (List.mem_cons_of_mem l hx))
        (fun x hx => hne x (List.mem_cons_of_mem l' hx))
      have hnext : unlines (l' :: ls) ++ (crlf ++ rest) =
          l' ++ (crlf ++ (unlines ls ++ (crlf ++ rest))) := by
        rw [unlines, List.flatMap_cons, ← unlines, List.append_assoc, List.append_assoc]
      rw [unlines, List.flatMap_cons, ← unlines, List.append_assoc, List.append_assoc,
        findEoh_line l (hno l List.mem_cons_self), hnext,
        findEoh_lineEnd (hno l' (by simp)) (hne l' List.mem_cons_self), ← hnext, ih,
        intercalate_crlf_cons]
      simp only [Option.map_some, List.length_append, crlf, List.length_cons, List.length_nil,
        Option.some.injEq]
      omega

-- ============================================================================
-- Content-Length
-- ============================================================================

/-- A string of decimal digits. -/
def isDigits (s : Bytes) : Bool := s.all fun c => 48 ≤ c && c ≤ 57

/-- The number a string of digits denotes. -/
def decimalValue (s : Bytes) : Nat := s.foldl (fun n c => n * 10 + (c.toNat - 48)) 0

theorem decimalFold_le (s : Bytes) :
    ∀ n : Nat, n ≤ s.foldl (fun n c => n * 10 + (c.toNat - 48)) n := by
  induction s with
  | nil => exact fun n => le_rfl
  | cons c s ih =>
      intro n
      refine le_trans ?_ (ih (n * 10 + (c.toNat - 48)))
      omega

/-- The digit loop returns the number, unless a prefix of it overflows. -/
theorem parseDigits_iff (s : Bytes) : ∀ {n m : Nat},
    parseDigits n s = some m ↔ isDigits s = true ∧ (s ≠ [] → m < sizeMax) ∧
      m = s.foldl (fun n c => n * 10 + (c.toNat - 48)) n := by
  induction s with
  | nil =>
      intro n m
      simp [parseDigits, isDigits, eq_comm]
  | cons c s ih =>
      intro n m
      rw [parseDigits]
      by_cases hdigit : c < 48 ∨ 57 < c
      · rw [if_pos hdigit]
        refine ⟨fun h => (by cases h), fun h => ?_⟩
        have hc := h.1
        simp only [isDigits, List.all_cons, Bool.and_eq_true, decide_eq_true_eq] at hc
        rcases hdigit with hlt | hgt
        · exact absurd hc.1.1 (UInt8.not_le.mpr hlt)
        · exact absurd hc.1.2 (UInt8.not_le.mpr hgt)
      · have hc : isDigits (c :: s) = isDigits s := by
          obtain ⟨hlo, hhi⟩ := not_or.mp hdigit
          simp [isDigits, UInt8.not_lt.mp hlo, UInt8.not_lt.mp hhi]
        have hle := decimalFold_le s (n * 10 + (c.toNat - 48))
        rw [if_neg hdigit, hc, List.foldl_cons]
        by_cases hbig : sizeMax ≤ n * 10 + (c.toNat - 48)
        · have hnone : (if sizeMax ≤ n * 10 then none
              else if sizeMax ≤ n * 10 + (c.toNat - 48) then none
              else parseDigits (n * 10 + (c.toNat - 48)) s) = none := by
            rw [if_pos hbig]
            split <;> rfl
          rw [hnone]
          refine ⟨fun h => (by cases h), fun h => ?_⟩
          have hm := h.2.1 (List.cons_ne_nil c s)
          have heq := h.2.2
          omega
        · rw [if_neg (by omega), if_neg hbig, ih]
          refine and_congr_right fun _ => and_congr_left fun heq => ?_
          refine ⟨fun h _ => ?_, fun h _ => h (List.cons_ne_nil c s)⟩
          by_cases hs : s = []
          · subst hs
            rw [heq]
            exact not_le.mp hbig
          · exact h hs

/-- Number and flag that a list of headers gives. -/
structure LengthsAre (hs : List NtcHeader) (has : Bool) (cl : Nat) : Prop where
  present : has = hs.any isContentLength
  value : ∀ d ∈ hs, isContentLength d = true →
    d.value ≠ [] ∧ isDigits d.value = true ∧ decimalValue d.value = cl
  bound : cl < 2 ^ 64
  absent : has = false → cl = 0

theorem LengthsAre.before {hs hs' : List NtcHeader} {has : Bool} {cl : Nat}
    (h : LengthsAre (hs ++ hs') has cl) :
    LengthsAre hs (hs.any isContentLength) (if hs.any isContentLength then cl else 0) where
  present := rfl
  value := by
    intro d hd hcl
    rw [if_pos (List.any_eq_true.mpr ⟨d, hd, hcl⟩)]
    exact h.value d (List.mem_append_left hs' hd) hcl
  bound := by
    split
    · exact h.bound
    · decide
  absent := by
    intro hnone
    rw [hnone, if_neg Bool.false_ne_true]

/-- The number is that of any Content-Length header. -/
theorem LengthsAre.unique {hs : List NtcHeader} {has has' : Bool} {cl cl' : Nat}
    (h : LengthsAre hs has cl) (h' : LengthsAre hs has' cl') : has = has' ∧ cl = cl' := by
  have hhas : has = has' := h.present.trans h'.present.symm
  refine ⟨hhas, ?_⟩
  cases hany : hs.any isContentLength with
  | true =>
      obtain ⟨d, hd, hcl⟩ := List.any_eq_true.mp hany
      exact (h.value d hd hcl).2.2.symm.trans (h'.value d hd hcl).2.2
  | false => rw [h.absent (h.present.trans hany), h'.absent (h'.present.trans hany)]

/-- One more header. -/
theorem noteContentLength_iff {name value : Bytes} {req req' : NtcRequest}
    (h : LengthsAre req.headers req.hasContentLength req.contentLength) :
    noteContentLength name value { req with headers := req.headers ++ [⟨name, value⟩] } =
        some req' ↔
      ∃ has cl, LengthsAre (req.headers ++ [⟨name, value⟩]) has cl ∧
        req' = { req with
          headers := req.headers ++ [⟨name, value⟩]
          hasContentLength := has
          contentLength := cl } := by
  rw [noteContentLength]
  by_cases hname : islabelEq name (lit "content-length") = true
  · have hcl : isContentLength ⟨name, value⟩ = true := hname
    have hnew : ∀ has cl, LengthsAre (req.headers ++ [⟨name, value⟩]) has cl →
        has = true ∧ value ≠ [] ∧ parseDigits 0 value = some cl := by
      intro has cl hl
      obtain ⟨hne, hdigits, hval⟩ :=
        hl.value _ (List.mem_append_right _ (List.mem_singleton_self _)) hcl
      refine ⟨hl.present.trans (by simp [hcl]), hne, parseDigits_iff value |>.mpr ?_⟩
      exact ⟨hdigits, fun _ => hl.bound, hval.symm⟩
    rw [if_pos hname]
    by_cases hempty : value = []
    · rw [if_pos (by simpa using hempty)]
      refine ⟨fun h => (by cases h), ?_⟩
      rintro ⟨has, cl, hl, -⟩
      exact absurd hempty (hnew has cl hl).2.1
    rw [if_neg (by simpa using hempty)]
    cases hdigits : parseDigits 0 value with
    | none =>
        refine ⟨fun h => (by cases h), ?_⟩
        rintro ⟨has, cl, hl, -⟩
        rw [(hnew has cl hl).2.2] at hdigits
        cases hdigits
    | some cl =>
        obtain ⟨hall, hbound, hval⟩ := (parseDigits_iff value).mp hdigits
        dsimp only
        by_cases hclash : req.hasContentLength = true ∧ req.contentLength ≠ cl
        · rw [if_pos hclash]
          refine ⟨fun h => (by cases h), ?_⟩
          rintro ⟨has, cl', hl, -⟩
          have hsame : cl' = cl := Option.some.inj ((hnew has cl' hl).2.2.symm.trans hdigits)
          obtain ⟨d, hd, hdcl⟩ := List.any_eq_true.mp (h.present.symm.trans hclash.1)
          have hold := (h.value d hd hdcl).2.2
          have hnew' := (hl.value d (List.mem_append_left _ hd) hdcl).2.2
          exact absurd (hold.symm.trans (hnew'.trans hsame)) hclash.2
        · rw [if_neg hclash]
          have hl : LengthsAre (req.headers ++ [⟨name, value⟩]) true cl := by
            refine ⟨by simp [hcl], fun d hd hdcl => ?_, hbound hempty, fun h => (by cases h)⟩
            rcases List.mem_append.mp hd with hd | hd
            · obtain ⟨hne, hdig, hold⟩ := h.value d hd hdcl
              have hhas : req.hasContentLength = true :=
                h.present.trans (List.any_eq_true.mpr ⟨d, hd, hdcl⟩)
              refine ⟨hne, hdig, hold.trans ?_⟩
              by_contra hne'
              exact hclash ⟨hhas, hne'⟩
            · obtain rfl := List.mem_singleton.mp hd
              exact ⟨hempty, hall, hval.symm⟩
          constructor
          · rintro ⟨rfl⟩
            exact ⟨true, cl, hl, rfl⟩
          · rintro ⟨has, cl', hl', rfl⟩
            obtain ⟨rfl, rfl⟩ := hl.unique hl'
            rfl
  · have hcl : ¬ isContentLength ⟨name, value⟩ = true := hname
    rw [if_neg hname]
    have hl : LengthsAre (req.headers ++ [⟨name, value⟩]) req.hasContentLength
        req.contentLength := by
      refine ⟨h.present.trans (by simp [hcl]), fun d hd hdcl => ?_, h.bound, h.absent⟩
      rcases List.mem_append.mp hd with hd | hd
      · exact h.value d hd hdcl
      · obtain rfl := List.mem_singleton.mp hd
        exact absurd hdcl hcl
    constructor
    · rintro ⟨rfl⟩
      exact ⟨_, _, hl, rfl⟩
    · rintro ⟨has, cl, hl', rfl⟩
      obtain ⟨rfl, rfl⟩ := hl.unique hl'
      rfl

-- ============================================================================
-- Header lines
-- ============================================================================

/-- A token has no character outside the token set. -/
theorem isToken_notMem {s : Bytes} {c : UInt8} (h : isToken s = true) (hc : isTchar c = false) :
    c ∉ s := by
  intro hmem
  rw [isToken, Bool.and_eq_true] at h
  have hall := List.all_eq_true.mp h.2 c hmem
  rw [hc] at hall
  cases hall

/-- A header line taken apart, its value as it stands. -/
structure HeaderLine where
  name : Bytes
  value : Bytes

/-- `name:value`. -/
def HeaderLine.bytes (l : HeaderLine) : Bytes := l.name ++ chColon :: l.value

def HeaderLine.header (l : HeaderLine) : NtcHeader := ⟨l.name, ntcSliceTrim l.value⟩

theorem parseHeaderLine_iff {line : Bytes} {req req' : NtcRequest}
    (h : LengthsAre req.headers req.hasContentLength req.contentLength) :
    parseHeaderLine line req = some req' ↔ ∃ l : HeaderLine, line = l.bytes ∧
      isToken l.name = true ∧ req.headers.length < ntcMaxHeaders ∧
      ∃ has cl, LengthsAre (req.headers ++ [l.header]) has cl ∧
        req' = { req with
          headers := req.headers ++ [l.header]
          hasContentLength := has
          contentLength := cl } := by
  rw [parseHeaderLine]
  constructor
  · intro hline
    split at hline
    · cases hline
    · rename_i i hi
      dsimp only at hline
      split at hline
      · cases hline
      · rename_i htoken
        split at hline
        · cases hline
        · rename_i hcount
          exact ⟨⟨line.take i, line.drop (i + 1)⟩, (memchr_some hi).1, by simpa using htoken,
            not_le.mp hcount, (noteContentLength_iff h).mp hline⟩
  · rintro ⟨l, rfl, htoken, hcount, hlengths⟩
    rw [HeaderLine.bytes, memchr_append (isToken_notMem htoken (by decide))]
    dsimp only
    rw [List.take_left, if_neg (by simp [htoken]), if_neg (not_le.mpr hcount),
      show (l.name ++ chColon :: l.value).drop (l.name.length + 1) = l.value by
        rw [← List.drop_drop, List.drop_left]
        rfl]
    exact (noteContentLength_iff h).mpr hlengths

/-- The header loop runs over the lines. -/
theorem parseHeaders_unlines : ∀ (ls : List Bytes), (∀ l ∈ ls, NoCrlf l ∧ l ≠ []) →
    ∀ (fuel : Nat) (req : NtcRequest), (unlines ls).length ≤ fuel →
      parseHeaders fuel (unlines ls) req = ls.foldlM (fun req l => parseHeaderLine l req) req
  | [], _, fuel, req, _ => by
      cases fuel <;> rfl
  | l :: ls, h, fuel, req, hfuel => by
      obtain ⟨hno, hne⟩ := h l List.mem_cons_self
      have hlen : (unlines (l :: ls)).length = l.length + 2 + (unlines ls).length := by
        rw [unlines, List.flatMap_cons, ← unlines, List.length_append, List.length_append]
        rfl
      have hpos := List.length_pos_iff.mpr hne
      obtain ⟨fuel, rfl⟩ := Nat.exists_eq_succ_of_ne_zero (show fuel ≠ 0 by omega)
      have htake : (unlines (l :: ls)).take l.length = l := by
        rw [unlines, List.flatMap_cons, List.append_assoc, List.take_left]
      have hdrop : (unlines (l :: ls)).drop (l.length + 2) = unlines ls := by
        rw [unlines, List.flatMap_cons, List.append_assoc, ← List.drop_drop, List.drop_left]
        rfl
      rw [parseHeaders, if_neg (by omega), findCrlf_unlines hno ls]
      dsimp only
      rw [htake, hdrop, List.foldlM_cons]
      cases parseHeaderLine l req with
      | none => rfl
      | some req' =>
          exact parseHeaders_unlines ls (fun x hx => h x (List.mem_cons_of_mem l hx)) fuel req'
            (by omega)

/-- What the header loop accepts. -/
theorem parseHeaderLines_iff : ∀ (ls : List Bytes) {req req' : NtcRequest},
    LengthsAre req.headers req.hasContentLength req.contentLength →
    (ls.foldlM (fun req l => parseHeaderLine l req) req = some req' ↔
      ∃ hl : List HeaderLine, ls = hl.map HeaderLine.bytes ∧
        (∀ l ∈ hl, isToken l.name = true) ∧
        (hl = [] ∨ req.headers.length + hl.length ≤ ntcMaxHeaders) ∧
        ∃ has cl, LengthsAre (req.headers ++ hl.map HeaderLine.header) has cl ∧
          req' = { req with
            headers := req.headers ++ hl.map HeaderLine.header
            hasContentLength := has
            contentLength := cl }) := by
  intro ls
  induction ls with
  | nil =>
      intro req req' h
      constructor
      · rintro ⟨rfl⟩
        refine ⟨[], rfl, fun _ hl => absurd hl List.not_mem_nil, .inl rfl, req.hasContentLength,
          req.contentLength, ?_, ?_⟩
        · rw [List.map_nil, List.append_nil]
          exact h
        · rw [List.map_nil, List.append_nil]
      · rintro ⟨hl, hnil, -, -, has, cl, hlengths, rfl⟩
        obtain rfl := List.map_eq_nil_iff.mp hnil.symm
        rw [List.map_nil, List.append_nil] at hlengths ⊢
        obtain ⟨rfl, rfl⟩ := hlengths.unique h
        rfl
  | cons l ls ih =>
      intro req req' h
      rw [List.foldlM_cons]
      constructor
      · intro hrun
        obtain ⟨req1, hline, hrest⟩ := Option.bind_eq_some_iff.mp hrun
        obtain ⟨x, rfl, htoken, hcount, has1, cl1, hlengths1, rfl⟩ :=
          (parseHeaderLine_iff h).mp hline
        obtain ⟨hl, rfl, htokens, hcounts, has, cl, hlengths, rfl⟩ := (ih hlengths1).mp hrest
        refine ⟨x :: hl, rfl, ?_, .inr ?_, has, cl, ?_, ?_⟩
        · rintro y (_ | ⟨_, hy⟩)
          · exact htoken
          · exact htokens y hy
        · rcases hcounts with rfl | hcounts
          · exact hcount
          · simp only [List.length_append, List.length_cons, List.length_nil] at hcounts ⊢
            omega
        · rw [List.map_cons, List.append_cons]
          exact hlengths
        · rw [List.map_cons, List.append_cons req.headers x.header (hl.map HeaderLine.header)]
      · rintro ⟨_ | ⟨x, hl⟩, hls, htokens, hcounts, has, cl, hlengths, rfl⟩
        · cases hls
        rw [List.map_cons, List.cons.injEq] at hls
        obtain ⟨rfl, rfl⟩ := hls
        rw [List.map_cons, List.append_cons] at hlengths ⊢
        have hcounts' : req.headers.length + (hl.length + 1) ≤ ntcMaxHeaders :=
          hcounts.resolve_left (List.cons_ne_nil x hl)
        have hfirst := hlengths.before
        refine Option.bind_eq_some_iff.mpr ⟨_, (parseHeaderLine_iff h).mpr
          ⟨x, rfl, htokens x List.mem_cons_self, by omega, _, _, hfirst, rfl⟩, ?_⟩
        refine (ih hfirst).mpr ⟨hl, rfl, fun y hy => htokens y (List.mem_cons_of_mem x hy),
          .inr ?_, has, cl, hlengths, rfl⟩
        simp only [List.length_append, List.length_cons, List.length_nil]
        omega

-- ============================================================================
-- The request line
-- ============================================================================

/-- The versions a request line may name. -/
inductive HttpVersion where
  | v10
  | v11
deriving DecidableEq, Repr

def HttpVersion.bytes : HttpVersion → Bytes
  | .v10 => lit "HTTP/1.0"
  | .v11 => lit "HTTP/1.1"

def HttpVersion.minor : HttpVersion → Nat
  | .v10 => 0
  | .v11 => 1

theorem parseVersion_iff {s : Bytes} {m : Nat} :
    parseVersion s = some m ↔ ∃ v : HttpVersion, s = v.bytes ∧ m = v.minor := by
  rw [parseVersion]
  constructor
  · intro h
    split at h
    · rename_i hs
      exact ⟨.v10, hs, (Option.some.inj h).symm⟩
    · split at h
      · rename_i hs
        exact ⟨.v11, hs, (Option.some.inj h).symm⟩
      · cases h
  · rintro ⟨v, rfl, rfl⟩
    cases v <;> decide

/-- The target up to its first question mark, and what is behind it. -/
theorem splitTarget_eq (target : Bytes) :
    splitTarget target =
      (target.takeWhile (· ≠ 63), (target.dropWhile (· ≠ 63)).drop 1) := by
  induction target with
  | nil => rfl
  | cons c target ih =>
      rw [splitTarget, memchr, List.findIdx?_cons]
      by_cases hc : c = 63
      · subst hc
        rfl
      · rw [if_neg (by simpa using hc), List.takeWhile_cons, List.dropWhile_cons,
          if_pos (by simpa using hc), if_pos (by simpa using hc)]
        rw [splitTarget, memchr] at ih
        cases hfind : target.findIdx? fun b => b == 63 with
        | none =>
            rw [hfind] at ih
            obtain ⟨htake, hdrop⟩ := Prod.mk.injEq _ _ _ _ ▸ ih
            exact Prod.ext (congrArg (c :: ·) htake) hdrop
        | some q =>
            rw [hfind] at ih
            obtain ⟨htake, hdrop⟩ := Prod.mk.injEq _ _ _ _ ▸ ih
            exact Prod.ext (congrArg (c :: ·) htake) hdrop

/-- What the request line parser accepts. -/
theorem parseRequestLine_iff {line : Bytes} {req : NtcRequest} :
    parseRequestLine line = some req ↔ ∃ (method target : Bytes) (version : HttpVersion),
      line = method ++ chSpace :: (target ++ chSpace :: version.bytes) ∧
      isToken method = true ∧ target ≠ [] ∧ chSpace ∉ target ∧
      req =
        { method := method, target := target
          path := target.takeWhile (· ≠ 63)
          query := (target.dropWhile (· ≠ 63)).drop 1
          minorVersion := version.minor } := by
  rw [parseRequestLine]
  constructor
  · intro h
    split at h
    · cases h
    · rename_i sp1 hsp1
      dsimp only at h
      split at h
      · cases h
      · rename_i sp2 hsp2
        split at h
        · cases h
        · rename_i htoken
          split at h
          · cases h
          · rename_i htarget
            split at h
            · cases h
            · rename_i minor hversion
              cases h
              obtain ⟨version, hbytes, rfl⟩ := parseVersion_iff.mp hversion
              obtain ⟨htail, hspace⟩ := memchr_some hsp2
              refine ⟨line.take sp1, (line.drop (sp1 + 1)).take sp2, version, ?_,
                by simpa using htoken, by simpa using htarget, hspace, ?_⟩
              · rw [← hbytes, ← htail]
                exact (memchr_some hsp1).1
              · rw [splitTarget_eq]
  · rintro ⟨method, target, version, rfl, htoken, htarget, hspace, rfl⟩
    rw [memchr_append (isToken_notMem htoken (by decide))]
    dsimp only
    have hdrop : ∀ (a b : Bytes), (a ++ chSpace :: b).drop (a.length + 1) = b := by
      intro a b
      rw [← List.drop_drop, List.drop_left]
      rfl
    rw [hdrop, memchr_append hspace]
    dsimp only
    rw [List.take_left, List.take_left, hdrop, if_neg (by simp [htoken]),
      if_neg (by simpa using htarget), parseVersion_iff.mpr ⟨version, rfl, rfl⟩, splitTarget_eq]

-- ============================================================================
-- The head
-- ============================================================================

/-- A request head taken apart. -/
structure HttpHead where
  method : Bytes
  target : Bytes
  version : HttpVersion
  lines : List HeaderLine

namespace HttpHead

/-- `method SP target SP version`. -/
def requestLine (h : HttpHead) : Bytes :=
  h.method ++ chSpace :: (h.target ++ chSpace :: h.version.bytes)

/-- The lines of the head, without their line ends. -/
def pieces (h : HttpHead) : List Bytes := h.requestLine :: h.lines.map HeaderLine.bytes

/-- The headers, their values trimmed. -/
def headers (h : HttpHead) : List NtcHeader := h.lines.map HeaderLine.header

/-- The number in the first Content-Length header. -/
def contentLength? (h : HttpHead) : Option Nat :=
  (h.headers.find? isContentLength).map fun d => decimalValue d.value

/-- The heads that are well formed. -/
structure Valid (h : HttpHead) : Prop where
  method : isToken h.method = true
  targetNonempty : h.target ≠ []
  targetSpace : chSpace ∉ h.target
  count : h.lines.length ≤ ntcMaxHeaders
  names : ∀ l ∈ h.lines, isToken l.name = true
  lengths : ∀ d ∈ h.headers, isContentLength d = true →
    d.value ≠ [] ∧ isDigits d.value = true ∧ decimalValue d.value < 2 ^ 64
  agree : ∀ d ∈ h.headers, ∀ d' ∈ h.headers, isContentLength d = true →
    isContentLength d' = true → decimalValue d.value = decimalValue d'.value

/-- The request a head denotes, with what follows it as the body. -/
def request (h : HttpHead) (body : Bytes) : NtcRequest :=
  { method := h.method
    target := h.target
    path := h.target.takeWhile (· ≠ 63)
    query := (h.target.dropWhile (· ≠ 63)).drop 1
    minorVersion := h.version.minor
    headers := h.headers
    hasContentLength := h.contentLength?.isSome
    contentLength := h.contentLength?.getD 0
    body := body }

/-- The parser's note of the length against the head's. -/
theorem lengthsAre_iff (h : HttpHead) {has : Bool} {cl : Nat} :
    LengthsAre h.headers has cl ↔
      ((∀ d ∈ h.headers, isContentLength d = true →
          d.value ≠ [] ∧ isDigits d.value = true ∧ decimalValue d.value < 2 ^ 64) ∧
        ∀ d ∈ h.headers, ∀ d' ∈ h.headers, isContentLength d = true →
          isContentLength d' = true → decimalValue d.value = decimalValue d'.value) ∧
      has = h.contentLength?.isSome ∧ cl = h.contentLength?.getD 0 := by
  cases hfind : h.headers.find? isContentLength with
  | none =>
      have hnone : ∀ d ∈ h.headers, ¬ isContentLength d = true := List.find?_eq_none.mp hfind
      have hany : h.headers.any isContentLength = false := by simpa using hnone
      rw [contentLength?, hfind]
      constructor
      · intro hl
        have hhas : has = false := hl.present.trans hany
        exact ⟨⟨fun d hd hcl => absurd hcl (hnone d hd),
          fun d hd _ _ hcl _ => absurd hcl (hnone d hd)⟩, hhas, hl.absent hhas⟩
      · rintro ⟨-, rfl, rfl⟩
        exact ⟨hany.symm, fun d hd hcl => absurd hcl (hnone d hd), by decide, fun _ => rfl⟩
  | some first =>
      have hmem := List.mem_of_find?_eq_some hfind
      have hfirst := List.find?_some hfind
      have hany : h.headers.any isContentLength = true := List.any_eq_true.mpr ⟨first, hmem, hfirst⟩
      rw [contentLength?, hfind]
      constructor
      · intro hl
        refine ⟨⟨fun d hd hcl => ?_, fun d hd d' hd' hcl hcl' => ?_⟩, hl.present.trans hany,
          (hl.value first hmem hfirst).2.2.symm⟩
        · obtain ⟨hne, hdigits, hval⟩ := hl.value d hd hcl
          exact ⟨hne, hdigits, hval.symm ▸ hl.bound⟩
        · exact (hl.value d hd hcl).2.2.trans (hl.value d' hd' hcl').2.2.symm
      · rintro ⟨⟨hlengths, hagree⟩, rfl, rfl⟩
        refine ⟨hany.symm, fun d hd hcl => ?_, (hlengths first hmem hfirst).2.2,
          fun hsome => (by cases hsome)⟩
        obtain ⟨hne, hdigits, -⟩ := hlengths d hd hcl
        exact ⟨hne, hdigits, hagree d hd first hmem hcl hfirst⟩

/-- The text of a head, with the empty line that ends it. -/
def bytes (h : HttpHead) : Bytes := unlines h.pieces ++ crlf

end HttpHead

-- ============================================================================
-- The parser
-- ============================================================================

/-- The block handed to the line loops is the text before the end of the head
    with one line end. -/
theorem FirstAt.take_eq {buf : Bytes} {i : Nat} (h : FirstAt (crlf ++ crlf) buf i) :
    buf.take (i + 2) = buf.take i ++ crlf := by
  obtain ⟨rest, hrest⟩ := h.1
  rw [List.take_add, ← hrest]
  rfl

/-- Only the first line of a head can be empty. -/
theorem FirstAt.lines_ne_nil {buf l : Bytes} {ls : List Bytes} {i : Nat}
    (h : FirstAt (crlf ++ crlf) buf i) (hsplit : SplitsAtCrlf (buf.take i) (l :: ls)) :
    ∀ x ∈ ls, x ≠ [] := by
  rintro x hx rfl
  obtain ⟨a, b, rfl⟩ := List.append_of_mem hx
  -- an empty line is a CRLF right after the line end before it
  have hblock : buf.take (i + 2) =
      crlf.intercalate (l :: a) ++ (crlf ++ crlf ++ unlines b) := by
    rw [h.take_eq, hsplit.text, intercalate_crlf]
    rw [show l :: (a ++ [] :: b) = (l :: a) ++ [] :: b from rfl, unlines, List.flatMap_append,
      ← unlines, ← intercalate_crlf, List.flatMap_cons, ← unlines]
    simp only [List.nil_append, List.append_assoc]
  have hlen := congrArg List.length hblock
  have hle := List.length_take_le (i + 2) buf
  simp only [List.length_append, crlf, List.length_cons, List.length_nil] at hlen
  refine h.2 (crlf.intercalate (l :: a)).length (by simp only [crlf]; omega) ?_
  have hat : crlf ++ crlf <+: (buf.take (i + 2)).drop (crlf.intercalate (l :: a)).length := by
    rw [hblock, List.drop_left]
    exact List.prefix_append _ _
  exact hat.trans ((List.take_prefix _ _).drop _)

/-- The parser over the lines of the head. -/
theorem ntcHttpParseRequest_lines {buf l : Bytes} {ls : List Bytes} {i : Nat}
    (h : FirstAt (crlf ++ crlf) buf i) (hsplit : SplitsAtCrlf (buf.take i) (l :: ls))
    (req : NtcRequest) (n : Nat) :
    ntcHttpParseRequest buf = .ok req n ↔ n = i + 4 ∧ ∃ first all, parseRequestLine l = some first ∧
      ls.foldlM (fun r x => parseHeaderLine x r) first = some all ∧
      req = { all with body := buf.drop (i + 4) } := by
  have hblock : buf.take (i + 2) = unlines (l :: ls) := by
    rw [h.take_eq, hsplit.text, intercalate_crlf]
  have htake : (unlines (l :: ls)).take l.length = l := by
    rw [unlines, List.flatMap_cons, List.append_assoc, List.take_left]
  have hdrop : (unlines (l :: ls)).drop (l.length + 2) = unlines ls := by
    rw [unlines, List.flatMap_cons, List.append_assoc, ← List.drop_drop, List.drop_left]
    rfl
  have hlen : (unlines ls).length ≤ (unlines (l :: ls)).length := by
    rw [← hdrop, List.length_drop]
    omega
  have hlines : ∀ x ∈ ls, NoCrlf x ∧ x ≠ [] := fun x hx =>
    ⟨hsplit.lines x (List.mem_cons_of_mem l hx), h.lines_ne_nil hsplit x hx⟩
  rw [ntcHttpParseRequest, findEoh_iff.mpr h]
  dsimp only
  rw [hblock, findCrlf_unlines (hsplit.lines l List.mem_cons_self) ls]
  dsimp only
  rw [htake, hdrop]
  cases parseRequestLine l with
  | none => simp
  | some first =>
      dsimp only
      rw [parseHeaders_unlines ls hlines _ first hlen]
      cases hall : ls.foldlM (fun r x => parseHeaderLine x r) first with
      | none => simp [hall]
      | some all =>
          simp only [NtcParseResult.ok.injEq, Option.some.injEq]
          constructor
          · rintro ⟨hreq, hn⟩
            exact ⟨hn.symm, first, all, rfl, hall, hreq.symm⟩
          · rintro ⟨hn, _, all', rfl, hall', hreq⟩
            obtain rfl := Option.some.inj (hall.symm.trans hall')
            exact ⟨hreq.symm, hn.symm⟩

/-- Which text before the end of the head is accepted, and as what. -/
theorem ntcHttpParseRequest_ok_iff {buf : Bytes} {i : Nat} (h : FirstAt (crlf ++ crlf) buf i)
    (req : NtcRequest) (n : Nat) :
    ntcHttpParseRequest buf = .ok req n ↔ ∃ head : HttpHead,
      SplitsAtCrlf (buf.take i) head.pieces ∧ head.Valid ∧ n = i + 4 ∧
      req = head.request (buf.drop (i + 4)) := by
  have hstart : LengthsAre [] false 0 :=
    ⟨rfl, fun _ hd => absurd hd List.not_mem_nil, by decide, fun _ => rfl⟩
  constructor
  · intro hok
    obtain ⟨l, ls, hsplit⟩ := exists_splitsAtCrlf _ (buf.take i) le_rfl
    obtain ⟨rfl, first, all, hfirst, hall, rfl⟩ := (ntcHttpParseRequest_lines h hsplit req n).mp hok
    obtain ⟨method, target, version, rfl, htoken, htarget, hspace, rfl⟩ :=
      parseRequestLine_iff.mp hfirst
    obtain ⟨lines, rfl, hnames, hcount, has, cl, hlengths, rfl⟩ :=
      (parseHeaderLines_iff ls hstart).mp hall
    let head : HttpHead := ⟨method, target, version, lines⟩
    obtain ⟨⟨hvalues, hagree⟩, rfl, rfl⟩ := head.lengthsAre_iff.mp hlengths
    refine ⟨head, hsplit, ⟨htoken, htarget, hspace, ?_, hnames, hvalues, hagree⟩, rfl, rfl⟩
    rcases hcount with rfl | hcount
    · exact Nat.zero_le _
    · simpa using hcount
  · rintro ⟨head, hsplit, hvalid, rfl, rfl⟩
    refine (ntcHttpParseRequest_lines h hsplit _ _).mpr ⟨rfl, _, _,
      parseRequestLine_iff.mpr ⟨head.method, head.target, head.version, rfl, hvalid.method,
        hvalid.targetNonempty, hvalid.targetSpace, rfl⟩,
      (parseHeaderLines_iff _ hstart).mpr ⟨head.lines, rfl, hvalid.names, .inr ?_, _, _,
        head.lengthsAre_iff.mpr ⟨⟨hvalid.lengths, hvalid.agree⟩, rfl, rfl⟩, rfl⟩, rfl⟩
    simpa using hvalid.count

namespace HttpHead

theorem bytes_append (head : HttpHead) (body : Bytes) :
    head.bytes ++ body = crlf.intercalate head.pieces ++ (crlf ++ (crlf ++ body)) := by
  rw [bytes, pieces, ← intercalate_crlf]
  simp only [List.append_assoc]

theorem length_bytes (head : HttpHead) :
    head.bytes.length = (crlf.intercalate head.pieces).length + 4 := by
  rw [bytes, pieces, ← intercalate_crlf]
  simp only [List.length_append, crlf, List.length_cons, List.length_nil]

/-- A head ends at its empty line. -/
theorem firstAt {head : HttpHead} (hlines : ∀ l ∈ head.pieces, NoCrlf l) (body : Bytes) :
    FirstAt (crlf ++ crlf) (head.bytes ++ body) (crlf.intercalate head.pieces).length := by
  have hne : ∀ x ∈ head.lines.map HeaderLine.bytes, x ≠ [] := by
    intro x hx
    obtain ⟨l, -, rfl⟩ := List.mem_map.mp hx
    exact List.append_ne_nil_of_right_ne_nil _ (List.cons_ne_nil _ _)
  rw [← findEoh_iff, bytes, List.append_assoc]
  exact findEoh_unlines body _ _ hlines hne

theorem splitsAtCrlf {head : HttpHead} (hlines : ∀ l ∈ head.pieces, NoCrlf l) (body : Bytes) :
    SplitsAtCrlf ((head.bytes ++ body).take (crlf.intercalate head.pieces).length)
      head.pieces := by
  refine ⟨?_, hlines⟩
  rw [bytes_append, List.take_left]

/-- A well-formed head is read back. -/
theorem Valid.parse {head : HttpHead} (h : head.Valid) (hlines : ∀ l ∈ head.pieces, NoCrlf l)
    (body : Bytes) :
    ntcHttpParseRequest (head.bytes ++ body) = .ok (head.request body) head.bytes.length := by
  refine (ntcHttpParseRequest_ok_iff (firstAt hlines body) _ _).mpr
    ⟨head, splitsAtCrlf hlines body, h, head.length_bytes, ?_⟩
  rw [← head.length_bytes, List.drop_left]

end HttpHead

/-- The parser accepts exactly its grammar: a text without CRLFCRLF is
    incomplete up to the limit on the head, any other is accepted when what is
    before the first CRLFCRLF splits into a well-formed head, as the request
    that head denotes. -/
theorem ntcHttpParseRequest_grammar (buf : Bytes) :
    (ntcHttpParseRequest buf = .incomplete ↔
      ¬ crlf ++ crlf <:+: buf ∧ buf.length ≤ ntcMaxHeaderBytes) ∧
    ∀ req n, ntcHttpParseRequest buf = .ok req n ↔ ∃ i, FirstAt (crlf ++ crlf) buf i ∧
      ∃ head : HttpHead, SplitsAtCrlf (buf.take i) head.pieces ∧ head.Valid ∧ n = i + 4 ∧
        req = head.request (buf.drop (i + 4)) := by
  cases heoh : findEoh buf with
  | none =>
      have hno := findEoh_none_iff.mp heoh
      have hnot : ∀ i, ¬ FirstAt (crlf ++ crlf) buf i := by
        intro i hi
        rw [findEoh_iff.mpr hi] at heoh
        cases heoh
      constructor
      · rw [ntcHttpParseRequest, heoh]
        by_cases hbig : ntcMaxHeaderBytes < buf.length
        · rw [if_pos hbig]
          exact ⟨fun h => (by cases h), fun h => absurd h.2 (not_le.mpr hbig)⟩
        · rw [if_neg hbig]
          exact ⟨fun _ => ⟨hno, not_lt.mp hbig⟩, fun _ => rfl⟩
      · intro req n
        refine ⟨fun hok => ?_, fun ⟨i, hi, _⟩ => absurd hi (hnot i)⟩
        rw [ntcHttpParseRequest, heoh] at hok
        dsimp only at hok
        split at hok <;> cases hok
  | some i =>
      have hfirst := findEoh_iff.mp heoh
      constructor
      · refine ⟨fun hinc => ?_, fun h => ?_⟩
        · rw [ntcHttpParseRequest, heoh] at hinc
          dsimp only at hinc
          split at hinc
          · cases hinc
          · split at hinc
            · cases hinc
            · split at hinc <;> cases hinc
        · rw [findEoh_none_iff.mpr h.1] at heoh
          cases heoh
      · intro req n
        rw [ntcHttpParseRequest_ok_iff hfirst]
        constructor
        · rintro ⟨head, hhead⟩
          exact ⟨i, hfirst, head, hhead⟩
        · rintro ⟨j, hj, hhead⟩
          obtain rfl : j = i := Option.some.inj ((findEoh_iff.mpr hj).symm.trans heoh)
          exact hhead

end Naitron
