/-
  Naitron.Multipart

  `ntc_multipart_parse` of src/common/controller_sdk.c and the body that the
  rules of multipart/form-data make of a list of parts.

  The parser finds everything by substring search: the delimiter, the end of
  the header, and in the header the keys `name="`, `filename="` and
  `Content-Type:`.  The first is a part of the second.
-/

import Naitron.Bytes
import Naitron.Lib.Search

namespace Naitron

-- ============================================================================
-- The parser
-- ============================================================================

/-- `memmem`, as an offset; `none` is the NULL result. -/
abbrev memmem (hay needle : Bytes) : Option Nat := Lib.search needle hay

/-- `ntc_multipart_part`. -/
structure NtcMultipartPart where
  name : Bytes
  filename : Bytes
  contentType : Bytes
  data : Bytes
deriving DecidableEq, Repr

/-- The bytes up to the next quote. -/
def upToQuote (s : Bytes) : Option Bytes := (memchr s chQuote).map s.take

/-- `mp_quoted`; `none` leaves the slot as it is. -/
def mpQuoted (hdr key : Bytes) : Option Bytes :=
  (memmem hdr key).bind fun k => upToQuote (hdr.drop (k + key.length))

/-- The bytes up to the next line end. -/
def upToLineEnd (s : Bytes) : Bytes :=
  match memmem s crlf with
  | none => s
  | some eol => s.take eol

/-- The Content-Type search of `ntc_multipart_parse`. -/
def mpContentType (hdr : Bytes) : Bytes :=
  match memmem hdr (lit "Content-Type:") with
  | none => []
  | some k => upToLineEnd ((hdr.drop (k + 13)).dropWhile (· == chSpace))

/-- One part: the bytes between two delimiters. -/
def mpPart (text : Bytes) : NtcMultipartPart :=
  match memmem text (crlf ++ crlf) with
  | none => ⟨[], [], [], text⟩
  | some hdrEnd =>
      let hdr := text.take hdrEnd
      { name := (mpQuoted hdr (lit "name=\"")).getD []
        filename := (mpQuoted hdr (lit "filename=\"")).getD []
        contentType := mpContentType hdr
        data := text.drop (hdrEnd + 4) }

/-- The loop over the parts, from behind a delimiter; there is room for `n`
    more parts. -/
def mpLoop (sep : Bytes) : Nat → Bytes → List NtcMultipartPart
  | 0, _ => []
  | n + 1, cur =>
      if cur.isEmpty then []
      else if cur.take 2 = lit "--" then []
      else if cur.take 2 = crlf then
        let cur := cur.drop 2
        match memmem cur sep with
        | none => []
        | some next => mpPart (cur.take next) :: mpLoop sep n (cur.drop (next + sep.length))
      else []

/-- `ntc_multipart_parse`; `none` is the result -1.  The boundary is a C
    string, and `max` the room in `parts`. -/
def ntcMultipartParse (body boundary : Bytes) (max : Nat) : Option (List NtcMultipartPart) :=
  let delim := lit "--" ++ cstr boundary
  let sep := crlf ++ delim
  if 260 ≤ delim.length then none
  else (memmem body delim).map fun cur => mpLoop sep max (body.drop (cur + delim.length))

-- ============================================================================
-- The format
-- ============================================================================

/-- A part of a form; the parameters of its Content-Disposition stand in
    either order. -/
structure FormPart where
  name : Bytes
  filename : Option Bytes := none
  filenameFirst : Bool := false
  contentType : Option Bytes := none
  data : Bytes
deriving DecidableEq, Repr

namespace FormPart

/-- A parameter up to its value. -/
def paramKey (key : Bytes) : Bytes := lit "; " ++ key ++ lit "="

/-- `; key="value"`. -/
def param (key value : Bytes) : Bytes := paramKey key ++ chQuote :: (value ++ [chQuote])

/-- The Content-Disposition line. -/
def disposition (p : FormPart) : Bytes :=
  lit "Content-Disposition: form-data" ++
    match p.filename with
    | none => param (lit "name") p.name
    | some f =>
        if p.filenameFirst then param (lit "filename") f ++ param (lit "name") p.name
        else param (lit "name") p.name ++ param (lit "filename") f

/-- The Content-Type line, behind the one before it. -/
def typeLine (p : FormPart) : Bytes :=
  match p.contentType with
  | none => []
  | some t => crlf ++ (lit "Content-Type: " ++ t)

/-- Header, empty line and data. -/
def bytes (p : FormPart) : Bytes := p.disposition ++ p.typeLine ++ (crlf ++ (crlf ++ p.data))

/-- What a reader should see of it. -/
def part (p : FormPart) : NtcMultipartPart :=
  ⟨p.name, p.filename.getD [], p.contentType.getD [], p.data⟩

/-- A part that can be written: no quotes in the quoted strings, header values
    on one line and without leading space, and no delimiter in the data. -/
structure WellFormed (boundary : Bytes) (p : FormPart) : Prop where
  name : chQuote ∉ p.name ∧ chCr ∉ p.name
  filename : ∀ f ∈ p.filename, chQuote ∉ f ∧ chCr ∉ f
  contentType : ∀ t ∈ p.contentType, chCr ∉ t ∧ t.head? ≠ some chSpace
  data : ¬ crlf ++ (lit "--" ++ boundary) <:+: p.data

end FormPart

/-- The body of a form. -/
def formBody (boundary : Bytes) (parts : List FormPart) : Bytes :=
  parts.flatMap (fun p => lit "--" ++ boundary ++ crlf ++ p.bytes ++ crlf)
    ++ (lit "--" ++ boundary ++ lit "--" ++ crlf)

-- ============================================================================
-- Quoted parameters
-- ============================================================================

theorem upToQuote_run {v : Bytes} (hv : chQuote ∉ v) (r : Bytes) :
    upToQuote (v ++ chQuote :: r) = some v := by
  rw [upToQuote, memchr_append hv, Option.map_some, List.take_left]

theorem upToQuote_none {s : Bytes} (hs : chQuote ∉ s) : upToQuote s = none := by
  rw [upToQuote]
  cases hq : memchr s chQuote with
  | none => rfl
  | some i =>
      have hmem : chQuote ∈ s.take i ++ chQuote :: s.drop (i + 1) :=
        List.mem_append_right _ List.mem_cons_self
      rw [← (memchr_some hq).1] at hmem
      exact absurd hmem hs

/-- The bytes up to a quote that is there. -/
theorem exists_quote {s : Bytes} (h : chQuote ∈ s) :
    ∃ v r, s = v ++ chQuote :: r ∧ chQuote ∉ v := by
  cases hq : memchr s chQuote with
  | none => exact absurd (List.findIdx?_eq_none_iff.mp hq chQuote h) (by decide)
  | some i => exact ⟨_, _, (memchr_some hq).1, (memchr_some hq).2⟩

/-- A key that ends with its quote is looked for one run at a time. -/
theorem mpQuoted_run {k s : Bytes} (hk : chQuote ∉ k) (hs : chQuote ∉ s) (r : Bytes) :
    mpQuoted (s ++ chQuote :: r) (k ++ [chQuote]) =
      if k <:+ s then upToQuote r else mpQuoted r (k ++ [chQuote]) := by
  rw [mpQuoted, memmem, Lib.search_last hk hs, List.length_append, List.length_singleton]
  have hdrop : ∀ n, (s ++ chQuote :: r).drop (s.length + 1 + n) = r.drop n := by
    intro n
    rw [← List.drop_drop, ← List.drop_drop, List.drop_left]
    rfl
  split
  · rename_i hsuffix
    have hle := hsuffix.length_le
    have hend : s.length - k.length + (k.length + 1) = s.length + 1 + 0 := by omega
    rw [Option.bind_some, hend, hdrop, List.drop_zero]
  · rw [mpQuoted, memmem, List.length_append, List.length_singleton, Option.bind_map]
    refine congrArg (Option.bind _) (funext fun n => ?_)
    have hend : n + (s.length + 1) + (k.length + 1) = s.length + 1 + (n + (k.length + 1)) := by
      omega
    show upToQuote ((s ++ chQuote :: r).drop (n + (s.length + 1) + (k.length + 1))) = _
    rw [hend, hdrop]

/-- The key of a file name. -/
def filenameKey : Bytes := lit "filename=\""

/-- The text has a file name of its own: its first `filename="` is followed by
    a name that is not empty and a quote. -/
def QuotesFilename (t : Bytes) : Prop :=
  ∃ a v b, t = a ++ (filenameKey ++ (v ++ chQuote :: b)) ∧ ¬ filenameKey <:+: a ∧ v ≠ [] ∧
    chQuote ∉ v

theorem mpQuoted_filename_iff (t : Bytes) :
    (mpQuoted t filenameKey).getD [] ≠ [] ↔ QuotesFilename t := by
  constructor
  · intro h
    rw [mpQuoted, memmem] at h
    cases hsearch : Lib.search filenameKey t with
    | none =>
        rw [hsearch] at h
        exact absurd rfl h
    | some k =>
        rw [hsearch, Option.bind_some] at h
        by_cases hq : chQuote ∈ t.drop (k + filenameKey.length)
        · obtain ⟨v, b, hdrop, hv⟩ := exists_quote hq
          rw [hdrop, upToQuote_run hv] at h
          refine ⟨t.take k, v, b, ?_, Lib.search_take (by decide) hsearch, h, hv⟩
          obtain ⟨x, hx⟩ := Lib.search_some hsearch
          have hrest : x = v ++ chQuote :: b := by
            rw [← hdrop, ← List.drop_drop, ← hx, List.drop_left]
          rw [← hrest, hx, List.take_append_drop]
        · rw [upToQuote_none hq] at h
          exact absurd rfl h
  · rintro ⟨a, v, b, rfl, ha, hne, hv⟩
    have hsearch : Lib.search filenameKey (a ++ (filenameKey ++ (v ++ chQuote :: b))) =
        some a.length :=
      Lib.search_append (show (102 : UInt8) ∉ lit "ilename=\"" by decide) ha
    have hdrop : (a ++ (filenameKey ++ (v ++ chQuote :: b))).drop (a.length + filenameKey.length) =
        v ++ chQuote :: b := by
      rw [← List.drop_drop, List.drop_left, List.drop_left]
    rw [mpQuoted, memmem, hsearch, Option.bind_some, hdrop, upToQuote_run hv]
    exact hne

/-- In front of the first `f` there is no key. -/
theorem mpQuoted_filename_skip {l : Bytes} (hl : (102 : UInt8) ∉ l) (t : Bytes) :
    mpQuoted (l ++ t) filenameKey = mpQuoted t filenameKey := by
  have hsearch : Lib.search filenameKey (l ++ t) =
      (Lib.search filenameKey t).map (· + l.length) := Lib.search_run hl
  rw [mpQuoted, memmem, hsearch, mpQuoted, Option.bind_map]
  refine congrArg (Option.bind _) (funext fun n => ?_)
  show upToQuote ((l ++ t).drop (n + l.length + filenameKey.length)) = _
  have hend : n + l.length + filenameKey.length = l.length + (n + filenameKey.length) := by omega
  rw [hend, ← List.drop_drop, List.drop_left]

namespace FormPart

variable {boundary : Bytes} {p : FormPart}

-- ============================================================================
-- The header of a part
-- ============================================================================

/-- The header without its empty line. -/
def header (p : FormPart) : Bytes := p.disposition ++ p.typeLine

/-- The header in front of its first quote. -/
def firstKey (key : Bytes) : Bytes := lit "Content-Disposition: form-data" ++ paramKey key

/-- The Content-Disposition line in runs between quotes, without a file
    name. -/
theorem disposition_none (h : p.filename = none) (r : Bytes) :
    p.disposition ++ r = firstKey (lit "name") ++ chQuote :: (p.name ++ chQuote :: r) := by
  rw [disposition, h, firstKey]
  simp only [param, List.append_assoc, List.cons_append, List.nil_append]

/-- With the name first. -/
theorem disposition_nameFirst {f : Bytes} (h : p.filename = some f)
    (hfirst : p.filenameFirst = false) (r : Bytes) :
    p.disposition ++ r = firstKey (lit "name") ++ chQuote :: (p.name ++ chQuote ::
      (paramKey (lit "filename") ++ chQuote :: (f ++ chQuote :: r))) := by
  rw [disposition, h, hfirst, firstKey]
  simp only [param, List.append_assoc, List.cons_append, List.nil_append, Bool.false_eq_true,
    if_false]

/-- With the file name first. -/
theorem disposition_filenameFirst {f : Bytes} (h : p.filename = some f)
    (hfirst : p.filenameFirst = true) (r : Bytes) :
    p.disposition ++ r = firstKey (lit "filename") ++ chQuote :: (f ++ chQuote ::
      (paramKey (lit "name") ++ chQuote :: (p.name ++ chQuote :: r))) := by
  rw [disposition, h, hfirst, firstKey]
  simp only [param, List.append_assoc, List.cons_append, List.nil_append, if_true]

theorem nameKey_eq : lit "name=\"" = lit "name=" ++ [chQuote] := by decide

theorem filenameKey_eq : filenameKey = lit "filename=" ++ [chQuote] := by decide

/-- When the parser sees the name: `name="` stands in front of the file name
    too. -/
theorem header_name_iff (hp : p.WellFormed boundary) :
    (mpQuoted p.header (lit "name=\"")).getD [] = p.name ↔
      (p.filenameFirst = true → ∀ f ∈ p.filename, f = p.name) := by
  have hk : chQuote ∉ lit "name=" := by decide
  have hfirstKey : ∀ k, k = lit "name" ∨ k = lit "filename" →
      chQuote ∉ firstKey k ∧ lit "name=" <:+ firstKey k := by
    rintro k (rfl | rfl) <;> decide
  have hread : ∀ k, k = lit "name" ∨ k = lit "filename" → ∀ v r, chQuote ∉ v →
      mpQuoted (firstKey k ++ chQuote :: (v ++ chQuote :: r)) (lit "name=" ++ [chQuote]) =
        some v := by
    intro k hkey v r hv
    rw [mpQuoted_run hk (hfirstKey k hkey).1, if_pos (hfirstKey k hkey).2, upToQuote_run hv]
  rw [nameKey_eq]
  cases hf : p.filename with
  | none =>
      rw [header, disposition_none hf, hread _ (.inl rfl) _ _ hp.name.1]
      exact iff_of_true rfl fun _ f hmem => absurd hmem (Option.not_mem_none f)
  | some f =>
      have hquote := (hp.filename f hf).1
      cases hfirst : p.filenameFirst with
      | false =>
          rw [header, disposition_nameFirst hf hfirst, hread _ (.inl rfl) _ _ hp.name.1]
          exact iff_of_true rfl fun h => absurd h (by decide)
      | true =>
          rw [header, disposition_filenameFirst hf hfirst, hread _ (.inr rfl) _ _ hquote]
          constructor
          · rintro h - f' hf'
            obtain rfl := Option.some.inj hf'
            exact h
          · exact fun h => h rfl f rfl

/-- The Content-Type line has no quote or key but those of its value. -/
theorem typeLine_quote : chQuote ∈ p.typeLine ↔ ∃ t ∈ p.contentType, chQuote ∈ t := by
  rw [typeLine]
  cases p.contentType with
  | none => exact iff_of_false List.not_mem_nil fun ⟨t, ht, _⟩ => absurd ht (Option.not_mem_none t)
  | some t =>
      have hline : chQuote ∉ crlf ++ lit "Content-Type: " := by decide
      dsimp only
      rw [← List.append_assoc, List.mem_append]
      constructor
      · rintro (h | h)
        · exact absurd h hline
        · exact ⟨t, rfl, h⟩
      · rintro ⟨t', ht', h⟩
        obtain rfl := Option.some.inj ht'
        exact .inr h

theorem typeLine_filename :
    (mpQuoted p.typeLine filenameKey).getD [] = [] ↔ ∀ t ∈ p.contentType, ¬ QuotesFilename t := by
  rw [typeLine]
  cases p.contentType with
  | none => exact iff_of_true (by decide) fun t ht => absurd ht (Option.not_mem_none t)
  | some t =>
      have hline : (102 : UInt8) ∉ crlf ++ lit "Content-Type: " := by decide
      dsimp only
      rw [← List.append_assoc, mpQuoted_filename_skip hline, ← not_iff_not, ← ne_eq,
        mpQuoted_filename_iff]
      constructor
      · exact fun h hall => hall t rfl h
      · intro h
        by_contra hno
        refine h fun t' ht' => ?_
        obtain rfl := Option.some.inj ht'
        exact hno

/-- When the parser sees the file name, or that there is none. -/
theorem header_filename_iff (hp : p.WellFormed boundary) :
    (mpQuoted p.header filenameKey).getD [] = p.filename.getD [] ↔
      (p.filenameFirst = false → ∀ f ∈ p.filename, lit "filename=" <:+ p.name →
        f = paramKey (lit "filename")) ∧
      (p.filename = none → ∀ t ∈ p.contentType,
        if lit "filename=" <:+ p.name then chQuote ∉ t else ¬ QuotesFilename t) := by
  have hk : chQuote ∉ lit "filename=" := by decide
  have hkey : chQuote ∉ firstKey (lit "name") ∧ ¬ lit "filename=" <:+ firstKey (lit "name") := by
    decide
  cases hf : p.filename with
  | none =>
      have hread : mpQuoted p.header filenameKey = if lit "filename=" <:+ p.name then
          upToQuote p.typeLine else mpQuoted p.typeLine filenameKey := by
        rw [header, disposition_none hf, filenameKey_eq, mpQuoted_run hk hkey.1, if_neg hkey.2,
          mpQuoted_run hk hp.name.1]
      rw [hread]
      by_cases hends : lit "filename=" <:+ p.name
      · simp only [if_pos hends]
        constructor
        · intro h
          refine ⟨fun _ f hmem => absurd hmem (Option.not_mem_none f), fun _ t ht hquote => ?_⟩
          obtain ⟨v, r, hline, hv⟩ := exists_quote (typeLine_quote.mpr ⟨t, ht, hquote⟩)
          rw [hline, upToQuote_run hv] at h
          obtain rfl : v = [] := h
          rw [typeLine, ht] at hline
          exact absurd hline (by rintro ⟨⟩)
        · rintro ⟨-, h⟩
          have hq : chQuote ∉ p.typeLine := by
            intro hq
            obtain ⟨t, ht, hquote⟩ := typeLine_quote.mp hq
            exact h trivial t ht hquote
          rw [upToQuote_none hq]
      · simp only [if_neg hends]
        rw [show (none : Option Bytes).getD [] = [] from rfl, typeLine_filename]
        constructor
        · exact fun h => ⟨fun _ f hmem => absurd hmem (Option.not_mem_none f), fun _ => h⟩
        · exact fun h => h.2 trivial
  | some f =>
      have hquote := (hp.filename f hf).1
      cases hfirst : p.filenameFirst with
      | true =>
          rw [header, disposition_filenameFirst hf hfirst, filenameKey_eq,
            mpQuoted_run hk (by decide), if_pos (by decide), upToQuote_run hquote]
          exact iff_of_true rfl ⟨fun h => absurd h (by decide),
            fun h => absurd h (Option.some_ne_none f)⟩
      | false =>
          have hpar : chQuote ∉ paramKey (lit "filename") ∧
              lit "filename=" <:+ paramKey (lit "filename") := by
            decide
          rw [header, disposition_nameFirst hf hfirst, filenameKey_eq, mpQuoted_run hk hkey.1,
            if_neg hkey.2, mpQuoted_run hk hp.name.1, upToQuote_run hpar.1, mpQuoted_run hk hpar.1,
            if_pos hpar.2, upToQuote_run hquote]
          by_cases hends : lit "filename=" <:+ p.name
          · rw [if_pos hends]
            constructor
            · intro h
              refine ⟨fun _ f' hf' _ => ?_, fun hno => absurd hno (Option.some_ne_none f)⟩
              obtain rfl := Option.some.inj hf'
              exact h.symm
            · exact fun h => (h.1 rfl f rfl hends).symm
          · rw [if_neg hends]
            exact iff_of_true rfl ⟨fun _ f' _ h => absurd h hends,
              fun hno => absurd hno (Option.some_ne_none f)⟩

-- ============================================================================
-- The content type of a part
-- ============================================================================

/-- The key of the content type. -/
def typeKey : Bytes := lit "Content-Type:"

/-- A name has the key of the content type in it. -/
def NamesType (p : FormPart) : Prop := typeKey <:+: p.name ∨ ∃ f ∈ p.filename, typeKey <:+: f

/-- The text behind the first content type key of the Content-Disposition
    line, where the parser finds it. -/
def TypeBehind (p : FormPart) (b : Bytes) : Prop :=
  ∃ a, p.disposition = a ++ (typeKey ++ b) ∧ ¬ typeKey <:+: a

theorem disposition_type : typeKey <:+: p.disposition ↔ NamesType p := by
  have hkey : typeKey ≠ [] ∧ chQuote ∉ typeKey := by decide
  have hruns : ∀ k, k = lit "name" ∨ k = lit "filename" →
      ¬ typeKey <:+: firstKey k ∧ ¬ typeKey <:+: paramKey k := by
    rintro k (rfl | rfl) <;> decide
  have hnil : ¬ typeKey <:+: [] := by decide
  have hname := hruns _ (.inl rfl)
  have hfile := hruns _ (.inr rfl)
  rw [NamesType, ← List.append_nil p.disposition]
  cases hf : p.filename with
  | none =>
      rw [disposition_none hf]
      simp only [Lib.infix_append_cons_iff hkey.1 hkey.2, hname, hnil, false_or, or_false]
      exact ⟨.inl, fun h => h.elim id fun ⟨f, hmem, _⟩ => absurd hmem (Option.not_mem_none f)⟩
  | some f =>
      have hsome : (∃ f' ∈ some f, typeKey <:+: f') ↔ typeKey <:+: f := by
        constructor
        · rintro ⟨f', hf', h⟩
          obtain rfl := Option.some.inj hf'
          exact h
        · exact fun h => ⟨f, rfl, h⟩
      rw [hsome]
      cases hfirst : p.filenameFirst with
      | false =>
          rw [disposition_nameFirst hf hfirst]
          simp only [Lib.infix_append_cons_iff hkey.1 hkey.2, hname, hfile, hnil, false_or,
            or_false]
      | true =>
          rw [disposition_filenameFirst hf hfirst]
          simp only [Lib.infix_append_cons_iff hkey.1 hkey.2, hname, hfile, hnil, false_or,
            or_false]
          exact or_comm

/-- The line ends with a quote. -/
theorem disposition_quote (p : FormPart) : ∃ x, p.disposition = x ++ [chQuote] := by
  have hparam : ∀ x k v : Bytes, ∃ y, x ++ param k v = y ++ [chQuote] := by
    intro x k v
    refine ⟨x ++ paramKey k ++ chQuote :: v, ?_⟩
    simp only [param, List.append_assoc, List.cons_append]
  rw [disposition]
  cases p.filename with
  | none => exact hparam _ _ _
  | some f =>
      dsimp only
      split
      · rw [← List.append_assoc]
        exact hparam _ _ _
      · rw [← List.append_assoc]
        exact hparam _ _ _

theorem disposition_cr (hp : p.WellFormed boundary) : chCr ∉ p.disposition := by
  have hruns : ∀ k, k = lit "name" ∨ k = lit "filename" →
      chCr ∉ firstKey k ∧ chCr ∉ paramKey k := by
    rintro k (rfl | rfl) <;> decide
  have hname := hruns _ (.inl rfl)
  have hfile := hruns _ (.inr rfl)
  have hquote : ¬ chCr = chQuote := by decide
  rw [← List.append_nil p.disposition]
  cases hf : p.filename with
  | none =>
      rw [disposition_none hf]
      simp only [List.mem_append, List.mem_cons, hname, hp.name, hquote, List.not_mem_nil, or_self,
        not_false_eq_true]
  | some f =>
      have hcr := (hp.filename f hf).2
      cases hfirst : p.filenameFirst with
      | false =>
          rw [disposition_nameFirst hf hfirst]
          simp only [List.mem_append, List.mem_cons, hname, hfile, hp.name, hcr, hquote,
            List.not_mem_nil, or_self, not_false_eq_true]
      | true =>
          rw [disposition_filenameFirst hf hfirst]
          simp only [List.mem_append, List.mem_cons, hname, hfile, hp.name, hcr, hquote,
            List.not_mem_nil, or_self, not_false_eq_true]

theorem exists_typeBehind (h : NamesType p) : ∃ b, TypeBehind p b := by
  cases hsearch : Lib.search typeKey p.disposition with
  | none => exact absurd (disposition_type.mpr h) (Lib.search_eq_none_iff.mp hsearch)
  | some k =>
      obtain ⟨b, hb⟩ := Lib.search_some hsearch
      refine ⟨b, p.disposition.take k, ?_, Lib.search_take (by decide) hsearch⟩
      rw [hb, List.take_append_drop]

theorem mpContentType_of_found {hdr l b : Bytes} (hhdr : hdr = l ++ (typeKey ++ b))
    (hl : ¬ typeKey <:+: l) :
    mpContentType hdr = upToLineEnd (b.dropWhile (· == chSpace)) := by
  have hsearch : Lib.search (lit "Content-Type:") hdr = some l.length := by
    rw [hhdr]
    exact Lib.search_append (show (67 : UInt8) ∉ lit "ontent-Type:" by decide) hl
  have hdrop : hdr.drop (l.length + 13) = b := by
    rw [hhdr, ← List.drop_drop, List.drop_left]
    show (typeKey ++ b).drop typeKey.length = b
    exact List.drop_left
  rw [mpContentType, memmem, hsearch]
  dsimp only
  rw [hdrop]

theorem upToLineEnd_self {s : Bytes} (hs : chCr ∉ s) : upToLineEnd s = s := by
  have hno : Lib.search crlf s = none := by
    rw [Lib.search_eq_none_iff]
    exact fun h => hs (h.subset List.mem_cons_self)
  rw [upToLineEnd, memmem, hno]

theorem upToLineEnd_crlf {s : Bytes} (hs : chCr ∉ s) (r : Bytes) :
    upToLineEnd (s ++ (crlf ++ r)) = s := by
  have hsearch : Lib.search crlf (s ++ (crlf ++ r)) = some s.length := by
    show Lib.search (chCr :: [chLf]) (s ++ chCr :: (chLf :: r)) = some s.length
    rw [Lib.search_head hs, if_pos (List.cons_prefix_cons.mpr ⟨rfl, List.nil_prefix⟩)]
  rw [upToLineEnd, memmem, hsearch]
  exact List.take_left

/-- A key in a name: the content type is read from there, and it is not
    empty, because of the quote behind it. -/
theorem header_type_behind (hp : p.WellFormed boundary) {b : Bytes} (h : TypeBehind p b) :
    mpContentType p.header = b.dropWhile (· == chSpace) ∧ b.dropWhile (· == chSpace) ≠ [] := by
  obtain ⟨a, hdisp, ha⟩ := h
  have hhdr : p.header = a ++ (typeKey ++ (b ++ p.typeLine)) := by
    rw [header, hdisp]
    simp only [List.append_assoc]
  have hquote : chQuote ∈ b := by
    obtain ⟨x, hx⟩ := p.disposition_quote
    have hlast := congrArg List.getLast? (hx.symm.trans hdisp)
    rw [List.getLast?_append, List.getLast?_append, List.getLast?_append] at hlast
    cases hb : b.getLast? with
    | none =>
        rw [hb] at hlast
        exact absurd (show some chQuote = some chColon from hlast) (by decide)
    | some c =>
        rw [hb] at hlast
        obtain rfl : chQuote = c := Option.some.inj hlast
        exact List.mem_of_getLast? hb
  have hne : b.dropWhile (· == chSpace) ≠ [] := by
    intro hnil
    exact absurd (List.dropWhile_eq_nil_iff.mp hnil _ hquote) (by decide)
  have hcr : chCr ∉ b.dropWhile (· == chSpace) := by
    intro hmem
    refine p.disposition_cr hp ?_
    rw [hdisp]
    exact List.mem_append_right _ (List.mem_append_right _ ((List.dropWhile_sublist _).subset hmem))
  refine ⟨?_, hne⟩
  rw [mpContentType_of_found hhdr ha, List.dropWhile_append, if_neg (by simpa using hne), typeLine]
  cases p.contentType with
  | none =>
      dsimp only
      rw [List.append_nil, upToLineEnd_self hcr]
  | some t => exact upToLineEnd_crlf hcr _

/-- Without one it is read from its line. -/
theorem header_type_line (hp : p.WellFormed boundary) (h : ¬ NamesType p) :
    mpContentType p.header = p.contentType.getD [] := by
  have hdisp : ¬ typeKey <:+: p.disposition := fun hin => h (disposition_type.mp hin)
  rw [header, typeLine]
  cases ht : p.contentType with
  | none =>
      have hno : Lib.search (lit "Content-Type:") p.disposition = none :=
        Lib.search_eq_none_iff.mpr hdisp
      dsimp only
      rw [List.append_nil, mpContentType, memmem, hno]
      rfl
  | some t =>
      obtain ⟨hcr, hspace⟩ := hp.contentType t ht
      have hhdr : p.disposition ++ (crlf ++ (lit "Content-Type: " ++ t)) =
          (p.disposition ++ crlf) ++ (typeKey ++ (chSpace :: t)) := by
        rw [List.append_assoc]
        rfl
      have hl : ¬ typeKey <:+: p.disposition ++ crlf := by
        rw [show p.disposition ++ crlf = p.disposition ++ chCr :: [chLf] from rfl,
          Lib.infix_append_cons_iff (by decide) (by decide)]
        rintro (hin | hin)
        · exact hdisp hin
        · exact absurd hin (by decide)
      have hdrop : (chSpace :: t).dropWhile (· == chSpace) = t := by
        rw [List.dropWhile_cons_of_pos (by decide)]
        cases t with
        | nil => rfl
        | cons c t =>
            refine List.dropWhile_cons_of_neg ?_
            rw [beq_iff_eq]
            rintro rfl
            exact hspace rfl
      dsimp only
      rw [mpContentType_of_found hhdr hl, hdrop, upToLineEnd_self hcr]
      rfl

/-- When the parser sees the content type. -/
theorem header_type_iff (hp : p.WellFormed boundary) :
    mpContentType p.header = p.contentType.getD [] ↔
      (NamesType p → ∃ b, TypeBehind p b ∧ p.contentType = some (b.dropWhile (· == chSpace))) := by
  by_cases hnames : NamesType p
  · constructor
    · intro h _
      obtain ⟨b, hb⟩ := exists_typeBehind hnames
      obtain ⟨hread, hne⟩ := header_type_behind hp hb
      rw [hread] at h
      refine ⟨b, hb, ?_⟩
      cases ht : p.contentType with
      | none =>
          rw [ht] at h
          exact absurd h hne
      | some t =>
          rw [ht] at h
          exact congrArg some h.symm
    · intro h
      obtain ⟨b, hb, ht⟩ := h hnames
      rw [(header_type_behind hp hb).1, ht]
      rfl
  · exact iff_of_true (header_type_line hp hnames) fun h => absurd h hnames

-- ============================================================================
-- A part
-- ============================================================================

/-- The parser sees the part as it was written. -/
structure ReadBack (p : FormPart) : Prop where
  name : p.filenameFirst = true → ∀ f ∈ p.filename, f = p.name
  filename : p.filenameFirst = false → ∀ f ∈ p.filename, lit "filename=" <:+ p.name →
    f = paramKey (lit "filename")
  noFilename : p.filename = none → ∀ t ∈ p.contentType,
    if lit "filename=" <:+ p.name then chQuote ∉ t else ¬ QuotesFilename t
  contentType : NamesType p →
    ∃ b, TypeBehind p b ∧ p.contentType = some (b.dropWhile (· == chSpace))

/-- Behind the header the lines of a part are searched for what stands at the
    beginning of a line. -/
theorem header_search (hp : p.WellFormed boundary) {c : UInt8} (hc : c ≠ 67) (d r : Bytes) :
    memmem (p.header ++ (crlf ++ r)) (crlf ++ c :: d) =
      if c :: d <+: r then some p.header.length
      else (memmem r (crlf ++ c :: d)).map (· + (p.header.length + 2)) := by
  have hline : ∀ {l : Bytes}, chCr ∉ l → ∀ r : Bytes,
      memmem (l ++ (crlf ++ r)) (crlf ++ c :: d) = if c :: d <+: r then some l.length
        else (memmem r (crlf ++ c :: d)).map (· + (l.length + 2)) := by
    intro l hl r
    show Lib.search (chCr :: (chLf :: c :: d)) (l ++ chCr :: (chLf :: r)) = _
    have hno : ¬ chCr :: (chLf :: c :: d) <+: chLf :: r := by
      rw [List.cons_prefix_cons]
      exact fun h => absurd h.1 (by decide)
    rw [Lib.search_head hl, Lib.search_cons chLf r hno, Option.map_map]
    simp only [List.cons_prefix_cons, true_and]
    refine if_congr Iff.rfl rfl (congrArg (Option.map · _) (funext fun n => ?_))
    show n + 1 + (l.length + 1) = n + (l.length + 2)
    omega
  rw [header, typeLine]
  cases ht : p.contentType with
  | none =>
      dsimp only
      rw [List.append_nil]
      exact hline (p.disposition_cr hp) r
  | some t =>
      have hcr : chCr ∉ lit "Content-Type: " ++ t := by
        rw [List.mem_append, not_or]
        exact ⟨by decide, (hp.contentType t ht).1⟩
      have hno : ¬ c :: d <+: lit "Content-Type: " ++ t ++ (crlf ++ r) := by
        intro h
        exact hc (List.cons_prefix_cons.mp h).1
      have hlen : (p.disposition ++ (crlf ++ (lit "Content-Type: " ++ t))).length =
          (lit "Content-Type: " ++ t).length + (p.disposition.length + 2) := by
        simp only [List.length_append, crlf, List.length_cons, List.length_nil]
        omega
      dsimp only
      rw [hlen, List.append_assoc, List.append_assoc, hline (p.disposition_cr hp), if_neg hno,
        hline hcr]
      split
      · rfl
      · rw [Option.map_map]
        refine congrArg (Option.map · _) (funext fun n => ?_)
        show n + ((lit "Content-Type: " ++ t).length + 2) + (p.disposition.length + 2) = _
        omega

theorem bytes_eq (p : FormPart) : p.bytes = p.header ++ (crlf ++ (crlf ++ p.data)) := rfl

/-- The header and the data are found. -/
theorem mpPart_bytes (hp : p.WellFormed boundary) :
    mpPart p.bytes =
      { name := (mpQuoted p.header (lit "name=\"")).getD []
        filename := (mpQuoted p.header filenameKey).getD []
        contentType := mpContentType p.header
        data := p.data } := by
  have hsearch : memmem p.bytes (crlf ++ crlf) = some p.header.length := by
    have h := header_search hp (c := chCr) (by decide) [chLf] (crlf ++ p.data)
    rw [if_pos (List.prefix_append crlf p.data)] at h
    exact h
  have hdata : p.bytes.drop (p.header.length + 4) = p.data := by
    rw [bytes_eq, ← List.drop_drop, List.drop_left]
    rfl
  rw [mpPart, hsearch]
  dsimp only
  rw [hdata, bytes_eq, List.take_left]
  rfl

/-- When a part is read as it was written. -/
theorem mpPart_bytes_iff (hp : p.WellFormed boundary) :
    mpPart p.bytes = p.part ↔ p.ReadBack := by
  have hname := header_name_iff hp
  have hfile := header_filename_iff hp
  have htype := header_type_iff hp
  rw [mpPart_bytes hp, part, NtcMultipartPart.mk.injEq, hname, hfile, htype]
  constructor
  · rintro ⟨hn, ⟨hf, hnone⟩, ht, -⟩
    exact ⟨hn, hf, hnone, ht⟩
  · exact fun h => ⟨h.name, ⟨h.filename, h.noFilename⟩, h.contentType, rfl⟩

end FormPart

-- ============================================================================
-- The loop
-- ============================================================================

/-- What stands behind a delimiter of a form. -/
def behindDelimiter (boundary : Bytes) : List FormPart → Bytes
  | [] => lit "--" ++ crlf
  | p :: ps =>
      crlf ++ (p.bytes ++ ((crlf ++ (lit "--" ++ boundary)) ++ behindDelimiter boundary ps))

theorem formBody_eq (boundary : Bytes) (parts : List FormPart) :
    formBody boundary parts = lit "--" ++ boundary ++ behindDelimiter boundary parts := by
  induction parts with
  | nil =>
      rw [formBody, List.flatMap_nil, List.nil_append, behindDelimiter, List.append_assoc]
  | cons p ps ih =>
      have htail : formBody boundary (p :: ps) =
          lit "--" ++ boundary ++ crlf ++ p.bytes ++ crlf ++ formBody boundary ps := by
        rw [formBody, formBody, List.flatMap_cons, List.append_assoc]
      rw [htail, ih, behindDelimiter]
      simp only [List.append_assoc]

/-- Data that begin with the delimiter are cut off with the header. -/
theorem mpPart_header {boundary : Bytes} {p : FormPart} (hp : p.WellFormed boundary) :
    (mpPart (p.header ++ crlf)).data = p.header ++ crlf := by
  have hsearch := FormPart.header_search hp (c := chCr) (by decide) [chLf] []
  have hno : ¬ chCr :: [chLf] <+: [] := by decide
  have hnone : memmem (p.header ++ crlf) (crlf ++ crlf) = none := by
    rw [if_neg hno] at hsearch
    exact hsearch
  rw [mpPart, hnone]

section
variable {boundary : Bytes} (hcr : chCr ∉ boundary)
include hcr

/-- The delimiter is found behind the data, unless the data begin with what
    follows its line end. -/
theorem sep_search {p : FormPart} (hp : p.WellFormed boundary) (r : Bytes) :
    memmem (p.bytes ++ ((crlf ++ (lit "--" ++ boundary)) ++ r)) (crlf ++ (lit "--" ++ boundary)) =
      if lit "--" ++ boundary <+: p.data then some (p.header.length + 2)
      else some p.bytes.length := by
  have htail : chCr ∉ chLf :: (lit "--" ++ boundary) := by
    rw [List.mem_cons, List.mem_append, not_or, not_or]
    exact ⟨by decide, by decide, hcr⟩
  have hdash : chCr ∉ lit "--" ++ boundary := fun h => htail (List.mem_cons_of_mem _ h)
  have hdata : lit "--" ++ boundary <+: p.data ++ ((crlf ++ (lit "--" ++ boundary)) ++ r) ↔
      lit "--" ++ boundary <+: p.data := Lib.prefix_append_cons_iff hdash
  have hfound : memmem (p.data ++ ((crlf ++ (lit "--" ++ boundary)) ++ r))
      (crlf ++ (lit "--" ++ boundary)) = some p.data.length := Lib.search_append htail hp.data
  have hskip : ∀ s : Bytes, memmem (crlf ++ s) (crlf ++ (lit "--" ++ boundary)) =
      if lit "--" ++ boundary <+: s then some 0
      else (memmem s (crlf ++ (lit "--" ++ boundary))).map (· + 2) := by
    intro s
    show Lib.search (chCr :: (chLf :: (lit "--" ++ boundary))) ([] ++ chCr :: (chLf :: s)) = _
    have hno : ¬ chCr :: (chLf :: (lit "--" ++ boundary)) <+: chLf :: s := by
      rw [List.cons_prefix_cons]
      exact fun h => absurd h.1 (by decide)
    rw [Lib.search_head List.not_mem_nil, Lib.search_cons chLf s hno, Option.map_map]
    simp only [List.cons_prefix_cons, true_and]
    rfl
  have hheader := FormPart.header_search hp (c := 45) (by decide) (45 :: boundary)
    (crlf ++ (p.data ++ ((crlf ++ (lit "--" ++ boundary)) ++ r)))
  have hbytes : p.bytes ++ ((crlf ++ (lit "--" ++ boundary)) ++ r) =
      p.header ++ (crlf ++ (crlf ++ (p.data ++ ((crlf ++ (lit "--" ++ boundary)) ++ r)))) := by
    rw [FormPart.bytes_eq]
    simp only [List.append_assoc]
  have hno : ¬ (45 : UInt8) :: 45 :: boundary <+:
      crlf ++ (p.data ++ ((crlf ++ (lit "--" ++ boundary)) ++ r)) :=
    fun h => absurd (List.cons_prefix_cons.mp h).1 (by decide)
  have hlen : p.bytes.length = p.data.length + 2 + (p.header.length + 2) := by
    rw [FormPart.bytes_eq]
    simp only [List.length_append, crlf, List.length_cons, List.length_nil]
    omega
  rw [if_neg hno] at hheader
  have hsearch : memmem (p.bytes ++ ((crlf ++ (lit "--" ++ boundary)) ++ r))
      (crlf ++ (lit "--" ++ boundary)) =
        (memmem (crlf ++ (p.data ++ ((crlf ++ (lit "--" ++ boundary)) ++ r)))
          (crlf ++ (lit "--" ++ boundary))).map (· + (p.header.length + 2)) := by
    rw [hbytes]
    exact hheader
  rw [hsearch, hskip, hfound]
  by_cases hstart : lit "--" ++ boundary <+: p.data
  · rw [if_pos (hdata.mpr hstart), if_pos hstart, Option.map_some, Nat.zero_add]
  · rw [if_neg fun h => hstart (hdata.mp h), if_neg hstart, Option.map_some, Option.map_some,
      hlen]

/-- One round of the loop. -/
theorem mpLoop_part {p : FormPart} (hp : p.WellFormed boundary) (n : Nat) (r : Bytes) :
    ∃ q r', mpLoop (crlf ++ (lit "--" ++ boundary)) (n + 1)
        (crlf ++ (p.bytes ++ ((crlf ++ (lit "--" ++ boundary)) ++ r))) =
          q :: mpLoop (crlf ++ (lit "--" ++ boundary)) n r' ∧
      (lit "--" ++ boundary <+: p.data → q.data ≠ p.data) ∧
      (¬ lit "--" ++ boundary <+: p.data → q = mpPart p.bytes ∧ r' = r) := by
  have hsearch := sep_search hcr hp r
  generalize hs : crlf ++ (lit "--" ++ boundary) = sep at hsearch ⊢
  have hround : ∀ next, memmem (p.bytes ++ (sep ++ r)) sep = some next →
      mpLoop sep (n + 1) (crlf ++ (p.bytes ++ (sep ++ r))) =
        mpPart ((p.bytes ++ (sep ++ r)).take next) ::
          mpLoop sep n ((p.bytes ++ (sep ++ r)).drop (next + sep.length)) := by
    intro next hnext
    have hsome : ¬ (crlf ++ (p.bytes ++ (sep ++ r))).isEmpty = true := Bool.false_ne_true
    have htwo : (crlf ++ (p.bytes ++ (sep ++ r))).take 2 = crlf := rfl
    have hrest : (crlf ++ (p.bytes ++ (sep ++ r))).drop 2 = p.bytes ++ (sep ++ r) := rfl
    rw [mpLoop, if_neg hsome, htwo, if_neg (by decide), if_pos rfl, hrest]
    dsimp only
    rw [hnext]
  by_cases hstart : lit "--" ++ boundary <+: p.data
  · rw [if_pos hstart] at hsearch
    refine ⟨_, _, hround _ hsearch, fun _ => ?_, fun h => absurd hstart h⟩
    have htake : (p.bytes ++ (sep ++ r)).take (p.header.length + 2) = p.header ++ crlf := by
      have htext : p.bytes ++ (sep ++ r) =
          (p.header ++ crlf) ++ (crlf ++ p.data ++ (sep ++ r)) := by
        rw [FormPart.bytes_eq]
        simp only [List.append_assoc]
      rw [htext]
      exact List.take_left' (List.length_append)
    rw [htake, mpPart_header hp]
    -- the header begins with a letter, these data with a dash
    intro heq
    rw [← heq, FormPart.header, FormPart.disposition, List.append_assoc,
      List.append_assoc] at hstart
    exact absurd (List.cons_prefix_cons.mp hstart).1 (by decide)
  · rw [if_neg hstart] at hsearch
    refine ⟨_, _, hround _ hsearch, fun h => absurd h hstart, fun _ => ⟨?_, ?_⟩⟩
    · rw [List.take_left]
    · rw [← List.drop_drop, List.drop_left, List.drop_left]

/-- The loop reads back the parts that are left exactly when it reads back
    each of them. -/
theorem mpLoop_iff : ∀ {parts : List FormPart} {n : Nat}, parts.length ≤ n →
    (∀ p ∈ parts, p.WellFormed boundary) →
    (mpLoop (crlf ++ (lit "--" ++ boundary)) n (behindDelimiter boundary parts) =
        parts.map FormPart.part ↔
      ∀ p ∈ parts, ¬ lit "--" ++ boundary <+: p.data ∧ p.ReadBack)
  | [], n, _, _ => by
      refine iff_of_true ?_ fun p hp => absurd hp List.not_mem_nil
      cases n with
      | zero => rfl
      | succ n =>
          rw [behindDelimiter, mpLoop, if_neg (by decide), if_pos (by decide)]
          rfl
  | p :: ps, 0, hn, _ => absurd hn (Nat.not_succ_le_zero _)
  | p :: ps, n + 1, hn, hparts => by
      have hp := hparts p List.mem_cons_self
      have ih := mpLoop_iff (Nat.le_of_succ_le_succ hn)
        fun q hq => hparts q (List.mem_cons_of_mem p hq)
      obtain ⟨q, r', hround, hbad, hgood⟩ := mpLoop_part hcr hp n (behindDelimiter boundary ps)
      rw [behindDelimiter, hround, List.map_cons, List.cons.injEq, List.forall_mem_cons]
      by_cases hstart : lit "--" ++ boundary <+: p.data
      · refine iff_of_false ?_ fun h => h.1.1 hstart
        rintro ⟨rfl, -⟩
        exact hbad hstart rfl
      · obtain ⟨rfl, rfl⟩ := hgood hstart
        rw [FormPart.mpPart_bytes_iff hp, ih]
        exact and_congr_left fun _ => ⟨fun h => ⟨hstart, h⟩, fun h => h.2⟩

end

/-- A form of at most `max` parts is parsed back to its parts if and only if
    the data of no part begin with two dashes and the boundary and the header
    of each reads back. -/
theorem ntcMultipartParse_formBody_iff {boundary : Bytes} {parts : List FormPart} {max : Nat}
    (hlen : boundary.length ≤ 200) (hnul : 0 ∉ boundary) (hcr : chCr ∉ boundary)
    (hparts : ∀ p ∈ parts, p.WellFormed boundary) (hmax : parts.length ≤ max) :
    ntcMultipartParse (formBody boundary parts) boundary max = some (parts.map FormPart.part) ↔
      ∀ p ∈ parts, ¬ lit "--" ++ boundary <+: p.data ∧ p.ReadBack := by
  have hdelim : ¬ 260 ≤ (lit "--" ++ boundary).length := by
    rw [List.length_append]
    show ¬ 260 ≤ 2 + boundary.length
    omega
  have hfirst : memmem (formBody boundary parts) (lit "--" ++ boundary) = some 0 := by
    rw [formBody_eq]
    exact Lib.search_zero (List.prefix_append _ _)
  have hdrop : (formBody boundary parts).drop (0 + (lit "--" ++ boundary).length) =
      behindDelimiter boundary parts := by
    rw [formBody_eq, Nat.zero_add, List.drop_left]
  rw [ntcMultipartParse, cstr_of_noNul hnul, if_neg hdelim, hfirst, Option.map_some, hdrop,
    Option.some.injEq]
  exact mpLoop_iff hcr hmax hparts

/-- A field. -/
def fieldPart : FormPart := { name := lit "field", data := lit "hello world" }

/-- A file. -/
def filePart : FormPart where
  name := lit "file"
  filename := some (lit "a.txt")
  contentType := some (lit "text/plain")
  data := lit "FILE\r\nDATA"

theorem ntcMultipartParse_formBody_fields :
    ntcMultipartParse (formBody (lit "X") [fieldPart, filePart]) (lit "X") 8 =
      some [⟨lit "field", [], [], lit "hello world"⟩,
        ⟨lit "file", lit "a.txt", lit "text/plain", lit "FILE\r\nDATA"⟩] := by
  have hparts : ∀ p ∈ [fieldPart, filePart], p.WellFormed (lit "X") ∧
      ¬ lit "--" ++ lit "X" <+: p.data ∧ p.ReadBack := by
    have hnames : ¬ fieldPart.NamesType ∧ ¬ filePart.NamesType := by
      rw [← FormPart.disposition_type, ← FormPart.disposition_type]
      decide
    simp only [List.forall_mem_cons]
    refine ⟨⟨?_, by decide, ?_⟩, ⟨?_, by decide, ?_⟩, fun p hp => absurd hp List.not_mem_nil⟩
    · exact ⟨by decide, fun f hf => absurd hf (Option.not_mem_none f),
        fun t ht => absurd ht (Option.not_mem_none t), by decide⟩
    · exact ⟨fun h => absurd h (by decide), fun _ f hf => absurd hf (Option.not_mem_none f),
        fun _ t ht => absurd ht (Option.not_mem_none t), fun h => absurd h hnames.1⟩
    · refine ⟨by decide, fun f hf => ?_, fun t ht => ?_, by decide⟩
      · obtain rfl : lit "a.txt" = f := Option.some.inj hf
        decide
      · obtain rfl : lit "text/plain" = t := Option.some.inj ht
        decide
    · exact ⟨fun h => absurd h (by decide), fun _ f _ h => absurd h (by decide),
        fun h => absurd h (by decide), fun h => absurd h hnames.2⟩
  exact (ntcMultipartParse_formBody_iff (by decide) (by decide) (by decide)
    (fun p hp => (hparts p hp).1) (by decide)).mpr fun p hp => (hparts p hp).2

/-- A file whose name stands behind its file name. -/
def fileFirst : FormPart where
  name := lit "file"
  filename := some (lit "a.txt")
  filenameFirst := true
  data := lit "D"

/-- Its name is read from its file name. -/
theorem filename_first_takes_name :
    fileFirst.WellFormed (lit "X") ∧
    ntcMultipartParse (formBody (lit "X") [fileFirst]) (lit "X") 8 =
      some [⟨lit "a.txt", lit "a.txt", [], lit "D"⟩] ∧
    fileFirst.part = ⟨lit "file", lit "a.txt", [], lit "D"⟩ := by
  refine ⟨⟨by decide, fun f hf => ?_, fun t ht => absurd ht (Option.not_mem_none t), by decide⟩,
    by decide +kernel, rfl⟩
  obtain rfl : lit "a.txt" = f := Option.some.inj hf
  decide

end Naitron
