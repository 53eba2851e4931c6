/-
  Naitron.Json

  The JSON parser of `src/common/json.c`.

  A pointer into the text is the list of bytes from there on.  The sticky
  error flag makes the whole parse return NULL and nothing else, so a step
  that sets it is `none`.  Memory is taken to be there.  A number keeps the
  text that is handed to `strtod`.

  `parseValue` counts down the levels of nesting that are left; the loops over
  items and members have the length of the text as fuel, of which each round
  takes a byte at least.
-/

import Naitron.Bytes

namespace Naitron

/-- `NTC_JSON_MAX_MEMBERS`. -/
def ntcJsonMaxMembers : Nat := 64

/-- `NTC_JSON_MAX_DEPTH`. -/
def ntcJsonMaxDepth : Nat := 32

abbrev chBackslash : UInt8 := 92
abbrev chComma : UInt8 := 44

/-- `ntc_json`.  `count` is the length of the lists. -/
inductive NtcJson where
  | null
  | bool (b : Bool)
  | num (text : Bytes)
  | str (s : Bytes)
  | arr (items : List NtcJson)
  | obj (keys : List Bytes) (vals : List NtcJson)
deriving Repr

-- ============================================================================
-- Strings
-- ============================================================================

def isJsonWs (c : UInt8) : Bool := c == 32 || c == 9 || c == 10 || c == 13

/-- `skip_ws`. -/
def skipWs (s : Bytes) : Bytes := s.dropWhile isJsonWs

/-- The byte that `\` and this character stand for. -/
def simpleEscape (e : UInt8) : Option UInt8 :=
  if e = 34 then some 34
  else if e = 92 then some 92
  else if e = 47 then some 47
  else if e = 98 then some 8
  else if e = 102 then some 12
  else if e = 110 then some 10
  else if e = 114 then some 13
  else if e = 116 then some 9
  else none

def hexDigitVal (h : UInt8) : Option Nat :=
  if 48 ≤ h ∧ h ≤ 57 then some (h.toNat - 48)
  else if 97 ≤ h ∧ h ≤ 102 then some (h.toNat - 97 + 10)
  else if 65 ≤ h ∧ h ≤ 70 then some (h.toNat - 65 + 10)
  else none

/-- Four hexadecimal digits. -/
def hex4 (a b c d : UInt8) : Option Nat := do
  let a ← hexDigitVal a
  let b ← hexDigitVal b
  let c ← hexDigitVal c
  let d ← hexDigitVal d
  return ((a * 16 + b) * 16 + c) * 16 + d

/-- The bytes a `\u` escape leaves in the buffer. -/
def encodeUnit (cp : Nat) : Bytes :=
  if cp < 0x80 then [UInt8.ofNat cp]
  else if cp < 0x800 then [UInt8.ofNat (0xC0 ||| cp >>> 6), UInt8.ofNat (0x80 ||| cp &&& 0x3F)]
  else
    [UInt8.ofNat (0xE0 ||| cp >>> 12), UInt8.ofNat (0x80 ||| cp >>> 6 &&& 0x3F),
      UInt8.ofNat (0x80 ||| cp &&& 0x3F)]

/-- `parse_string` behind the opening quote: the bytes of the string, and what
    follows it. -/
def parseString : Bytes → Option (Bytes × Bytes)
  | [] => none
  | c :: s =>
      if c = chQuote then some ([], s)
      else if c ≠ chBackslash then (parseString s).map fun r => (c :: r.1, r.2)
      else
        match s with
        | [] => none
        | e :: s =>
            if e = 117 then
              match s with
              | a :: b :: c :: d :: s =>
                  (hex4 a b c d).bind fun cp =>
                    (parseString s).map fun r => (encodeUnit cp ++ r.1, r.2)
              | _ => none
            else
              (simpleEscape e).bind fun b => (parseString s).map fun r => (b :: r.1, r.2)

-- ============================================================================
-- Values
-- ============================================================================

/-- The characters the number scanner takes. -/
def isNumChar (c : UInt8) : Bool :=
  c == 45 || c == 43 || c == 46 || c == 101 || c == 69 || (48 ≤ c && c ≤ 57)

/-- The `for` loop over items or members, `n` of them kept so far: only
    `NTC_JSON_MAX_MEMBERS` are. -/
def parseElems {α : Type} (elem : Bytes → Option (α × Bytes)) (close : UInt8) :
    Nat → Nat → Bytes → Option (List α × Bytes)
  | 0, _, _ => none
  | fuel + 1, n, s =>
      match elem s with
      | none => none
      | some (x, s) =>
          let kept := if n < ntcJsonMaxMembers then [x] else []
          match skipWs s with
          | [] => none
          | c :: s =>
              if c = chComma then
                (parseElems elem close fuel (n + kept.length) s).map fun r => (kept ++ r.1, r.2)
              else if c = close then some (kept, s)
              else none

/-- What is between the brackets: nothing, or elements. -/
def parseList {α : Type} (elem : Bytes → Option (α × Bytes)) (close : UInt8) (s : Bytes) :
    Option (List α × Bytes) :=
  match skipWs s with
  | [] => none
  | c :: rest =>
      if c = close then some ([], rest)
      else parseElems elem close ((c :: rest).length + 1) 0 (c :: rest)

/-- One member of an object. -/
def parseMember {α : Type} (value : Bytes → Option (α × Bytes)) (s : Bytes) :
    Option ((Bytes × α) × Bytes) :=
  match skipWs s with
  | [] => none
  | c :: s =>
      if c ≠ chQuote then none
      else
        (parseString s).bind fun (k, s) =>
          match skipWs s with
          | [] => none
          | c :: s => if c = chColon then (value s).map fun r => ((k, r.1), r.2) else none

/-- `memcmp` with a literal, then past it. -/
def parseLiteral (word : Bytes) (v : NtcJson) (s : Bytes) : Option (NtcJson × Bytes) :=
  if word.isPrefixOf s then some (v, s.drop word.length) else none

/-- `parse_value`, with this many levels left. -/
def parseValue : Nat → Bytes → Option (NtcJson × Bytes)
  | 0, _ => none
  | depth + 1, s =>
      match skipWs s with
      | [] => none
      | c :: s =>
          if c = 123 then
            (parseList (parseMember (parseValue depth)) 125 s).map fun r =>
              (.obj (r.1.map Prod.fst) (r.1.map Prod.snd), r.2)
          else if c = 91 then
            (parseList (parseValue depth) 93 s).map fun r => (.arr r.1, r.2)
          else if c = chQuote then (parseString s).map fun r => (.str r.1, r.2)
          else if c = 116 then parseLiteral (lit "true") (.bool true) (c :: s)
          else if c = 102 then parseLiteral (lit "false") (.bool false) (c :: s)
          else if c = 110 then parseLiteral (lit "null") .null (c :: s)
          else if c = 45 ∨ (48 ≤ c ∧ c ≤ 57) then
            some (.num (((c :: s).takeWhile isNumChar).take 63), (c :: s).dropWhile isNumChar)
          else none

/-- `ntc_json_parse`. -/
def ntcJsonParse (buf : Bytes) : Option NtcJson := (parseValue ntcJsonMaxDepth buf).map Prod.fst

/-- `ntc_json_get`: the first member of that name. -/
def ntcJsonGet (o : NtcJson) (key : Bytes) : Option NtcJson :=
  match o with
  | .obj keys vals => ((keys.zip vals).find? fun kv => kv.1 == key).map Prod.snd
  | _ => none

/-- `ntc_json_str`: the string, empty for anything else. -/
def ntcJsonStr : Option NtcJson → Bytes
  | some (.str s) => s
  | _ => []

end Naitron
