/-
  Naitron.Chunked

  The chunked transfer coding: how `gw_deliver_chunk` and `gw_deliver_end`
  write a body, and a reader for it.  The reader accepts a sequence of sized
  chunks, one chunk of size zero, and nothing behind it.
-/

import Naitron.Bytes

namespace Naitron

-- ============================================================================
-- Writing
-- ============================================================================

/-- A chunk of a streamed body: as it is for SSE, with its size line and a
    line end in chunked mode. -/
def chunkBytes (sse : Bool) (data : Bytes) : Bytes :=
  if sse then data else hex data.length ++ crlf ++ data ++ crlf

/-- The chunk of size zero. -/
def chunkEnd : Bytes := lit "0\r\n\r\n"

/-- The end of a streamed body: SSE ends with the connection. -/
def streamEnd (sse : Bool) : Bytes := if sse then [] else chunkEnd

/-- A streamed body. -/
def streamBody (sse : Bool) (ws : List Bytes) : Bytes :=
  ws.flatMap (chunkBytes sse) ++ streamEnd sse

-- ============================================================================
-- Reading
-- ============================================================================

/-- Value of a hexadecimal digit. -/
def hexVal (b : UInt8) : Option Nat :=
  if 48 ≤ b ∧ b ≤ 57 then some (b.toNat - 48)
  else if 97 ≤ b ∧ b ≤ 102 then some (b.toNat - 87)
  else if 65 ≤ b ∧ b ≤ 70 then some (b.toNat - 55)
  else none

/-- The digits up to the line end, and the bytes behind it. -/
def readHex : Nat → Bytes → Option (Nat × Bytes)
  | _, [] => none
  | acc, b :: s =>
      match hexVal b with
      | some d => readHex (acc * 16 + d) s
      | none => if b = chCr ∧ s.head? = some chLf then some (acc, s.tail) else none

/-- A size line; it has at least one digit. -/
def readSize (s : Bytes) : Option (Nat × Bytes) :=
  match s.head?.bind hexVal with
  | none => none
  | some _ => readHex 0 s

/-- Read a chunked body that ends with the input.  Every chunk takes some
    bytes, so their number is fuel enough. -/
def dechunk : Nat → Bytes → Option Bytes
  | 0, _ => none
  | fuel + 1, s =>
      match readSize s with
      | none => none
      | some (0, s) => if s = crlf then some [] else none
      | some (n + 1, s) =>
          if (s.drop (n + 1)).take 2 = crlf then
            (dechunk fuel (s.drop (n + 3))).map (s.take (n + 1) ++ ·)
          else none

/-! ## What is written is read back -/

/-- A digit as it is printed. -/
def hexDigit (d : Nat) : UInt8 := UInt8.ofNat d.digitChar.toNat

theorem hexVal_hexDigit {d : Nat} (h : d < 16) : hexVal (hexDigit d) = some d := by
  interval_cases d <;> rfl

theorem hex_of_lt {n : Nat} (h : n < 16) : hex n = [hexDigit n] := by
  rw [hex, Nat.toDigits_of_lt_base h]
  rfl

theorem hex_of_le {n : Nat} (h : 16 ≤ n) : hex n = hex (n / 16) ++ [hexDigit (n % 16)] := by
  rw [hex, Nat.toDigits_of_base_le (by decide) h, List.map_append]
  rfl

/-- The digits of a number are read as that number. -/
theorem readHex_hex (n : Nat) : ∀ s : Bytes, readHex 0 (hex n ++ s) = readHex n s := by
  induction n using Nat.strongRecOn with
  | ind n ih =>
      intro s
      by_cases h : n < 16
      · rw [hex_of_lt h, List.singleton_append, readHex, hexVal_hexDigit h, Nat.zero_mul]
        dsimp only
        rw [Nat.zero_add]
      · have hdigit : n % 16 < 16 := Nat.mod_lt n (by decide)
        rw [hex_of_le (not_lt.mp h), List.append_assoc, ih (n / 16) (by omega),
          List.singleton_append, readHex, hexVal_hexDigit hdigit]
        dsimp only
        rw [Nat.div_add_mod' n 16]

theorem head_hex (n : Nat) (s : Bytes) : ∃ d, (hex n ++ s).head?.bind hexVal = some d := by
  induction n using Nat.strongRecOn generalizing s with
  | ind n ih =>
      by_cases h : n < 16
      · refine ⟨n, ?_⟩
        rw [hex_of_lt h, List.singleton_append, List.head?_cons, Option.bind_some,
          hexVal_hexDigit h]
      · rw [hex_of_le (not_lt.mp h), List.append_assoc]
        exact ih (n / 16) (by omega) _

/-- A size line is read back. -/
theorem readSize_hex (n : Nat) (s : Bytes) : readSize (hex n ++ crlf ++ s) = some (n, s) := by
  obtain ⟨d, hd⟩ := head_hex n (crlf ++ s)
  rw [List.append_assoc, readSize, hd]
  dsimp only
  rw [readHex_hex]
  rfl

/-- A chunked body of non-empty chunks is read back as their concatenation. -/
theorem dechunk_streamBody :
    ∀ (ws : List Bytes), (∀ w ∈ ws, w ≠ []) →
      ∀ fuel, (streamBody false ws).length ≤ fuel →
        dechunk fuel (streamBody false ws) = some ws.flatten := by
  intro ws
  induction ws with
  | nil =>
      intro _ fuel hfuel
      obtain ⟨fuel, rfl⟩ := Nat.exists_eq_succ_of_ne_zero (show fuel ≠ 0 by
        rintro rfl
        exact absurd hfuel (by decide))
      rfl
  | cons w ws ih =>
      intro hws fuel hfuel
      have hne : w ≠ [] := hws w List.mem_cons_self
      obtain ⟨n, hn⟩ := Nat.exists_eq_succ_of_ne_zero (List.length_pos_iff.mpr hne).ne'
      have hbody : streamBody false (w :: ws) =
          hex w.length ++ crlf ++ (w ++ (crlf ++ streamBody false ws)) := by
        simp [streamBody, chunkBytes]
      rw [hbody] at hfuel ⊢
      simp only [List.length_append] at hfuel
      have hpos : 0 < w.length := List.length_pos_iff.mpr hne
      obtain ⟨fuel, rfl⟩ := Nat.exists_eq_succ_of_ne_zero (show fuel ≠ 0 by omega)
      have hafter : (w ++ (crlf ++ streamBody false ws)).drop w.length =
          crlf ++ streamBody false ws := List.drop_left
      have hrest : (w ++ (crlf ++ streamBody false ws)).drop (w.length + 2) =
          streamBody false ws := by
        rw [← List.drop_drop, hafter]
        rfl
      rw [dechunk, readSize_hex, hn]
      dsimp only
      rw [show n + 1 = w.length from hn.symm, show n + 3 = w.length + 2 by omega, hafter, hrest,
        if_pos (by rfl), List.take_left,
        ih (fun x hx => hws x (List.mem_cons_of_mem w hx)) fuel (by omega)]
      rfl

end Naitron
