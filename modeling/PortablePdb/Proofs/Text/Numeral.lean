import PortablePdb.Proofs.Outcome
import PortablePdb.Text.Numeral

/-!
Numerals read back. A word is written in decimal or, behind `0x`, in hexadecimal with any
number of zeros in front, and both are read as that word (`parse_of_writes`).
-/

namespace PortablePdb.Text.Numeral

theorem digit?_digitChar {radix d : Nat} (hradix : radix ≤ 16) (h : d < radix) :
    digit? radix d.digitChar = some d := by
  have hdigit : ∀ d < 16, Hex.digit? d.digitChar = some d := by decide
  simp [digit?, hdigit d (Nat.lt_of_lt_of_le h hradix), h]

/-- What stands in front of a numeral or in a query beside it is no digit. -/
theorem digit?_mark (radix : Nat) :
    digit? radix '+' = none ∧ digit? radix 'x' = none ∧ digit? radix ':' = none := by
  have hmark : Hex.digit? '+' = none ∧ Hex.digit? 'x' = none ∧
    Hex.digit? ':' = none := by decide
  simp [digit?, hmark]

theorem parseDigits_append (radix n : Nat) (front back : List Char) :
    parseDigits radix n (front ++ back) = parseDigits radix n front >>= fun m =>
      parseDigits radix m back := by
  induction front generalizing n with
  | nil => rfl
  | cons c front ih =>
      simp only [List.cons_append, parseDigits]
      split
      case h_1 => rfl
      case h_2 =>
        split
        · exact ih _
        · rfl

theorem isSome_digit?_of_parseDigits {radix : Nat} {cs : List Char} :
    ∀ {n m : Nat}, parseDigits radix n cs = .ok m → ∀ c ∈ cs, (digit? radix c).isSome := by
  induction cs with
  | nil => simp
  | cons c cs ih =>
      intro n m h
      simp only [parseDigits] at h
      split at h
      case h_1 => cases h
      case h_2 d hd =>
        split at h
        · exact List.forall_mem_cons.2 ⟨by simp [hd], ih h⟩
        · cases h

theorem not_mem_of_parseDigits {radix m : Nat} {cs : List Char}
    (h : parseDigits radix 0 cs = .ok m) : '+' ∉ cs ∧ 'x' ∉ cs ∧ ':' ∉ cs := by
  have hdigits := isSome_digit?_of_parseDigits h
  obtain ⟨hplus, hx, hcolon⟩ := digit?_mark radix
  refine ⟨fun hmem => ?_, fun hmem => ?_, fun hmem => ?_⟩ <;> have :=
    hdigits _ hmem <;> simp_all

theorem parseDigits_toDigits (radix : Nat) (hradix : 1 < radix) (hle : radix ≤ 16)
    (n : Nat) (h : n < UInt32.size) :
    parseDigits radix 0 (Nat.toDigits radix n) = .ok n := by
  induction n using Nat.strongRecOn with
  | ind n ih =>
      have hdigit {m d : Nat} (hd : d < radix) (hsize : radix * m + d < UInt32.size) :
          parseDigits radix m [d.digitChar] = .ok (radix * m + d) := by
        simp [parseDigits, digit?_digitChar hle hd, hsize]
      rw [Nat.toDigits_eq_if hradix]
      split
      case isTrue hlt => simpa using hdigit (m := 0) hlt (by omega)
      case isFalse hge =>
        -- The digits in front of the last one are those of the quotient.
        have hquotient : n / radix < n := Nat.div_lt_self (by omega) hradix
        have hsum : radix * (n / radix) + n % radix = n := Nat.div_add_mod n radix
        rw [parseDigits_append, ih _ hquotient (by omega)]
        change parseDigits radix (n / radix) [(n % radix).digitChar] = .ok n
        rw [hdigit (Nat.mod_lt _ (by omega)) (by omega), hsum]

theorem parseDigits_replicate_zero {radix : Nat}
    (hradix : 1 < radix) (hle : radix ≤ 16) (count : Nat) (cs : List Char) :
    parseDigits radix 0 (List.replicate count '0' ++ cs) = parseDigits radix 0 cs := by
  induction count with
  | zero => rfl
  | succ count ih =>
      have hzero : digit? radix '0' = some 0 := digit?_digitChar hle (d := 0) (by omega)
      have hsize : 0 < UInt32.size := by decide
      simp only [List.replicate_succ, List.cons_append, parseDigits, hzero, Nat.mul_zero,
        Nat.add_zero, hsize, if_true]
      exact ih

/-- Digits are read as they are when there is no sign. -/
theorem parseSigned_of_digits {radix m : Nat} {cs : List Char} (hne : cs ≠ [])
    (h : parseDigits radix 0 cs = .ok m) : parseSigned radix cs = .ok m := by
  have hplus := (not_mem_of_parseDigits h).1
  rw [parseSigned.eq_def]
  split
  · exact absurd rfl hne
  · simp at hplus
  · simp at hplus
  · exact h

theorem parse_of_decimal {m : Nat} {cs : List Char} (hne : cs ≠ [])
    (h : parseDigits 10 0 cs = .ok m) : parse cs = .ok m.toUInt32 := by
  have hx := (not_mem_of_parseDigits h).2.1
  rw [parse.eq_def]
  split
  · simp at hx
  · rw [parseSigned_of_digits hne h]
    rfl

theorem parse_of_hexadecimal {m : Nat} {cs : List Char} (hne : cs ≠ [])
    (h : parseDigits 16 0 cs = .ok m) : parse ('0' :: 'x' :: cs) = .ok m.toUInt32 := by
  rw [parse, parseSigned_of_digits hne h]
  rfl

inductive Writes (w : UInt32) : String → Prop
  | decimal : Writes w w.toNat.repr
  | hexadecimal (width : Nat) : Writes w (Hex.literal width w.toNat)

theorem toList_literal (width n : Nat) :
    (Hex.literal width n).toList = '0' :: 'x' ::
      (List.replicate (width - (Nat.toDigits 16 n).length) '0' ++ Nat.toDigits 16 n) := by
  simp [Hex.literal, Hex.padded, List.leftpad]

theorem parse_of_writes {w : UInt32} {text : String} (h : Writes w text) :
    parse text.toList = .ok w := by
  cases h with
  | decimal =>
      have hdigits := parseDigits_toDigits 10 (by omega) (by omega) w.toNat w.toNat_lt
      rw [Nat.toList_repr, parse_of_decimal Nat.toDigits_ne_nil hdigits]
      simp
  | hexadecimal width =>
      have hdigits := parseDigits_toDigits 16 (by omega) (by omega) _ w.toNat_lt
      rw [← parseDigits_replicate_zero (by omega) (by omega)
        (width - (Nat.toDigits 16 w.toNat).length)] at hdigits
      rw [toList_literal, parse_of_hexadecimal (by simp [Nat.toDigits_ne_nil]) hdigits]
      simp

theorem colon_not_mem_of_writes {w : UInt32} {text : String} (h : Writes w text) :
    ':' ∉ text.toList := by
  have hdigits (radix : Nat) (hradix : 1 < radix)
      (hle : radix ≤ 16) : ':' ∉ Nat.toDigits radix w.toNat :=
    (not_mem_of_parseDigits (parseDigits_toDigits radix hradix hle _ w.toNat_lt)).2.2
  cases h with
  | decimal => simpa using hdigits 10 (by omega) (by omega)
  | hexadecimal width => simp [toList_literal, hdigits]

end PortablePdb.Text.Numeral
