import Mathlib.Algebra.Order.Group.Int
import Mathlib.Data.List.TakeWhile
import NetworkExperiments.Support.CInt

/-!
# Integers in C strings

`strtol` and `strtoul` with base 0 skip white space, take a sign and then the
longest numeral that follows: a hexadecimal one behind `0x`, an octal one behind
`0`, or a decimal one.  They return its value, brought into the range of the
type, and the rest of the string.

`Denotes` is the grammar of the strings that are one integer as a whole, and
`scan_eq_iff` says that these are the ones of which nothing is left.
-/

namespace StrToL

/-- `isspace` for the characters of the C locale. -/
def isSpace (c : Char) : Bool :=
  c = ' ' || (9 ≤ c.toNat && c.toNat ≤ 13)

/-- The value of a digit, or of a letter that is used as one. -/
def digitValue (c : Char) : Option ℕ :=
  if 48 ≤ c.toNat ∧ c.toNat ≤ 57 then some (c.toNat - 48)
  else if 97 ≤ c.toNat ∧ c.toNat ≤ 122 then some (c.toNat - 87)
  else if 65 ≤ c.toNat ∧ c.toNat ≤ 90 then some (c.toNat - 55)
  else none

def isDigit (base : ℕ) (c : Char) : Bool :=
  (digitValue c).any (· < base)

/-- The number with the given digits. -/
def value (base : ℕ) (digits : List Char) : ℕ :=
  digits.foldl (fun n c => base * n + (digitValue c).getD 0) 0

/-- The digits at the front of a string, and what follows them. -/
def scanDigits (base : ℕ) (s : List Char) : Option (ℕ × List Char) :=
  if s.takeWhile (isDigit base) = [] then none
  else some (value base (s.takeWhile (isDigit base)),
    s.dropWhile (isDigit base))

/-- The numeral at the front of a string.  A `0x` without a hexadecimal digit is
the numeral `0`, and the `x` follows it. -/
def scanNumeral (s : List Char) : Option (ℕ × List Char) :=
  match s with
  | '0' :: x :: digits =>
      if x = 'x' ∨ x = 'X' then
        some ((scanDigits 16 digits).getD (0, x :: digits))
      else scanDigits 8 s
  | '0' :: [] => some (0, [])
  | _ => scanDigits 10 s

/-- The integer at the front of a string, if there is one. -/
def scan (s : List Char) : Option (ℤ × List Char) :=
  match s.dropWhile isSpace with
  | '-' :: rest => (scanNumeral rest).map fun n => (-(n.1 : ℤ), n.2)
  | '+' :: rest => (scanNumeral rest).map fun n => ((n.1 : ℤ), n.2)
  | rest => (scanNumeral rest).map fun n => ((n.1 : ℤ), n.2)

/-- `strtol`, for a `long` of the given size: the value, and the string that
`*endptr` points to. -/
def strtol (bits : ℕ) (s : List Char) : ℤ × List Char :=
  match scan s with
  | none => (0, s)
  | some (v, rest) =>
      (max (-2 ^ (bits - 1)) (min v (2 ^ (bits - 1) - 1)), rest)

/-- `strtoul`.  The value of a negative number is taken modulo the size of the
type; what is too large even so becomes `ULONG_MAX`. -/
def strtoul (bits : ℕ) (s : List Char) : ℕ × List Char :=
  match scan s with
  | none => (0, s)
  | some (v, rest) =>
      (if v.natAbs < 2 ^ bits then CInt.toSize bits v else 2 ^ bits - 1, rest)

/-! ## The grammar -/

/-- The numerals and their values. -/
inductive Numeral : List Char → ℕ → Prop
  | decimal {ds : List Char} (hne : ds ≠ []) (hfirst : ds.head? ≠ some '0')
      (hds : ∀ c ∈ ds, isDigit 10 c) : Numeral ds (value 10 ds)
  | octal {ds : List Char} (hds : ∀ c ∈ ds, isDigit 8 c) :
      Numeral ('0' :: ds) (value 8 ds)
  | hex {x : Char} {ds : List Char} (hx : x = 'x' ∨ x = 'X') (hne : ds ≠ [])
      (hds : ∀ c ∈ ds, isDigit 16 c) : Numeral ('0' :: x :: ds) (value 16 ds)

/-- The strings that are an integer, perhaps behind white space and a sign. -/
inductive Denotes : List Char → ℤ → Prop
  | plain {ws ds : List Char} {n : ℕ} (hws : ∀ c ∈ ws, isSpace c)
      (hds : Numeral ds n) : Denotes (ws ++ ds) n
  | plus {ws ds : List Char} {n : ℕ} (hws : ∀ c ∈ ws, isSpace c)
      (hds : Numeral ds n) : Denotes (ws ++ '+' :: ds) n
  | minus {ws ds : List Char} {n : ℕ} (hws : ∀ c ∈ ws, isSpace c)
      (hds : Numeral ds n) : Denotes (ws ++ '-' :: ds) (-n)

/-! ## Scanning -/

theorem value_zero_cons (base : ℕ) (digits : List Char) :
    value base ('0' :: digits) = value base digits := by
  have hzero : base * 0 + (digitValue '0').getD 0 = 0 := by
    rw [Nat.mul_zero]
    rfl
  rw [value, List.foldl_cons, hzero]
  rfl

theorem scanDigits_eq_iff {base n : ℕ} {s : List Char} :
    scanDigits base s = some (n, []) ↔
      s ≠ [] ∧ (∀ c ∈ s, isDigit base c) ∧ n = value base s := by
  constructor
  · intro h
    rw [scanDigits] at h
    split at h
    · cases h
    · next hne =>
        obtain ⟨hvalue, hrest⟩ := Prod.mk.inj (Option.some.inj h)
        have hall := List.dropWhile_eq_nil_iff.mp hrest
        have hself := List.takeWhile_eq_self_iff.mpr hall
        rw [hself] at hvalue hne
        exact ⟨hne, hall, hvalue.symm⟩
  · rintro ⟨hne, hall, rfl⟩
    rw [scanDigits, List.takeWhile_eq_self_iff.mpr hall, if_neg hne,
      List.dropWhile_eq_nil_iff.mpr hall]

theorem scanNumeral_hex {x : Char} (hx : x = 'x' ∨ x = 'X')
    (ds : List Char) : scanNumeral ('0' :: x :: ds) =
      some ((scanDigits 16 ds).getD (0, x :: ds)) :=
  if_pos hx

theorem scanNumeral_octal {x : Char} (hx : ¬ (x = 'x' ∨ x = 'X'))
    (ds : List Char) :
    scanNumeral ('0' :: x :: ds) = scanDigits 8 ('0' :: x :: ds) :=
  if_neg hx

theorem scanNumeral_decimal {s : List Char} (h : s.head? ≠ some '0') :
    scanNumeral s = scanDigits 10 s := by
  unfold scanNumeral
  split
  · exact absurd rfl h
  · exact absurd rfl h
  · rfl

/-- All of a string is a numeral. -/
theorem scanNumeral_eq_iff {s : List Char} {n : ℕ} :
    scanNumeral s = some (n, []) ↔ Numeral s n := by
  constructor
  · intro h
    by_cases hfirst : s.head? = some '0'
    · obtain ⟨rest, rfl⟩ := List.head?_eq_some_iff.mp hfirst
      cases rest with
      | nil =>
          obtain ⟨rfl, -⟩ := Prod.mk.inj (Option.some.inj h)
          exact @Numeral.octal [] nofun
      | cons x ds =>
          by_cases hx : x = 'x' ∨ x = 'X'
          · rw [scanNumeral_hex hx] at h
            cases hscan : scanDigits 16 ds with
            | none =>
                rw [hscan] at h
                cases h
            | some r =>
                rw [hscan] at h
                obtain ⟨v, rest⟩ := r
                cases h
                obtain ⟨hne, hds, rfl⟩ := scanDigits_eq_iff.mp hscan
                exact Numeral.hex hx hne hds
          · rw [scanNumeral_octal hx] at h
            obtain ⟨-, hds, rfl⟩ := scanDigits_eq_iff.mp h
            rw [value_zero_cons]
            exact Numeral.octal fun c hc => hds c (List.mem_cons_of_mem _ hc)
    · rw [scanNumeral_decimal hfirst] at h
      obtain ⟨hne, hds, rfl⟩ := scanDigits_eq_iff.mp h
      exact Numeral.decimal hne hfirst hds
  · intro h
    cases h with
    | decimal hne hfirst hds =>
        rw [scanNumeral_decimal hfirst]
        exact scanDigits_eq_iff.mpr ⟨hne, hds, rfl⟩
    | @octal ds hds =>
        cases ds with
        | nil => rfl
        | cons x ds =>
            have hx : ¬ (x = 'x' ∨ x = 'X') := by
              have hdigit := hds x List.mem_cons_self
              rintro (rfl | rfl) <;> revert hdigit <;> decide
            rw [scanNumeral_octal hx, scanDigits_eq_iff]
            refine ⟨List.cons_ne_nil _ _, ?_, (value_zero_cons 8 _).symm⟩
            intro c hc
            rcases List.mem_cons.mp hc with rfl | hc
            · decide
            · exact hds c hc
    | hex hx hne hds =>
        rw [scanNumeral_hex hx, scanDigits_eq_iff.mpr ⟨hne, hds, rfl⟩]
        rfl

theorem Numeral.head {s : List Char} {n : ℕ} (h : Numeral s n) :
    ∃ c rest, s = c :: rest ∧ isDigit 10 c = true := by
  cases h with
  | decimal hne hfirst hds =>
      obtain ⟨c, rest, rfl⟩ := List.exists_cons_of_ne_nil hne
      exact ⟨c, rest, rfl, hds c List.mem_cons_self⟩
  | octal hds => exact ⟨_, _, rfl, rfl⟩
  | hex hx hne hds => exact ⟨_, _, rfl, rfl⟩

theorem isDigit_ten_iff (c : Char) :
    isDigit 10 c = true ↔ 48 ≤ c.toNat ∧ c.toNat ≤ 57 := by
  rw [isDigit, digitValue]
  split_ifs <;> simp <;> omega

/-- A decimal digit is neither white space nor a sign. -/
theorem digit_spec {c : Char} (h : isDigit 10 c = true) :
    isSpace c = false ∧ c ≠ '-' ∧ c ≠ '+' := by
  rw [isDigit_ten_iff] at h
  refine ⟨?_, ?_, ?_⟩
  · have hspace : c ≠ ' ' := by
      rintro rfl
      exact absurd h.1 (by decide)
    have hrange : ¬ (9 ≤ c.toNat ∧ c.toNat ≤ 13) := by omega
    simpa [isSpace, hspace] using hrange
  · rintro rfl
    exact absurd h.1 (by decide)
  · rintro rfl
    exact absurd h.1 (by decide)

theorem dropWhile_isSpace {ws s : List Char} (hws : ∀ c ∈ ws, isSpace c)
    (hs : ∀ c ∈ s.head?, isSpace c = false) :
    (ws ++ s).dropWhile isSpace = s := by
  rw [List.dropWhile_append_of_pos hws]
  cases s with
  | nil => rfl
  | cons c s =>
      have hc := hs c rfl
      rw [List.dropWhile_cons_of_neg (by simp [hc])]

/-- All of a string is an integer exactly when the string denotes it. -/
theorem scan_eq_iff {s : List Char} {v : ℤ} :
    scan s = some (v, []) ↔ Denotes s v := by
  constructor
  · intro h
    have hsplit := List.takeWhile_append_dropWhile (p := isSpace) (l := s)
    have hws : ∀ c ∈ s.takeWhile isSpace, isSpace c := fun c hc =>
      List.mem_takeWhile_imp hc
    rw [scan] at h
    split at h
    · next rest hrest =>
        obtain ⟨⟨n, after⟩, hn, hv⟩ := Option.map_eq_some_iff.mp h
        obtain ⟨rfl, rfl⟩ := Prod.mk.inj hv
        rw [← hsplit, hrest]
        exact Denotes.minus hws (scanNumeral_eq_iff.mp hn)
    · next rest hrest =>
        obtain ⟨⟨n, after⟩, hn, hv⟩ := Option.map_eq_some_iff.mp h
        obtain ⟨rfl, rfl⟩ := Prod.mk.inj hv
        rw [← hsplit, hrest]
        exact Denotes.plus hws (scanNumeral_eq_iff.mp hn)
    · obtain ⟨⟨n, after⟩, hn, hv⟩ := Option.map_eq_some_iff.mp h
      obtain ⟨rfl, rfl⟩ := Prod.mk.inj hv
      rw [← hsplit]
      exact Denotes.plain hws (scanNumeral_eq_iff.mp hn)
  · intro h
    cases h with
    | @plain ws ds n hws hds =>
        obtain ⟨c, rest, rfl, hc⟩ := hds.head
        obtain ⟨hspace, hminus, hplus⟩ := digit_spec hc
        have hdrop := dropWhile_isSpace (s := c :: rest) hws
          fun c' hc' => by simpa [← Option.some.inj hc'] using hspace
        rw [scan, hdrop]
        split
        · next heq => exact absurd (List.cons.inj heq).1 hminus
        · next heq => exact absurd (List.cons.inj heq).1 hplus
        · rw [scanNumeral_eq_iff.mpr hds]
          rfl
    | @plus ws ds n hws hds =>
        have hdrop := dropWhile_isSpace (s := '+' :: ds) hws
          fun c' hc' => by rw [← Option.some.inj hc']; decide
        rw [scan, hdrop]
        simp only [scanNumeral_eq_iff.mpr hds, Option.map_some]
    | @minus ws ds n hws hds =>
        have hdrop := dropWhile_isSpace (s := '-' :: ds) hws
          fun c' hc' => by rw [← Option.some.inj hc']; decide
        rw [scan, hdrop]
        simp only [scanNumeral_eq_iff.mpr hds, Option.map_some]

/-! ## Writing and reading back -/

theorem digitValue_digitChar {d : ℕ} (hd : d < 16) :
    digitValue d.digitChar = some d := by
  revert d
  decide

theorem isDigit_digitChar {base d : ℕ} (hd : d < base) (hbase : base ≤ 16) :
    isDigit base d.digitChar = true := by
  rw [isDigit, digitValue_digitChar (by omega)]
  exact decide_eq_true hd

theorem isDigit_of_mem_toDigits {base : ℕ} (hone : 1 < base)
    (hbase : base ≤ 16) (n : ℕ) :
    ∀ c ∈ Nat.toDigits base n, isDigit base c := by
  induction n using Nat.strong_induction_on with
  | h n ih =>
      intro c hc
      by_cases hlt : n < base
      · rw [Nat.toDigits_of_lt_base hlt, List.mem_singleton] at hc
        exact hc ▸ isDigit_digitChar hlt hbase
      · have hle := Nat.not_lt.mp hlt
        rw [Nat.toDigits_of_base_le hone hle] at hc
        rcases List.mem_append.mp hc with hc | hc
        · exact ih (n / base) (Nat.div_lt_self (by omega) hone) c hc
        · rw [List.mem_singleton.mp hc]
          exact isDigit_digitChar (Nat.mod_lt n (by omega)) hbase

theorem value_toDigits {base : ℕ} (hone : 1 < base) (hbase : base ≤ 16)
    (n : ℕ) : value base (Nat.toDigits base n) = n := by
  induction n using Nat.strong_induction_on with
  | h n ih =>
      by_cases hlt : n < base
      · rw [Nat.toDigits_of_lt_base hlt, value, List.foldl_cons,
          List.foldl_nil, digitValue_digitChar (by omega), Option.getD_some,
          Nat.mul_zero, Nat.zero_add]
      · have hle := Nat.not_lt.mp hlt
        have hmod := Nat.mod_lt n (show 0 < base by omega)
        have hrest := ih (n / base) (Nat.div_lt_self (by omega) hone)
        rw [value] at hrest
        rw [Nat.toDigits_of_base_le hone hle, value, List.foldl_append,
          hrest, List.foldl_cons, List.foldl_nil,
          digitValue_digitChar (by omega), Option.getD_some]
        exact Nat.div_add_mod n base

theorem digitChar_ne_zero : ∀ d < 10, 0 < d → Nat.digitChar d ≠ '0' := by
  decide

/-- A decimal text has no zero in front. -/
theorem head_toDigits_ten {n : ℕ} (hn : 0 < n) :
    (Nat.toDigits 10 n).head? ≠ some '0' := by
  induction n using Nat.strong_induction_on with
  | h n ih =>
      by_cases hlt : n < 10
      · rw [Nat.toDigits_of_lt_base hlt]
        exact fun heq =>
          digitChar_ne_zero n hlt hn (Option.some.inj heq)
      · have hle := Nat.not_lt.mp hlt
        obtain ⟨c, cs, hcs⟩ := List.exists_cons_of_ne_nil
          (Nat.toDigits_ne_nil (n := n / 10) (b := 10))
        have hfirst := ih (n / 10) (by omega) (by omega)
        rw [hcs] at hfirst
        rw [Nat.toDigits_of_base_le (by decide) hle, hcs]
        exact hfirst

/-- What `printf` writes for `%d` is read back. -/
theorem denotes_decimal (n : ℕ) : Denotes (Nat.toDigits 10 n) n := by
  have hnumeral : Numeral (Nat.toDigits 10 n) n := by
    by_cases hn : n = 0
    · rw [hn, Nat.toDigits_zero]
      exact @Numeral.octal [] nofun
    · have hdecimal := Numeral.decimal Nat.toDigits_ne_nil
        (head_toDigits_ten (Nat.pos_of_ne_zero hn))
        (isDigit_of_mem_toDigits (by decide) (by decide) n)
      rw [value_toDigits (by decide) (by decide)] at hdecimal
      exact hdecimal
  exact @Denotes.plain [] _ _ nofun hnumeral

theorem denotes_hex (n : ℕ) :
    Denotes ('0' :: 'x' :: Nat.toDigits 16 n) n := by
  have hhex := Numeral.hex (Or.inl rfl) Nat.toDigits_ne_nil
    (isDigit_of_mem_toDigits (by decide) (by decide) n)
  rw [value_toDigits (by decide) (by decide)] at hhex
  exact @Denotes.plain [] _ _ nofun hhex

end StrToL
