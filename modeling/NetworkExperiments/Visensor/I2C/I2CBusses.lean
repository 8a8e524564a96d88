import NetworkExperiments.Support.StrToL

/-!
# Arguments for a bus and a chip

This file models the functions of `i2cbusses.c` that read a bus and a chip
address from a text, with the walk over the adapters for a bus that is given by
its name.  What `gather_i2c_busses` finds is an argument: the adapters before
the terminator, or `none` for `NULL`.
-/

namespace NetworkExperiments.Visensor.I2C

open StrToL

/-- `parse_i2c_address`. -/
def parseI2cAddress (bits : ℕ) (addressArg : List Char) : ℤ :=
  let (address, rest) := strtol bits addressArg
  if rest ≠ [] ∨ addressArg = [] then -1
  else if address < 0x03 ∨ 0x77 < address then -2
  else address

/-- The fields of `struct i2c_adap` that are read. -/
structure I2cAdap where
  nr : ℤ
  name : List Char
  deriving DecidableEq, Repr

/-- The loop of `lookup_i2c_bus_by_name`. -/
def walkAdapters (busName : List Char) : List I2cAdap → ℤ → ℤ
  | [], i2cbus => i2cbus
  | adapter :: adapters, i2cbus =>
      if adapter.name = busName then
        if 0 ≤ i2cbus then -4 else walkAdapters busName adapters adapter.nr
      else walkAdapters busName adapters i2cbus

def lookupI2cBusByName (gathered : Option (List I2cAdap))
    (busName : List Char) : ℤ :=
  match gathered with
  | none => -3
  | some adapters => walkAdapters busName adapters (-1)

/-- `lookup_i2c_bus`. -/
def lookupI2cBus (bits : ℕ) (gathered : Option (List I2cAdap))
    (i2cbusArg : List Char) : ℤ :=
  let (i2cbus, rest) := strtoul bits i2cbusArg
  if rest ≠ [] ∨ i2cbusArg = [] then lookupI2cBusByName gathered i2cbusArg
  else if 0xFFFFF < i2cbus then -2
  else i2cbus

/-! ## Numbers -/

theorem ne_nil_of_denotes {s : List Char} {v : ℤ} (h : Denotes s v) :
    s ≠ [] := by
  rintro rfl
  cases scan_eq_iff.mpr h

theorem rest_ne_nil_or {s : List Char} (h : ∀ v, ¬ Denotes s v) (bits : ℕ) :
    ((strtol bits s).2 ≠ [] ∨ s = []) ∧
      ((strtoul bits s).2 ≠ [] ∨ s = []) := by
  rw [strtol, strtoul]
  cases hscan : scan s with
  | none =>
      by_cases hs : s = []
      · exact ⟨Or.inr hs, Or.inr hs⟩
      · exact ⟨Or.inl hs, Or.inl hs⟩
  | some r =>
      obtain ⟨v, rest⟩ := r
      have hrest : rest ≠ [] := by
        rintro rfl
        exact h v (scan_eq_iff.mp hscan)
      exact ⟨Or.inl hrest, Or.inl hrest⟩

/-- What a chip address may be. -/
def chipAddress (v : ℤ) : ℤ := if 0x03 ≤ v ∧ v ≤ 0x77 then v else -2

theorem denotes_unique {s : List Char} {v w : ℤ} (hv : Denotes s v)
    (hw : Denotes s w) : v = w := by
  have hsame := (scan_eq_iff.mpr hv).symm.trans (scan_eq_iff.mpr hw)
  exact (Prod.mk.inj (Option.some.inj hsame)).1

theorem parseI2cAddress_denoted {bits : ℕ} (hbits : 32 ≤ bits)
    (addressArg : List Char) :
    (∃ v, Denotes addressArg v ∧
        parseI2cAddress bits addressArg = chipAddress v) ∨
      ((∀ v, ¬ Denotes addressArg v) ∧
        parseI2cAddress bits addressArg = -1) := by
  by_cases h : ∃ v, Denotes addressArg v
  · obtain ⟨v, hv⟩ := h
    refine Or.inl ⟨v, hv, ?_⟩
    have hpow : 2 ^ 31 ≤ 2 ^ (bits - 1) :=
      Nat.pow_le_pow_right (by decide) (by omega)
    have hlarge : (2 : ℤ) ^ 31 ≤ 2 ^ (bits - 1) := by exact_mod_cast hpow
    have hne := ne_nil_of_denotes hv
    rw [parseI2cAddress, strtol, scan_eq_iff.mpr hv]
    simp only [ne_eq, not_true_eq_false, hne, or_self, if_false]
    rw [chipAddress]
    split_ifs <;> omega
  · have hno : ∀ v, ¬ Denotes addressArg v := fun v hv => h ⟨v, hv⟩
    exact Or.inr ⟨hno, if_pos (rest_ne_nil_or hno bits).1⟩

/-- The three ways in which the function can end. -/
structure ParsesAddress (bits : ℕ) (addressArg : List Char) : Prop where
  address : ∀ a : ℤ, 0x03 ≤ a → a ≤ 0x77 →
    (parseI2cAddress bits addressArg = a ↔ Denotes addressArg a)
  outOfRange : parseI2cAddress bits addressArg = -2 ↔
    ∃ v, Denotes addressArg v ∧ ¬ (0x03 ≤ v ∧ v ≤ 0x77)
  notANumber : parseI2cAddress bits addressArg = -1 ↔
    ∀ v, ¬ Denotes addressArg v

/-- A chip address is accepted exactly when the text is an integer from 0x03 to
0x77, decimal, octal or hexadecimal and of any length.  An integer out of range
and a text that is no integer are told apart. -/
theorem parseI2cAddress_exact {bits : ℕ} (hbits : 32 ≤ bits)
    (addressArg : List Char) : ParsesAddress bits addressArg := by
  rcases parseI2cAddress_denoted hbits addressArg with
    ⟨v, hv, heq⟩ | ⟨hno, heq⟩
  · rw [chipAddress] at heq
    refine ⟨fun a hlo hhi => ⟨fun ha => ?_, fun ha => ?_⟩,
      ⟨fun hout => ?_, fun ⟨w, hw, hrange⟩ => ?_⟩,
      ⟨fun hnone => ?_, fun hnone => absurd hv (hnone v)⟩⟩
    · have hva : v = a := by
        split_ifs at heq <;> omega
      exact hva ▸ hv
    · rw [heq, denotes_unique ha hv, if_pos]
      exact denotes_unique ha hv ▸ ⟨hlo, hhi⟩
    · refine ⟨v, hv, fun hrange => ?_⟩
      rw [if_pos hrange] at heq
      omega
    · rw [heq, if_neg (denotes_unique hw hv ▸ hrange)]
    · exfalso
      split_ifs at heq <;> omega
  · exact ⟨fun a hlo hhi =>
        ⟨fun ha => by omega, fun ha => absurd ha (hno a)⟩,
      ⟨fun hout => by omega, fun ⟨w, hw, _⟩ => absurd hw (hno w)⟩,
      ⟨fun _ => hno, fun _ => heq⟩⟩

theorem parseI2cAddress_exact_sensor :
    ParsesAddress 32 ['0', 'x', '4', '8'] :=
  parseI2cAddress_exact (by decide) _

/-- The texts that `printf` makes of an address are accepted. -/
theorem parseI2cAddress_printed {bits n : ℕ} (hbits : 32 ≤ bits)
    (hlo : 0x03 ≤ n) (hhi : n ≤ 0x77) :
    parseI2cAddress bits (Nat.toDigits 10 n) = n ∧
      parseI2cAddress bits ('0' :: 'x' :: Nat.toDigits 16 n) = n := by
  have hprinted : ∀ s, Denotes s n → parseI2cAddress bits s = n := by
    intro s hs
    rcases parseI2cAddress_denoted hbits s with ⟨v, hv, heq⟩ | ⟨hno, -⟩
    · rw [heq, ← denotes_unique hs hv, chipAddress, if_pos (by omega)]
    · exact absurd hs (hno n)
  exact ⟨hprinted _ (denotes_decimal n), hprinted _ (denotes_hex n)⟩

/-! ## Names -/

/-- The number for a name, which has to belong to one adapter only. -/
def numberOf : List I2cAdap → ℤ
  | [] => -1
  | [adapter] => adapter.nr
  | _ => -4

theorem walkAdapters_of_found (busName : List Char) (adapters : List I2cAdap)
    {i2cbus : ℤ} (hfound : 0 ≤ i2cbus) :
    walkAdapters busName adapters i2cbus =
      if adapters.filter (·.name = busName) = [] then i2cbus else -4 := by
  induction adapters with
  | nil => rfl
  | cons adapter adapters ih =>
      by_cases hname : adapter.name = busName
      · simp [walkAdapters, hname, hfound]
      · simp only [walkAdapters, hname, if_false, ih, decide_false,
          List.filter_cons_of_neg, Bool.false_eq_true, not_false_eq_true]

theorem walkAdapters_eq (busName : List Char) {adapters : List I2cAdap}
    (hnr : ∀ adapter ∈ adapters, 0 ≤ adapter.nr) :
    walkAdapters busName adapters (-1) =
      numberOf (adapters.filter (·.name = busName)) := by
  induction adapters with
  | nil => rfl
  | cons adapter adapters ih =>
      obtain ⟨hadapter, hrest⟩ := List.forall_mem_cons.mp hnr
      by_cases hname : adapter.name = busName
      · have hfilter : (adapter :: adapters).filter (·.name = busName) =
            adapter :: adapters.filter (·.name = busName) :=
          List.filter_cons_of_pos (decide_eq_true hname)
        have hneg : ¬ (0 : ℤ) ≤ -1 := by decide
        rw [walkAdapters, if_pos hname, if_neg hneg,
          walkAdapters_of_found busName adapters hadapter, hfilter]
        cases adapters.filter (·.name = busName) with
        | nil => rfl
        | cons other others => rfl
      · have hfilter : (adapter :: adapters).filter (·.name = busName) =
            adapters.filter (·.name = busName) :=
          List.filter_cons_of_neg (by simpa using hname)
        rw [walkAdapters, if_neg hname, hfilter]
        exact ih hrest

/-- The bus for an integer.  A negative one counts from the end of the range of
`unsigned long`. -/
def busNumber (bits : ℕ) (v : ℤ) : ℤ :=
  if 0 ≤ v ∧ v ≤ 0xFFFFF then v
  else if -2 ^ bits < v ∧ v ≤ 0xFFFFF - 2 ^ bits then v + 2 ^ bits
  else -2

/-- The bus for a name. -/
def namedBus (gathered : Option (List I2cAdap)) (busName : List Char) : ℤ :=
  match gathered with
  | none => -3
  | some adapters => numberOf (adapters.filter (·.name = busName))

end NetworkExperiments.Visensor.I2C
