import MyWorkEnv.Lib.Snprintf

/-!
# Numbers printed and read

`atoi` reads the digits that are there, whatever comes behind them. So a number
that `%d` has printed is read back, unless another digit follows.
-/

namespace Snprintf

open CString

abbrev IsDigit (c : UInt8) : Prop := 48 ≤ c ∧ c ≤ 57

/-- The text does not go on with a digit. -/
def NotDigit (rest : List UInt8) : Prop := ∀ c ∈ rest.head?, ¬ IsDigit c

/-- The byte of a digit. -/
theorem isDigit_ofNat {c : Char} (h : c.isDigit = true) :
    (UInt8.ofNat c.toNat).toNat = c.toNat ∧ IsDigit (.ofNat c.toNat) := by
  have hrange : 48 ≤ c.toNat ∧ c.toNat ≤ 57 := by
    simp only [Char.isDigit, Bool.and_eq_true, decide_eq_true_eq] at h
    exact h
  have hbyte : (UInt8.ofNat c.toNat).toNat = c.toNat := by
    apply UInt8.toNat_ofNat_of_lt'
    simp only [UInt8.size]
    omega
  refine ⟨hbyte, ?_⟩
  rw [IsDigit, UInt8.le_iff_toNat_le, UInt8.le_iff_toNat_le, hbyte]
  exact hrange

theorem digits_ascii {text : List Char} (htext : ∀ c ∈ text, c.isDigit = true)
    {rest : List UInt8} (hrest : NotDigit rest) (n : ℕ) :
    digits n (ascii text ++ rest) = Nat.ofDigitChars 10 text n := by
  induction text generalizing n with
  | nil =>
      rw [Nat.ofDigitChars_nil]
      cases rest with
      | nil => rfl
      | cons c rest => exact if_neg (hrest c rfl)
  | cons c text ih =>
      obtain ⟨hc, htext⟩ := List.forall_mem_cons.mp htext
      obtain ⟨hbyte, hdigit⟩ := isDigit_ofNat hc
      show digits n (.ofNat c.toNat :: (ascii text ++ rest)) = _
      rw [digits, if_pos hdigit, hbyte, ih htext, Nat.ofDigitChars_cons]
      rfl

theorem isDigit_of_mem_toDigits {n : ℕ} {c : Char} (h : c ∈ Nat.toDigits 10 n) :
    c.isDigit = true :=
  Nat.isDigit_of_mem_toDigits (by decide) (by decide) h

theorem isDigit_of_mem_decimal {n : ℕ} {c : UInt8} (h : c ∈ decimal n) : IsDigit c := by
  obtain ⟨d, hd, rfl⟩ := List.mem_map.mp h
  exact (isDigit_ofNat (isDigit_of_mem_toDigits hd)).2

theorem digits_decimal {rest : List UInt8} (hrest : NotDigit rest) (n : ℕ) :
    digits 0 (decimal n ++ rest) = n := by
  rw [decimal, digits_ascii (fun c hc => isDigit_of_mem_toDigits hc) hrest,
    Nat.ofDigitChars_ten_toDigits]

theorem decimal_ne_nil (n : ℕ) : decimal n ≠ [] := by
  intro h
  exact Nat.toDigits_ne_nil (List.map_eq_nil_iff.mp h)

theorem mem_signedDecimal {z : ℤ} {c : UInt8} (h : c ∈ signedDecimal z) : c = 45 ∨ IsDigit c := by
  have hminus : str "-" = [45] := by decide
  rw [signedDecimal, hminus] at h
  split_ifs at h
  · rcases List.mem_append.mp h with hsign | hdigits
    · exact .inl (List.mem_singleton.mp hsign)
    · exact .inr (isDigit_of_mem_decimal hdigits)
  · exact .inr (isDigit_of_mem_decimal h)

theorem number_signedDecimal {rest : List UInt8} (hrest : NotDigit rest) (hnul : 0 ∉ rest)
    (z : ℤ) : number (signedDecimal z ++ rest) = z := by
  have htext : 0 ∉ signedDecimal z ++ rest := by
    intro hmem
    rcases List.mem_append.mp hmem with hfront | hback
    · rcases mem_signedDecimal hfront with hminus | hdigit
      · exact absurd hminus (by decide)
      · exact absurd hdigit.1 (by decide)
    · exact hnul hback
  have hminus : str "-" = [45] := by decide
  rw [number, cStr_of_not_mem htext, signedDecimal, hminus]
  split_ifs with hneg
  · have hspace : ¬ isspace 45 = true := by decide
    rw [List.append_assoc, List.singleton_append, List.dropWhile_cons_of_neg hspace]
    show -(digits 0 (decimal z.natAbs ++ rest) : ℤ) = z
    rw [digits_decimal hrest]
    omega
  · have hread := digits_decimal hrest z.natAbs
    obtain ⟨c, text, hsplit⟩ := List.exists_cons_of_ne_nil (decimal_ne_nil z.natAbs)
    have hc : IsDigit c := isDigit_of_mem_decimal (n := z.natAbs) (by rw [hsplit]; simp)
    have hspace : ¬ isspace c = true := by
      simp only [isspace, Bool.or_eq_true, beq_iff_eq, Bool.and_eq_true, decide_eq_true_eq]
      rintro (rfl | ⟨-, hle⟩)
      · exact absurd hc.1 (by decide)
      · exact absurd (UInt8.le_trans hc.1 hle) (by decide)
    rw [hsplit, List.cons_append] at hread ⊢
    rw [List.dropWhile_cons_of_neg hspace]
    -- neither sign comes first
    split
    · rename_i heq
      rw [List.cons.injEq] at heq
      rw [heq.1] at hc
      exact absurd hc.1 (by decide)
    · rename_i heq
      rw [List.cons.injEq] at heq
      rw [heq.1] at hc
      exact absurd hc.1 (by decide)
    · rw [hread]
      exact Int.natAbs_of_nonneg (not_lt.mp hneg)

/-- **What `%d` has printed is read by `atoi`.** -/
theorem atoi_signedDecimal {rest : List UInt8} (hrest : NotDigit rest) (hnul : 0 ∉ rest) {z : ℤ}
    (hlow : -2 ^ 31 ≤ z) (hhigh : z < 2 ^ 31) : atoi (signedDecimal z ++ rest) = z := by
  have hread := number_signedDecimal hrest hnul z
  rw [← hread] at hlow hhigh
  rw [atoi_eq_number hlow hhigh, hread]

end Snprintf
