import Mathlib.Data.List.DropRight

/-!
# MarketData.Lib.Decimal

Integers as decimal text: `str(n)`, and `int(text)` of ASCII text, which takes more than `str`
writes (white space around the number, a sign, underscores between digits). Both give up on more
than 4300 digits.
-/

namespace MarketData

namespace Decimal

/-- `sys.get_int_max_str_digits()`. -/
def maxDigits : Nat := 4300

/-- `str(n)`; `none` is the `ValueError` of too many digits. -/
def text (n : Int) : Option String :=
  if (Nat.toDigits 10 n.natAbs).length ≤ maxDigits then some n.repr else none

/-- White space in ASCII. -/
def isSpace (c : Char) : Bool := c.toNat = 32 || (9 ≤ c.toNat && c.toNat ≤ 13)

/-- `text.strip()`. -/
def strip (cs : List Char) : List Char := (cs.dropWhile isSpace).rdropWhile isSpace

/-- The digits of a number that may have single underscores between them. -/
def digits : List Char → Option (List Char)
  | [] => none
  | [c] => if c.isDigit then some [c] else none
  | c :: c' :: cs =>
    if c.isDigit then (if c' = '_' then digits cs else digits (c' :: cs)).map (c :: ·) else none

/-- A number without a sign. -/
def unsigned (cs : List Char) : Option Nat :=
  (digits cs).bind fun ds =>
    if ds.length ≤ maxDigits then some (Nat.ofDigitChars 10 ds 0) else none

/-- `int(text)`; `none` is `ValueError`. -/
def ofText (cs : List Char) : Option Int :=
  match strip cs with
  | '-' :: cs => (unsigned cs).map fun n : Nat => -(n : Int)
  | '+' :: cs => (unsigned cs).map fun n : Nat => (n : Int)
  | cs => (unsigned cs).map fun n : Nat => (n : Int)

/-! ### What is written is read back -/

/-- Digits alone are themselves. -/
theorem digits_of_isDigit {cs : List Char} (hne : cs ≠ []) (h : ∀ c ∈ cs, c.isDigit = true) :
    digits cs = some cs := by
  induction cs with
  | nil => exact absurd rfl hne
  | cons c cs ih =>
      obtain ⟨hc, hcs⟩ := List.forall_mem_cons.mp h
      cases cs with
      | nil => simp [digits, hc]
      | cons c' cs =>
          have hunderscore : c' ≠ '_' := by
            rintro rfl
            exact absurd (hcs '_' List.mem_cons_self) (by decide)
          simp only [digits, hc, if_true, if_neg hunderscore]
          rw [ih (by simp) hcs, Option.map_some]

/-- A digit is no white space. -/
theorem isSpace_eq_false {c : Char} (h : c.isDigit = true) : isSpace c = false := by
  simp only [Char.isDigit, Bool.and_eq_true, decide_eq_true_eq] at h
  have hlow : 48 ≤ c.toNat := h.1
  simp only [isSpace, Bool.or_eq_false_iff, Bool.and_eq_false_iff, decide_eq_false_iff_not]
  omega

/-- Text without white space. -/
theorem strip_eq_self {cs : List Char} (h : ∀ c ∈ cs, isSpace c = false) : strip cs = cs := by
  have hdrop : cs.dropWhile isSpace = cs := by
    rw [List.dropWhile_eq_self_iff]
    intro hl
    simp [h _ (List.getElem_mem hl)]
  rw [strip, hdrop, List.rdropWhile_eq_self_iff]
  intro hl
  simp [h _ (List.getLast_mem hl)]

theorem isDigit_of_mem {n : Nat} : ∀ c ∈ Nat.toDigits 10 n, c.isDigit = true :=
  fun _ hc => Nat.isDigit_of_mem_toDigits (by decide) (by decide) hc

theorem unsigned_toDigits {n : Nat} (h : (Nat.toDigits 10 n).length ≤ maxDigits) :
    unsigned (Nat.toDigits 10 n) = some n := by
  rw [unsigned, digits_of_isDigit (by simp) isDigit_of_mem, Option.bind_some, if_pos h,
    Nat.ofDigitChars_ten_toDigits]

/-- A number without a sign is read as it is. -/
theorem ofText_toDigits {n : Nat} (h : (Nat.toDigits 10 n).length ≤ maxDigits) :
    ofText (Nat.toDigits 10 n) = some (n : Int) := by
  have hsign : ∀ {c cs}, Nat.toDigits 10 n = c :: cs → c.isDigit = true := fun heq =>
    isDigit_of_mem _ (heq ▸ List.mem_cons_self)
  rw [ofText, strip_eq_self fun c hc => isSpace_eq_false (isDigit_of_mem c hc)]
  split
  · rename_i heq
    exact absurd (hsign heq) (by decide)
  · rename_i heq
    exact absurd (hsign heq) (by decide)
  · rw [unsigned_toDigits h, Option.map_some]

theorem ofText_neg_toDigits {n : Nat} (h : (Nat.toDigits 10 n).length ≤ maxDigits) :
    ofText ('-' :: Nat.toDigits 10 n) = some (-(n : Int)) := by
  have hspace : ∀ c ∈ '-' :: Nat.toDigits 10 n, isSpace c = false := by
    rw [List.forall_mem_cons]
    exact ⟨by decide, fun c hc => isSpace_eq_false (isDigit_of_mem c hc)⟩
  simp only [ofText, strip_eq_self hspace, unsigned_toDigits h, Option.map_some]

/-- **What `str` writes, `int` reads.** -/
theorem ofText_text {n : Int} {s : String} (h : text n = some s) : ofText s.toList = some n := by
  unfold text at h
  split at h
  · rename_i hlen
    obtain rfl := Option.some.inj h
    rw [Int.repr_eq_if]
    split
    · rename_i hn
      have habs : n.natAbs = n.toNat := by omega
      rw [Nat.toList_repr, ofText_toDigits (habs ▸ hlen), Int.toNat_of_nonneg hn]
    · rename_i hn
      have habs : n.natAbs = (-n).toNat := by omega
      have hlist : ("-" ++ (-n).toNat.repr).toList = '-' :: Nat.toDigits 10 (-n).toNat := by
        rw [String.toList_append, Nat.toList_repr]
        rfl
      rw [hlist, ofText_neg_toDigits (habs ▸ hlen), Int.toNat_of_nonneg (by omega), Int.neg_neg]
  · cases h

end Decimal

end MarketData
