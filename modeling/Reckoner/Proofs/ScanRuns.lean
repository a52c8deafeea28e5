import Reckoner.Token.Scan

/-!
# Scanning run by run

How `Token.scanFrom` passes over one run or one character, stated for an arbitrary
rest of the text.  The rest only has to be free of a character at its front that
would make the run longer.

## Key results

- `scanFrom_space`, `scanFrom_digits`, `scanFrom_letters`, `scanFrom_symbol`: one step of
  scanning for each kind of lexeme
- `opensCall_iff_head_scanFrom`: the look-ahead for a parenthesis sees what scanning makes
  of the text behind it
-/

namespace Reckoner.Token

/-! ## Classes of characters -/

/-- All letters come behind the digits. -/
theorem le_toNat_of_isAlpha {c : Char} (h : c.isAlpha) : 65 ≤ c.toNat := by
  have hcase : c.isUpper ∨ c.isLower := Bool.or_eq_true_iff.mp h
  -- Upper case starts at 65 and lower case at 97
  rcases hcase with hupper | hlower
  · have hle : 'A'.val ≤ c.val := (of_decide_eq_true hupper).1
    exact UInt32.le_iff_toNat_le.mp hle
  · have hle : 'a'.val ≤ c.val := of_decide_eq_true (Bool.and_eq_true_iff.mp hlower).1
    have : 97 ≤ c.toNat := UInt32.le_iff_toNat_le.mp hle
    omega

/-- All letters come before the last of the small ones, or are it. -/
theorem toNat_le_of_isAlpha {c : Char} (h : c.isAlpha) : c.toNat ≤ 122 := by
  have hcase : c.isUpper ∨ c.isLower := Bool.or_eq_true_iff.mp h
  rcases hcase with hupper | hlower
  · have hle : c.val ≤ 'Z'.val := (of_decide_eq_true hupper).2
    have : c.toNat ≤ 90 := UInt32.le_iff_toNat_le.mp hle
    omega
  · have hle : c.val ≤ 'z'.val := of_decide_eq_true (Bool.and_eq_true_iff.mp hlower).2
    exact UInt32.le_iff_toNat_le.mp hle

/-- A letter is no digit. -/
theorem isDigit_eq_false_of_isAlpha {c : Char} (h : c.isAlpha) : c.isDigit = false := by
  have hle := le_toNat_of_isAlpha h
  refine Bool.eq_false_iff.mpr fun hdigit => ?_
  have hge : c.toNat ≤ 57 := (Char.isDigit_iff_toNat.mp hdigit).2
  omega

theorem ne_space_of_isAlpha {c : Char} (h : c.isAlpha) : c ≠ ' ' := by
  rintro rfl
  exact absurd h (by decide)

theorem ne_space_of_isDigit {c : Char} (h : c.isDigit) : c ≠ ' ' := by
  rintro rfl
  exact absurd h (by decide)

/-! ## Runs and what may follow them -/

/-- The text does not start with a character of the class `p`. -/
def Clear (p : Char → Bool) (text : List Char) : Prop :=
  ∀ c ∈ text.head?, p c = false

@[simp] theorem clear_nil (p : Char → Bool) : Clear p [] := by
  simp [Clear]

@[simp] theorem clear_cons {p : Char → Bool} {c : Char} {text : List Char} :
    Clear p (c :: text) ↔ p c = false := by
  simp [Clear]

/-- All characters of a run are of its class. -/
theorem of_mem_cons_takeWhile {p : Char → Bool} {c : Char} {rest : List Char} (hc : p c) :
    ∀ d ∈ c :: rest.takeWhile p, p d :=
  List.forall_mem_cons.mpr ⟨hc, List.all_eq_true.mp List.all_takeWhile⟩

/-- A run is taken as a whole and nothing behind it. -/
theorem takeWhile_append_of_clear {p : Char → Bool} {run rest : List Char}
    (hrun : ∀ c ∈ run, p c) (hrest : Clear p rest) : (run ++ rest).takeWhile p = run := by
  rw [List.takeWhile_append_of_pos hrun]
  cases rest with
  | nil => simp
  | cons c rest => simp [clear_cons.mp hrest]

/-- Dropping a run leaves what does not go on with it. -/
theorem dropWhile_append_of_clear {p : Char → Bool} {run rest : List Char}
    (hrun : ∀ c ∈ run, p c) (hrest : Clear p rest) : (run ++ rest).dropWhile p = rest := by
  rw [List.dropWhile_append_of_pos hrun]
  cases rest with
  | nil => simp
  | cons c rest => simp [clear_cons.mp hrest]

/-! ## One step of scanning -/

@[simp] theorem scanFrom_nil (offset : Nat) : scanFrom offset [] = [] := by
  rw [scanFrom]

/-- A space makes no item. -/
@[simp] theorem scanFrom_space (offset : Nat) (rest : List Char) :
    scanFrom offset (' ' :: rest) = scanFrom (offset + 1) rest := by
  rw [scanFrom, if_pos rfl]

/-- A maximal run of digits makes one item. -/
theorem scanFrom_digits {digits rest : List Char} (hne : digits ≠ [])
    (hdigits : ∀ c ∈ digits, c.isDigit) (hrest : Clear Char.isDigit rest) (offset : Nat) :
    scanFrom offset (digits ++ rest) =
      ofDigits digits :: scanFrom (offset + digits.length) rest := by
  cases digits with
  | nil => exact absurd rfl hne
  | cons d digits =>
    obtain ⟨hd, htail⟩ := List.forall_mem_cons.mp hdigits
    -- The run ends where the digits do, since none comes behind them
    rw [List.cons_append, scanFrom, if_neg (ne_space_of_isDigit hd), if_pos hd,
      takeWhile_append_of_clear htail hrest, dropWhile_append_of_clear htail hrest,
      List.length_cons, Nat.add_assoc, Nat.add_comm 1]

/-- A maximal run of letters makes one token, which depends on the text behind it. -/
theorem scanFrom_letters {letters rest : List Char} (hne : letters ≠ [])
    (hletters : ∀ c ∈ letters, c.isAlpha) (hrest : Clear Char.isAlpha rest) (offset : Nat) :
    scanFrom offset (letters ++ rest) =
      .ok (ofLetters letters rest) :: scanFrom (offset + letters.length) rest := by
  cases letters with
  | nil => exact absurd rfl hne
  | cons l letters =>
    obtain ⟨hl, htail⟩ := List.forall_mem_cons.mp hletters
    rw [List.cons_append, scanFrom, if_neg (ne_space_of_isAlpha hl),
      if_neg (by simp [isDigit_eq_false_of_isAlpha hl]), if_pos hl,
      takeWhile_append_of_clear htail hrest, dropWhile_append_of_clear htail hrest,
      List.length_cons, Nat.add_assoc, Nat.add_comm 1]

/-- Every other character makes an item of its own. -/
theorem scanFrom_symbol {c : Char} (hspace : c ≠ ' ') (hdigit : c.isDigit = false)
    (halpha : c.isAlpha = false) (offset : Nat) (rest : List Char) :
    scanFrom offset (c :: rest) = ofSymbol c offset :: scanFrom (offset + c.utf8Size) rest := by
  rw [scanFrom, if_neg hspace, if_neg (by simp [hdigit]), if_neg (by simp [halpha])]

/-! ## The look-ahead for a parenthesis -/

@[simp] theorem opensCall_space (rest : List Char) :
    opensCall (' ' :: rest) = opensCall rest := rfl

/-- Looking ahead stops at the first character that is no space. -/
theorem opensCall_cons_of_ne {c : Char} (h : c ≠ ' ') (rest : List Char) :
    opensCall (c :: rest) = (c == '(') := by
  simp [opensCall, h]

private theorem ofDigits_ne_leftParen (digits : List Char) : ofDigits digits ≠ .ok leftParen := by
  unfold ofDigits
  split <;> simp

private theorem ofLetters_ne_leftParen (letters rest : List Char) :
    ofLetters letters rest ≠ leftParen := by
  unfold ofLetters
  split <;> simp

/-- Only the character of the parenthesis makes one. -/
private theorem ofSymbol_eq_leftParen_iff {c : Char} {offset : Nat} :
    ofSymbol c offset = .ok leftParen ↔ c = '(' := by
  unfold ofSymbol
  split
  · simp_all
  · rename_i hc
    simp only [hc, iff_false]
    repeat' split
    all_goals simp

/-- The look-ahead tells whether the first item of the text is an opening parenthesis. -/
theorem opensCall_iff_head_scanFrom (offset : Nat) (text : List Char) :
    opensCall text ↔ (scanFrom offset text).head? = some (.ok leftParen) := by
  induction text generalizing offset with
  | nil => simp [opensCall]
  | cons c rest ih =>
    by_cases hspace : c = ' '
    · subst hspace
      rw [opensCall_space, scanFrom_space]
      exact ih (offset + 1)
    · rw [opensCall_cons_of_ne hspace, scanFrom, if_neg hspace, beq_iff_eq]
      -- The first item is that of a run of digits, of a run of letters or of a mark, and
      -- only the last of them can be a parenthesis
      split
      · rename_i hdigit
        have hne : c ≠ '(' := by rintro rfl; exact absurd hdigit (by decide)
        simp [hne, ofDigits_ne_leftParen]
      · split
        · rename_i halpha
          have hne : c ≠ '(' := by rintro rfl; exact absurd halpha (by decide)
          simp [hne, ofLetters_ne_leftParen]
        · simp [ofSymbol_eq_leftParen_iff]

end Reckoner.Token
