import Reckoner.Proofs.FormulaStages
import Reckoner.Proofs.ScanRuns

/-!
# The token lists that formulas spell

Which lists of tokens scanning can give, and one text for each of them: the spellings
of its tokens with a space between neighbours.

## Key results

- `scannable_of_scanFrom`: what a text without faults scans into is `Scannable`
- `Scans.cons`: a spelled token in front of a text is scanned as that token
- `Formula.tokens_eq_ok_iff_scannable`: the `Scannable` lists are exactly those that
  formulas give, and each comes back from its spaced spelling
-/

namespace Reckoner.Token

/-! ## Scannable lists -/

/-- A name that a formula can spell: letters only, and at least one. -/
def IsName (name : String) : Prop :=
  name ≠ "" ∧ ∀ c ∈ name.toList, c.isAlpha

instance (name : String) : Decidable (IsName name) :=
  have : Decidable (∀ c ∈ name.toList, c.isAlpha) := List.decidableBAll _ _
  inferInstanceAs (Decidable (name ≠ "" ∧ ∀ c ∈ name.toList, c.isAlpha))

/-- A list of tokens that a formula can give.  Only the token behind a name tells a
    function from a word, so a name and its neighbour have to fit. -/
structure Scannable (ts : List Token) : Prop where
  number_le : ∀ value, number value ∈ ts → 0 ≤ value ∧ value ≤ maxNumber
  isName : ∀ name, function name ∈ ts ∨ word name ∈ ts → IsName name
  leftParen_of_function : ∀ i name, ts[i]? = some (function name) → ts[i + 1]? = some leftParen
  ne_leftParen_of_word : ∀ i name, ts[i]? = some (word name) → ts[i + 1]? ≠ some leftParen

/-- What `Scannable` asks of a token by itself. -/
def Spellable : Token → Prop
  | number value => 0 ≤ value ∧ value ≤ maxNumber
  | function name => IsName name
  | word name => IsName name
  | _ => True

/-- What `Scannable` asks of a token and the one behind it. -/
def Admits : Token → Option Token → Prop
  | function _, next => next = some leftParen
  | word _, next => next ≠ some leftParen
  | _, _ => True

private theorem scannable_nil : Scannable [] where
  number_le := by simp
  isName := by simp
  leftParen_of_function := by simp
  ne_leftParen_of_word := by simp

/-- Every token of a scannable list is spellable. -/
theorem Scannable.spellable {ts : List Token} {t : Token} (h : Scannable ts) (ht : t ∈ ts) :
    t.Spellable := by
  cases t with
  | number value => exact h.number_le value ht
  | function name => exact h.isName name (.inl ht)
  | word name => exact h.isName name (.inr ht)
  | _ => trivial

/-- `Scannable` passes along a list token by token. -/
theorem scannable_cons {t : Token} {ts : List Token} :
    Scannable (t :: ts) ↔ t.Spellable ∧ t.Admits ts.head? ∧ Scannable ts := by
  constructor
  · intro h
    refine ⟨?_, ?_, ?_⟩
    · exact h.spellable List.mem_cons_self
    · cases t with
      | function name =>
        have := h.leftParen_of_function 0 name rfl
        simpa [Admits, List.head?_eq_getElem?] using this
      | word name =>
        have := h.ne_leftParen_of_word 0 name rfl
        simpa [Admits, List.head?_eq_getElem?] using this
      | _ => trivial
    · -- A place in the tail is one further on in the list
      exact {
        number_le := fun value hv => h.number_le value (List.mem_cons_of_mem _ hv)
        isName := fun name hn => h.isName name
          (hn.imp (List.mem_cons_of_mem _) (List.mem_cons_of_mem _))
        leftParen_of_function := fun i name hi => h.leftParen_of_function (i + 1) name hi
        ne_leftParen_of_word := fun i name hi => h.ne_leftParen_of_word (i + 1) name hi }
  · rintro ⟨hspell, hadmits, h⟩
    refine ⟨?_, ?_, ?_, ?_⟩
    · intro value hv
      rcases List.mem_cons.mp hv with rfl | hv
      · exact hspell
      · exact h.number_le value hv
    · rintro name (hn | hn) <;> rcases List.mem_cons.mp hn with rfl | hn
      · exact hspell
      · exact h.isName name (.inl hn)
      · exact hspell
      · exact h.isName name (.inr hn)
    · intro i name hi
      cases i with
      | zero =>
        obtain rfl : t = function name := by simpa using hi
        simpa [Admits, List.head?_eq_getElem?] using hadmits
      | succ i => exact h.leftParen_of_function i name hi
    · intro i name hi
      cases i with
      | zero =>
        obtain rfl : t = word name := by simpa using hi
        simpa [Admits, List.head?_eq_getElem?] using hadmits
      | succ i => exact h.ne_leftParen_of_word i name hi

instance : DecidablePred Spellable
  | number value => inferInstanceAs (Decidable (0 ≤ value ∧ value ≤ maxNumber))
  | function name => inferInstanceAs (Decidable (IsName name))
  | word name => inferInstanceAs (Decidable (IsName name))
  | leftParen => isTrue trivial
  | rightParen => isTrue trivial
  | comma => isTrue trivial
  | dot => isTrue trivial

instance : DecidableRel Admits
  | function _, next => inferInstanceAs (Decidable (next = some leftParen))
  | word _, next => inferInstanceAs (Decidable (next ≠ some leftParen))
  | number _, _ => isTrue trivial
  | leftParen, _ => isTrue trivial
  | rightParen, _ => isTrue trivial
  | comma, _ => isTrue trivial
  | dot, _ => isTrue trivial

instance decidableScannable : DecidablePred Scannable
  | [] => isTrue scannable_nil
  | _ :: ts =>
    have := decidableScannable ts
    decidable_of_iff _ scannable_cons.symm

/-! ## Scanning gives scannable lists -/

/-- A run of digits in range makes a number in range. -/
private theorem spellable_of_ofDigits {digits : List Char} {t : Token}
    (h : ofDigits digits = .ok t) :
    t.Spellable ∧ ∀ next, t.Admits next := by
  unfold ofDigits at h
  split at h
  · rename_i hle
    obtain rfl := Except.ok.inj h
    exact ⟨⟨Int.natCast_nonneg _, Int.ofNat_le.mpr hle⟩, fun _ => trivial⟩
  · exact nomatch h

/-- A run of letters makes a name. -/
private theorem spellable_ofLetters {letters : List Char} (hne : letters ≠ [])
    (hletters : ∀ c ∈ letters, c.isAlpha) (rest : List Char) :
    (ofLetters letters rest).Spellable := by
  have hname : IsName (String.ofList letters) := by
    refine ⟨fun hempty => hne ?_, by simpa using hletters⟩
    simpa using congrArg String.toList hempty
  -- Both kinds of names are spelled by letters alone
  unfold ofLetters
  split
  · exact hname
  · exact hname

/-- A single character makes a mark, which may stand anywhere. -/
private theorem spellable_of_ofSymbol {c : Char} {offset : Nat} {t : Token}
    (h : ofSymbol c offset = .ok t) : t.Spellable ∧ ∀ next, t.Admits next := by
  unfold ofSymbol at h
  repeat' split at h
  all_goals cases h <;> exact ⟨trivial, fun _ => trivial⟩

/-- Every token that scanning makes is spellable, whatever faults there are besides. -/
theorem spellable_of_mem_scanFrom {offset : Nat} {text : List Char} {t : Token}
    (h : .ok t ∈ scanFrom offset text) : t.Spellable := by
  -- Along the recursion of the scan: spaces, digits, letters, single characters
  fun_induction scanFrom offset text with
  | case1 offset => exact absurd h List.not_mem_nil
  | case2 offset rest ih => exact ih h
  | case3 offset c rest hspace hdigit ih =>
    rcases List.mem_cons.mp h with ht | ht
    · exact (spellable_of_ofDigits ht.symm).1
    · exact ih ht
  | case4 offset c rest hspace hdigit halpha ih =>
    rcases List.mem_cons.mp h with ht | ht
    · obtain rfl := Except.ok.inj ht
      exact spellable_ofLetters (List.cons_ne_nil _ _) (of_mem_cons_takeWhile halpha) _
    · exact ih ht
  | case5 offset c rest hspace hdigit halpha ih =>
    rcases List.mem_cons.mp h with ht | ht
    · exact (spellable_of_ofSymbol ht.symm).1
    · exact ih ht

/-- The look-ahead into a text without faults is a look at its first token. -/
theorem opensCall_iff_of_scanFrom {offset : Nat} {text : List Char} {ts : List Token}
    (h : scanFrom offset text = ts.map .ok) : opensCall text ↔ ts.head? = some leftParen := by
  rw [opensCall_iff_head_scanFrom offset text, h, List.head?_map]
  cases ts with
  | nil => simp
  | cons t ts => simp

/-- The kind of a name fits the token that the text behind it gives. -/
private theorem admits_ofLetters {letters rest : List Char} {offset : Nat} {ts : List Token}
    (h : scanFrom offset rest = ts.map .ok) : (ofLetters letters rest).Admits ts.head? := by
  have hhead := opensCall_iff_of_scanFrom h
  -- The look-ahead has asked for the token that comes next
  unfold ofLetters
  split
  · rename_i hopens
    exact hhead.mp hopens
  · rename_i hopens
    exact fun hparen => hopens (hhead.mpr hparen)

/-- What a text without faults scans into is scannable. -/
theorem scannable_of_scanFrom {offset : Nat} {text : List Char} {ts : List Token}
    (h : scanFrom offset text = ts.map .ok) : Scannable ts := by
  fun_induction scanFrom offset text generalizing ts with
  | case1 offset =>
    obtain rfl := List.map_eq_nil_iff.mp h.symm
    exact scannable_nil
  | case2 offset rest ih => exact ih h
  | case3 offset c rest hspace hdigit ih =>
    obtain ⟨t, ts', rfl, ht, hrest⟩ := List.map_eq_cons_iff.mp h.symm
    obtain ⟨hspell, hadmits⟩ := spellable_of_ofDigits ht.symm
    exact scannable_cons.mpr ⟨hspell, hadmits _, ih hrest.symm⟩
  | case4 offset c rest hspace hdigit halpha ih =>
    obtain ⟨t, ts', rfl, ht, hrest⟩ := List.map_eq_cons_iff.mp h.symm
    obtain rfl := Except.ok.inj ht
    -- Only the kind of a name depends on the tokens behind it
    refine scannable_cons.mpr ⟨?_, admits_ofLetters hrest.symm, ih hrest.symm⟩
    exact spellable_ofLetters (List.cons_ne_nil _ _) (of_mem_cons_takeWhile halpha) _
  | case5 offset c rest hspace hdigit halpha ih =>
    obtain ⟨t, ts', rfl, ht, hrest⟩ := List.map_eq_cons_iff.mp h.symm
    obtain ⟨hspell, hadmits⟩ := spellable_of_ofSymbol ht.symm
    exact scannable_cons.mpr ⟨hspell, hadmits _, ih hrest.symm⟩

/-! ## Spelled tokens scan back -/

/-- Wherever it stands, the text scans into these tokens and nothing else. -/
def Scans (text : List Char) (ts : List Token) : Prop :=
  ∀ offset, scanFrom offset text = ts.map .ok

theorem Scans.nil : Scans [] [] := fun offset => scanFrom_nil offset

/-- A space in front of a text leaves its tokens as they are. -/
theorem Scans.space {text : List Char} {ts : List Token} (h : Scans text ts) :
    Scans (' ' :: text) ts := by
  intro offset
  rw [scanFrom_space]
  exact h (offset + 1)

/-- What has to stand behind a spelled token so that its run ends there. -/
def Ends : Token → List Char → Prop
  | number _, text => Clear Char.isDigit text
  | function _, text => Clear Char.isAlpha text
  | word _, text => Clear Char.isAlpha text
  | _, _ => True

/-- A number in range is spelled by its decimal digits. -/
theorem toList_text_number {value : Int} (h : 0 ≤ value) :
    (number value).text.toList = Nat.toDigits 10 value.toNat := by
  rw [text, Int.toString_eq_repr, Int.repr_eq_if, if_pos h, Nat.toList_repr]

/-- The decimal digits of a number in range are read as that number. -/
private theorem ofDigits_toDigits {value : Int} (h : 0 ≤ value ∧ value ≤ maxNumber) :
    ofDigits (Nat.toDigits 10 value.toNat) = .ok (number value) := by
  have hvalue : ((value.toNat : Nat) : Int) = value := Int.toNat_of_nonneg h.1
  have hle : value.toNat ≤ maxNumber := Int.toNat_le.mpr h.2
  rw [ofDigits, Nat.ofDigitChars_ten_toDigits, if_pos hle, hvalue]

/-- A name in front of a text is scanned as one token, whose kind the text decides. -/
theorem Scans.letters {name : String} {text : List Char} {ts : List Token}
    (hname : IsName name) (hclear : Clear Char.isAlpha text) (h : Scans text ts) :
    Scans (name.toList ++ text) (ofLetters name.toList text :: ts) := by
  intro offset
  have hne : name.toList ≠ [] := by simpa using hname.1
  rw [scanFrom_letters hne hname.2 hclear, h, List.map_cons]

/-- A mark in front of a text is scanned as that mark. -/
theorem Scans.symbol {c : Char} {t : Token} {text : List Char} {ts : List Token}
    (hspace : c ≠ ' ') (hdigit : c.isDigit = false) (halpha : c.isAlpha = false)
    (ht : ∀ offset, ofSymbol c offset = .ok t) (h : Scans text ts) :
    Scans (c :: text) (t :: ts) := by
  intro offset
  rw [scanFrom_symbol hspace hdigit halpha, ht, h, List.map_cons]

/-- A spelled token in front of a text is scanned as that token, provided that its run
    ends there and that the token behind it fits. -/
theorem Scans.cons {t : Token} {text : List Char} {ts : List Token} (hspell : t.Spellable)
    (hadmits : t.Admits ts.head?) (hends : t.Ends text) (h : Scans text ts) :
    Scans (t.text.toList ++ text) (t :: ts) := by
  cases t with
  | number value =>
    intro offset
    rw [toList_text_number hspell.1,
      scanFrom_digits Nat.toDigits_ne_nil (fun c hc => Nat.isDigit_of_mem_toDigits (by decide)
        (by decide) hc) hends, ofDigits_toDigits hspell, h, List.map_cons]
  | function name =>
    -- The kind is made from the text, which tells as much as the tokens it scans into
    have hkind : ofLetters name.toList text = function name := by
      rw [ofLetters, if_pos ((opensCall_iff_of_scanFrom (h 0)).mpr hadmits), String.ofList_toList]
    have := Scans.letters hspell hends h
    rwa [hkind] at this
  | word name =>
    have hkind : ofLetters name.toList text = word name := by
      rw [ofLetters, if_neg (mt (opensCall_iff_of_scanFrom (h 0)).mp hadmits), String.ofList_toList]
    have := Scans.letters hspell hends h
    rwa [hkind] at this
  | leftParen => exact h.symbol (by decide) (by decide) (by decide) (fun _ => rfl)
  | rightParen => exact h.symbol (by decide) (by decide) (by decide) (fun _ => rfl)
  | comma => exact h.symbol (by decide) (by decide) (by decide) (fun _ => rfl)
  | dot => exact h.symbol (by decide) (by decide) (by decide) (fun _ => rfl)

/-- A token ends where neither a letter nor a digit goes on. -/
theorem ends_of_clear_isAlphanum {text : List Char} (h : Clear Char.isAlphanum text)
    (t : Token) : t.Ends text := by
  have hclass : ∀ c ∈ text.head?, c.isAlpha = false ∧ c.isDigit = false := by
    intro c hc
    simpa [Char.isAlphanum] using h c hc
  -- Only runs of digits or letters could go on
  cases t with
  | number value => exact fun c hc => (hclass c hc).2
  | function name => exact fun c hc => (hclass c hc).1
  | word name => exact fun c hc => (hclass c hc).1
  | _ => trivial

/-- The spellings of a list of tokens with one space between neighbours. -/
def spaced (ts : List Token) : String :=
  String.intercalate " " (ts.map text)

/-- Spaces between the spellings keep scannable tokens apart and change nothing else. -/
private theorem scans_spaced {ts : List Token} (h : Scannable ts) :
    Scans (spaced ts).toList ts := by
  induction ts with
  | nil => exact Scans.nil
  | cons t ts ih =>
    obtain ⟨hspell, hadmits, hrest⟩ := scannable_cons.mp h
    cases ts with
    | nil =>
      have := Scans.nil.cons hspell hadmits (ends_of_clear_isAlphanum (clear_nil _) t)
      simpa [spaced] using this
    | cons u us =>
      -- The space in front of the next token ends the run of this one
      have hclear : Clear Char.isAlphanum (' ' :: (spaced (u :: us)).toList) :=
        clear_cons.mpr (by decide)
      have hends := ends_of_clear_isAlphanum hclear t
      have := (ih hrest).space.cons hspell hadmits hends
      simpa [spaced] using this

end Reckoner.Token

namespace Reckoner.Formula

open Token

/-- A list of tokens is given by some formula exactly if it is scannable, and then its
    spaced spelling gives it. -/
theorem tokens_eq_ok_iff_scannable (ts : List Token) :
    ((∃ formula, (tokens formula).outcome = .ok ts) ↔ Scannable ts) ∧
      (Scannable ts → (tokens (spaced ts)).outcome = .ok ts) := by
  have hspaced : Scannable ts → (tokens (spaced ts)).outcome = .ok ts := fun h =>
    outcome_tokens_eq_ok_iff.mpr (scans_spaced h 0)
  refine ⟨⟨?_, fun h => ⟨spaced ts, hspaced h⟩⟩, hspaced⟩
  rintro ⟨formula, h⟩
  exact scannable_of_scanFrom (outcome_tokens_eq_ok_iff.mp h)

/-- The largest number and a dotted path, as arguments of a call. -/
theorem tokens_eq_ok_iff_scannable_call :
    let ts := [function "Add", leftParen, number 9007199254740991, comma, word "a", dot,
      word "b", rightParen]
    Scannable ts ∧ (∃ formula, (tokens formula).outcome = .ok ts) ∧
      (tokens "Add ( 9007199254740991 , a . b )").outcome = .ok ts := by
  intro ts
  have hts : Scannable ts := by decide
  have hspaced : spaced ts = "Add ( 9007199254740991 , a . b )" := by decide
  refine ⟨hts, (tokens_eq_ok_iff_scannable ts).1.2 hts, ?_⟩
  rw [← hspaced]
  exact (tokens_eq_ok_iff_scannable ts).2 hts

end Reckoner.Formula
