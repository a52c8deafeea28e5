import Mathlib.Data.List.Forall2
import Reckoner.Proofs.FormulaStages
import Reckoner.Proofs.ScanRuns

/-!
# The lexemes of a text

A lexeme stands at a place of a text: it is a maximal run of digits, a maximal run of
letters, or any other single character but a space.  This says nothing of scanning, which
makes one item of each lexeme, in their order, and so accounts for every character.

## Key results

- `Lexeme.Splits.mem_iff`: cutting a text up front to back finds all lexemes
- `Token.exists_splits`: scanning cuts a text up and makes an item of each lexeme
- `Formula.exists_lexemes`: the items of a formula and its lexemes, one for one
-/

namespace Reckoner

/-! ## Bytes of a text -/

/-- How many bytes characters take. -/
def bytes (text : List Char) : Nat :=
  (String.ofList text).utf8ByteSize

@[simp] theorem bytes_append (text rest : List Char) :
    bytes (text ++ rest) = bytes text + bytes rest := by
  rw [bytes, String.ofList_append, String.utf8ByteSize_append]
  rfl

@[simp] theorem bytes_singleton (c : Char) : bytes [c] = c.utf8Size := by
  simp [bytes]

private theorem bytes_pos {text : List Char} (h : text ≠ []) : 0 < bytes text := by
  obtain ⟨c, rest, rfl⟩ := List.exists_cons_of_ne_nil h
  have hsplit : bytes (c :: rest) = bytes [c] + bytes rest := bytes_append [c] rest
  rw [hsplit, bytes_singleton]
  have := c.utf8Size_pos
  omega

/-- A longer text takes no fewer bytes. -/
private theorem bytes_le_of_isPrefix {text longer : List Char} (h : text <+: longer) :
    bytes text ≤ bytes longer := by
  obtain ⟨rest, rfl⟩ := h
  rw [bytes_append]
  omega

/-- Characters of one byte each take as many bytes as there are of them. -/
private theorem bytes_eq_length {text : List Char} (h : ∀ c ∈ text, c.utf8Size = 1) :
    bytes text = text.length := by
  induction text with
  | nil => rfl
  | cons c rest ih =>
    obtain ⟨hc, hrest⟩ := List.forall_mem_cons.mp h
    have hsplit : bytes (c :: rest) = bytes [c] + bytes rest := bytes_append [c] rest
    rw [hsplit, bytes_singleton, hc, ih hrest, List.length_cons]
    omega

theorem utf8Size_of_isDigit {c : Char} (h : c.isDigit) : c.utf8Size = 1 := by
  have hle : c.toNat ≤ 57 := (Char.isDigit_iff_toNat.mp h).2
  rw [Char.utf8Size_eq_one_iff, UInt32.le_iff_toNat_le]
  show c.toNat ≤ 127
  omega

theorem utf8Size_of_isAlpha {c : Char} (h : c.isAlpha) : c.utf8Size = 1 := by
  have hle := Token.toNat_le_of_isAlpha h
  rw [Char.utf8Size_eq_one_iff, UInt32.le_iff_toNat_le]
  show c.toNat ≤ 127
  omega

/-- What stands in front of a place ends between characters. -/
private theorem isValid_bytes {text rest : List Char} {formula : String}
    (h : text ++ rest = formula.toList) : String.Pos.Raw.IsValid formula ⟨bytes text⟩ := by
  rw [String.Pos.Raw.isValid_iff_exists_append]
  refine ⟨String.ofList text, String.ofList rest, ?_, rfl⟩
  rw [← String.ofList_append, h, String.ofList_toList]

/-- The bytes between two such places are those of the characters between them. -/
private theorem toByteArray_extract {text run rest : List Char} {formula : String}
    (h : text ++ run ++ rest = formula.toList) :
    formula.toByteArray.extract (bytes text) (bytes (text ++ run)) =
      (String.ofList run).toByteArray := by
  have hformula : formula = String.ofList (text ++ run) ++ String.ofList rest := by
    rw [← String.ofList_append, h, String.ofList_toList]
  have hrun : (String.ofList (text ++ run)).toByteArray.extract (bytes text)
      (bytes (text ++ run)) = (String.ofList run).toByteArray := by
    rw [bytes_append, String.ofList_append, String.toByteArray_append]
    exact ByteArray.extract_append_eq_right rfl rfl
  -- Nothing of the rest is in front of the second place
  have hrest : (String.ofList rest).toByteArray.extract
      (bytes text - (String.ofList (text ++ run)).toByteArray.size)
      (bytes (text ++ run) - (String.ofList (text ++ run)).toByteArray.size) =
        ByteArray.empty := by
    rw [ByteArray.extract_eq_empty_iff]
    show min (_ - bytes (text ++ run)) _ ≤ _
    omega
  rw [hformula, String.toByteArray_append, ByteArray.extract_append, hrun, hrest,
    ByteArray.append_empty]

/-! ## Lexemes -/

/-- Characters at a place of a text, between what stands before and what stands after
    them. -/
@[ext]
structure Lexeme where
  before : List Char
  run : List Char
  after : List Char

namespace Lexeme

open Token (Clear)

/-- The byte at which the characters start. -/
def start (l : Lexeme) : Nat :=
  bytes l.before

/-- The byte behind the characters. -/
def stop (l : Lexeme) : Nat :=
  bytes (l.before ++ l.run)

/-- A run of characters of one class which neither the character before it nor the one
    after it goes on with. -/
structure IsRun (p : Char → Bool) (l : Lexeme) : Prop where
  ne_nil : l.run ≠ []
  all : ∀ c ∈ l.run, p c
  clear_before : ∀ c ∈ l.before.getLast?, p c = false
  clear_after : ∀ c ∈ l.after.head?, p c = false

/-- A single character which is no digit, no letter and no space. -/
def IsSingle (l : Lexeme) : Prop :=
  ∃ c, l.run = [c] ∧ c ≠ ' ' ∧ c.isDigit = false ∧ c.isAlpha = false

/-- Digits, letters, or a single character. -/
def Proper (l : Lexeme) : Prop :=
  l.IsRun Char.isDigit ∨ l.IsRun Char.isAlpha ∨ l.IsSingle

/-- The lexeme stands in the text. -/
def In (l : Lexeme) (text : List Char) : Prop :=
  l.before ++ l.run ++ l.after = text ∧ l.Proper

/-- The first character behind the lexeme that is no space is an opening parenthesis. -/
def OpensCall (l : Lexeme) : Prop :=
  ∃ spaces rest, l.after = List.replicate spaces ' ' ++ '(' :: rest

/-- No token starts with the character, and it is no space. -/
def Illegal (c : Char) : Prop :=
  c ∉ [' ', '(', ')', ',', '.'] ∧ c.isDigit = false ∧ c.isAlpha = false

/-- The item that stands for a lexeme. -/
inductive Makes (l : Lexeme) : Except Fault Token → Prop where
  | number (hrun : l.IsRun Char.isDigit) (hle : Nat.ofDigitChars 10 l.run 0 ≤ 9007199254740991) :
    Makes l (.ok (.number (Nat.ofDigitChars 10 l.run 0)))
  | outOfRange (hrun : l.IsRun Char.isDigit)
    (hlt : 9007199254740991 < Nat.ofDigitChars 10 l.run 0) :
    Makes l (.error (.numberOutOfRange (String.ofList l.run)))
  | function (hrun : l.IsRun Char.isAlpha) (hopens : l.OpensCall) :
    Makes l (.ok (.function (String.ofList l.run)))
  | word (hrun : l.IsRun Char.isAlpha) (hopens : ¬ l.OpensCall) :
    Makes l (.ok (.word (String.ofList l.run)))
  | leftParen (hrun : l.run = ['(']) : Makes l (.ok .leftParen)
  | rightParen (hrun : l.run = [')']) : Makes l (.ok .rightParen)
  | comma (hrun : l.run = [',']) : Makes l (.ok .comma)
  | dot (hrun : l.run = ['.']) : Makes l (.ok .dot)
  | illegal {c : Char} (hrun : l.run = [c]) (hillegal : Illegal c) :
    Makes l (.error (.illegalCharacter c l.start))

variable {l m : Lexeme} {text : List Char}

/-! ### Where lexemes stand -/

theorem Proper.ne_nil (h : l.Proper) : l.run ≠ [] := by
  rcases h with h | h | ⟨c, h, -⟩
  · exact h.ne_nil
  · exact h.ne_nil
  · rw [h]
    exact List.cons_ne_nil c []

private theorem Proper.ne_space (h : l.Proper) {c : Char} (hc : c ∈ l.run) : c ≠ ' ' := by
  rcases h with h | h | ⟨d, h, hspace, -⟩
  · exact Token.ne_space_of_isDigit (h.all c hc)
  · exact Token.ne_space_of_isAlpha (h.all c hc)
  · rw [h, List.mem_singleton] at hc
    rwa [hc]

/-- A lexeme that holds a digit is a run of digits. -/
private theorem Proper.isRun_isDigit (h : l.Proper) {c : Char} (hc : c ∈ l.run)
    (hdigit : c.isDigit) :
    l.IsRun Char.isDigit := by
  -- A lexeme with a digit in it is neither letters nor a single other character
  rcases h with h | h | ⟨d, h, -, hd, -⟩
  · exact h
  · exact absurd hdigit (by simp [Token.isDigit_eq_false_of_isAlpha (h.all c hc)])
  · rw [h, List.mem_singleton] at hc
    exact absurd hdigit (by simp [hc, hd])

/-- A lexeme that holds a letter is a run of letters. -/
private theorem Proper.isRun_isAlpha (h : l.Proper) {c : Char} (hc : c ∈ l.run)
    (halpha : c.isAlpha) :
    l.IsRun Char.isAlpha := by
  rcases h with h | h | ⟨d, h, -, -, hd⟩
  · exact absurd (h.all c hc) (by simp [Token.isDigit_eq_false_of_isAlpha halpha])
  · exact h
  · rw [h, List.mem_singleton] at hc
    exact absurd halpha (by simp [hc, hd])

/-- A lexeme that holds neither a digit nor a letter is a single character. -/
private theorem Proper.isSingle (h : l.Proper) {c : Char} (hc : c ∈ l.run)
    (hdigit : c.isDigit = false) (halpha : c.isAlpha = false) : l.IsSingle := by
  rcases h with h | h | h
  · exact absurd (h.all c hc) (by simp [hdigit])
  · exact absurd (h.all c hc) (by simp [halpha])
  · exact h

/-- Two runs of one class of which one starts within the other are the same. -/
private theorem IsRun.eq_of_overlap {p : Char → Bool} (hl : l.IsRun p) (hm : m.IsRun p)
    {inside shared : List Char} (hbefore : m.before = l.before ++ inside)
    (hrun : l.run = inside ++ shared) (hrest : shared ++ l.after = m.run ++ m.after) : l = m := by
  -- A character of the run before the other run would go on with that
  have hinside : inside = [] := by
    by_contra hne
    obtain ⟨c, hc⟩ := Option.isSome_iff_exists.mp (List.getLast?_isSome.mpr hne)
    have hlast : c ∈ m.before.getLast? := by
      rw [hbefore, List.getLast?_append, hc]
      rfl
    have hmem : c ∈ l.run := by
      rw [hrun]
      exact List.mem_append_left _ (List.mem_of_mem_getLast? hc)
    exact absurd (hl.all c hmem) (by simp [hm.clear_before c hlast])
  subst hinside
  rw [List.append_nil] at hbefore
  rw [List.nil_append] at hrun
  subst hrun
  have hsame : l.run = m.run := by
    rw [← Token.takeWhile_append_of_clear hl.all hl.clear_after, hrest,
      Token.takeWhile_append_of_clear hm.all hm.clear_after]
  rw [hsame] at hrest
  exact Lexeme.ext hbefore.symm hsame (List.append_cancel_left hrest)

/-- Two single characters of which one stands within the other are the same. -/
private theorem IsSingle.eq_of_overlap (hl : l.IsSingle) (hm : m.IsSingle)
    {inside shared : List Char}
    (hbefore : m.before = l.before ++ inside) (hrun : l.run = inside ++ shared)
    (hne : shared ≠ []) (hrest : shared ++ l.after = m.run ++ m.after) : l = m := by
  obtain ⟨c, hc, -⟩ := hl
  obtain ⟨d, hd, -⟩ := hm
  -- A single character has no part that is shared, so nothing is in front of it
  obtain ⟨rfl, rfl⟩ : inside = [] ∧ shared = [c] := by
    rw [hc] at hrun
    cases inside with
    | nil => exact ⟨rfl, hrun.symm⟩
    | cons x inside =>
      obtain ⟨-, hnil⟩ := List.append_eq_nil_iff.mp (List.cons.inj hrun).2.symm
      exact absurd hnil hne
  rw [hd] at hrest
  obtain ⟨rfl, hafter⟩ := List.cons.inj hrest
  rw [List.append_nil] at hbefore
  exact Lexeme.ext hbefore.symm (hc.trans hd.symm) hafter

/-- A lexeme that starts no earlier than another and before its end is that other one. -/
private theorem In.eq_of_overlap (hl : l.In text) (hm : m.In text) (hstart : l.before <+: m.before)
    (hstop : ¬ l.before ++ l.run <+: m.before) : l = m := by
  obtain ⟨inside, hbefore⟩ := hstart
  have hrest : l.run ++ l.after = inside ++ (m.run ++ m.after) := by
    have htext := hl.1.trans hm.1.symm
    rw [← hbefore] at htext
    simpa using htext
  obtain ⟨shared, hrun, hshared⟩ :
      ∃ shared, l.run = inside ++ shared ∧ m.run ++ m.after = shared ++ l.after := by
    rcases List.append_eq_append_iff.mp hrest with ⟨gap, hgap, -⟩ | h
    · refine absurd ⟨gap, ?_⟩ hstop
      rw [← hbefore, hgap, List.append_assoc]
    · exact h
  have hne : shared ≠ [] := by
    rintro rfl
    rw [List.append_nil] at hrun
    exact hstop ⟨[], by rw [List.append_nil, hrun, hbefore]⟩
  -- The first character that both share tells of which class they are
  obtain ⟨c, hcl, hcm⟩ : ∃ c, c ∈ l.run ∧ c ∈ m.run := by
    obtain ⟨c, shared', rfl⟩ := List.exists_cons_of_ne_nil hne
    obtain ⟨d, run', hmrun⟩ := List.exists_cons_of_ne_nil hm.2.ne_nil
    rw [hmrun] at hshared
    obtain rfl := (List.cons.inj hshared).1
    refine ⟨d, ?_, ?_⟩
    · rw [hrun]
      exact List.mem_append_right _ List.mem_cons_self
    · rw [hmrun]
      exact List.mem_cons_self
  rcases hl.2 with hrunl | hrunl | hsingle
  · exact hrunl.eq_of_overlap (hm.2.isRun_isDigit hcm (hrunl.all c hcl)) hbefore.symm hrun
      hshared.symm
  · exact hrunl.eq_of_overlap (hm.2.isRun_isAlpha hcm (hrunl.all c hcl)) hbefore.symm hrun
      hshared.symm
  · have hclass : c.isDigit = false ∧ c.isAlpha = false := by
      obtain ⟨d, hd, -, hclass⟩ := hsingle
      rw [hd, List.mem_singleton] at hcl
      rwa [hcl]
    exact hsingle.eq_of_overlap (hm.2.isSingle hcm hclass.1 hclass.2) hbefore.symm hrun hne
      hshared.symm

/-! ### Cutting a text up -/

/-- These lexemes are cut off one after the other from a text that stands behind another,
    with nothing but spaces between them. -/
inductive Splits : List Char → List Char → List Lexeme → Prop where
  | nil (before : List Char) : Splits before [] []
  | space {before rest : List Char} {lexemes : List Lexeme}
    (h : Splits (before ++ [' ']) rest lexemes) : Splits before (' ' :: rest) lexemes
  | lexeme {l : Lexeme} {lexemes : List Lexeme} (hproper : l.Proper)
    (h : Splits (l.before ++ l.run) l.after lexemes) :
    Splits l.before (l.run ++ l.after) (l :: lexemes)

namespace Splits

variable {before : List Char} {lexemes : List Lexeme}

/-- All lexemes are found that do not start earlier. -/
theorem mem_iff (h : Splits before text lexemes) (l : Lexeme) :
    l ∈ lexemes ↔ l.In (before ++ text) ∧ before <+: l.before := by
  induction h with
  | nil before =>
    simp only [List.not_mem_nil, false_iff, List.append_nil]
    rintro ⟨hin, rest, hrest⟩
    have hlength := congrArg List.length hin.1
    rw [← hrest] at hlength
    simp only [List.length_append] at hlength
    exact hin.2.ne_nil (List.eq_nil_of_length_eq_zero (by omega))
  | @space before rest lexemes _ ih =>
    rw [ih, List.append_assoc, List.singleton_append]
    constructor
    · rintro ⟨hin, hprefix⟩
      exact ⟨hin, (List.prefix_append before [' ']).trans hprefix⟩
    · rintro ⟨hin, gap, hgap⟩
      refine ⟨hin, ?_⟩
      -- A lexeme does not start with the space
      cases gap with
      | nil =>
        obtain ⟨c, run, hrun⟩ := List.exists_cons_of_ne_nil hin.2.ne_nil
        have htext := hin.1
        rw [← hgap, hrun, List.append_nil, List.append_assoc] at htext
        have hspace : c = ' ' := (List.cons.inj (List.append_cancel_left htext)).1
        have hmem : c ∈ l.run := by
          rw [hrun]
          exact List.mem_cons_self
        exact absurd hspace (hin.2.ne_space hmem)
      | cons c gap =>
        have htext := hin.1
        rw [← hgap, List.append_assoc, List.append_assoc] at htext
        obtain rfl : c = ' ' := (List.cons.inj (List.append_cancel_left htext)).1
        exact ⟨gap, by rw [← hgap, List.append_assoc, List.singleton_append]⟩
  | @lexeme first lexemes hproper _ ih =>
    -- Any other lexeme starts behind the first, since it would overlap with that
    rw [List.mem_cons, ih, ← List.append_assoc]
    constructor
    · rintro (rfl | ⟨hin, hprefix⟩)
      · exact ⟨⟨rfl, hproper⟩, List.prefix_rfl⟩
      · exact ⟨hin, (List.prefix_append _ _).trans hprefix⟩
    · rintro ⟨hin, hprefix⟩
      by_cases hstop : first.before ++ first.run <+: l.before
      · exact .inr ⟨hin, hstop⟩
      · exact .inl (In.eq_of_overlap ⟨rfl, hproper⟩ hin hprefix hstop).symm

/-- Each lexeme ends before the next one starts. -/
theorem pairwise (h : Splits before text lexemes) :
    lexemes.Pairwise fun l m => l.before ++ l.run <+: m.before := by
  induction h with
  | nil before => exact .nil
  | space _ ih => exact ih
  | lexeme _ hrest ih => exact .cons (fun m hm => ((hrest.mem_iff m).mp hm).2) ih

/-- Side by side, the lexemes are the text without its spaces. -/
private theorem flatMap_run (h : Splits before text lexemes) :
    lexemes.flatMap run = text.filter (· ≠ ' ') := by
  induction h with
  | nil before => rfl
  | space _ ih => simpa using ih
  -- No lexeme contains a space, so all of its characters stay
  | @lexeme l lexemes hproper _ ih =>
    have hrun : l.run.filter (· ≠ ' ') = l.run := by
      simpa using fun c hc => hproper.ne_space (c := c) hc
    rw [List.flatMap_cons, ih, List.filter_append, hrun]

end Splits

end Lexeme

/-! ## Scanning makes the items of lexemes -/

namespace Token

open Lexeme (Splits Makes)

/-- No run of digits or letters goes across this place. -/
def Boundary (before text : List Char) : Prop :=
  ∀ c ∈ before.getLast?,
    (c.isDigit → Clear Char.isDigit text) ∧ (c.isAlpha → Clear Char.isAlpha text)

/-- What is left behind a run does not go on with it. -/
theorem clear_dropWhile (p : Char → Bool) (text : List Char) : Clear p (text.dropWhile p) := by
  intro c hc
  have := List.head?_dropWhile_not p text
  rw [hc] at this
  exact this

/-- The last character of a text that ends in a run is one of the run. -/
private theorem mem_of_getLast?_append {before run : List Char} (hne : run ≠ []) {c : Char}
    (hc : c ∈ (before ++ run).getLast?) : c ∈ run := by
  obtain ⟨d, hd⟩ := Option.isSome_iff_exists.mp (List.getLast?_isSome.mpr hne)
  rw [List.getLast?_append, hd] at hc
  obtain rfl : d = c := Option.some.inj hc
  exact List.mem_of_mem_getLast? hd

/-- Looking ahead finds a parenthesis behind any number of spaces. -/
theorem opensCall_iff_exists (rest : List Char) :
    opensCall rest ↔ ∃ spaces others, rest = List.replicate spaces ' ' ++ '(' :: others := by
  induction rest with
  | nil => simp [opensCall]
  | cons c rest ih =>
    -- A space is one more of those in front; any other character decides
    by_cases hspace : c = ' '
    · subst hspace
      rw [opensCall_space, ih]
      constructor
      · rintro ⟨spaces, others, rfl⟩
        exact ⟨spaces + 1, others, rfl⟩
      · rintro ⟨spaces, others, h⟩
        cases spaces with
        | zero => exact absurd (List.cons.inj h).1 (by decide)
        | succ spaces => exact ⟨spaces, others, (List.cons.inj h).2⟩
    · rw [opensCall_cons_of_ne hspace, beq_iff_eq]
      constructor
      · rintro rfl
        exact ⟨0, rest, rfl⟩
      · rintro ⟨spaces, others, h⟩
        cases spaces with
        | zero => exact (List.cons.inj h).1
        | succ spaces => exact absurd (List.cons.inj h).1 hspace

/-- The item of a run of digits. -/
private theorem makes_ofDigits {l : Lexeme} (h : l.IsRun Char.isDigit) :
    l.Makes (ofDigits l.run) := by
  unfold ofDigits
  split
  · rename_i hle
    exact .number h hle
  · rename_i hle
    exact .outOfRange h (Nat.lt_of_not_le hle)

/-- The item of a run of letters. -/
private theorem makes_ofLetters {l : Lexeme} (h : l.IsRun Char.isAlpha) :
    l.Makes (.ok (ofLetters l.run l.after)) := by
  unfold ofLetters
  split
  · rename_i hopens
    exact .function h ((opensCall_iff_exists _).mp hopens)
  · rename_i hopens
    exact .word h fun h' => hopens ((opensCall_iff_exists _).mpr h')

/-- The item of any other character. -/
private theorem makes_ofSymbol {l : Lexeme} {c : Char} (hrun : l.run = [c]) (hspace : c ≠ ' ')
    (hdigit : c.isDigit = false) (halpha : c.isAlpha = false) :
    l.Makes (ofSymbol c l.start) := by
  unfold ofSymbol
  -- Four characters are marks, and the rest is illegal
  split
  · subst c; exact .leftParen hrun
  split
  · subst c; exact .rightParen hrun
  split
  · subst c; exact .comma hrun
  split
  · subst c; exact .dot hrun
  · exact .illegal hrun ⟨by simp [*], hdigit, halpha⟩

/-- Behind a run there is a boundary if nothing goes on with the class of its characters. -/
private theorem boundary_append {before run after : List Char} (hne : run ≠ [])
    (h : ∀ c ∈ run, (c.isDigit → Clear Char.isDigit after) ∧
      (c.isAlpha → Clear Char.isAlpha after)) : Boundary (before ++ run) after :=
  fun c hc => h c (mem_of_getLast?_append hne hc)

/-- From a boundary on, as many characters of a class as there are make a maximal run. -/
private theorem isRun_of_boundary {p : Char → Bool} {before rest : List Char} {c : Char}
    (h : ∀ d ∈ before.getLast?, p d → Clear p (c :: rest)) (hc : p c) :
    Lexeme.IsRun p ⟨before, c :: rest.takeWhile p, rest.dropWhile p⟩ where
  ne_nil := List.cons_ne_nil _ _
  all := of_mem_cons_takeWhile hc
  -- A character of the class in front would have forbidden one behind it
  clear_before := fun d hd => by
    refine Bool.eq_false_iff.mpr fun hpd => ?_
    have := clear_cons.mp (h d hd hpd)
    simp [hc] at this
  clear_after := clear_dropWhile p rest

/-- The byte behind a run of characters of one byte each. -/
theorem bytes_append_run {before rest : List Char} {p : Char → Bool} {c : Char} (hc : p c)
    (hp : ∀ d, p d → d.utf8Size = 1) :
    bytes (before ++ c :: rest.takeWhile p) = bytes before + 1 + (rest.takeWhile p).length := by
  rw [bytes_append, bytes_eq_length fun d hd => hp d (of_mem_cons_takeWhile hc d hd),
    List.length_cons]
  omega

/-- From a boundary on, scanning cuts the text up into lexemes and makes an item of each. -/
theorem exists_splits {before text : List Char} (h : Boundary before text) :
    ∃ lexemes, Splits before text lexemes ∧
      List.Forall₂ Makes lexemes (scanFrom (bytes before) text) := by
  -- Along the scan: no run goes across the place where it has come to, and the offset is
  -- the number of bytes in front of that place
  generalize hoffset : bytes before = offset
  fun_induction scanFrom offset text generalizing before with
  | case1 offset => exact ⟨[], .nil before, .nil⟩
  | case2 offset rest ih =>
    have hnext : Boundary (before ++ [' ']) rest :=
      boundary_append (List.cons_ne_nil _ _) (by simp)
    obtain ⟨lexemes, hsplits, hmakes⟩ := ih hnext (by rw [bytes_append, hoffset]; rfl)
    exact ⟨lexemes, hsplits.space, hmakes⟩
  | case3 offset c rest hspace hdigit ih =>
    let l : Lexeme := ⟨before, c :: rest.takeWhile Char.isDigit, rest.dropWhile Char.isDigit⟩
    have hrun : l.IsRun Char.isDigit := isRun_of_boundary (fun d hd => (h d hd).1) hdigit
    have hnext : Boundary (before ++ l.run) l.after := by
      refine boundary_append hrun.ne_nil fun d hd => ⟨fun _ => hrun.clear_after, fun hd' => ?_⟩
      exact absurd (hrun.all d hd) (by simp [isDigit_eq_false_of_isAlpha hd'])
    obtain ⟨lexemes, hsplits, hmakes⟩ := ih hnext (by
      rw [bytes_append_run hdigit fun _ => utf8Size_of_isDigit, hoffset])
    have htext : l.run ++ l.after = c :: rest :=
      congrArg (c :: ·) List.takeWhile_append_dropWhile
    have hall := Splits.lexeme (.inl hrun) hsplits
    rw [htext] at hall
    exact ⟨l :: lexemes, hall, .cons (makes_ofDigits hrun) hmakes⟩
  | case4 offset c rest hspace hdigit halpha ih =>
    let l : Lexeme := ⟨before, c :: rest.takeWhile Char.isAlpha, rest.dropWhile Char.isAlpha⟩
    have hrun : l.IsRun Char.isAlpha := isRun_of_boundary (fun d hd => (h d hd).2) halpha
    have hnext : Boundary (before ++ l.run) l.after := by
      refine boundary_append hrun.ne_nil fun d hd => ⟨fun hd' => ?_, fun _ => hrun.clear_after⟩
      exact absurd hd' (by simp [isDigit_eq_false_of_isAlpha (hrun.all d hd)])
    obtain ⟨lexemes, hsplits, hmakes⟩ := ih hnext (by
      rw [bytes_append_run halpha fun _ => utf8Size_of_isAlpha, hoffset])
    have htext : l.run ++ l.after = c :: rest :=
      congrArg (c :: ·) List.takeWhile_append_dropWhile
    have hall := Splits.lexeme (.inr (.inl hrun)) hsplits
    rw [htext] at hall
    exact ⟨l :: lexemes, hall, .cons (makes_ofLetters hrun) hmakes⟩
  | case5 offset c rest hspace hdigit halpha ih =>
    let l : Lexeme := ⟨before, [c], rest⟩
    have hdigit : c.isDigit = false := by simpa using hdigit
    have halpha : c.isAlpha = false := by simpa using halpha
    have hnext : Boundary (before ++ [c]) rest :=
      boundary_append (List.cons_ne_nil _ _) (by simp [hdigit, halpha])
    obtain ⟨lexemes, hsplits, hmakes⟩ := ih hnext (by rw [bytes_append, bytes_singleton, hoffset])
    have hitem := makes_ofSymbol (l := l) rfl hspace hdigit halpha
    rw [Lexeme.start, hoffset] at hitem
    have hproper : l.Proper := .inr (.inr ⟨c, rfl, hspace, hdigit, halpha⟩)
    exact ⟨l :: lexemes, .lexeme hproper hsplits, .cons hitem hmakes⟩

end Token

/-! ## Illegal characters -/

namespace Lexeme

variable {l m : Lexeme} {text : List Char} {item : Except Fault Token}

/-- An illegal character makes no other item than its fault. -/
private theorem Makes.eq_of_illegal (h : l.Makes item) {c : Char} (hrun : l.run = [c])
    (hillegal : Illegal c) : item = .error (.illegalCharacter c l.start) := by
  obtain ⟨hmark, hdigit, halpha⟩ := hillegal
  have hmem : c ∈ l.run := by simp [hrun]
  -- All that a lexeme makes but the fault would need a digit, a letter or a mark
  cases h with
  | number h => exact absurd (h.all c hmem) (by simp [hdigit])
  | outOfRange h => exact absurd (h.all c hmem) (by simp [hdigit])
  | function h => exact absurd (h.all c hmem) (by simp [halpha])
  | word h => exact absurd (h.all c hmem) (by simp [halpha])
  | illegal h =>
    rw [hrun] at h
    rw [(List.cons.inj h).1]
  | _ h =>
    rw [hrun] at h
    obtain rfl := (List.cons.inj h).1
    simp at hmark

/-- Only an illegal character makes the fault of one. -/
private theorem Makes.illegal_of_eq {c : Char} {offset : Nat}
    (h : l.Makes (.error (.illegalCharacter c offset))) :
    l.run = [c] ∧ Illegal c ∧ offset = l.start := by
  cases h with
  | illegal hrun hillegal => exact ⟨hrun, hillegal, rfl⟩

/-- A lexeme that ends before another starts there has the smaller offset. -/
private theorem start_lt_of_isPrefix (hl : l.Proper) (h : l.before ++ l.run <+: m.before) :
    l.start < m.start := by
  have hle := bytes_le_of_isPrefix h
  have hpos := bytes_pos hl.ne_nil
  rw [bytes_append] at hle
  rw [start, start]
  omega

/-- Every item is made of a lexeme. -/
theorem exists_of_mem {lexemes : List Lexeme} {items : List (Except Fault Token)}
    (h : List.Forall₂ Makes lexemes items) (hitem : item ∈ items) :
    ∃ l ∈ lexemes, l.Makes item := by
  induction h with
  | nil => exact absurd hitem List.not_mem_nil
  | @cons l _ _ _ hmakes _ ih =>
    rcases List.mem_cons.mp hitem with rfl | hitem
    · exact ⟨l, List.mem_cons_self, hmakes⟩
    · obtain ⟨m, hm, hmakes⟩ := ih hitem
      exact ⟨m, List.mem_cons_of_mem _ hm, hmakes⟩

/-- Every lexeme makes an item. -/
private theorem exists_item_of_mem {lexemes : List Lexeme} {items : List (Except Fault Token)}
    (h : List.Forall₂ Makes lexemes items) (hl : l ∈ lexemes) :
    ∃ item ∈ items, l.Makes item := by
  induction h with
  | nil => exact absurd hl List.not_mem_nil
  | @cons _ item _ _ hmakes _ ih =>
    rcases List.mem_cons.mp hl with rfl | hl
    · exact ⟨item, List.mem_cons_self, hmakes⟩
    · obtain ⟨next, hnext, hmakes⟩ := ih hl
      exact ⟨next, List.mem_cons_of_mem _ hnext, hmakes⟩

/-- Items that are made of lexemes in the order of the text have their illegal characters
    at increasing offsets. -/
theorem pairwise_illegal {lexemes : List Lexeme} {items : List (Except Fault Token)}
    (hmakes : List.Forall₂ Makes lexemes items)
    (horder : lexemes.Pairwise fun l m => l.before ++ l.run <+: m.before)
    (hproper : ∀ l ∈ lexemes, l.Proper) :
    items.Pairwise fun item next => ∀ c i d j, item = .error (.illegalCharacter c i) →
      next = .error (.illegalCharacter d j) → i < j := by
  -- Only illegal characters have offsets, and these are the starts of their lexemes
  induction hmakes with
  | nil => exact .nil
  | @cons l item lexemes items hitem hmakes ih =>
    obtain ⟨hl, hproper⟩ := List.forall_mem_cons.mp hproper
    obtain ⟨hbefore, horder⟩ := List.pairwise_cons.mp horder
    refine .cons (fun next hnext c i d j hi hj => ?_) (ih horder hproper)
    subst hi hj
    obtain ⟨m, hm, hnextm⟩ := exists_of_mem hmakes hnext
    rw [hitem.illegal_of_eq.2.2, hnextm.illegal_of_eq.2.2]
    exact start_lt_of_isPrefix hl (hbefore m hm)

end Lexeme

namespace Formula

/-- The items of a formula stand for its lexemes, one for one and in their order.  Side by
    side the lexemes are the formula without its spaces, and each starts and stops between
    characters.  So every illegal character is found once, with the byte where it stands.
    The formula has tokens if all items are, and else the fault that is the first among
    them. -/
theorem exists_lexemes (formula : String) :
    ∃ lexemes : List Lexeme,
      (∀ l, l ∈ lexemes ↔ l.In formula.toList) ∧
      lexemes.Pairwise (fun l m => l.before ++ l.run <+: m.before) ∧
      lexemes.flatMap Lexeme.run = formula.toList.filter (· ≠ ' ') ∧
      (∀ l ∈ lexemes, String.Pos.Raw.IsValid formula ⟨l.start⟩ ∧
        String.Pos.Raw.IsValid formula ⟨l.stop⟩ ∧
        formula.toByteArray.extract l.start l.stop = (String.ofList l.run).toByteArray) ∧
      List.Forall₂ Lexeme.Makes lexemes (Token.scan formula) ∧
      (∀ c offset, .error (.illegalCharacter c offset) ∈ Token.scan formula ↔
        ∃ before after, formula.toList = before ++ c :: after ∧ Lexeme.Illegal c ∧
          offset = bytes before) ∧
      (Token.scan formula).Pairwise (fun item next => ∀ c i d j,
        item = .error (.illegalCharacter c i) → next = .error (.illegalCharacter d j) → i < j) ∧
      (∀ ts, (tokens formula).outcome = .ok ts ↔ Token.scan formula = ts.map .ok) ∧
      ∀ fault, (tokens formula).outcome = .error fault ↔
        ∃ (made : List Token) (others : List (Except Fault Token)),
          Token.scan formula = made.map .ok ++ .error fault :: others := by
  -- There is nothing in front of the text, so it starts at a boundary
  have hstart : Token.Boundary [] formula.toList := by simp [Token.Boundary]
  obtain ⟨lexemes, hsplits, hmakes⟩ := Token.exists_splits hstart
  have hmem : ∀ l, l ∈ lexemes ↔ l.In formula.toList := by
    intro l
    rw [hsplits.mem_iff, List.nil_append]
    simp
  refine ⟨lexemes, hmem, hsplits.pairwise, hsplits.flatMap_run, ?_, hmakes, ?_, ?_,
    fun ts => outcome_tokens_eq_ok_iff, fun fault => ?_⟩
  · intro l hl
    have htext := ((hmem l).mp hl).1
    have hbefore : l.before ++ (l.run ++ l.after) = formula.toList := by
      rw [← List.append_assoc, htext]
    exact ⟨isValid_bytes hbefore, isValid_bytes htext, toByteArray_extract htext⟩
  · intro c offset
    constructor
    · intro hitem
      obtain ⟨l, hl, hmake⟩ := Lexeme.exists_of_mem hmakes hitem
      obtain ⟨hrun, hillegal, rfl⟩ := hmake.illegal_of_eq
      refine ⟨l.before, l.after, ?_, hillegal, rfl⟩
      rw [← ((hmem l).mp hl).1, hrun, List.append_assoc, List.singleton_append]
    · -- An illegal character is a lexeme of its own, whatever stands around it
      rintro ⟨before, after, htext, hillegal, rfl⟩
      have hin : Lexeme.In ⟨before, [c], after⟩ formula.toList := by
        refine ⟨by simp [htext], .inr (.inr ⟨c, rfl, ?_, hillegal.2⟩)⟩
        rintro rfl
        simp [Lexeme.Illegal] at hillegal
      obtain ⟨item, hitem, hmake⟩ := Lexeme.exists_item_of_mem hmakes ((hmem _).mpr hin)
      rwa [hmake.eq_of_illegal rfl hillegal] at hitem
  · exact Lexeme.pairwise_illegal hmakes hsplits.pairwise fun l hl => ((hmem l).mp hl).2
  · exact outcome_tokens_eq_error_iff

/-- An illegal character stands at its byte, also behind a character of two bytes that is
    illegal itself. -/
theorem exists_lexemes_illegal :
    Lexeme.Illegal '$' ∧ .error (.illegalCharacter '$' 2) ∈ Token.scan "\u00e4$" := by
  have hillegal : Lexeme.Illegal '$' := ⟨by decide, by decide, by decide⟩
  obtain ⟨-, -, -, -, -, -, hmem, -⟩ := exists_lexemes "\u00e4$"
  exact ⟨hillegal, (hmem '$' 2).mpr ⟨['\u00e4'], [], rfl, hillegal, rfl⟩⟩

end Formula

end Reckoner
