import Reckoner.Journal
import Reckoner.Proofs.ScanImage
import Reckoner.Proofs.WrittenNumber

/-!
# What records show

The texts that stand in the records of a run.  A token is shown by its kind and its value; a
name is made of letters, so it stands between quotes as it is.  A number is shown by a numeral
that reads back as it, in results as in arguments, unless it is no finite number.

## Key results

- `Text.quote_of_isName`: quoting leaves a name as it is
- `Token.forall₂_recordedAs`: tokens that are made leave a record each
- `Decimal.Layout.tells_render`: what is written of a number tells the number
-/

namespace Reckoner

/-! ## Names between quotes -/

namespace Text

/-- No range meets the characters of ASCII that show. -/
private theorem unprintableRanges_apart :
    ∀ range ∈ unprintableRanges.toList, range.2 < 0x20 ∨ 0x7F ≤ range.1 := by
  decide +kernel

/-- A character of ASCII from the space on shows, but for the last. -/
private theorem isUnprintable_eq_false {c : Char} (hle : 0x20 ≤ c.toNat) (hlt : c.toNat < 0x7F) :
    isUnprintable c = false := by
  rw [isUnprintable, ← Array.any_toList, List.any_eq_false]
  intro range hrange
  have hapart := unprintableRanges_apart range hrange
  simp only [Bool.and_eq_true, decide_eq_true_eq]
  omega

/-- A letter shows as itself. -/
private theorem escapeChar_of_isAlpha {c : Char} (h : c.isAlpha) : escapeChar c = [c] := by
  have hle := Token.le_toNat_of_isAlpha h
  have hlt := Token.toNat_le_of_isAlpha h
  have hshown : isUnprintable c = false := isUnprintable_eq_false (by omega) (by omega)
  have hne : ∀ d : Char, d.toNat < 65 → c ≠ d := by
    rintro d hd rfl
    omega
  have hbackslash : c ≠ '\\' := by
    rintro rfl
    exact absurd h (by decide)
  -- None of the characters with an escape of their own is a letter
  rw [escapeChar, if_neg (by omega), if_neg (hne _ (by decide)), if_neg (hne _ (by decide)),
    if_neg (hne _ (by decide)), if_neg (hne _ (by decide)), if_neg hbackslash, hshown,
    if_neg Bool.false_ne_true]

/-- Quoting leaves a name as it is. -/
theorem quote_of_isName {name : String} (h : Token.IsName name) :
    quote name = "\"" ++ name ++ "\"" := by
  have hletters : ∀ cs : List Char, (∀ c ∈ cs, c.isAlpha) → cs.flatMap escapeChar = cs := by
    intro cs hcs
    induction cs with
    | nil => rfl
    | cons c cs ih =>
      obtain ⟨hc, hcs⟩ := List.forall_mem_cons.mp hcs
      rw [List.flatMap_cons, escapeChar_of_isAlpha hc, ih hcs, List.singleton_append]
  rw [quote, hletters _ h.2, String.ofList_cons, String.ofList_append, String.ofList_toList]
  rfl

end Text

/-! ## Tokens -/

namespace Token

/-- The record of a token that was made: its kind, and its value if it has one. -/
inductive RecordedAs : Token → Record → Prop where
  | number (value : Int) :
    RecordedAs (number value) ⟨.trace, "token Number(" ++ toString value ++ ")"⟩
  | function (name : String) :
    RecordedAs (function name) ⟨.trace, "token Function(\"" ++ name ++ "\")"⟩
  | word (name : String) :
    RecordedAs (word name) ⟨.trace, "token Variable(\"" ++ name ++ "\")"⟩
  | leftParen : RecordedAs leftParen ⟨.trace, "token LParen"⟩
  | rightParen : RecordedAs rightParen ⟨.trace, "token RParen"⟩
  | comma : RecordedAs comma ⟨.trace, "token Comma"⟩
  | dot : RecordedAs dot ⟨.trace, "token Dot"⟩

/-- What is shown of a token with a name. -/
private theorem shown_of_isName {name : String} (h : IsName name) (kind : String) :
    "token " ++ (kind ++ "(" ++ Text.quote name ++ ")") =
      "token " ++ kind ++ "(\"" ++ name ++ "\")" := by
  have hopening : "(\"" = "(" ++ "\"" := rfl
  have hclosing : "\")" = "\"" ++ ")" := rfl
  rw [Text.quote_of_isName h, hopening, hclosing]
  simp only [String.append_assoc]

/-- A token that a formula can spell leaves its record. -/
private theorem Spellable.exists_recordedAs {t : Token} (h : t.Spellable) :
    ∃ record, (Event.token t).record? = some record ∧ t.RecordedAs record := by
  refine ⟨_, rfl, ?_⟩
  -- Numbers and names are shown between parentheses, marks by their kind alone
  cases t with
  | number value =>
    have hshown : "token " ++ ("Number(" ++ toString value ++ ")") =
        "token Number(" ++ toString value ++ ")" := by
      rw [← String.append_assoc, ← String.append_assoc]
      rfl
    exact hshown ▸ .number value
  | function name => exact shown_of_isName h "Function" ▸ .function name
  | word name => exact shown_of_isName h "Variable" ▸ .word name
  | leftParen => exact .leftParen
  | rightParen => exact .rightParen
  | comma => exact .comma
  | dot => exact .dot

/-- Tokens that formulas can spell leave a record each, in their order. -/
theorem forall₂_recordedAs {ts : List Token} (h : ∀ t ∈ ts, t.Spellable) :
    List.Forall₂ RecordedAs ts ((ts.map Event.token).filterMap Event.record?) := by
  induction ts with
  | nil => exact .nil
  | cons t ts ih =>
    obtain ⟨ht, hts⟩ := List.forall_mem_cons.mp h
    obtain ⟨record, hrecord, hrecorded⟩ := ht.exists_recordedAs
    rw [List.map_cons, List.filterMap_cons_some hrecord]
    exact .cons hrecorded (ih hts)

end Token

/-! ## Numbers -/

/-- A text tells a number: a numeral that reads as it, or the name of what is no finite number. -/
inductive Tells : String → Float → Prop where
  | finite {text : String} {x : Float} (hfinite : x.isFinite = true) (hreads : ReadsAs text x) :
    Tells text x
  | notANumber {x : Float} (hnan : x.isNaN = true) : Tells "NaN" x
  | infinity {x : Float} (hinf : x.isInf = true) (hsign : x.toBits < 0x8000000000000000) :
    Tells "inf" x
  | negativeInfinity {x : Float} (hinf : x.isInf = true)
    (hsign : 0x8000000000000000 ≤ x.toBits) : Tells "-inf" x

/-- What a layout writes of a number tells the number, if it has these names for those that are
    not finite. -/
theorem Decimal.Layout.tells_render {l : Layout} (hnan : l.nan = "NaN") (hinf : l.infinity = "inf")
    (hneg : l.negativeInfinity = "-inf") (x : Float) : Tells (l.render x) x := by
  cases hfinite : x.isFinite with
  | true => exact .finite hfinite (l.readsAs_render hfinite)
  | false =>
    cases hnumber : x.isNaN with
    | true =>
      rw [render, hnumber, if_pos rfl, hnan]
      exact .notANumber hnumber
    | false =>
      have hinfinite := isInf_of_not_isFinite hfinite hnumber
      rw [render, hnumber, if_neg Bool.false_ne_true, hinfinite, if_pos rfl, hinf, hneg]
      -- An infinite number is told by its sign bit
      by_cases hsign : x.toBits ≥ 0x8000000000000000
      · rw [if_pos hsign]
        exact .negativeInfinity hinfinite hsign
      · rw [if_neg hsign]
        exact .infinity hinfinite (UInt64.not_le.mp hsign)

/-- The text of a result tells the result. -/
theorem tells_valueText (x : Float) : Tells (valueText x) x :=
  Decimal.Layout.tells_render rfl rfl rfl x

/-- The text of an argument tells the argument. -/
theorem tells_argumentText (x : Float) : Tells (argumentText x) x :=
  Decimal.Layout.tells_render rfl rfl rfl x

end Reckoner
