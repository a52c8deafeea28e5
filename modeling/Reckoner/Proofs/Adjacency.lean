import Reckoner.Proofs.Agreement
import Reckoner.Proofs.EvaluationSteps
import Reckoner.Proofs.Lexemes
import Reckoner.Proofs.Reprint

/-!
# Formulas side by side

Two formulas with spaces between them are a formula, whose program consists of the
expressions of the first and then those of the second.  As only the first expression of a
program counts, whatever stands behind a formula that is not empty has no effect.

## Key results

- `Token.scanFrom_append`: scanning a text and scanning what stands behind it
- `Token.scanFrom_add`: scanning a text that stands further on
- `Token.Scans.append`: texts without faults, one behind the other
- `Formula.join_appends_programs`: programs side by side, and what follows for values and
  verdicts
-/

namespace Reckoner

namespace Token

/-! ## Scanning one text behind another -/

/-- A text that starts with another character than a space has an item. -/
private theorem scanFrom_ne_nil {c : Char} (h : c ≠ ' ') (offset : Nat) (rest : List Char) :
    scanFrom offset (c :: rest) ≠ [] := by
  rw [scanFrom, if_neg h]
  split
  · exact List.cons_ne_nil _ _
  · split <;> exact List.cons_ne_nil _ _

/-- Through a text without items the look-ahead goes on into what stands behind it. -/
theorem opensCall_append_of_eq_nil {offset : Nat} {text : List Char}
    (h : scanFrom offset text = []) (after : List Char) :
    opensCall (text ++ after) = opensCall after := by
  -- A text without items consists of spaces, and the look-ahead goes past spaces
  induction text generalizing offset with
  | nil => rfl
  | cons c text ih =>
    by_cases hspace : c = ' '
    · subst hspace
      rw [scanFrom_space] at h
      rw [List.cons_append, opensCall_space, ih h]
    · exact absurd h (scanFrom_ne_nil hspace offset text)

/-- In a text with an item the look-ahead stops, whatever stands behind it. -/
private theorem opensCall_append_of_ne_nil {offset : Nat} {text : List Char}
    (h : scanFrom offset text ≠ []) (after : List Char) :
    opensCall (text ++ after) = opensCall text := by
  induction text generalizing offset with
  | nil => exact absurd (scanFrom_nil offset) h
  | cons c text ih =>
    by_cases hspace : c = ' '
    · subst hspace
      rw [scanFrom_space] at h
      rw [List.cons_append, opensCall_space, opensCall_space, ih h]
    · -- The first character that is no space decides, and it is in the front part
      rw [List.cons_append, opensCall_cons_of_ne hspace, opensCall_cons_of_ne hspace]

private theorem ofDigits_ne_word (digits : List Char) (name : String) :
    ofDigits digits ≠ .ok (word name) := by
  unfold ofDigits
  split <;> simp

private theorem ofSymbol_ne_word (c : Char) (offset : Nat) (name : String) :
    ofSymbol c offset ≠ .ok (word name) := by
  unfold ofSymbol
  repeat' split
  all_goals simp

/-- The items with a word at their end made a function. -/
def callLast : List (Except Fault Token) → List (Except Fault Token)
  | [] => []
  | [.ok (.word name)] => [.ok (.function name)]
  | item :: items => item :: callLast items

/-- The items of a text in front of another: if that opens a call, it is a word at the end of
    the first text that is called. -/
def inFrontOf (after : List Char) (items : List (Except Fault Token)) :
    List (Except Fault Token) :=
  if opensCall after then callLast items else items

private theorem inFrontOf_nil (after : List Char) : inFrontOf after [] = [] := by
  unfold inFrontOf
  split <;> rfl

/-- Of the items in front of a text only the last may change. -/
private theorem inFrontOf_cons (after : List Char) {item : Except Fault Token}
    {items : List (Except Fault Token)} (h : (∀ name, item ≠ .ok (.word name)) ∨ items ≠ []) :
    inFrontOf after (item :: items) = item :: inFrontOf after items := by
  unfold inFrontOf
  split
  · -- The last item alone can change, and only where it is a word
    rw [callLast]
    rintro name rfl rfl
    rcases h with h | h
    · exact h name rfl
    · exact h rfl
  · rfl

/-- What a run of letters makes in front of two texts is what it makes in front of the first,
    as long as that has an item, and else depends on the second. -/
private theorem ofLetters_append (letters rest after : List Char) (offset : Nat) :
    .ok (ofLetters letters (rest ++ after)) :: inFrontOf after (scanFrom offset rest) =
      inFrontOf after (.ok (ofLetters letters rest) :: scanFrom offset rest) := by
  -- Only where nothing stands between the letters and the other text does that decide
  by_cases hrest : scanFrom offset rest = []
  · have hopens : opensCall rest = false := by
      have hhead := opensCall_iff_head_scanFrom offset rest
      rw [hrest] at hhead
      exact Bool.eq_false_iff.mpr fun hopens => nomatch hhead.mp hopens
    rw [hrest, inFrontOf_nil, ofLetters, opensCall_append_of_eq_nil hrest, ofLetters, hopens]
    unfold inFrontOf
    split <;> rfl
  · rw [inFrontOf_cons after (.inr hrest), ofLetters, opensCall_append_of_ne_nil hrest, ofLetters]

/-- A place that cuts through no run of a text cuts through no run of its end. -/
theorem Boundary.of_suffix {text suffix after : List Char} (h : Boundary text after)
    (hsuffix : suffix <:+ text) : Boundary suffix after := by
  obtain ⟨front, rfl⟩ := hsuffix
  intro c hc
  apply h
  rw [Option.mem_def] at hc ⊢
  rw [List.getLast?_append, hc, Option.some_or]

/-- What is left behind a run stays clear of its class in front of a text that does not go on
    with the run. -/
private theorem clear_dropWhile_append {p : Char → Bool} {c : Char} {rest after : List Char}
    (hc : p c) (h : ∀ d ∈ (c :: rest).getLast?, p d → Clear p after) :
    Clear p (rest.dropWhile p ++ after) := by
  cases hdrop : rest.dropWhile p with
  | nil =>
    -- The run reaches to the end, so its last character is the last of all
    have hrun : ∀ d ∈ c :: rest, p d := by
      rw [← List.takeWhile_append_dropWhile (p := p) (l := rest), hdrop, List.append_nil]
      exact of_mem_cons_takeWhile hc
    have hlast : (c :: rest).getLast (List.cons_ne_nil c rest) ∈ (c :: rest).getLast? :=
      List.getLast?_eq_some_getLast _
    exact h _ hlast (hrun _ (List.getLast_mem _))
  | cons d others =>
    have hclear := clear_dropWhile p rest
    rw [hdrop] at hclear
    exact clear_cons.mpr (clear_cons.mp hclear)

/-- The run at the front of a text, apart from all that stands behind it. -/
private theorem cons_append_eq_run_append (p : Char → Bool) (c : Char) (rest after : List Char) :
    c :: rest ++ after = (c :: rest.takeWhile p) ++ (rest.dropWhile p ++ after) := by
  have hsplit : c :: rest = (c :: rest.takeWhile p) ++ rest.dropWhile p :=
    congrArg (c :: ·) List.takeWhile_append_dropWhile.symm
  rw [← List.append_assoc, ← hsplit]

/-- The bytes of a run and of what is left behind it. -/
private theorem bytes_cons_eq_run_add {p : Char → Bool} (hp : ∀ d, p d → d.utf8Size = 1) {c : Char}
    (hc : p c) (rest : List Char) :
    bytes (c :: rest) = 1 + (rest.takeWhile p).length + bytes (rest.dropWhile p) := by
  have hrun : bytes ([] ++ c :: rest.takeWhile p) = bytes [] + 1 + (rest.takeWhile p).length :=
    bytes_append_run hc hp
  have hall : bytes (c :: rest) = bytes (c :: rest.takeWhile p ++ rest.dropWhile p) := by
    rw [List.cons_append, List.takeWhile_append_dropWhile]
  have hnil : bytes [] = 0 := rfl
  rw [List.nil_append, hnil] at hrun
  rw [hall, bytes_append, hrun, Nat.zero_add]

/-- Scanning goes through a text and then through what stands behind it, if no run goes
    across the place between them. -/
theorem scanFrom_append {text after : List Char} (hboundary : Boundary text after)
    (offset : Nat) :
    scanFrom offset (text ++ after) =
      inFrontOf after (scanFrom offset text) ++ scanFrom (offset + bytes text) after := by
  -- Along the scan: what is left of the text ends where the text does
  fun_induction scanFrom offset text with
  | case1 offset =>
    rw [inFrontOf_nil]
    rfl
  | case2 offset rest ih =>
    have hnext := hboundary.of_suffix (List.suffix_cons ' ' rest)
    have hbytes : bytes (' ' :: rest) = 1 + bytes rest := bytes_append [' '] rest
    rw [List.cons_append, scanFrom_space, ih hnext, hbytes, Nat.add_assoc]
  | case3 offset c rest hspace hdigit ih =>
    have hnext := hboundary.of_suffix
      ((List.dropWhile_suffix Char.isDigit).trans (List.suffix_cons c rest))
    have hclear : Clear Char.isDigit (rest.dropWhile Char.isDigit ++ after) :=
      clear_dropWhile_append hdigit fun d hd => (hboundary d hd).1
    rw [cons_append_eq_run_append Char.isDigit,
      scanFrom_digits (List.cons_ne_nil _ _) (of_mem_cons_takeWhile hdigit) hclear,
      bytes_cons_eq_run_add (fun _ => utf8Size_of_isDigit) hdigit, List.length_cons,
      Nat.add_comm _ 1, ← Nat.add_assoc, ih hnext,
      inFrontOf_cons after (.inl (ofDigits_ne_word _)), List.cons_append]
    simp only [Nat.add_assoc]
  | case4 offset c rest hspace hdigit halpha ih =>
    have hnext := hboundary.of_suffix
      ((List.dropWhile_suffix Char.isAlpha).trans (List.suffix_cons c rest))
    have hclear : Clear Char.isAlpha (rest.dropWhile Char.isAlpha ++ after) :=
      clear_dropWhile_append halpha fun d hd => (hboundary d hd).2
    rw [cons_append_eq_run_append Char.isAlpha,
      scanFrom_letters (List.cons_ne_nil _ _) (of_mem_cons_takeWhile halpha) hclear,
      bytes_cons_eq_run_add (fun _ => utf8Size_of_isAlpha) halpha, List.length_cons,
      Nat.add_comm _ 1, ← Nat.add_assoc, ih hnext, ← List.cons_append, ofLetters_append]
    simp only [Nat.add_assoc]
  | case5 offset c rest hspace hdigit halpha ih =>
    have hnext := hboundary.of_suffix (List.suffix_cons c rest)
    have hbytes : bytes (c :: rest) = c.utf8Size + bytes rest := by
      rw [← bytes_singleton]
      exact bytes_append [c] rest
    rw [List.cons_append, scanFrom_symbol hspace (by simpa using hdigit) (by simpa using halpha),
      ih hnext, hbytes, inFrontOf_cons after (.inl (ofSymbol_ne_word _ _)), List.cons_append,
      Nat.add_assoc]

/-! ## Texts further on -/

/-- An item as it is so many bytes further on: an illegal character stands there, and all else
    is the same. -/
def moved (n : Nat) : Except Fault Token → Except Fault Token
  | .error (.illegalCharacter c offset) => .error (.illegalCharacter c (offset + n))
  | item => item

private theorem moved_ofDigits (n : Nat) (digits : List Char) :
    moved n (ofDigits digits) = ofDigits digits := by
  unfold ofDigits
  split <;> rfl

/-- An illegal character moves with the text in front of it. -/
private theorem moved_ofSymbol (n : Nat) (c : Char) (offset : Nat) :
    moved n (ofSymbol c offset) = ofSymbol c (offset + n) := by
  unfold ofSymbol
  split
  · rfl
  split
  · rfl
  split
  · rfl
  split <;> rfl

/-- A text makes the same items wherever it stands, except for the places of its illegal
    characters. -/
theorem scanFrom_add (offset n : Nat) (text : List Char) :
    scanFrom (offset + n) text = (scanFrom offset text).map (moved n) := by
  -- The induction is on scanning; each item is made of the same characters at either offset
  fun_induction scanFrom offset text with
  | case1 offset => rw [scanFrom_nil, List.map_nil]
  | case2 offset rest ih => rw [scanFrom_space, ← ih, Nat.add_right_comm]
  | case3 offset c rest hspace hdigit ih =>
    rw [scanFrom, if_neg hspace, if_pos hdigit, List.map_cons, moved_ofDigits, ← ih,
      Nat.add_right_comm offset n 1, Nat.add_right_comm _ n]
  | case4 offset c rest hspace hdigit halpha ih =>
    rw [scanFrom, if_neg hspace, if_neg hdigit, if_pos halpha, List.map_cons, ← ih,
      Nat.add_right_comm offset n 1, Nat.add_right_comm _ n]
    rfl
  | case5 offset c rest hspace hdigit halpha ih =>
    rw [scanFrom, if_neg hspace, if_neg hdigit, if_neg halpha, List.map_cons, moved_ofSymbol,
      ← ih, Nat.add_right_comm]

/-- Tokens are not moved, and nothing that is moved becomes one. -/
private theorem toOption_moved (n : Nat) (item : Except Fault Token) :
    (moved n item).toOption = item.toOption := by
  unfold moved
  split <;> rfl

/-- Whether items are certain tokens can be told with all faults taken for one. -/
theorem eq_map_ok_iff_toOption {items : List (Except Fault Token)} {ts : List Token} :
    items = ts.map .ok ↔ items.map Except.toOption = ts.map some := by
  induction items generalizing ts with
  | nil => cases ts <;> simp
  | cons item items ih =>
    cases ts with
    | nil => simp
    | cons t ts =>
      rw [List.map_cons, List.map_cons, List.map_cons, List.cons.injEq, List.cons.injEq, ih]
      cases item <;> simp [Except.toOption]

/-- The tokens among the items are the same wherever the text stands. -/
theorem map_toOption_moved (n : Nat) (items : List (Except Fault Token)) :
    (items.map (moved n)).map Except.toOption = items.map Except.toOption := by
  rw [List.map_map]
  exact List.map_congr_left fun item _ => toOption_moved n item

/-- A text without faults is scanned into the same tokens wherever it stands. -/
private theorem scans_of_scanFrom {offset : Nat} {text : List Char} {ts : List Token}
    (h : scanFrom offset text = ts.map .ok) : Scans text ts := by
  -- The offset moves the positions in faults, never a token
  have htokens : ∀ other, (scanFrom other text).map Except.toOption =
      (scanFrom 0 text).map Except.toOption := by
    intro other
    rw [← Nat.zero_add other, scanFrom_add, map_toOption_moved]
  intro other
  rw [eq_map_ok_iff_toOption] at h ⊢
  rw [htokens, ← htokens offset, h]

/-- Texts without faults are scanned one behind the other, if no run goes across the place
    between them and no call is opened there. -/
theorem Scans.append {text after : List Char} {ts us : List Token} (htext : Scans text ts)
    (hafter : Scans after us) (hboundary : Boundary text after)
    (hopen : us.head? ≠ some leftParen) : Scans (text ++ after) (ts ++ us) := by
  have hopens : opensCall after = false :=
    Bool.eq_false_iff.mpr (mt (opensCall_iff_of_scanFrom (hafter 0)).mp hopen)
  intro offset
  rw [scanFrom_append hboundary, inFrontOf, hopens, htext, hafter, List.map_append]
  rfl

/-- Spaces make no items. -/
theorem scanFrom_spaces (k offset : Nat) (text : List Char) :
    scanFrom offset (List.replicate k ' ' ++ text) = scanFrom (offset + k) text := by
  induction k generalizing offset with
  | zero => rfl
  | succ k ih =>
    rw [List.replicate_succ, List.cons_append, scanFrom_space, ih, Nat.add_right_comm,
      Nat.add_assoc]

/-- Spaces in front of a text leave its tokens as they are. -/
theorem Scans.spaces {text : List Char} {ts : List Token} (h : Scans text ts) (k : Nat) :
    Scans (List.replicate k ' ' ++ text) ts := by
  intro offset
  rw [scanFrom_spaces]
  exact h (offset + k)

/-- No run goes across a place where spaces stand, nor across one that is a boundary without
    them. -/
theorem boundary_spaces {before text : List Char} {k : Nat} (h : 0 < k ∨ Boundary before text) :
    Boundary before (List.replicate k ' ' ++ text) := by
  cases k with
  | zero => exact h.resolve_left (Nat.lt_irrefl 0)
  | succ k =>
    exact fun _ _ => ⟨fun _ => clear_cons.mpr (by decide), fun _ => clear_cons.mpr (by decide)⟩

end Token

/-! ## Programs side by side -/

namespace Formula

open Token

variable {limit : Nat} {s t : String}

/-- A formula that is scanned into the tokens of expressions within the limit is parsed as
    their program. -/
theorem parse_of_scans {body : List Expr} (hscans : Scans s.toList (body.flatMap Expr.spelling))
    (hfits : ∀ e ∈ body, e.Fits limit 0) : (parse limit s).outcome = .ok (.program body) :=
  outcome_parse_eq_ok_iff.mpr ⟨_, body, outcome_tokens_eq_ok_iff.mpr (hscans 0),
    Expr.listOfTokens_complete hfits, rfl⟩

/-- No program starts with an opening parenthesis. -/
private theorem head?_flatMap_spelling_ne {body : List Expr} (h : ∀ e ∈ body, e.Fits limit 0) :
    (body.flatMap Expr.spelling).head? ≠ some leftParen := by
  cases body with
  | nil => exact nofun
  | cons e es =>
    rw [List.flatMap_cons]
    exact (Expr.unopened_spelling (h e List.mem_cons_self).1).head?_append _

/-- Two formulas with spaces between them. -/
def join (s t : String) (k : Nat) : String :=
  s ++ String.ofList (List.replicate k ' ') ++ t

/-- Two formulas with spaces between them are parsed as the expressions of both. -/
theorem outcome_parse_join {k : Nat} (hk : 0 < k) {body others : List Expr}
    (hs : (parse limit s).outcome = .ok (.program body))
    (ht : (parse limit t).outcome = .ok (.program others)) :
    (parse limit (join s t k)).outcome = .ok (.program (body ++ others)) := by
  obtain ⟨body, ⟨⟩, hscans, hfits⟩ := scan_of_parse hs
  obtain ⟨others, ⟨⟩, hscant, hfitt⟩ := scan_of_parse ht
  -- The spaces part the two texts, so neither is scanned into the other
  have hspaces := (scans_of_scanFrom hscant).spaces k
  have hjoin := (scans_of_scanFrom hscans).append hspaces (boundary_spaces (.inl hk))
    (head?_flatMap_spelling_ne hfitt)
  apply parse_of_scans
  · rw [join, List.flatMap_append, String.toList_append, String.toList_append,
      String.toList_ofList, List.append_assoc]
    exact hjoin
  · exact List.forall_mem_append.mpr ⟨hfits, hfitt⟩

/-- What becomes of a formula depends on its first expression only. -/
theorem outcomes_of_parse_cons {first : Expr} {rest : List Expr}
    (h : (parse limit s).outcome = .ok (.program (first :: rest))) :
    (validate limit s).outcome = first.checkNode ∧
      ∀ context, (evaluate limit context s).outcome = (first.eval context).outcome ∧
        (evaluate limit context s).steps = (first.eval context).events := by
  refine ⟨?_, fun context => ⟨?_, ?_⟩⟩
  · rw [outcome_validate, h]
    rfl
  · rw [outcome_evaluate, h]
    exact Expr.outcome_evalFirst_program first rest
  · rw [steps_evaluate h, Expr.steps_evalFirst_program]

/-- Formulas of one program have the same value and the same verdict, in the same steps. -/
private theorem outcomes_eq_of_parse_eq (h : (parse limit s).outcome = (parse limit t).outcome) :
    (validate limit s).outcome = (validate limit t).outcome ∧
      ∀ context, (evaluate limit context s).outcome = (evaluate limit context t).outcome := by
  refine ⟨by rw [outcome_validate, outcome_validate, h], fun context => ?_⟩
  rw [outcome_evaluate, outcome_evaluate, h]

/-- Two formulas with spaces between them have the program of the first and behind it that of
    the second.  If the first has an expression, then only that is evaluated and checked, with
    the outcome that the first formula has by itself; if it has none, the outcome is that of
    the second. -/
theorem join_appends_programs (limit : Nat) (s t : String) (body others : List Expr)
    (hs : (parse limit s).outcome = .ok (.program body))
    (ht : (parse limit t).outcome = .ok (.program others)) (k : Nat) (hk : 0 < k) :
    (parse limit (join s t k)).outcome = .ok (.program (body ++ others)) ∧
      (∀ first rest, body = first :: rest →
        (validate limit (join s t k)).outcome = first.checkNode ∧
        (validate limit s).outcome = first.checkNode ∧
        ∀ context,
          (evaluate limit context (join s t k)).outcome = (evaluate limit context s).outcome ∧
          (evaluate limit context (join s t k)).steps = (first.eval context).events ∧
          (evaluate limit context s).steps = (first.eval context).events) ∧
      (body = [] →
        (validate limit (join s t k)).outcome = (validate limit t).outcome ∧
        ∀ context,
          (evaluate limit context (join s t k)).outcome = (evaluate limit context t).outcome ∧
          (evaluate limit context (join s t k)).steps = (evaluate limit context t).steps) := by
  have hjoin := outcome_parse_join hk hs ht
  refine ⟨hjoin, ?_, ?_⟩
  · -- Both programs start with the same expression, and nothing else is looked at
    rintro first rest rfl
    obtain ⟨hvalidate, hevaluate⟩ := outcomes_of_parse_cons hjoin
    obtain ⟨hvalidate', hevaluate'⟩ := outcomes_of_parse_cons hs
    refine ⟨hvalidate, hvalidate', fun context => ?_⟩
    obtain ⟨houtcome, hsteps⟩ := hevaluate context
    obtain ⟨houtcome', hsteps'⟩ := hevaluate' context
    exact ⟨houtcome.trans houtcome'.symm, hsteps, hsteps'⟩
  · -- The programs are equal, so every stage behind parsing is
    rintro rfl
    obtain ⟨hvalidate, hevaluate⟩ := outcomes_eq_of_parse_eq (hjoin.trans ht.symm)
    refine ⟨hvalidate, fun context => ⟨hevaluate context, ?_⟩⟩
    rw [steps_evaluate hjoin, steps_evaluate ht, List.nil_append]

/-- A division by zero behind a path is not met. -/
theorem join_appends_programs_path_and_division :
    let a := Expr.path "a"
    let division := Expr.call "Divide" [.literal 1, .literal 0]
    (parse 1 "a").outcome = .ok (.program [a]) ∧
      (parse 1 "Divide(1, 0)").outcome = .ok (.program [division]) ∧
      (parse 1 "a  Divide(1, 0)").outcome = .ok (.program [a, division]) ∧
      ∀ context, (evaluate 1 context "a  Divide(1, 0)").outcome = (evaluate 1 context "a").outcome ∧
        (evaluate 1 context "a  Divide(1, 0)").steps = [.asked "a" (context "a")] := by
  intro a division
  -- The joined text never gets as far as its second expression, which would fail
  have hpath : a.Spellable := .path (List.cons_ne_nil "a" []) (by decide)
  have hcall : division.Spellable :=
    .call (by decide) (List.forall_mem_cons.mpr
      ⟨.literal (by decide), List.forall_mem_singleton.mpr (.literal (by decide))⟩)
  have ha : (parse 1 "a").outcome = .ok (.program [a]) :=
    parse_of_text hpath (by decide) (by decide +kernel)
  have hdivision : (parse 1 "Divide(1, 0)").outcome = .ok (.program [division]) :=
    parse_of_text hcall (by decide) (by decide +kernel)
  obtain ⟨hparse, hfirst, -⟩ :=
    join_appends_programs 1 "a" "Divide(1, 0)" _ _ ha hdivision 2 (by decide)
  have hjoin : join "a" "Divide(1, 0)" 2 = "a  Divide(1, 0)" := by decide
  rw [hjoin] at hparse hfirst
  obtain ⟨-, -, hevaluate⟩ := hfirst a [] rfl
  exact ⟨ha, hdivision, hparse, fun context => ⟨(hevaluate context).1, (hevaluate context).2.1⟩⟩

end Formula

end Reckoner
