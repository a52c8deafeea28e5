import Reckoner.Proofs.Continuation
import Reckoner.Proofs.Lexemes
import Reckoner.Proofs.ScanImage

/-!
# The look-ahead of scanning, found again while reading

Scanning looks at the characters behind a name and makes a function of it where a
parenthesis opens next.  Reading a program looks at tokens, and asks for that parenthesis
behind every function.  On the tokens of a formula the two agree wherever reading has come
to, so the parenthesis is always there, and none is there behind a path.

## Key results

- `Draft.Meets.of_run`: what is left of scannable tokens fits the draft that read the others
- `Formula.exists_reaches_of_parse_error`: where a parse that fails has come to
- `Formula.parse_finds_parentheses`: no parse asks in vain for an opening parenthesis, and
  none finds one behind a path
-/

namespace Reckoner

/-! ## What messages tell -/

/-- A text that does not start in some way is not made by going on from there. -/
private theorem append_ne {front text : String} (h : ¬ front.toList <+: text.toList)
    (rest : String) :
    front ++ rest ≠ text := by
  rintro rfl
  exact h ⟨rest.toList, String.toList_append.symm⟩

/-- Two texts are different if neither of their beginnings goes on with the other. -/
private theorem append_ne_append {front front' : String} (h : ¬ front.toList <+: front'.toList)
    (h' : ¬ front'.toList <+: front.toList) (text text' : String) :
    front ++ text ≠ front' ++ text' := by
  intro heq
  have hlists : front.toList ++ text.toList = front'.toList ++ text'.toList := by
    rw [← String.toList_append, heq, String.toList_append]
  have hfront : front.toList <+: front'.toList ++ text'.toList := ⟨text.toList, hlists⟩
  -- Two fronts of one text are a front of each other one way or the other
  rcases List.prefix_or_prefix_of_prefix hfront (List.prefix_append _ _) with hshort | hshort
  · exact h hshort
  · exact h' hshort

/-- A formula has no tokens: a character or a number is at fault. -/
inductive Fault.OfText : Fault → Prop where
  | illegalCharacter (c : Char) (offset : Nat) : OfText (.illegalCharacter c offset)
  | numberOutOfRange (digits : String) : OfText (.numberOutOfRange digits)

/-- No fault of the text itself wants an opening parenthesis. -/
private theorem Fault.OfText.message_ne {fault : Fault} (h : fault.OfText) (text : String) :
    fault.message ≠ "Expected `(`" ++ text := by
  -- The messages part in their first letter
  cases h with
  | illegalCharacter c offset =>
    show "Unknown character `" ++ c.toString ++ "` at offset " ++ toString offset ≠ _
    simp only [String.append_assoc]
    exact append_ne_append (by decide) (by decide) _ _
  | numberOutOfRange digits =>
    show "Number literal `" ++ digits ++ "` is out of range" ≠ _
    simp only [String.append_assoc]
    exact append_ne_append (by decide) (by decide) _ _

namespace SyntaxFault

variable {wanted : Expectation}

/-- A message begins with an opening parenthesis only where one is wanted. -/
private theorem eq_opening_of_message {found : Option Token.Kind} {text : String}
    (h : (expected wanted found).message = "Expected `(`" ++ text) : wanted = .opening := by
  -- The messages of different expectations part before the name of what was found
  cases wanted with
  | opening => rfl
  | expression =>
    cases found with
    | none => exact absurd h (append_ne_append (by decide) (by decide) _ _)
    | some kind =>
      replace h : "Unexpected token of type `" ++ kind.text ++ "`" = "Expected `(`" ++ text := h
      rw [String.append_assoc] at h
      exact absurd h (append_ne_append (by decide) (by decide) _ _)
  | separator => exact absurd h (append_ne_append (by decide) (by decide) _ _)
  | segment => exact absurd h (append_ne_append (by decide) (by decide) _ _)

/-- A message ends with an opening parenthesis only where one was found. -/
private theorem eq_leftParen_of_message {kind : Token.Kind} (text : String)
    (h : (expected wanted (some kind)).message = text ++ "(" ++ "`") : kind = .leftParen := by
  obtain ⟨front, hfront⟩ := exists_message_some wanted kind
  have htexts : front ++ kind.text = text ++ "(" :=
    (String.append_left_inj "`").mp (hfront.symm.trans h)
  -- The names of the kinds differ in their last characters
  have hlast := congrArg (fun text : String => text.toList.getLast?) htexts
  cases kind with
  | leftParen => rfl
  | _ => simp [Token.Kind.text] at hlast

end SyntaxFault

namespace Draft

variable {limit : Nat} {d d' : Draft} {t : Token} {ts rest : List Token} {fault : Fault}

/-! ## Tokens that fit a draft -/

/-- What scanning has foretold of the token behind a draft: a parenthesis behind the name of
    a function, and none behind a path. -/
def Phase.Admits : Phase → Option Token → Prop
  | .opening _, next => next = some .leftParen
  | .path _, next => next ≠ some .leftParen
  | _, _ => True

/-- The tokens that are left have been scanned, and so was the one in front of them. -/
structure Meets (d : Draft) (rest : List Token) : Prop where
  scannable : Token.Scannable rest
  admits : d.phase.Admits rest.head?

/-- A step leaves tokens that fit the next draft. -/
theorem Meets.of_advance (h : d.Meets (t :: rest)) (hstep : Advance limit d t d') :
    d'.Meets rest := by
  obtain ⟨-, hadmits, hrest⟩ := Token.scannable_cons.mp h.scannable
  refine ⟨hrest, ?_⟩
  -- Only a name asks something of the token behind it, and scanning asked the same
  cases hstep with
  | word name hawaits => exact hadmits
  | function name hawaits hlimit => exact hadmits
  | segment name hphase => exact hadmits
  | literal value hawaits =>
    rw [phase_deliver]
    trivial
  | close hphase hcalls =>
    rw [phase_deliver]
    trivial
  | comma hphase hcalls => trivial
  | leftParen hphase => trivial
  | dot hphase => trivial

/-- A run leaves tokens that fit the draft it comes to. -/
theorem Meets.of_run (h : d.Meets (ts ++ rest)) (hrun : d.run limit ts = .ok d') :
    d'.Meets rest := by
  -- What one token preserves, all tokens preserve
  induction ts generalizing d with
  | nil =>
    obtain rfl := Except.ok.inj hrun
    exact h
  | cons t ts ih =>
    obtain ⟨next, hstep, hrun⟩ := run_cons_eq_ok_iff.mp hrun
    exact ih (h.of_advance hstep) hrun

private theorem meets_start (h : Token.Scannable ts) : start.Meets ts := ⟨h, trivial⟩

/-! ## Behind the name of a function -/

/-- Behind the name of a function its parenthesis stands. -/
private theorem Meets.exists_leftParen {name : String} (h : d.Meets rest)
    (hphase : d.phase = .opening name) : ∃ after, rest = .leftParen :: after := by
  have hadmits := h.admits
  rw [hphase] at hadmits
  exact List.head?_eq_some_iff.mp hadmits

/-- A token that fits is not refused for a parenthesis in its place. -/
theorem Meets.message_ne_of_step (h : d.Meets (t :: rest)) (hstep : d.step limit t = .error fault)
    (text : String) : fault.message ≠ "Expected `(`" ++ text := by
  intro hmessage
  cases refuses_of_step hstep with
  | unexpected t hwants =>
    obtain rfl := SyntaxFault.eq_opening_of_message hmessage
    -- Where a parenthesis is wanted, the draft meets one, and that is no fault
    cases hwants with
    | opening hphase =>
      obtain ⟨after, hrest⟩ := h.exists_leftParen hphase
      obtain rfl : t = .leftParen := (List.cons.inj hrest).1
      rw [step_of_advance (.leftParen hphase)] at hstep
      exact nomatch hstep
  | nestedTooDeep name hawaits hlimit =>
    exact append_ne_append (by decide) (by decide) _ _ hmessage

/-- Where no token is left none is missing for a parenthesis. -/
theorem Meets.message_ne_of_finish (h : d.Meets []) (hfinish : d.finish = .error fault)
    (text : String) : fault.message ≠ "Expected `(`" ++ text := by
  intro hmessage
  obtain ⟨wanted, hwants, rfl⟩ := wants_of_finish hfinish
  obtain rfl := SyntaxFault.eq_opening_of_message hmessage
  -- The parenthesis it meets would be one more token, and there is none left
  cases hwants with
  | opening hphase =>
    obtain ⟨after, hrest⟩ := h.exists_leftParen hphase
    exact nomatch hrest

/-! ## Behind a path -/

/-- The path is taken for finished: the next token, if there is any, comes behind it. -/
def EndsPath (limit : Nat) (d : Draft) (path : String) (rest : List Token) : Prop :=
  d.phase = .path path ∧
    ∀ t ∈ rest.head?, d.step limit t = (d.deliver (.path path)).follow limit t

/-- A path is finished where no dot goes on with it. -/
private theorem endsPath_iff {path : String} :
    d.EndsPath limit path rest ↔ d.phase = .path path ∧ rest.head? ≠ some .dot := by
  refine and_congr_right fun hphase => ?_
  obtain ⟨body, calls, phase⟩ := d
  obtain rfl : phase = .path path := hphase
  constructor
  · intro h hdot
    have hstep := h .dot hdot
    -- A dot goes on with the path, and no dot stands behind a finished expression
    cases calls with
    | nil => exact nomatch hstep
    | cons c calls => exact nomatch hstep
  · intro h t ht
    exact step_of_settle_between (phase_deliver _ _) fun hdot => h (hdot ▸ ht)

/-- Behind a path no opening parenthesis stands. -/
private theorem Meets.ne_leftParen {path : String} (h : d.Meets rest)
    (hphase : d.phase = .path path) :
    rest.head? ≠ some .leftParen := by
  have hadmits := h.admits
  rwa [hphase] at hadmits

/-- No token but an opening parenthesis is refused for being one. -/
private theorem message_ne_of_step (hstep : d.step limit t = .error fault) (ht : t ≠ .leftParen) :
    fault.message ≠ "Expected `,` or `)`, found `(`" ∧
      fault.message ≠ "Unexpected token of type `(`" := by
  cases refuses_of_step hstep with
  | @unexpected wanted t hwants =>
    -- Tokens without a value are told by their kind, so no other token has that of a parenthesis
    have hkind : t.kind ≠ .leftParen := by
      cases t with
      | leftParen => exact absurd rfl ht
      | _ => exact Token.Kind.noConfusion
    constructor
    · intro h
      exact hkind (SyntaxFault.eq_leftParen_of_message "Expected `,` or `)`, found `" h)
    · intro h
      exact hkind (SyntaxFault.eq_leftParen_of_message "Unexpected token of type `" h)
  | nestedTooDeep name hawaits hlimit =>
    exact ⟨append_ne (by decide) _, append_ne (by decide) _⟩

end Draft

namespace Formula

variable {limit : Nat} {formula : String} {d : Draft} {t : Token} {rest : List Token}
  {fault : Fault}

/-! ## Where parsing comes to -/

/-- Parsing comes to this draft with these tokens left. -/
def Reaches (limit : Nat) (formula : String) (d : Draft) (rest : List Token) : Prop :=
  ∃ read, (tokens formula).outcome = .ok (read ++ rest) ∧ Draft.start.run limit read = .ok d

/-- Wherever parsing comes to, the tokens that are left fit. -/
theorem Reaches.meets (h : Reaches limit formula d rest) : d.Meets rest := by
  obtain ⟨read, htokens, hrun⟩ := h
  have hscan := Token.scannable_of_scanFrom (outcome_tokens_eq_ok_iff.mp htokens)
  exact (Draft.meets_start hscan).of_run hrun

/-- Parsing fails where the next token is refused. -/
theorem Reaches.outcome_parse (h : Reaches limit formula d (t :: rest))
    (hstep : d.step limit t = .error fault) : (parse limit formula).outcome = .error fault := by
  obtain ⟨read, htokens, hrun⟩ := h
  rw [Formula.outcome_parse, htokens]
  apply Expr.ofTokens_of_run_error
  rw [Draft.run_append_of_ok hrun, Draft.run, hstep]

/-- A formula without tokens has a character or a number at fault. -/
private theorem ofText_of_tokens (h : (tokens formula).outcome = .error fault) : fault.OfText := by
  obtain ⟨made, others, hitems⟩ := outcome_tokens_eq_error_iff.mp h
  have hmem : .error fault ∈ Token.scan formula := by simp [hitems]
  have hstart : Token.Boundary [] formula.toList := by simp [Token.Boundary]
  obtain ⟨lexemes, -, hmakes⟩ := Token.exists_splits hstart
  obtain ⟨l, -, hmake⟩ := Lexeme.exists_of_mem hmakes hmem
  cases hmake with
  | outOfRange hrun hlt => exact .numberOutOfRange _
  | illegal hrun hillegal => exact .illegalCharacter _ _

/-- Parsing fails while scanning, at a token, or at the end of the tokens. -/
theorem exists_reaches_of_parse_error (h : (parse limit formula).outcome = .error fault) :
    (tokens formula).outcome = .error fault ∨
      (∃ d t rest, Reaches limit formula d (t :: rest) ∧ d.step limit t = .error fault) ∨
        ∃ d, Reaches limit formula d [] ∧ d.finish = .error fault := by
  rw [outcome_parse] at h
  cases htokens : (tokens formula).outcome with
  | error other =>
    rw [htokens] at h
    obtain rfl := Except.error.inj h
    exact .inl rfl
  | ok ts =>
    rw [htokens] at h
    -- The run fails at a token that it has reached, or the end is reached and is not enough
    rcases Expr.ofTokens_eq_error_iff.mp h with hrun | ⟨d, hrun, hfinish⟩
    · obtain ⟨before, t, after, d, rfl, hbefore, hstep⟩ := Draft.exists_step_of_run_error hrun
      exact .inr (.inl ⟨d, t, after, ⟨before, htokens, hbefore⟩, hstep⟩)
    · refine .inr (.inr ⟨d, ⟨ts, ?_, hrun⟩, hfinish⟩)
      rw [List.append_nil, htokens]

/-- No formula fails to parse with a message that begins by asking for an opening
    parenthesis.  Wherever parsing comes to, an opening parenthesis stands behind the
    function that is next, and also where one is asked for behind the name that was just
    read.  Where a path is taken for finished neither an opening parenthesis nor a dot is
    next, so if the next token makes parsing fail it is not for being an opening
    parenthesis. -/
theorem parse_finds_parentheses (limit : Nat) (formula : String) :
    (∀ fault, (parse limit formula).outcome = .error fault →
      ¬ ∃ text, fault.message = "Expected `(`" ++ text) ∧
    ∀ d rest, Reaches limit formula d rest →
      (∀ name after, rest = .function name :: after → after.head? = some .leftParen) ∧
      (∀ name, d.phase = .opening name → ∃ after, rest = .leftParen :: after) ∧
      ∀ path, d.EndsPath limit path rest →
        (∀ t ∈ rest.head?, t ≠ .leftParen ∧ t ≠ .dot) ∧
        ∀ t after fault, rest = t :: after → d.step limit t = .error fault →
          (parse limit formula).outcome = .error fault ∧
          fault.message ≠ "Expected `,` or `)`, found `(`" ∧
          fault.message ≠ "Unexpected token of type `(`" := by
  refine ⟨?_, fun d rest h => ⟨?_, fun name => h.meets.exists_leftParen, fun path hends => ?_⟩⟩
  · -- Neither a fault of the text, nor a step, nor the end has such a message
    rintro fault hparse ⟨text, hmessage⟩
    rcases exists_reaches_of_parse_error hparse with htokens | ⟨d, t, rest, h, hstep⟩ |
      ⟨d, h, hfinish⟩
    · exact (ofText_of_tokens htokens).message_ne text hmessage
    · exact h.meets.message_ne_of_step hstep text hmessage
    · exact h.meets.message_ne_of_finish hfinish text hmessage
  · -- A word is a function name only if the look-ahead has found its parenthesis
    rintro name after rfl
    exact (Token.scannable_cons.mp h.meets.scannable).2.1
  · obtain ⟨hphase, hdot⟩ := Draft.endsPath_iff.mp hends
    -- Behind a path there is no parenthesis, since its last word is no function name
    have hparen := h.meets.ne_leftParen hphase
    constructor
    · intro t ht
      exact ⟨fun heq => hparen (heq ▸ ht), fun heq => hdot (heq ▸ ht)⟩
    · rintro t after fault rfl hstep
      have ht : t ≠ .leftParen := fun heq => hparen (congrArg some heq)
      exact ⟨h.outcome_parse hstep, Draft.message_ne_of_step hstep ht⟩

/-- A parenthesis behind the function, and a number in the wrong place behind the path. -/
theorem parse_finds_parentheses_number_behind_path :
    let formula := "Add (a 1)"
    let rest : List Token := [.number 1, .rightParen]
    let named : Draft := ⟨[], [], .opening "Add"⟩
    let d : Draft := ⟨[], [⟨"Add", []⟩], .path "a"⟩
    let fault : Fault := .malformed (.expected .separator (some .number))
    Reaches 64 formula .start (.function "Add" :: .leftParen :: .word "a" :: rest) ∧
      (Token.leftParen :: .word "a" :: rest).head? = some .leftParen ∧
      Reaches 64 formula named (.leftParen :: .word "a" :: rest) ∧
      (∃ after, Token.leftParen :: .word "a" :: rest = .leftParen :: after) ∧
      Reaches 64 formula d rest ∧ d.EndsPath 64 "a" rest ∧
      (parse 64 formula).outcome = .error fault ∧
      (¬ ∃ text, fault.message = "Expected `(`" ++ text) ∧
      fault.message ≠ "Expected `,` or `)`, found `(`" ∧
      fault.message ≠ "Unexpected token of type `(`" := by
  intro formula rest named d fault
  have htokens : (tokens formula).outcome =
      .ok (.function "Add" :: .leftParen :: .word "a" :: rest) := by decide +kernel
  have hstart : Reaches 64 formula .start (.function "Add" :: .leftParen :: .word "a" :: rest) :=
    ⟨[], htokens, rfl⟩
  have hnamed : Reaches 64 formula named (.leftParen :: .word "a" :: rest) :=
    ⟨[.function "Add"], htokens, rfl⟩
  -- Behind the path there is a number, so this is where the third part says something
  have hpath : Reaches 64 formula d rest :=
    ⟨[.function "Add", .leftParen, .word "a"], htokens, rfl⟩
  have hends : d.EndsPath 64 "a" rest := Draft.endsPath_iff.mpr ⟨rfl, by decide⟩
  obtain ⟨hfails, hreaches⟩ := parse_finds_parentheses 64 formula
  obtain ⟨-, hfault⟩ := (hreaches d rest hpath).2.2 "a" hends
  obtain ⟨hparse, hmessages⟩ := hfault (.number 1) [.rightParen] fault rfl rfl
  exact ⟨hstart, (hreaches .start _ hstart).1 "Add" _ rfl, hnamed,
    (hreaches named _ hnamed).2.1 "Add" rfl, hpath, hends, hparse, hfails fault hparse, hmessages⟩

end Formula

end Reckoner
