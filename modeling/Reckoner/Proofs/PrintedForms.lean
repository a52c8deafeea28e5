import Mathlib.Data.List.TFAE
import Mathlib.Tactic.TFAE
import Reckoner.Proofs.JsonReadBack
import Reckoner.Proofs.PrintedFaults
import Reckoner.Proofs.Reprint

/-!
# The printed forms of a formula

A formula is printed as its tokens and as its tree, each in text and in JSON.  Every one of
these forms gives away the tokens and the tree, so two formulas that agree in one of them agree
in all.

## Key results

- `Token.toJson_inj`, `Expr.toJson_inj`: what is printed as JSON
- `CommandLine.tokenText_inj`, `CommandLine.join_lines_inj`: what is printed of tokens as text
- `Expr.WellFormed.text_inj`, `Expr.flatMap_spelling_inj`: trees by their texts and tokens
- `CommandLine.prints_arguments`: every form of a formula that parses can be asked for
- `CommandLine.printed_forms_tfae`: all forms together
-/

namespace Reckoner

/-- A row is given away by what a function makes of it, if each of its entries is. -/
private theorem eq_of_map_eq {α β : Type} {f : α → β} {as bs : List α}
    (hinj : ∀ a ∈ as, ∀ b, f a = f b → a = b) (h : as.map f = bs.map f) : as = bs := by
  induction as generalizing bs with
  | nil => exact (List.map_eq_nil_iff.mp h.symm).symm
  | cons a as ih =>
    obtain ⟨b, bs, rfl, hhead, htail⟩ := List.map_eq_cons_iff.mp h.symm
    obtain ⟨ha, has⟩ := List.forall_mem_cons.mp hinj
    rw [ha b hhead.symm, ih has htail.symm]

/-! ## JSON forms -/

namespace Json

/-- A number that a formula can spell is read back. -/
theorem Plain.number {n : Nat} {value : Int} (h : 0 ≤ value ∧ value ≤ Token.maxNumber) :
    Plain n (.integer value) := by
  have hmax : ((Token.maxNumber : Nat) : Int) < 2 ^ 64 := by decide
  exact .integer (by omega) (by omega)

/-- A value with a tag is read back if the value is. -/
private theorem Plain.tagged {n : Nat} {tag key : String} {value : Json} (h : Plain n value) :
    Plain (n + 1) (.object [("type", .string tag), (key, value)]) :=
  .object (List.forall_mem_cons.mpr ⟨.string tag, List.forall_mem_singleton.mpr h⟩)

end Json

namespace Token

/-- Kinds have different names in diagnostics. -/
theorem Kind.text_inj {k l : Kind} (h : k.text = l.text) : k = l := by
  revert h
  cases k <;> cases l <;> decide

/-- A token is its kind and its spelling. -/
private theorem eq_of_kind_of_text {t u : Token} (hkind : t.kind = u.kind)
    (htext : t.text = u.text) :
    t = u := by
  cases t with
  | number value =>
    cases u with
    | number value' => exact congrArg number (Int.repr_injective htext)
    | _ => cases hkind
  | function name =>
    cases u with
    | function name' => exact congrArg function htext
    | _ => cases hkind
  | word name =>
    cases u with
    | word name' => exact congrArg word htext
    | _ => cases hkind
  | _ =>
    -- A mark is its kind
    cases u with
    | number value => cases hkind
    | function name => cases hkind
    | word name => cases hkind
    | _ =>
      revert hkind
      decide

/-- The spelling of a token with this value in JSON. -/
def spelled : Json → String
  | .integer value => toString value
  | .string text => text
  | _ => ""

/-- A token is given away by its JSON form. -/
theorem toJson_inj {t u : Token} (h : t.toJson = u.toJson) : t = u := by
  -- A token is written as its kind and its text, the text as a number where it is one
  have hform : ∀ t : Token, ∃ value, spelled value = t.text ∧
      t.toJson = .object [("type", .string t.kind.text), ("value", value)] := by
    intro t
    cases t <;> exact ⟨_, rfl, rfl⟩
  obtain ⟨value, htext, hjson⟩ := hform t
  obtain ⟨value', htext', hjson'⟩ := hform u
  rw [hjson, hjson'] at h
  simp only [Json.object.injEq, List.cons.injEq, Prod.mk.injEq, true_and, and_true,
    Json.string.injEq] at h
  obtain ⟨hkind, rfl⟩ := h
  exact eq_of_kind_of_text (Kind.text_inj hkind) (htext.symm.trans htext')

/-- What is printed of a token as JSON is read back. -/
private theorem Spellable.plain_toJson {t : Token} (h : t.Spellable) : Json.Plain 1 t.toJson := by
  cases t with
  | number value => exact (Json.Plain.number h).tagged
  | _ => exact (Json.Plain.string _).tagged

end Token

namespace Expr

private theorem listToJson_eq_map (es : List Expr) : listToJson es = es.map toJson := by
  induction es with
  | nil => rfl
  | cons e es ih => rw [listToJson, ih, List.map_cons]

/-- A tree is given away by its JSON form. -/
theorem toJson_inj {d e : Expr} (h : d.toJson = e.toJson) : d = e := by
  -- The tag or the names of the fields tell the kinds of nodes apart
  induction d using Expr.induction generalizing e with
  | literal value =>
    cases e <;> simp [toJson] at h
    rw [h]
  | path dotted =>
    cases e <;> simp [toJson] at h
    rw [h]
  | call name args ih =>
    cases e <;> simp [toJson, listToJson_eq_map] at h
    rw [h.1, eq_of_map_eq (fun a ha _ hab => ih a ha hab) h.2]
  | program body ih =>
    cases e <;> simp [toJson, listToJson_eq_map] at h
    rw [eq_of_map_eq (fun a ha _ hab => ih a ha hab) h]

/-- What is printed of a spellable tree as JSON is read back.  A call opens an object and in it
    an array. -/
private theorem Spellable.plain_toJson {e : Expr} (he : e.Spellable) {n : Nat}
    (hdepth : e.depth ≤ n) :
    Json.Plain (2 * n + 1) e.toJson := by
  -- Each call adds an object and the array of its arguments, hence two levels
  induction he generalizing n with
  | literal hvalue => exact (Json.Plain.number hvalue).tagged
  | path hne hnames => exact (Json.Plain.string _).tagged
  | @call name args hname hargs ih =>
    obtain ⟨hpos, hdepths⟩ := depth_call_le_iff.mp hdepth
    obtain ⟨n, rfl⟩ := Nat.exists_eq_add_one.mpr hpos
    have hitems : ∀ item ∈ listToJson args, Json.Plain (2 * n + 1) item := by
      rw [listToJson_eq_map, List.forall_mem_map]
      exact fun e he => ih e he (Nat.le_of_succ_le_succ (hdepths e he))
    refine .object (List.forall_mem_cons.mpr ⟨.string _, List.forall_mem_cons.mpr ⟨.string _, ?_⟩⟩)
    exact List.forall_mem_singleton.mpr (.array hitems)

/-- The JSON of a program is plain, to a depth that its nesting sets. -/
private theorem WellFormed.plain_toJson {e : Expr} {n : Nat} (he : e.WellFormed n) :
    Json.Plain (2 * n + 3) e.toJson := by
  obtain ⟨body, rfl, hbody⟩ := he
  have hitems : ∀ item ∈ listToJson body, Json.Plain (2 * n + 1) item := by
    rw [listToJson_eq_map, List.forall_mem_map]
    exact fun e he => (hbody e he).1.plain_toJson (hbody e he).2
  exact (Json.Plain.array hitems).tagged

theorem WellFormed.mono {e : Expr} {m n : Nat} (hle : m ≤ n) (he : e.WellFormed m) :
    e.WellFormed n := by
  obtain ⟨body, rfl, hbody⟩ := he
  exact ⟨body, rfl, fun part hpart => ⟨(hbody part hpart).1, (hbody part hpart).2.trans hle⟩⟩

/-- Well-formed programs are given away by their texts. -/
theorem WellFormed.text_inj {d e : Expr} {n : Nat} (hd : d.WellFormed n) (he : e.WellFormed n)
    (h : d.text = e.text) : d = e := by
  -- Either is what its text is parsed as
  have hparse := Formula.parse_oneLine_text hd
  rw [h, Formula.parse_oneLine_text he] at hparse
  exact (Except.ok.inj hparse).symm

/-- Expressions within a limit are given away by the tokens that spell them. -/
theorem flatMap_spelling_inj {body body' : List Expr} {m n : Nat}
    (hbody : ∀ e ∈ body, e.Fits m 0) (hbody' : ∀ e ∈ body', e.Fits n 0)
    (h : body.flatMap spelling = body'.flatMap spelling) : body = body' := by
  have hfits : ∀ e ∈ body, e.Fits (max m n) 0 :=
    fun e he => ⟨(hbody e he).1, (hbody e he).2.trans (Nat.le_max_left m n)⟩
  have hfits' : ∀ e ∈ body', e.Fits (max m n) 0 :=
    fun e he => ⟨(hbody' e he).1, (hbody' e he).2.trans (Nat.le_max_right m n)⟩
  -- Under the greater limit both are what the tokens are read as
  have hread := listOfTokens_complete hfits
  rw [h, listOfTokens_complete hfits'] at hread
  exact (Except.ok.inj hread).symm

end Expr

namespace Formula

/-- Parsed formulas with the same tokens are the same program, whatever their limits. -/
private theorem parse_eq_iff_tokens_eq {f g : String} {m n : Nat} {d e : Expr}
    (hf : (parse m f).outcome = .ok d) (hg : (parse n g).outcome = .ok e) :
    d = e ↔ (tokens f).outcome = (tokens g).outcome := by
  obtain ⟨body, rfl, hscan, hfits⟩ := scan_of_parse hf
  obtain ⟨body', rfl, hscan', hfits'⟩ := scan_of_parse hg
  -- Both texts have the spelling of their program as tokens
  rw [outcome_tokens_eq_ok_iff.mpr hscan, outcome_tokens_eq_ok_iff.mpr hscan']
  constructor
  · intro h
    rw [Expr.program.inj h]
  · intro h
    rw [Expr.flatMap_spelling_inj hfits hfits' (Except.ok.inj h)]

end Formula

namespace CommandLine

/-! ## Tokens line by line -/

/-- Texts without a line break are given away by their lines. -/
theorem join_lines_inj {as bs : List String} (has : ∀ a ∈ as, '\n' ∉ a.toList)
    (hbs : ∀ b ∈ bs, '\n' ∉ b.toList)
    (h : String.join (as.map line) = String.join (bs.map line)) : as = bs := by
  have hlines : ∀ (a : String) (as : List String), (String.join ((a :: as).map line)).toList =
      a.toList ++ '\n' :: (String.join (as.map line)).toList := by
    intro a as
    have hbreak : "\n".toList = ['\n'] := rfl
    rw [List.map_cons, String.join_cons, String.toList_append, line, String.toList_append, hbreak,
      List.append_assoc, List.singleton_append]
  have hlists := congrArg String.toList h
  -- The first line break ends the first text on both sides, and the rest follows in turn
  induction as generalizing bs with
  | nil =>
    cases bs with
    | nil => rfl
    | cons b bs =>
      rw [hlines] at hlists
      simp at hlists
  | cons a as ih =>
    cases bs with
    | nil =>
      rw [hlines] at hlists
      simp at hlists
    | cons b bs =>
      obtain ⟨ha, has⟩ := List.forall_mem_cons.mp has
      obtain ⟨hb, hbs⟩ := List.forall_mem_cons.mp hbs
      rw [hlines, hlines] at hlists
      obtain ⟨hfirst, hrest⟩ := append_mark_inj ha hb hlists
      rw [String.toList_inj.mp hfirst, ih has hbs (String.toList_inj.mp hrest) hrest]

/-- The line of a token gives away its kind, which has no space in it, and its spelling. -/
theorem tokenText_inj {t u : Token} (h : tokenText t = tokenText u) : t = u := by
  have hkind : ∀ k : Token.Kind, ' ' ∉ k.text.toList ∧
      ∃ spaces, List.replicate (10 - k.text.length) ' ' = ' ' :: spaces := by
    intro k
    cases k <;> exact ⟨by decide, _, rfl⟩
  obtain ⟨ht, spaces, hspaces⟩ := hkind t.kind
  obtain ⟨hu, spaces', hspaces'⟩ := hkind u.kind
  have hlists := congrArg String.toList h
  simp only [tokenText, hspaces, hspaces', String.toList_append, String.toList_ofList,
    List.append_assoc, List.cons_append] at hlists
  obtain ⟨hkinds, -⟩ := append_mark_inj ht hu hlists
  -- With the same kind in front, the lines are equally far filled up
  have hsame := Token.Kind.text_inj (String.toList_inj.mp hkinds)
  refine Token.eq_of_kind_of_text hsame ?_
  rw [tokenText, tokenText, hsame] at h
  exact (String.append_right_inj _).mp h

/-- The line of a token that a formula spells has no line break inside. -/
private theorem notMem_newline_tokenText {t : Token} (h : t.Spellable) :
    '\n' ∉ (tokenText t).toList := by
  have hkind : '\n' ∉ t.kind.text.toList := by
    cases t.kind <;> decide
  have htext : '\n' ∉ t.text.toList := by
    intro hmem
    -- A text is made of digits, of letters, or of a mark
    cases t with
    | number value =>
      rw [Token.toList_text_number h.1] at hmem
      exact absurd (Nat.isDigit_of_mem_toDigits (by decide) (by decide) hmem) (by decide)
    | function name => exact absurd (h.2 _ hmem) (by decide)
    | word name => exact absurd (h.2 _ hmem) (by decide)
    | _ => exact absurd hmem (by decide)
  simp [tokenText, hkind, htext]

/-! ## What is printed -/

/-- Spellable tokens are given away by what is printed of them. -/
theorem tokensOutput_inj {format : Format} {ts us : List Token} (hts : ∀ t ∈ ts, t.Spellable)
    (hus : ∀ u ∈ us, u.Spellable) (h : tokensOutput format ts = tokensOutput format us) :
    ts = us := by
  -- As text there is a line for each token, as JSON an item of one array
  cases format with
  | text =>
    have hlines : ∀ {ts : List Token}, (∀ t ∈ ts, t.Spellable) →
        ∀ text ∈ ts.map tokenText, '\n' ∉ text.toList := by
      intro ts hts
      rw [List.forall_mem_map]
      exact fun t ht => notMem_newline_tokenText (hts t ht)
    have hjoin : String.join ((ts.map tokenText).map line) =
        String.join ((us.map tokenText).map line) := by
      rw [List.map_map, List.map_map]
      exact h
    exact List.map_injective_iff.mpr (fun _ _ => tokenText_inj)
      (join_lines_inj (hlines hts) (hlines hus) hjoin)
  | json =>
    have hplain : ∀ {ts : List Token}, (∀ t ∈ ts, t.Spellable) →
        Json.Plain 2 (.array (ts.map Token.toJson)) := by
      intro ts hts
      refine .array ?_
      rw [List.forall_mem_map]
      exact fun t ht => (hts t ht).plain_toJson
    have harrays := Json.pretty_inj (hplain hts) (hplain hus) (line_inj h)
    exact List.map_injective_iff.mpr (fun _ _ => Token.toJson_inj) (Json.array.inj harrays)

/-- Well-formed programs are given away by what is printed of them. -/
theorem programOutput_inj {format : Format} {d e : Expr} {n : Nat} (hd : d.WellFormed n)
    (he : e.WellFormed n) (h : programOutput format d = programOutput format e) : d = e := by
  cases format with
  | text => exact hd.text_inj he (line_inj h)
  | json => exact Expr.toJson_inj (Json.pretty_inj hd.plain_toJson he.plain_toJson (line_inj h))

/-- A result is printed where the status is 0. -/
private theorem Outcome.exists_result {α : Type} {format : Format} {result : Except Fault α}
    {print : α → String} (hzero : (ofResult format (result.map print)).status = 0) :
    ∃ a, result = .ok a ∧ (ofResult format (result.map print)).output = print a := by
  cases result with
  | ok a => exact ⟨a, rfl, rfl⟩
  -- Every format reports a fault with another exit status
  | error fault =>
    have hone : (ofResult format (.error fault)).status = 1 := by
      cases format <;> rfl
    have hstatus : (ofResult format (.error fault)).status = 0 := hzero
    rw [hone] at hstatus
    cases hstatus

namespace Invocation

variable {α : Type} (i : Invocation) (traced : Traced α) (o : Outcome)

@[simp] theorem status_withLog : (i.withLog traced o).status = o.status := by
  unfold withLog
  split <;> rfl

@[simp] theorem output_withLog : (i.withLog traced o).output = o.output := by
  unfold withLog
  split <;> rfl

end Invocation

/-- A command line asks for a form of a formula and prints it. -/
structure Prints (files : String → Option String) (arguments : List String) (action : Action)
    (format : Format) (formula : String) : Prop where
  asks : ∃ limit context verbose,
    parse arguments = .ok ⟨action, formula, format, limit, context, verbose⟩
  status_eq_zero : (run files arguments).status = 0

section

variable {files : String → Option String} {arguments : List String} {format : Format}
  {formula : String}

/-- What prints tokens has tokens to print. -/
private theorem Prints.exists_tokens (h : Prints files arguments .tokens format formula) :
    ∃ ts, (Formula.tokens formula).outcome = .ok ts ∧
      (run files arguments).output = tokensOutput format ts := by
  obtain ⟨⟨limit, context, verbose, hparse⟩, hzero⟩ := h
  simp only [run, hparse, Invocation.run, Invocation.status_withLog,
    Invocation.output_withLog] at hzero ⊢
  exact Outcome.exists_result hzero

/-- What prints a program has a program to print. -/
private theorem Prints.exists_program (h : Prints files arguments .ast format formula) :
    ∃ limit e, (Formula.parse limit formula).outcome = .ok e ∧
      (run files arguments).output = programOutput format e := by
  obtain ⟨⟨limit, context, verbose, hparse⟩, hzero⟩ := h
  simp only [run, hparse, Invocation.run, Invocation.status_withLog,
    Invocation.output_withLog] at hzero ⊢
  exact ⟨limit, Outcome.exists_result hzero⟩

/-- A formula that parses is printed in every form that is asked for. -/
theorem prints_arguments {i : Invocation} (hi : i.Askable)
    (haction : i.action ∈ [Action.tokens, .ast]) {e : Expr}
    (h : (Formula.parse i.limit i.formula).outcome = .ok e) :
    Prints files i.arguments i.action i.format i.formula := by
  refine ⟨⟨i.limit, i.context, i.verbose, parse_arguments hi⟩, ?_⟩
  obtain ⟨ts, body, htokens, -⟩ := Formula.outcome_parse_eq_ok_iff.mp h
  obtain ⟨action, formula, format, limit, context, verbose⟩ := i
  simp only [List.mem_cons, List.not_mem_nil, or_false] at haction
  rw [run, parse_arguments hi]
  -- Both actions have something to print, the tokens and the program
  rcases haction with rfl | rfl
  · simp [Invocation.run, htokens]
    rfl
  · simp [Invocation.run, h]
    rfl

end

/-- Two formulas that parse, each under a limit of its own, are printed in every form.  If one
    of the forms is the same for both, so are all the others, and so are the tokens and the
    programs. -/
theorem printed_forms_tfae {files : String → Option String} {f g : String} {m n : Nat}
    {d e : Expr} {asF asG : Action → Format → List String}
    (hf : (Formula.parse m f).outcome = .ok d) (hg : (Formula.parse n g).outcome = .ok e)
    (hasF : ∀ action ∈ [Action.tokens, .ast], ∀ format,
      Prints files (asF action format) action format f)
    (hasG : ∀ action ∈ [Action.tokens, .ast], ∀ format,
      Prints files (asG action format) action format g) :
    List.TFAE [
      (Formula.tokens f).outcome = (Formula.tokens g).outcome,
      d = e,
      d.text = e.text,
      (run files (asF .ast .text)).output = (run files (asG .ast .text)).output,
      (run files (asF .ast .json)).output = (run files (asG .ast .json)).output,
      (run files (asF .tokens .text)).output = (run files (asG .tokens .text)).output,
      (run files (asF .tokens .json)).output = (run files (asG .tokens .json)).output] := by
  have hd := (Formula.wellFormed_of_parse hf).mono (Nat.le_max_left m n)
  have he := (Formula.wellFormed_of_parse hg).mono (Nat.le_max_right m n)
  have hast : ∀ format, d = e ↔
      (run files (asF .ast format)).output = (run files (asG .ast format)).output := by
    intro format
    obtain ⟨m', d', hf', hprintF⟩ := (hasF .ast (by simp) format).exists_program
    obtain ⟨n', e', hg', hprintG⟩ := (hasG .ast (by simp) format).exists_program
    -- A command line may have another limit, but the program is the same
    obtain rfl := (Formula.parse_eq_iff_tokens_eq hf hf').mpr rfl
    obtain rfl := (Formula.parse_eq_iff_tokens_eq hg hg').mpr rfl
    rw [hprintF, hprintG]
    exact ⟨congrArg (programOutput format), programOutput_inj hd he⟩
  have htokens : ∀ format, (Formula.tokens f).outcome = (Formula.tokens g).outcome ↔
      (run files (asF .tokens format)).output = (run files (asG .tokens format)).output := by
    intro format
    obtain ⟨ts, hts, hprintF⟩ := (hasF .tokens (by simp) format).exists_tokens
    obtain ⟨us, hus, hprintG⟩ := (hasG .tokens (by simp) format).exists_tokens
    have hspell : ∀ {formula ts}, (Formula.tokens formula).outcome = .ok ts →
        ∀ t ∈ ts, t.Spellable := fun h _ ht =>
      (Token.scannable_of_scanFrom (Formula.outcome_tokens_eq_ok_iff.mp h)).spellable ht
    rw [hprintF, hprintG, hts, hus, Except.ok.injEq]
    exact ⟨congrArg (tokensOutput format), tokensOutput_inj (hspell hts) (hspell hus)⟩
  tfae_have 1 ↔ 2 := (Formula.parse_eq_iff_tokens_eq hf hg).symm
  tfae_have 2 ↔ 3 := ⟨congrArg Expr.text, hd.text_inj he⟩
  tfae_have 2 ↔ 4 := hast .text
  tfae_have 2 ↔ 5 := hast .json
  tfae_have 1 ↔ 6 := htokens .text
  tfae_have 1 ↔ 7 := htokens .json
  tfae_finish

/-- A dotted path and two paths beside each other are told apart in every form. -/
theorem printed_forms_tfae_dot_and_comma :
    let f := "Add(1, a.b)"
    let g := "Add( 1,a,b )"
    let d := Expr.program [.call "Add" [.literal 1, .path "a.b"]]
    let e := Expr.program [.call "Add" [.literal 1, .path "a", .path "b"]]
    let files := fun _ => none
    let asked := fun (formula : String) (action : Action) (format : Format) =>
      Invocation.arguments ⟨action, formula, format, defaultLimit, none, false⟩
    (Formula.parse 1 f).outcome = .ok d ∧ (Formula.parse defaultLimit g).outcome = .ok e ∧
      (∀ action ∈ [Action.tokens, .ast], ∀ format,
        Prints files (asked f action format) action format f) ∧
      (∀ action ∈ [Action.tokens, .ast], ∀ format,
        Prints files (asked g action format) action format g) ∧
      List.TFAE [
        (Formula.tokens f).outcome = (Formula.tokens g).outcome,
        d = e,
        d.text = e.text,
        (run files (asked f .ast .text)).output = (run files (asked g .ast .text)).output,
        (run files (asked f .ast .json)).output = (run files (asked g .ast .json)).output,
        (run files (asked f .tokens .text)).output = (run files (asked g .tokens .text)).output,
        (run files (asked f .tokens .json)).output =
          (run files (asked g .tokens .json)).output] := by
  intro f g d e files asked
  -- The two texts differ in a dot against a comma
  have htokens : (Formula.tokens f).outcome = .ok [.function "Add", .leftParen, .number 1, .comma,
      .word "a", .dot, .word "b", .rightParen] := by
    decide +kernel
  have htokens' : (Formula.tokens g).outcome = .ok [.function "Add", .leftParen, .number 1, .comma,
      .word "a", .comma, .word "b", .rightParen] := by
    decide +kernel
  have hf : ∀ limit, (Formula.parse (limit + 1) f).outcome = .ok d := fun limit =>
    Formula.outcome_parse_eq_ok_iff.mpr ⟨_, _, htokens, rfl, rfl⟩
  have hg : ∀ limit, (Formula.parse (limit + 1) g).outcome = .ok e := fun limit =>
    Formula.outcome_parse_eq_ok_iff.mpr ⟨_, _, htokens', rfl, rfl⟩
  have hlimit : defaultLimit < UInt64.size := by decide
  have hasF : ∀ action ∈ [Action.tokens, .ast], ∀ format,
      Prints files (asked f action format) action format f :=
    fun _ haction _ => prints_arguments ⟨hlimit, nofun⟩ haction (hf _)
  have hasG : ∀ action ∈ [Action.tokens, .ast], ∀ format,
      Prints files (asked g action format) action format g :=
    fun _ haction _ => prints_arguments ⟨hlimit, nofun⟩ haction (hg _)
  have hparse : (Formula.parse defaultLimit g).outcome = .ok e := hg _
  exact ⟨hf 0, hparse, hasF, hasG, printed_forms_tfae (hf 0) hparse hasF hasG⟩

end CommandLine

end Reckoner
