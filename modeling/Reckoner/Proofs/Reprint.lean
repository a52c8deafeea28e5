import Reckoner.Proofs.Grammar
import Reckoner.Proofs.ScanImage

/-!
# Reading back printed programs

`Expr.text` and parsing are inverse to each other on the programs that formulas can
spell: a parsed formula gives such a program, and the text of one, with its lines joined
by spaces, is parsed as the same program.

## Key results

- `Expr.Spellable.spells`: the text of a tree is scanned into the tokens that spell it
- `Expr.spellable_of_spelling`: a tree is spellable if its tokens are
- `Formula.parse_reprint`: the two directions together
-/

namespace Reckoner

/-! ## Spellable trees -/

namespace Expr

/-- A tree that some formula spells: numbers in range, paths and names of letters, and no
    program inside. -/
inductive Spellable : Expr → Prop where
  | literal {value : Int} (hvalue : 0 ≤ value ∧ value ≤ Token.maxNumber) :
    Spellable (literal value)
  | path {segments : List String} (hne : segments ≠ [])
    (hnames : ∀ segment ∈ segments, Token.IsName segment) : Spellable (path (Path.join segments))
  | call {name : String} {args : List Expr} (hname : Token.IsName name)
    (hargs : ∀ e ∈ args, Spellable e) : Spellable (call name args)

/-- A program that some formula spells with calls nested at most to the limit. -/
def WellFormed (limit : Nat) (e : Expr) : Prop :=
  ∃ body, e = program body ∧ ∀ part ∈ body, part.Spellable ∧ part.depth ≤ limit

/-- There is no program inside an expression that can be spelled. -/
theorem Spellable.programFree {e : Expr} (he : e.Spellable) : e.ProgramFree := by
  induction he with
  | literal hvalue => exact .literal _
  | path hne hnames => exact .path _
  | call hname hargs ih => exact .call ih

end Expr

/-- A name has no dot. -/
theorem Token.IsName.not_mem_dot {name : String} (h : Token.IsName name) : '.' ∉ name.toList :=
  fun hdot => absurd (h.2 _ hdot) (by decide)

namespace Expr

/-- A tree is spellable if the tokens that spell it are. -/
theorem spellable_of_spelling {e : Expr} (he : e.ProgramFree)
    (h : ∀ t ∈ e.spelling, t.Spellable) : e.Spellable := by
  induction he with
  | literal value => exact .literal (h (.number value) List.mem_cons_self)
  | path dotted =>
    have hnames : ∀ segment ∈ Path.segments dotted, Token.IsName segment := by
      intro segment hsegment
      have hpart : [Token.word segment] ∈ (Path.segments dotted).map fun s => [Token.word s] :=
        List.mem_map_of_mem hsegment
      exact h (.word segment) (mem_intercalate_of_mem hpart List.mem_cons_self)
    have hpath : Spellable (path (Path.join (Path.segments dotted))) :=
      .path (Path.segments_ne_nil dotted) hnames
    rwa [Path.join_segments] at hpath
  | @call name args _ ih =>
    have hname : Token.IsName name := h (.function name) List.mem_cons_self
    refine .call hname ?_
    intro e he
    apply ih e he
    intro t ht
    -- A token of an argument is one of the row of arguments
    have hrow : t ∈ [Token.comma].intercalate (args.map spelling) :=
      mem_intercalate_of_mem (List.mem_map_of_mem he) ht
    apply h
    rw [spelling, spellings_eq_map]
    exact List.mem_cons_of_mem _ (List.mem_cons_of_mem _ (List.mem_append_left _ hrow))

end Expr

/-! ## Texts that scan back -/

namespace Token

/-- Wherever it stands, the text is scanned into these tokens, as long as what stands
    behind it neither goes on with its last run nor opens a call. -/
def Spells (text : List Char) (ts : List Token) : Prop :=
  ∀ rest us, Clear Char.isAlphanum rest → us.head? ≠ some leftParen → Scans rest us →
    Scans (text ++ rest) (ts ++ us)

/-- The tokens start with another one than an opening parenthesis. -/
def Unopened (ts : List Token) : Prop :=
  ∃ t ∈ ts.head?, t ≠ leftParen

/-- Behind what opens no call there is no parenthesis. -/
theorem Unopened.head?_append {ts : List Token} (h : Unopened ts) (us : List Token) :
    (ts ++ us).head? ≠ some leftParen := by
  obtain ⟨t, ht, hne⟩ := h
  rw [Option.mem_def] at ht
  rw [List.head?_append, ht, Option.some_or]
  intro heq
  exact hne (Option.some.inj heq)

/-- Wherever it stands, the separator ends the run in front of it and is scanned into these
    tokens. -/
structure Separates (sep : List Char) (sepTokens : List Token) : Prop where
  clear : ∀ rest, Clear Char.isAlphanum (sep ++ rest)
  scans : ∀ rest us, Scans rest us → Scans (sep ++ rest) (sepTokens ++ us)

/-- Texts with a separator between them spell the tokens of the texts and the separators. -/
private theorem spells_intercalate {sep : List Char} {sepTokens : List Token}
    (hsep : Separates sep sepTokens) {parts : List (List Char × List Token)}
    (hparts : ∀ part ∈ parts, Spells part.1 part.2)
    (hopen : ∀ part ∈ parts, Unopened (sepTokens ++ part.2)) :
    Spells (sep.intercalate (parts.map (·.1))) (sepTokens.intercalate (parts.map (·.2))) := by
  induction parts with
  | nil =>
    intro rest us _ _ h
    exact h
  | cons part parts ih =>
    obtain ⟨hpart, hparts⟩ := List.forall_mem_cons.mp hparts
    obtain ⟨-, hopen⟩ := List.forall_mem_cons.mp hopen
    intro rest us hrest hus h
    have htail := ih hparts hopen rest us hrest hus h
    cases parts with
    | nil => simpa using hpart rest us hrest hus h
    | cons next parts =>
      -- Behind this part comes the separator with the next part, so no parenthesis
      have hhead := (hopen next List.mem_cons_self).head?_append
        ((parts.map (·.2)).flatMap (sepTokens ++ ·) ++ us)
      rw [List.append_assoc, ← List.append_assoc next.2, ← intercalate_cons] at hhead
      have hrow := hpart _ _ (hsep.clear _) hhead (hsep.scans _ _ htail)
      simpa only [List.map_cons, List.intercalate_cons_cons, List.append_assoc] using hrow

/-! ## The texts of trees -/

private theorem separates_dot : Separates ['.'] [dot] where
  clear _ := clear_cons.mpr (by decide)
  scans _ _ h := h.symbol (by decide) (by decide) (by decide) fun _ => rfl

private theorem separates_comma : Separates [',', ' '] [comma] where
  clear _ := clear_cons.mpr (by decide)
  scans _ _ h := h.space.symbol (by decide) (by decide) (by decide) fun _ => rfl

private theorem separates_space : Separates [' '] [] where
  clear _ := clear_cons.mpr (by decide)
  scans _ _ h := h.space

/-- A number is spelled by its digits. -/
private theorem spells_number {value : Int} (hvalue : 0 ≤ value ∧ value ≤ maxNumber) :
    Spells (number value).text.toList [number value] := by
  intro rest us hrest _ h
  have hspell : (number value).Spellable := hvalue
  exact h.cons hspell trivial (ends_of_clear_isAlphanum hrest _)

/-- A name is spelled by itself, as a word if no parenthesis follows. -/
theorem spells_word {name : String} (hname : IsName name) :
    Spells name.toList [word name] := by
  intro rest us hrest hus h
  have hspell : (word name).Spellable := hname
  have hadmits : (word name).Admits us.head? := hus
  have hscan : Scans ((word name).text.toList ++ rest) (word name :: us) :=
    h.cons hspell hadmits (ends_of_clear_isAlphanum hrest _)
  exact hscan

/-- A path is spelled by its words, with dots between them. -/
private theorem spells_path {segments : List String} (hne : segments ≠ [])
    (hnames : ∀ segment ∈ segments, IsName segment) :
    Spells (Path.join segments).toList (Path.spelling (Path.join segments)) := by
  have hdots : ∀ segment ∈ segments, '.' ∉ segment.toList :=
    fun segment hsegment => (hnames segment hsegment).not_mem_dot
  let parts := segments.map fun segment => (segment.toList, [word segment])
  have hparts : ∀ part ∈ parts, Spells part.1 part.2 := by
    intro part hpart
    obtain ⟨segment, hsegment, rfl⟩ := List.mem_map.mp hpart
    exact spells_word (hnames segment hsegment)
  -- No name is called here, since a dot or the end is behind each of them
  have hrow := spells_intercalate separates_dot hparts fun _ _ => ⟨dot, rfl, by simp⟩
  rw [List.map_map, List.map_map] at hrow
  rw [Path.spelling, Path.segments_join hne hdots, Path.join, String.toList_intercalate]
  exact hrow

/-- A name in front of a parenthesis is scanned as a function. -/
private theorem scans_function {name : String} (hname : IsName name) {text : List Char}
    {ts : List Token} (h : Scans text ts) :
    Scans (name.toList ++ '(' :: text) (function name :: leftParen :: ts) := by
  have hspell : (function name).Spellable := hname
  -- The parenthesis directly behind the letters is what makes the name a function
  have hopening : Scans ('(' :: text) (leftParen :: ts) :=
    h.symbol (by decide) (by decide) (by decide) fun _ => rfl
  have hends : (function name).Ends ('(' :: text) := clear_cons.mpr (by decide)
  have hscan : Scans ((function name).text.toList ++ '(' :: text)
      (function name :: leftParen :: ts) := hopening.cons hspell rfl hends
  exact hscan

end Token

namespace Expr

open Token

private theorem texts_eq_map (es : List Expr) : texts es = es.map text := by
  induction es with
  | nil => rfl
  | cons e es ih => rw [texts, ih, List.map_cons]

/-- The characters of a row of trees are those of its trees. -/
private theorem toList_intercalate_texts (sep : String) (es : List Expr) :
    (String.intercalate sep (texts es)).toList =
      sep.toList.intercalate (es.map fun e => e.text.toList) := by
  rw [String.toList_intercalate, texts_eq_map, List.map_map]
  rfl

/-- A row of trees is spelled by their texts with a separator between them. -/
private theorem spells_row {sep : List Char} {sepTokens : List Token}
    (hsep : Separates sep sepTokens)
    {es : List Expr} (hes : ∀ e ∈ es, Spells e.text.toList e.spelling)
    (hopen : ∀ e ∈ es, Unopened (sepTokens ++ e.spelling)) :
    Spells (sep.intercalate (es.map fun e => e.text.toList))
      (sepTokens.intercalate (es.map spelling)) := by
  let parts := es.map fun e => (e.text.toList, e.spelling)
  have hparts : ∀ part ∈ parts, Spells part.1 part.2 := by
    intro part hpart
    obtain ⟨e, he, rfl⟩ := List.mem_map.mp hpart
    exact hes e he
  have hopens : ∀ part ∈ parts, Unopened (sepTokens ++ part.2) := by
    intro part hpart
    obtain ⟨e, he, rfl⟩ := List.mem_map.mp hpart
    exact hopen e he
  -- What is in front of a separator is not called, whatever expression comes next
  have hrow := spells_intercalate hsep hparts hopens
  rw [List.map_map, List.map_map] at hrow
  exact hrow

/-- The text of a tree is scanned into the tokens that spell it. -/
theorem Spellable.spells {e : Expr} (he : e.Spellable) : Spells e.text.toList e.spelling := by
  induction he with
  | literal hvalue => exact spells_number hvalue
  | path hne hnames => exact spells_path hne hnames
  | @call name args hname _ ih =>
    intro rest us _ _ h
    -- From the end: the closing parenthesis, the row of arguments, the name
    have hclose : Scans (')' :: rest) (rightParen :: us) :=
      h.symbol (by decide) (by decide) (by decide) fun _ => rfl
    have hclear : Clear Char.isAlphanum (')' :: rest) := clear_cons.mpr (by decide)
    have hrow := spells_row separates_comma ih (fun _ _ => ⟨comma, rfl, by simp⟩) _ _
      hclear (by simp) hclose
    have hcall := scans_function hname hrow
    rw [text, spelling, spellings_eq_map, String.toList_append, String.toList_append,
      String.toList_append, toList_intercalate_texts]
    have hparens : "(".toList = ['('] ∧ ", ".toList = [',', ' '] ∧ ")".toList = [')'] :=
      ⟨rfl, rfl, rfl⟩
    rw [hparens.1, hparens.2.1, hparens.2.2]
    simpa only [List.append_assoc, List.cons_append, List.nil_append] using hcall

/-- The spelling of a tree starts with a number, a word or a function. -/
theorem unopened_spelling {e : Expr} (he : e.ProgramFree) : Unopened e.spelling := by
  cases he with
  | literal value => exact ⟨.number value, rfl, by simp⟩
  | path dotted =>
    -- Even an empty path has a first word
    obtain ⟨segment, segments, hsegments⟩ :=
      List.exists_cons_of_ne_nil (Path.segments_ne_nil dotted)
    refine ⟨.word segment, ?_, by simp⟩
    rw [spelling, Path.spelling, hsegments, List.map_cons, intercalate_cons]
    rfl
  | call hargs => exact ⟨.function _, rfl, by simp⟩

end Expr

/-! ## Line breaks -/

namespace Token

/-- What is no part of a run and not behind it either is not in the text. -/
private theorem not_mem_of_not_mem_dropWhile {p : Char → Bool} {a : Char} {text : List Char}
    (ha : p a = false) (h : a ∉ text.dropWhile p) : a ∉ text := by
  rw [← List.takeWhile_append_dropWhile (p := p) (l := text)]
  refine List.not_mem_append ?_ h
  intro hrun
  have hclass : p a := List.all_eq_true.mp List.all_takeWhile a hrun
  rw [ha] at hclass
  exact absurd hclass Bool.false_ne_true

/-- No text without faults has a line break in it. -/
private theorem not_mem_newline_of_scanFrom {offset : Nat} {text : List Char} {ts : List Token}
    (h : scanFrom offset text = ts.map .ok) : '\n' ∉ text := by
  -- A line break would be an item of its own, and that item a fault
  fun_induction scanFrom offset text generalizing ts with
  | case1 offset => exact List.not_mem_nil
  | case2 offset rest ih => exact List.not_mem_cons_of_ne_of_not_mem (by decide) (ih h)
  | case3 offset c rest hspace hdigit ih =>
    obtain ⟨t, ts', rfl, -, hrest⟩ := List.map_eq_cons_iff.mp h.symm
    refine not_mem_of_not_mem_dropWhile (p := Char.isDigit) (by decide) ?_
    rw [List.dropWhile_cons_of_pos hdigit]
    exact ih hrest.symm
  | case4 offset c rest hspace hdigit halpha ih =>
    obtain ⟨t, ts', rfl, -, hrest⟩ := List.map_eq_cons_iff.mp h.symm
    refine not_mem_of_not_mem_dropWhile (p := Char.isAlpha) (by decide) ?_
    rw [List.dropWhile_cons_of_pos halpha]
    exact ih hrest.symm
  | case5 offset c rest hspace hdigit halpha ih =>
    obtain ⟨t, ts', rfl, ht, hrest⟩ := List.map_eq_cons_iff.mp h.symm
    have hc : '\n' ≠ c := by rintro rfl; cases ht
    exact List.not_mem_cons_of_ne_of_not_mem hc (ih hrest.symm)

end Token

namespace Formula

open Token

/-- The text with a space in the place of each line break. -/
def oneLine (text : String) : String :=
  text.map fun c => if c = '\n' then ' ' else c

/-- The text of a spellable program, put on one line, consists of the texts of its
    expressions with spaces between them. -/
theorem toList_oneLine_text {body : List Expr} (h : ∀ e ∈ body, e.Spellable) :
    (oneLine (Expr.program body).text).toList =
      [' '].intercalate (body.map fun e => e.text.toList) := by
  rw [oneLine, String.toList_map, Expr.text, Expr.toList_intercalate_texts, map_intercalate,
    List.map_map]
  -- What is left to show: the text of each expression stays as it is
  congr 1
  apply List.map_congr_left
  intro e he
  have hscan : Scans (e.text.toList ++ []) (e.spelling ++ []) :=
    (h e he).spells [] [] (clear_nil _) (by simp) Scans.nil
  rw [List.append_nil] at hscan
  have hline : '\n' ∉ e.text.toList := not_mem_newline_of_scanFrom (hscan 0)
  show e.text.toList.map (fun c => if c = '\n' then ' ' else c) = e.text.toList
  have hid : ∀ c ∈ e.text.toList, (if c = '\n' then ' ' else c) = id c := by
    intro c hc
    have hne : c ≠ '\n' := fun heq => hline (by rwa [← heq])
    exact if_neg hne
  rw [List.map_congr_left hid, List.map_id]

/-- The text of a spellable program, put on one line, is scanned into the tokens that
    spell its expressions. -/
private theorem outcome_tokens_oneLine_text {body : List Expr} (h : ∀ e ∈ body, e.Spellable) :
    (tokens (oneLine (Expr.program body).text)).outcome = .ok (body.flatMap Expr.spelling) := by
  -- Expressions are kept apart by one space in the row
  have hspells := Expr.spells_row separates_space (fun e he => (h e he).spells)
    fun e he => Expr.unopened_spelling (h e he).programFree
  have hscan := hspells [] [] (clear_nil _) (by simp) Scans.nil
  rw [List.append_nil, List.append_nil, nil_intercalate, ← List.flatMap_def,
    ← toList_oneLine_text h] at hscan
  exact outcome_tokens_eq_ok_iff.mpr (hscan 0)

/-- A parsed formula is scanned into the tokens that spell its expressions, and these are
    within the limit. -/
theorem scan_of_parse {limit : Nat} {formula : String} {e : Expr}
    (h : (parse limit formula).outcome = .ok e) :
    ∃ body, e = .program body ∧ scan formula = (body.flatMap Expr.spelling).map .ok ∧
      ∀ part ∈ body, part.Fits limit 0 := by
  obtain ⟨ts, body, htokens, hbody, rfl⟩ := outcome_parse_eq_ok_iff.mp h
  have hscan : scan formula = ts.map .ok := outcome_tokens_eq_ok_iff.mp htokens
  -- Scanning makes names of letters, so no word has a dot and the tokens spell the tree
  have hwords : ∀ name, word name ∈ ts → '.' ∉ name.toList :=
    fun name hname => ((scannable_of_scanFrom hscan).isName name (.inr hname)).not_mem_dot
  obtain ⟨rfl, hfits⟩ := Expr.listOfTokens_sound hwords hbody
  exact ⟨body, rfl, hscan, hfits⟩

/-- A parsed formula gives a program that formulas can spell. -/
theorem wellFormed_of_parse {limit : Nat} {formula : String} {e : Expr}
    (h : (parse limit formula).outcome = .ok e) : e.WellFormed limit := by
  obtain ⟨body, rfl, hscan, hfits⟩ := scan_of_parse h
  refine ⟨body, rfl, fun e he => ?_⟩
  obtain ⟨hfree, hdepth⟩ := hfits e he
  have hspell : ∀ t ∈ e.spelling, t.Spellable := by
    intro t ht
    exact (scannable_of_scanFrom hscan).spellable (List.mem_flatMap.mpr ⟨e, he, ht⟩)
  exact ⟨Expr.spellable_of_spelling hfree hspell, hdepth⟩

/-- The text of a well-formed program, put on one line, is parsed as that program. -/
theorem parse_oneLine_text {limit : Nat} {e : Expr} (h : e.WellFormed limit) :
    (parse limit (oneLine e.text)).outcome = .ok e := by
  obtain ⟨body, rfl, hbody⟩ := h
  have htokens := outcome_tokens_oneLine_text fun e he => (hbody e he).1
  have hfits : ∀ e ∈ body, e.Fits limit 0 := by
    intro e he
    obtain ⟨hspell, hdepth⟩ := hbody e he
    exact ⟨hspell.programFree, hdepth⟩
  exact outcome_parse_eq_ok_iff.mpr
    ⟨_, body, htokens, Expr.listOfTokens_complete hfits, rfl⟩

/-- A formula that is the text of one expression is parsed as it. -/
theorem parse_of_text {limit : Nat} {formula : String} {e : Expr} (hspell : e.Spellable)
    (hdepth : e.depth ≤ limit) (htext : oneLine (Expr.program [e]).text = formula) :
    (parse limit formula).outcome = .ok (.program [e]) := by
  rw [← htext]
  exact parse_oneLine_text ⟨_, rfl, List.forall_mem_singleton.mpr ⟨hspell, hdepth⟩⟩

/-- Parsing gives well-formed programs only, and printing and parsing brings every
    well-formed program back; so a parsed program, printed and parsed again, is the same. -/
theorem parse_reprint (limit : Nat) :
    (∀ formula e, (parse limit formula).outcome = .ok e → e.WellFormed limit) ∧
      (∀ e, e.WellFormed limit → (parse limit (oneLine e.text)).outcome = .ok e) ∧
        ∀ formula e, (parse limit formula).outcome = .ok e →
          (parse limit (oneLine e.text)).outcome = .ok e :=
  ⟨fun _ _ => wellFormed_of_parse, fun _ => parse_oneLine_text,
    fun _ _ h => parse_oneLine_text (wellFormed_of_parse h)⟩

/-- A call and a name beside it are printed on two lines, which are parsed from one. -/
theorem parse_reprint_call_and_path :
    let e := Expr.program [.call "Add" [.literal 1, .path "a.b"], .path "x"]
    e.WellFormed 1 ∧ e.text = "Add(1, a.b)\nx" ∧
      (parse 1 "Add(1, a.b) x").outcome = .ok e := by
  intro e
  have hnumber : (Expr.literal 1).Spellable := .literal (by decide)
  have hab : (Expr.path "a.b").Spellable := .path (List.cons_ne_nil "a" ["b"]) (by decide)
  have hx : (Expr.path "x").Spellable := .path (List.cons_ne_nil "x" []) (by decide)
  have hcall : (Expr.call "Add" [.literal 1, .path "a.b"]).Spellable :=
    .call (by decide) (List.forall_mem_cons.mpr ⟨hnumber, List.forall_mem_singleton.mpr hab⟩)
  have hbody : e.WellFormed 1 := by
    refine ⟨_, rfl, List.forall_mem_cons.mpr ⟨⟨hcall, by decide⟩, ?_⟩⟩
    exact List.forall_mem_singleton.mpr ⟨hx, by decide⟩
  obtain ⟨hwellFormed, hprint, -⟩ := parse_reprint 1
  -- On one line the line break between the expressions becomes a space
  have hparse := hprint e hbody
  rw [show e.text = "Add(1, a.b)\nx" from rfl, oneLine, String.map_eq_internal] at hparse
  exact ⟨hwellFormed _ e hparse, rfl, hparse⟩

end Formula

end Reckoner
