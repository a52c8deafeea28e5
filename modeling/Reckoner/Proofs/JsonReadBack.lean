import Reckoner.Json.Read
import Reckoner.Json.Write
import Reckoner.Proofs.QuotedText
import Reckoner.Proofs.Spelling
import Reckoner.Proofs.WrittenNumber

/-!
# JSON text read back

Writing puts the lexemes of a value one behind the other, with line breaks and indentation
between them.  From these lexemes the value comes back, provided that it has no binary64
number and that its integers fit 64 bits; so its text gives it away.

## Key results

- `Json.writes_prettyAt`: the lexemes of the text of a value
- `Json.Reading.reads_lexemes`: the lexemes of a value are read as the value
- `Json.read?_pretty`: a value comes back from its text
- `Json.pretty_inj`: values with the same text are the same
-/

namespace Reckoner.Json

open Token (Clear clear_cons clear_nil takeWhile_append_of_clear dropWhile_append_of_clear)

/-- A value that comes back from its text, with at most `limit` arrays and objects inside each
    other. -/
inductive Plain : Nat → Json → Prop where
  | null {limit : Nat} : Plain limit null
  | bool {limit : Nat} (value : Bool) : Plain limit (bool value)
  | integer {limit : Nat} {value : Int} (hlow : -(2 ^ 63) ≤ value) (hhigh : value < 2 ^ 64) :
    Plain limit (integer value)
  | string {limit : Nat} (value : String) : Plain limit (string value)
  | array {limit : Nat} {items : List Json} (hitems : ∀ item ∈ items, Plain limit item) :
    Plain (limit + 1) (array items)
  | object {limit : Nat} {fields : List (String × Json)}
    (hfields : ∀ field ∈ fields, Plain limit field.2) : Plain (limit + 1) (object fields)

/-! ## The lexemes of a value -/

mutual

/-- The lexemes that a value is written with. -/
def lexemes : Json → List Lexeme
  | array items => .openArray :: ([.comma].intercalate (itemLexemes items) ++ [.closeArray])
  | object fields => .openObject :: ([.comma].intercalate (fieldLexemes fields) ++ [.closeObject])
  | value => [.scalar value]

/-- The lexemes of each item of an array. -/
def itemLexemes : List Json → List (List Lexeme)
  | [] => []
  | item :: items => item.lexemes :: itemLexemes items

/-- The lexemes of each field of an object. -/
def fieldLexemes : List (String × Json) → List (List Lexeme)
  | [] => []
  | (key, value) :: fields =>
    (.scalar (.string key) :: .colon :: value.lexemes) :: fieldLexemes fields

end

private theorem itemLexemes_eq_map (items : List Json) : itemLexemes items = items.map lexemes := by
  induction items with
  | nil => rfl
  | cons item items ih => rw [itemLexemes, ih, List.map_cons]

private theorem fieldLexemes_eq_map (fields : List (String × Json)) :
    fieldLexemes fields =
      fields.map fun (key, value) => .scalar (.string key) :: .colon :: value.lexemes := by
  induction fields with
  | nil => rfl
  | cons field fields ih => rw [fieldLexemes, ih, List.map_cons]

private theorem prettyItems_eq_map (level : Nat) (items : List Json) :
    prettyItems level items = items.map (prettyAt level) := by
  induction items with
  | nil => rfl
  | cons item items ih => rw [prettyItems, ih, List.map_cons]

private theorem prettyFields_eq_map (level : Nat) (fields : List (String × Json)) :
    prettyFields level fields =
      fields.map fun (key, value) => quoted key ++ ": " ++ prettyAt level value := by
  induction fields with
  | nil => rfl
  | cons field fields ih => rw [prettyFields, ih, List.map_cons]

/-! ## One lexeme in front of a text -/

/-- Neither a numeral nor a name goes on with the text. -/
structure Ends (text : List Char) : Prop where
  numeral : Clear Lexeme.inNumeral text
  name : Clear Char.isAlpha text

private theorem ends_nil : Ends [] := ⟨clear_nil _, clear_nil _⟩

/-- Numerals and names end in front of what is in neither. -/
private theorem ends_cons {c : Char} {text : List Char} (hnumeral : Lexeme.inNumeral c = false)
    (hname : c.isAlpha = false) : Ends (c :: text) :=
  ⟨clear_cons.mpr hnumeral, clear_cons.mpr hname⟩

section

variable {rest : List Char} {us : List Lexeme}

/-- A blank makes no lexeme. -/
private theorem lexemes?_blank {c : Char} (hblank : Lexeme.isBlank c = true) (rest : List Char) :
    lexemes? (c :: rest) = lexemes? rest := by
  rw [lexemes?, if_pos hblank]

/-- Line breaks and indentation are no lexemes. -/
private theorem lexemes?_lineBreak (level : Nat) (rest : List Char) :
    lexemes? ((lineBreak level).toList ++ rest) = lexemes? rest := by
  rw [lineBreak, String.toList_ofList, List.cons_append, lexemes?_blank (by decide)]
  induction 2 * level with
  | zero => rfl
  | succ n ih => rw [List.replicate_succ, List.cons_append, lexemes?_blank (by decide), ih]

/-- Numerals and names end at a line break. -/
private theorem ends_lineBreak (level : Nat) (rest : List Char) :
    Ends ((lineBreak level).toList ++ rest) := by
  rw [lineBreak, String.toList_ofList, List.cons_append]
  exact ends_cons (by decide) (by decide)

/-- A mark makes a lexeme of its own. -/
private theorem lexemes?_mark {c : Char} {mark : Lexeme} (hblank : Lexeme.isBlank c = false)
    (hmark : Lexeme.mark? c = some mark) (h : lexemes? rest = some us) :
    lexemes? (c :: rest) = some (mark :: us) := by
  rw [lexemes?, if_neg (by simp [hblank]), hmark]
  dsimp only
  rw [h]
  rfl

/-- A string in front of a text is read as that string. -/
private theorem lexemes?_quoted (text : String) (h : lexemes? rest = some us) :
    lexemes? ((quoted text).toList ++ rest) = some (.scalar (.string text) :: us) := by
  have hcut : Quoted.untilQuote (Quoted.escape text.toList ++ '"' :: rest) =
      some (Quoted.escape text.toList, rest) := Quoted.untilQuote_escape _ _
  have hmark : Lexeme.mark? '"' = none := by decide
  rw [quoted, String.toList_ofList, List.cons_append, List.append_assoc, List.singleton_append,
    lexemes?, if_neg (by decide), hmark]
  dsimp only
  rw [if_pos rfl]
  -- The string ends at its own closing quote, so both outcomes of the search are known
  split
  next hnone =>
    rw [hcut] at hnone
    cases hnone
  next inside behind hsome =>
    rw [hcut] at hsome
    cases hsome
    rw [Lexeme.ofString?, Quoted.unescape_escape, h]
    simp [String.ofList_toList]

/-- The characters that are lexemes by themselves, start a string or separate lexemes. -/
def Lexeme.marks : List Char :=
  [' ', '\t', '\n', '\r', '[', ']', '\x7b', '\x7d', ',', ':', '"']

/-- A character of a class without such characters starts a numeral or a name. -/
private theorem Lexeme.of_any_marks {p : Char → Bool} {c : Char} (hc : p c)
    (hp : marks.any p = false) :
    isBlank c = false ∧ mark? c = none ∧ c ≠ '"' := by
  have hne : ∀ d ∈ marks, c ≠ d := by
    rintro d hd rfl
    exact List.any_eq_false.mp hp c hd hc
  simp only [marks, List.forall_mem_cons] at hne
  simp [isBlank, mark?, hne]

/-- Characters of a numeral make one lexeme, up to where the numeral ends. -/
private theorem lexemes?_numeral {c : Char} {text : List Char} {lexeme : Lexeme}
    (hc : (decide (c = '-') || c.isDigit) = true) (htext : ∀ c ∈ text, Lexeme.inNumeral c)
    (hrest : Clear Lexeme.inNumeral rest) (hlexeme : Lexeme.ofNumeral? (c :: text) = some lexeme)
    (h : lexemes? rest = some us) : lexemes? (c :: (text ++ rest)) = some (lexeme :: us) := by
  have hmarks : Lexeme.marks.any (fun c => decide (c = '-') || c.isDigit) = false := by decide
  obtain ⟨hblank, hmark, hquote⟩ := Lexeme.of_any_marks hc hmarks
  -- The branches in the order of the definition: blanks, marks, quotes, then numerals
  rw [lexemes?, if_neg (by simp [hblank]), hmark]
  dsimp only
  rw [if_neg hquote, if_pos hc, takeWhile_append_of_clear htext hrest,
    dropWhile_append_of_clear htext hrest, hlexeme, h]
  rfl

/-- Letters make one lexeme, up to where the name ends. -/
private theorem lexemes?_name {c : Char} {name : List Char} {lexeme : Lexeme} (hc : c.isAlpha)
    (hname : ∀ c ∈ name, c.isAlpha) (hrest : Clear Char.isAlpha rest)
    (hlexeme : Lexeme.ofName? (c :: name) = some lexeme) (h : lexemes? rest = some us) :
    lexemes? (c :: (name ++ rest)) = some (lexeme :: us) := by
  obtain ⟨hblank, hmark, hquote⟩ := Lexeme.of_any_marks hc (by decide)
  -- A letter does not start a numeral
  have hstart : ¬ (decide (c = '-') || c.isDigit) = true := by
    rw [Token.isDigit_eq_false_of_isAlpha hc, Bool.or_false, decide_eq_true_iff]
    rintro rfl
    exact absurd hc (by decide)
  rw [lexemes?, if_neg (by simp [hblank]), hmark]
  dsimp only
  rw [if_neg hquote, if_neg hstart, takeWhile_append_of_clear hname hrest,
    dropWhile_append_of_clear hname hrest, hlexeme, h]
  rfl

end

/-! ## The lexemes of a text -/

/-- In front of a text that does not go on with it, the text is read as these lexemes. -/
def Writes (text : String) (ls : List Lexeme) : Prop :=
  ∀ rest us, Ends rest → lexemes? rest = some us → lexemes? (text.toList ++ rest) = some (ls ++ us)

private theorem writes_quoted (text : String) : Writes (quoted text) [.scalar (.string text)] :=
  fun _ _ _ h => lexemes?_quoted text h

/-- A name is a run of letters. -/
private theorem writes_name {name : String} {value : Json} (hne : name ≠ "")
    (hname : name.toList.all Char.isAlpha = true)
    (hvalue : Lexeme.ofName? name.toList = some (.scalar value)) :
    Writes name [.scalar value] := by
  intro rest us hrest h
  have hlist : name.toList ≠ [] := by simpa using hne
  -- The first letter tells a name from all other lexemes
  obtain ⟨c, letters, hletters⟩ := List.exists_cons_of_ne_nil hlist
  rw [hletters] at hname hvalue ⊢
  obtain ⟨hc, hname⟩ := List.forall_mem_cons.mp (List.all_eq_true.mp hname)
  exact lexemes?_name hc hname hrest.name hvalue h

private theorem writes_bool (value : Bool) :
    Writes (if value then "true" else "false") [.scalar (.bool value)] := by
  cases value with
  | false =>
    show Writes "false" _
    exact writes_name (by decide) (by decide) rfl
  | true =>
    show Writes "true" _
    exact writes_name (by decide) (by decide) rfl

/-- An integer is written as its digits, with a hyphen in front if it is negative. -/
private theorem toList_toString (value : Int) : (toString value).toList =
    (if decide (value < 0) then ['-'] else []) ++ Nat.toDigits 10 value.natAbs := by
  rw [Int.toString_eq_repr, Int.repr_eq_if]
  -- Below zero the digits are those of the negated value
  by_cases hneg : value < 0
  · have hnat : (-value).toNat = value.natAbs := by omega
    rw [if_neg (by omega), if_pos (decide_eq_true hneg), hnat, String.toList_append,
      Nat.toList_repr]
    rfl
  · have hnat : value.toNat = value.natAbs := by omega
    rw [if_pos (by omega), if_neg (by simpa using hneg), hnat, Nat.toList_repr, List.nil_append]

/-- A numeral of digits alone is an integer, if 64 bits hold it. -/
private theorem toJson?_toDigits {value : Int} (hlow : -(2 ^ 63) ≤ value) (hhigh : value < 2 ^ 64) :
    Numeral.toJson? ⟨decide (value < 0), Nat.toDigits 10 value.natAbs, [], 0, true⟩ =
      some (.integer value) := by
  have hsize : UInt64.size = 2 ^ 64 := rfl
  unfold Numeral.toJson?
  simp only [Nat.ofDigitChars_ten_toDigits, Bool.true_and]
  -- Negative integers have to fit 63 bits and a sign, all others 64 bits
  by_cases hneg : value < 0
  · have hvalue : -((value.natAbs : Nat) : Int) = value := by omega
    have hpos : 0 < value.natAbs := by omega
    have hle : value.natAbs ≤ UInt64.size / 2 := by omega
    rw [decide_eq_true hneg, decide_eq_true hpos, decide_eq_true hle, hvalue]
    rfl
  · have hvalue : ((value.natAbs : Nat) : Int) = value := by omega
    have hlt : value.natAbs < UInt64.size := by omega
    rw [decide_eq_false hneg, decide_eq_true hlt, hvalue]
    rfl

/-- An integer is written as a numeral that denotes it. -/
private theorem ofNumeral?_toString {value : Int} (hlow : -(2 ^ 63) ≤ value)
    (hhigh : value < 2 ^ 64) :
    Lexeme.ofNumeral? (toString value).toList = some (.scalar (.integer value)) := by
  -- There are only digits: neither a point nor an exponent is behind them
  have hwhole : Numeral.whole? (Nat.toDigits 10 value.natAbs ++ []) =
      some (Nat.toDigits 10 value.natAbs, []) :=
    Numeral.whole?_append Nat.toDigits_ne_nil
      (fun _ hc => Nat.isDigit_of_mem_toDigits (by decide) (by decide) hc)
      Decimal.toDigits_eq_of_head?
      (clear_nil _)
  rw [List.append_nil] at hwhole
  have hparts := Numeral.ofChars?_of_parts hwhole rfl rfl (decide (value < 0))
  rw [Lexeme.ofNumeral?, toList_toString, hparts]
  simp only [List.isEmpty_nil, toJson?_toDigits hlow hhigh, Option.pure_def, Option.bind_eq_bind,
    Option.bind_some]

/-- An integer starts with its sign or its first digit, and goes on with digits. -/
private theorem exists_cons_toString (value : Int) : ∃ c text, (toString value).toList = c :: text ∧
    (decide (c = '-') || c.isDigit) = true ∧ ∀ d ∈ text, d.isDigit := by
  have hdigits : ∀ d ∈ Nat.toDigits 10 value.natAbs, d.isDigit :=
    fun _ hd => Nat.isDigit_of_mem_toDigits (by decide) (by decide) hd
  rw [toList_toString]
  -- The first character is the sign, or else the first digit
  by_cases hneg : value < 0
  · refine ⟨'-', Nat.toDigits 10 value.natAbs, ?_, by decide, hdigits⟩
    rw [if_pos (decide_eq_true hneg), List.singleton_append]
  · have hne : Nat.toDigits 10 value.natAbs ≠ [] := Nat.toDigits_ne_nil
    obtain ⟨d, digits, heq⟩ := List.exists_cons_of_ne_nil hne
    rw [heq] at hdigits
    obtain ⟨hd, hdigits⟩ := List.forall_mem_cons.mp hdigits
    refine ⟨d, digits, ?_, by simp [hd], hdigits⟩
    rw [if_neg (by simpa using hneg), List.nil_append, heq]

/-- An integer of 64 bits is written as its digits. -/
private theorem writes_integer {value : Int} (hlow : -(2 ^ 63) ≤ value) (hhigh : value < 2 ^ 64) :
    Writes (toString value) [.scalar (.integer value)] := by
  intro rest us hrest h
  have hvalue := ofNumeral?_toString hlow hhigh
  obtain ⟨c, text, htext, hc, hdigits⟩ := exists_cons_toString value
  have hchars : ∀ d ∈ text, Lexeme.inNumeral d := by
    intro d hd
    simp [Lexeme.inNumeral, hdigits d hd]
  rw [htext] at hvalue ⊢
  exact lexemes?_numeral hc hchars hrest.numeral hvalue h

/-- Entries in lines of their own are read as their lexemes with commas between them. -/
private theorem writes_intercalate (level : Nat) {entries : List (String × List Lexeme)}
    (hentries : ∀ entry ∈ entries, Writes entry.1 entry.2) :
    Writes (String.intercalate ("," ++ lineBreak level) (entries.map (·.1)))
      ([.comma].intercalate (entries.map (·.2))) := by
  -- Behind each entry but the last there is a comma and a line break
  induction entries with
  | nil =>
    intro rest us _ h
    exact h
  | cons entry entries ih =>
    obtain ⟨hentry, hentries⟩ := List.forall_mem_cons.mp hentries
    intro rest us hrest h
    cases entries with
    | nil => simpa using hentry rest us hrest h
    | cons next entries =>
      have htail := ih hentries rest us hrest h
      rw [← lexemes?_lineBreak level] at htail
      have hcomma := lexemes?_mark (c := ',') (by decide) rfl htail
      have hrow := hentry _ _ (ends_cons (by decide) (by decide)) hcomma
      have hlist : ",".toList = [','] := rfl
      simpa only [List.map_cons, String.intercalate_cons_cons, List.intercalate_cons_cons,
        String.toList_append, List.append_assoc, List.cons_append, List.nil_append, hlist]
        using hrow

/-- The text is a mark of one character. -/
def IsMark (text : String) (mark : Lexeme) : Prop :=
  ∃ c, text.toList = [c] ∧ Lexeme.isBlank c = false ∧ Lexeme.mark? c = some mark

/-- The text of a mark makes the mark, whatever is behind it. -/
theorem IsMark.lexemes? {text : String} {mark : Lexeme} (hmark : IsMark text mark)
    {rest : List Char} {us : List Lexeme} (h : lexemes? rest = some us) :
    lexemes? (text.toList ++ rest) = some (mark :: us) := by
  obtain ⟨c, htext, hblank, hmark⟩ := hmark
  rw [htext]
  exact lexemes?_mark hblank hmark h

/-- Between its brackets an array or object has its entries in lines of their own. -/
private theorem writes_enclose {opening closing : String} {openMark closeMark : Lexeme}
    (hopen : IsMark opening openMark) (hclose : IsMark closing closeMark) (level : Nat)
    {entries : List (String × List Lexeme)} (hentries : ∀ entry ∈ entries, Writes entry.1 entry.2) :
    Writes (enclose opening closing level (entries.map (·.1)))
      (openMark :: ([.comma].intercalate (entries.map (·.2)) ++ [closeMark])) := by
  intro rest us hrest h
  -- From the end: the closing bracket, the entries, the opening bracket
  have hbehind := hclose.lexemes? h
  cases entries with
  | nil =>
    have hrow := hopen.lexemes? hbehind
    rwa [← List.append_assoc, ← String.toList_append] at hrow
  | cons entry entries =>
    rw [← lexemes?_lineBreak level] at hbehind
    have hrow := writes_intercalate (level + 1) hentries _ _ (ends_lineBreak level _) hbehind
    rw [← lexemes?_lineBreak (level + 1)] at hrow
    have hall := hopen.lexemes? hrow
    rw [List.map_cons, enclose, List.isEmpty_cons, if_neg Bool.false_ne_true]
    simpa only [List.map_cons, String.toList_append, List.append_assoc, List.cons_append,
      List.nil_append] using hall

/-- An array is written if each of its items is, on every level. -/
theorem writes_array (level : Nat) {items : List Json}
    (hitems : ∀ item ∈ items, ∀ level, Writes (prettyAt level item) item.lexemes) :
    Writes (prettyAt level (.array items)) (lexemes (.array items)) := by
  -- The items are one level further in than the brackets
  have hentries : ∀ entry ∈ items.map fun item => (prettyAt (level + 1) item, item.lexemes),
      Writes entry.1 entry.2 := by
    intro entry hentry
    obtain ⟨item, hitem, rfl⟩ := List.mem_map.mp hentry
    exact hitems item hitem (level + 1)
  have hopen : IsMark "[" .openArray := ⟨'[', rfl, rfl, rfl⟩
  have hclose : IsMark "]" .closeArray := ⟨']', rfl, rfl, rfl⟩
  have hall := writes_enclose hopen hclose level hentries
  rw [List.map_map, List.map_map] at hall
  rw [prettyAt, lexemes, prettyItems_eq_map, itemLexemes_eq_map]
  exact hall

/-- A field is written if its value is. -/
private theorem writes_field (level : Nat) (key : String) {value : Json}
    (hvalue : Writes (prettyAt level value) value.lexemes) :
    Writes (quoted key ++ ": " ++ prettyAt level value)
      (.scalar (.string key) :: .colon :: value.lexemes) := by
  intro rest us hrest h
  -- From the end: the value, a space, the colon, the key
  have hblank := lexemes?_blank (c := ' ') (by decide) ((prettyAt level value).toList ++ rest)
  have hcolon := lexemes?_mark (c := ':') (by decide) rfl (hblank.trans (hvalue rest us hrest h))
  have hrow := lexemes?_quoted key hcolon
  have hlist : ": ".toList = [':', ' '] := rfl
  simpa only [String.toList_append, List.append_assoc, List.cons_append, List.nil_append, hlist]
    using hrow

/-- An object is written if the value of each of its fields is, on every level. -/
theorem writes_object (level : Nat) {fields : List (String × Json)}
    (hfields : ∀ field ∈ fields, ∀ level, Writes (prettyAt level field.2) field.2.lexemes) :
    Writes (prettyAt level (.object fields)) (lexemes (.object fields)) := by
  let entries := fields.map fun (key, value) =>
    (quoted key ++ ": " ++ prettyAt (level + 1) value,
      Lexeme.scalar (.string key) :: .colon :: value.lexemes)
  -- The fields are one level further in than the braces
  have hentries : ∀ entry ∈ entries, Writes entry.1 entry.2 := by
    intro entry hentry
    obtain ⟨⟨key, value⟩, hfield, rfl⟩ := List.mem_map.mp hentry
    exact writes_field (level + 1) key (hfields _ hfield (level + 1))
  have hopen : IsMark "\x7b" .openObject := ⟨'\x7b', rfl, rfl, rfl⟩
  have hclose : IsMark "\x7d" .closeObject := ⟨'\x7d', rfl, rfl, rfl⟩
  have hall := writes_enclose hopen hclose level hentries
  rw [List.map_map, List.map_map] at hall
  rw [prettyAt, lexemes, prettyFields_eq_map, fieldLexemes_eq_map]
  exact hall

/-- The text of a value is read as its lexemes. -/
theorem writes_prettyAt {limit : Nat} {value : Json} (h : Plain limit value) (level : Nat) :
    Writes (prettyAt level value) value.lexemes := by
  induction h generalizing level with
  | null =>
    show Writes "null" _
    exact writes_name (by decide) rfl rfl
  | bool value => exact writes_bool value
  | integer hlow hhigh => exact writes_integer hlow hhigh
  | string value => exact writes_quoted value
  | array hitems ih => exact writes_array level ih
  | object hfields ih => exact writes_object level ih

/-! ## Reading the lexemes -/

namespace Reading

variable {limit : Nat}

/-- Entries are read one behind the other, if each of them takes a reading that is ready for an
    entry behind that entry, and a comma makes it ready again. -/
private theorem exists_foldlM_row {α : Type} (write : α → List Lexeme)
    {ready behind : List α → Reading → Prop}
    (hcomma : ∀ done r, behind done r → ∃ r', step limit r .comma = some r' ∧ ready done r')
    {entries : List α} (hne : entries ≠ [])
    (hentries : ∀ a ∈ entries, ∀ done r, ready done r →
      ∃ r', (write a).foldlM (step limit) r = some r' ∧ behind (a :: done) r')
    {done : List α} {r : Reading} (hready : ready done r) :
    ∃ r', ([.comma].intercalate (entries.map write)).foldlM (step limit) r = some r' ∧
      behind (entries.reverse ++ done) r' := by
  induction entries generalizing done r with
  | nil => exact absurd rfl hne
  | cons a entries ih =>
    obtain ⟨ha, hentries⟩ := List.forall_mem_cons.mp hentries
    obtain ⟨r₁, hread, hbehind⟩ := ha done r hready
    cases entries with
    | nil => exact ⟨r₁, by simpa using hread, hbehind⟩
    | cons b entries =>
      -- More entries follow, so a comma does
      obtain ⟨r₂, hstep, hready₂⟩ := hcomma _ _ hbehind
      obtain ⟨r', hrow, hall⟩ := ih (List.cons_ne_nil _ _) hentries hready₂
      refine ⟨r', ?_, by simpa using hall⟩
      rw [List.map_cons, List.map_cons, List.intercalate_cons_cons, List.append_assoc,
        List.foldlM_append, hread]
      show (step limit r₁ .comma).bind (fun r => _) = _
      rw [hstep]
      exact hrow

/-- Where a value may come, these lexemes are read and the value is delivered. -/
def Reads (limit room : Nat) (ls : List Lexeme) (value : Json) : Prop :=
  ∀ stack phase, phase = .value ∨ phase = .firstItem → stack.length + room ≤ limit →
    ls.foldlM (step limit) ⟨stack, phase⟩ = some (deliver stack value)

/-- Where a value may come, every lexeme begins one, unless it ends an array. -/
private theorem step_eq_begin {phase : Phase} (hphase : phase = .value ∨ phase = .firstItem)
    (stack : List OpenValue) (l : Lexeme) (hl : l ≠ .closeArray) :
    step limit ⟨stack, phase⟩ l = begin limit stack l := by
  -- Where a first item may come, the array may also be closed
  rcases hphase with rfl | rfl
  · rfl
  · cases l with
    | closeArray => exact absurd rfl hl
    | _ => rfl

private theorem reads_scalar (room : Nat) (value : Json) :
    Reads limit room [.scalar value] value := by
  intro stack phase hphase _
  rw [List.foldlM_cons, step_eq_begin hphase stack (.scalar value) nofun]
  rfl

/-- The reading stands in an array with these items, the latest first, where the next one may
    come. -/
def InArray (stack : List OpenValue) (items : List Json) (r : Reading) : Prop :=
  r.stack = .array items :: stack ∧ (r.phase = .value ∨ r.phase = .firstItem)

/-- The reading stands in an object with these fields, the latest first, where the next one may
    come. -/
def InObject (stack : List OpenValue) (fields : List (String × Json)) (r : Reading) : Prop :=
  (∃ key, r.stack = .object fields key :: stack) ∧ (r.phase = .key ∨ r.phase = .firstKey)

/-- An array is read if its items are, with room for one level less. -/
theorem reads_array {room : Nat} {items : List Json}
    (hitems : ∀ item ∈ items, Reads limit room item.lexemes item) :
    Reads limit (room + 1) (lexemes (.array items)) (.array items) := by
  intro stack phase hphase hroom
  have hlt : stack.length < limit := by omega
  have hopen : step limit ⟨stack, phase⟩ .openArray = some ⟨.array [] :: stack, .firstItem⟩ := by
    rw [step_eq_begin hphase stack .openArray nofun]
    exact if_pos hlt
  -- Inside the array one more value is open, for which there is room
  have hitem : ∀ item ∈ items, ∀ done r, InArray stack done r →
      item.lexemes.foldlM (step limit) r = some ⟨.array (item :: done) :: stack, .separator⟩ := by
    rintro item hitem done ⟨_, phase⟩ ⟨rfl, hphase⟩
    have hroom' : (OpenValue.array done :: stack).length + room ≤ limit := by
      rw [List.length_cons]
      omega
    exact hitems item hitem _ phase hphase hroom'
  rw [lexemes, List.foldlM_cons, hopen, itemLexemes_eq_map]
  show (_ : List Lexeme).foldlM (step limit) _ = _
  cases items with
  | nil => rfl
  | cons item items =>
    have hcomma : ∀ done r, r = ⟨.array done :: stack, .separator⟩ →
        ∃ r', step limit r .comma = some r' ∧ InArray stack done r' := by
      rintro done _ rfl
      exact ⟨_, rfl, rfl, .inl rfl⟩
    have hfirst : InArray stack [] ⟨.array [] :: stack, .firstItem⟩ := ⟨rfl, .inr rfl⟩
    obtain ⟨r, hrow, rfl⟩ := exists_foldlM_row lexemes hcomma (List.cons_ne_nil item items)
      (fun a ha done r hr => ⟨_, hitem a ha done r hr, rfl⟩) hfirst
    -- The items were taken in with the latest first
    rw [List.foldlM_append, hrow]
    show some (deliver stack (.array _)) = _
    rw [List.append_nil, List.reverse_reverse]

/-- An object is read if the values of its fields are, with room for one level less. -/
theorem reads_object {room : Nat} {fields : List (String × Json)}
    (hfields : ∀ field ∈ fields, Reads limit room field.2.lexemes field.2) :
    Reads limit (room + 1) (lexemes (.object fields)) (.object fields) := by
  intro stack phase hphase hroom
  have hlt : stack.length < limit := by omega
  have hopen : step limit ⟨stack, phase⟩ .openObject =
      some ⟨.object [] "" :: stack, .firstKey⟩ := by
    rw [step_eq_begin hphase stack .openObject nofun]
    exact if_pos hlt
  have hfield : ∀ field ∈ fields, ∀ done r, InObject stack done r →
      (Lexeme.scalar (.string field.1) :: .colon :: field.2.lexemes).foldlM (step limit) r =
        some ⟨.object (field :: done) field.1 :: stack, .separator⟩ := by
    rintro ⟨key, value⟩ hfield done ⟨_, phase⟩ ⟨⟨previous, rfl⟩, hphase⟩
    have hroom' : (OpenValue.object done key :: stack).length + room ≤ limit := by
      rw [List.length_cons]
      omega
    -- The key replaces the previous one before its value is read
    have hvalue := hfields _ hfield _ .value (.inl rfl) hroom'
    rcases hphase with rfl | rfl
    · exact hvalue
    · exact hvalue
  rw [lexemes, List.foldlM_cons, hopen, fieldLexemes_eq_map]
  show (_ : List Lexeme).foldlM (step limit) _ = _
  cases fields with
  | nil => rfl
  | cons field fields =>
    have hcomma : ∀ done r, (∃ key, r = ⟨.object done key :: stack, .separator⟩) →
        ∃ r', step limit r .comma = some r' ∧ InObject stack done r' := by
      rintro done _ ⟨key, rfl⟩
      exact ⟨_, rfl, ⟨key, rfl⟩, .inl rfl⟩
    have hfirst : InObject stack [] ⟨.object [] "" :: stack, .firstKey⟩ := ⟨⟨"", rfl⟩, .inr rfl⟩
    obtain ⟨r, hrow, key, rfl⟩ := exists_foldlM_row _ hcomma (List.cons_ne_nil field fields)
      (fun a ha done r hr => ⟨_, hfield a ha done r hr, a.1, rfl⟩) hfirst
    rw [List.foldlM_append, hrow]
    show some (deliver stack (.object _)) = _
    rw [List.append_nil, List.reverse_reverse]

/-- The lexemes of a value are read as the value. -/
theorem reads_lexemes {room : Nat} {value : Json} (h : Plain room value) :
    Reads limit room value.lexemes value := by
  induction h with
  | null => exact reads_scalar _ _
  | bool value => exact reads_scalar _ _
  | integer hlow hhigh => exact reads_scalar _ _
  | string value => exact reads_scalar _ _
  | array hitems ih => exact reads_array ih
  | object hfields ih => exact reads_object ih

end Reading

/-- A value comes back from its text. -/
theorem read?_pretty {limit : Nat} {value : Json} (h : Plain limit value) :
    read? limit value.pretty = some value := by
  -- The text has the lexemes of the value, and those are read as the value
  have hlexemes := writes_prettyAt h 0 [] [] ends_nil (by rw [lexemes?])
  rw [List.append_nil, List.append_nil] at hlexemes
  have hread := Reading.reads_lexemes h [] .value (.inl rfl) (Nat.le_of_eq (Nat.zero_add limit))
  rw [read?, pretty, hlexemes]
  show (value.lexemes.foldlM (Reading.step limit) ⟨[], .value⟩).bind Reading.finish? = _
  rw [hread]
  rfl

/-- Values with the same text are the same. -/
theorem pretty_inj {limit : Nat} {v w : Json} (hv : Plain limit v) (hw : Plain limit w)
    (h : v.pretty = w.pretty) : v = w := by
  have hread := read?_pretty hv
  rw [h, read?_pretty hw] at hread
  exact (Option.some.inj hread).symm

end Reckoner.Json
