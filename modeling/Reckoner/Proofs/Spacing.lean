import Reckoner.Proofs.Adjacency

/-!
# Spaces in formulas

A formula can be scanned in two parts, with any number of spaces at the place between them,
unless without a space a run of letters or of digits would go across it.  The only thing that
the first part needs to know of the second is whether it opens a call; the only thing that the
second part needs to know of the first is how many bytes it has.  So spaces have no meaning of
their own.

## Key results

- `Formula.scan_join`: the items of two texts with spaces between them
- `Formula.scan_join_items`: the same law item by item, and its independence of the number of
  spaces
-/

namespace Reckoner

namespace Token

/-! ## The last word -/

/-- A word at the end becomes the name of a function. -/
private theorem callLast_concat_word (front : List (Except Fault Token)) (name : String) :
    callLast (front ++ [.ok (.word name)]) = front ++ [.ok (.function name)] := by
  induction front with
  | nil => rfl
  | cons item front ih =>
    rw [List.cons_append, List.cons_append, ← ih, callLast]
    -- An item with others behind it is not the last one
    rintro _ - h
    exact absurd h (by simp)

/-- Where no word is last nothing is called. -/
private theorem callLast_eq_self {items : List (Except Fault Token)}
    (h : ∀ front name, items ≠ front ++ [.ok (.word name)]) : callLast items = items := by
  induction items with
  | nil => rfl
  | cons item items ih =>
    have hitems : callLast items = items :=
      ih fun front name heq => h (item :: front) name (congrArg (item :: ·) heq)
    rw [callLast, hitems]
    rintro name rfl rfl
    exact h [] name rfl

/-- Looking ahead goes through spaces. -/
private theorem opensCall_spaces (k : Nat) (text : List Char) :
    opensCall (List.replicate k ' ' ++ text) = opensCall text := by
  have hnone : scanFrom 0 (List.replicate k ' ') = [] := by
    have hspaces := scanFrom_spaces k 0 []
    rwa [List.append_nil, scanFrom_nil] at hspaces
  exact opensCall_append_of_eq_nil hnone text

end Token

namespace Formula

open Token

variable {s t : String} {k : Nat}

/-- The first character of the formula that is no space is an opening parenthesis. -/
def Opens (t : String) : Prop :=
  ∃ spaces rest, t.toList = List.replicate spaces ' ' ++ '(' :: rest

/-- Two texts with spaces between them have the items of the first, of which a word at the end
    is called if the second opens a call, and then those of the second, further on by the bytes
    in front of it. -/
theorem scan_join (h : 0 < k ∨ Boundary s.toList t.toList) :
    scan (join s t k) =
      inFrontOf t.toList (scan s) ++ (scan t).map (moved (s.utf8ByteSize + k)) := by
  have hbytes : bytes s.toList = s.utf8ByteSize := congrArg String.utf8ByteSize String.ofList_toList
  rw [scan, join, String.toList_append, String.toList_append, String.toList_ofList,
    List.append_assoc, scanFrom_append (boundary_spaces h), scanFrom_spaces, inFrontOf,
    opensCall_spaces, hbytes, Nat.add_assoc, scanFrom_add]
  rfl

/-- Two texts with spaces between them, or with none if that joins no two letters and no two
    digits, have the items of the first and then those of the second, whose illegal characters
    stand further on by the bytes in front of it; except that a word at the end of the first
    text becomes a function if the second opens a call.  So the number of spaces changes no
    token. -/
theorem scan_join_items (s t : String) (k : Nat) (h : 0 < k ∨ Boundary s.toList t.toList) :
    (∀ front name, scan s = front ++ [.ok (.word name)] → Opens t →
      scan (join s t k) =
        front ++ [.ok (.function name)] ++ (scan t).map (moved (s.utf8ByteSize + k))) ∧
    ((Opens t → ∀ front name, scan s ≠ front ++ [.ok (.word name)]) →
      scan (join s t k) = scan s ++ (scan t).map (moved (s.utf8ByteSize + k))) ∧
    ∀ k', 0 < k' ∨ Boundary s.toList t.toList →
      (scan (join s t k')).map Except.toOption = (scan (join s t k)).map Except.toOption ∧
      ∀ ts, (tokens (join s t k')).outcome = .ok ts ↔ (tokens (join s t k)).outcome = .ok ts := by
  have hopens : opensCall t.toList ↔ Opens t := opensCall_iff_exists t.toList
  -- The items of both texts are known; only a word at the end of the first may change
  refine ⟨fun front name hs ht => ?_, fun hnone => ?_, fun k' h' => ?_⟩
  · rw [scan_join h, inFrontOf, if_pos (hopens.mpr ht), hs, callLast_concat_word]
  · rw [scan_join h, inFrontOf]
    split
    · rename_i ht
      rw [callLast_eq_self (hnone (hopens.mp ht))]
    · rfl
  · -- Offsets are in faults only, so what is made is the same for any number of spaces
    have hitems : (scan (join s t k')).map Except.toOption =
        (scan (join s t k)).map Except.toOption := by
      rw [scan_join h, scan_join h', List.map_append, List.map_append, map_toOption_moved,
        map_toOption_moved]
    refine ⟨hitems, fun ts => ?_⟩
    rw [outcome_tokens_eq_ok_iff, outcome_tokens_eq_ok_iff, eq_map_ok_iff_toOption,
      eq_map_ok_iff_toOption, hitems]

/-- Behind spaces a parenthesis still calls the word, and an illegal character stands behind
    all bytes in front of it. -/
theorem scan_join_items_call :
    Opens "(\u00e4" ∧
      scan "Add  (\u00e4" =
        [.ok (.function "Add"), .ok .leftParen, .error (.illegalCharacter '\u00e4' 6)] ∧
      ∀ k, (scan (join "Add" "(\u00e4" k)).map Except.toOption =
        [some (.function "Add"), some .leftParen, none] := by
  have hopens : Opens "(\u00e4" := ⟨0, ['\u00e4'], rfl⟩
  have hword : scan "Add" = [] ++ [.ok (.word "Add")] := by decide +kernel
  have hcall : scan "(\u00e4" = [.ok .leftParen, .error (.illegalCharacter '\u00e4' 1)] := by
    decide +kernel
  -- Letters and a parenthesis need no space between them
  have hplace : Boundary "Add".toList "(\u00e4".toList :=
    fun c _ => ⟨fun _ => clear_cons.mpr (by decide), fun _ => clear_cons.mpr (by decide)⟩
  obtain ⟨hitems, -, hspaces⟩ := scan_join_items "Add" "(\u00e4" 2 (.inl (by decide))
  have hscan := hitems [] "Add" hword hopens
  rw [hcall] at hscan
  have hjoin : join "Add" "(\u00e4" 2 = "Add  (\u00e4" := by decide
  refine ⟨hopens, ?_, fun k => ?_⟩
  · rwa [hjoin] at hscan
  · rw [(hspaces k (.inr hplace)).1, hscan]
    rfl

end Formula

end Reckoner
