import Reckoner.Path

/-!
# Segments of dotted paths

`Path.segments` and `Path.join` are inverse to each other: joining the segments of a
path gives the path, and segments without a dot come back from the joined path.
-/

namespace Reckoner.Path

/-- `splitDots` is the splitting of the standard library at a dot. -/
private theorem splitDots_eq_splitOn (text : List Char) : splitDots text = text.splitOn '.' := by
  induction text with
  | nil => rfl
  | cons c rest ih =>
    rw [splitDots, List.splitOn_cons_eq_if_modifyHead, ← ih]
    by_cases hc : c = '.'
    · rw [if_pos hc, if_pos (by simpa using hc)]
    · rw [if_neg hc, if_neg (by simpa using hc)]
      -- The splitting of the rest has a first run, which the character joins
      cases h : splitDots rest with
      | nil => exact absurd (ih.symm.trans h) (List.splitOn_ne_nil _ _)
      | cons run runs => rfl

/-- The characters of the segments are the splitting of the characters of the path. -/
private theorem map_toList_segments (path : String) :
    (segments path).map String.toList = path.toList.splitOn '.' := by
  have hid : String.toList ∘ String.ofList = id := funext fun _ => String.toList_ofList
  rw [segments, splitDots_eq_splitOn, List.map_map, hid, List.map_id]

/-- A path has at least one segment. -/
theorem segments_ne_nil (path : String) : segments path ≠ [] := by
  intro h
  have := map_toList_segments path
  rw [h, List.map_nil] at this
  exact List.splitOn_ne_nil _ _ this.symm

/-- Lists of texts are equal if their characters are. -/
private theorem eq_of_map_toList_eq {ss ts : List String}
    (h : ss.map String.toList = ts.map String.toList) : ss = ts :=
  (List.map_inj_right fun _ _ => String.toList_inj.mp).mp h

/-- A path is the join of its segments. -/
theorem join_segments (path : String) : join (segments path) = path := by
  apply String.toList_inj.mp
  rw [join, String.toList_intercalate, map_toList_segments]
  exact List.intercalate_splitOn '.'

/-- Segments without a dot are the segments of their join. -/
theorem segments_join {ss : List String} (hne : ss ≠ []) (hdots : ∀ s ∈ ss, '.' ∉ s.toList) :
    segments (join ss) = ss := by
  apply eq_of_map_toList_eq
  rw [map_toList_segments, join, String.toList_intercalate]
  apply List.splitOn_intercalate '.'
  · simpa using hdots
  · simpa using hne

/-- A name without a dot is its own only segment. -/
theorem segments_of_not_mem {name : String} (h : '.' ∉ name.toList) : segments name = [name] := by
  have hjoin : segments (join [name]) = [name] := segments_join (by simp) (by simpa using h)
  rwa [join, String.intercalate_singleton] at hjoin

/-- A dot between two paths puts their segments behind each other. -/
theorem segments_dot (path rest : String) :
    segments (path ++ "." ++ rest) = segments path ++ segments rest := by
  apply eq_of_map_toList_eq
  have htext : (path ++ "." ++ rest).toList = path.toList ++ '.' :: rest.toList := by
    simp
  rw [List.map_append, map_toList_segments, map_toList_segments, map_toList_segments, htext,
    List.splitOn_append_cons_self]

/-- A dot and a name without one add a segment behind the others. -/
theorem segments_append_dot (path : String) {name : String} (h : '.' ∉ name.toList) :
    segments (path ++ "." ++ name) = segments path ++ [name] := by
  rw [segments_dot, segments_of_not_mem h]

end Reckoner.Path
