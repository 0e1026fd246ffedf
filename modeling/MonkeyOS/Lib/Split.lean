import Mathlib.Data.String.Basic

/-! Splitting a text at a character: the pieces do not hold it, they are the pieces of
the parts of a text that is put together, and a text made of such pieces splits into them. -/

set_option autoImplicit false

namespace MonkeyOS.Lib

open String

/-- What the loop of `splitOn` finds behind the pieces it has `found`: `done` is split,
`piece` has no separator and `rest` is not looked at yet. -/
private theorem splitOnAux_singleton (separator : Char) (done piece rest : List Char) (found : List String) :
    splitOnAux (ofList (done ++ piece ++ rest)) (ofList [separator]) ⟨utf8Len done⟩
        ⟨utf8Len done + utf8Len piece⟩ 0 found =
      found.reverse ++ (List.splitOnPPrepend (· == separator) rest piece.reverse).map ofList := by
  induction rest generalizing done piece found with
  | nil =>
    have extracted := extract_of_valid done piece []
    have ended := (atEnd_of_valid (done ++ piece) []).mpr rfl
    rw [utf8Len_append] at ended
    rw [splitOnAux, if_pos ended, extracted]
    simp
  | cons char rest ih =>
    have extracted := extract_of_valid done piece (char :: rest)
    have current := get_of_valid (done ++ piece) (char :: rest)
    have next := next_of_valid (done ++ piece) char rest
    have inside := (atEnd_of_valid (done ++ piece) (char :: rest)).not.mpr (List.cons_ne_nil _ _)
    rw [utf8Len_append] at current next inside
    -- A separator of one character is found, or not, in one comparison.
    have wanted : Pos.Raw.get (ofList [separator]) 0 = separator := get_of_valid [] [separator]
    have behind : Pos.Raw.next (ofList [separator]) 0 = ⟨0 + separator.utf8Size⟩ := next_of_valid [] separator []
    have whole : Pos.Raw.atEnd (ofList [separator]) ⟨0 + separator.utf8Size⟩ = true :=
      (atEnd_of_valid [separator] []).mpr rfl
    rw [splitOnAux, if_neg inside, current, wanted, List.headD_cons, next, behind]
    by_cases here : char = separator
    · subst here
      have restart := ih (done ++ piece ++ [char]) [] (ofList piece :: found)
      have back : Pos.Raw.unoffsetBy ⟨utf8Len done + utf8Len piece + char.utf8Size⟩ ⟨0 + char.utf8Size⟩ =
          ⟨utf8Len done + utf8Len piece⟩ := by
        simp [Pos.Raw.ext_iff]
      simp only [BEq.rfl, if_true, whole, back, extracted]
      simpa [List.splitOnPPrepend_cons_eq_if, -ofList_append, -ofList_cons, add_assoc] using restart
    · have goesOn := ih done (piece ++ [char]) found
      have same : Pos.Raw.unoffsetBy ⟨utf8Len done + utf8Len piece⟩ 0 = ⟨utf8Len done + utf8Len piece⟩ := rfl
      rw [if_neg (by simpa using here), same, next]
      simpa [List.splitOnPPrepend_cons_eq_if, here, -ofList_append, -ofList_cons, add_assoc] using goesOn

variable {separator : Char}

theorem splitOn_eq_map (text : String) (separator : Char) :
    text.splitOn (ofList [separator]) = (text.toList.splitOn separator).map ofList := by
  have all := splitOnAux_singleton separator [] [] text.toList []
  rw [List.nil_append, List.nil_append, ofList_toList] at all
  rw [splitOn, if_neg (by simp)]
  exact all

theorem splitOn_append_separator (first second : String) (separator : Char) :
    (first ++ ofList [separator] ++ second).splitOn (ofList [separator]) =
      first.splitOn (ofList [separator]) ++ second.splitOn (ofList [separator]) := by
  simp only [splitOn_eq_map, toList_append, toList_ofList, List.append_assoc, List.singleton_append,
    List.splitOn_append_cons_self, List.map_append]

private theorem not_mem_of_mem_splitOn {piece text : List Char} (member : piece ∈ text.splitOn separator) :
    separator ∉ piece := by
  induction text generalizing piece with
  | nil =>
    rw [List.splitOn_nil, List.mem_singleton] at member
    simp [member]
  | cons char text ih =>
    obtain ⟨_, _, split⟩ := List.exists_cons_of_ne_nil (List.splitOn_ne_nil separator text)
    rw [List.splitOn_cons_eq_if_modifyHead] at member
    rw [split] at member ih
    by_cases here : char = separator
    · rw [if_pos (by simpa using here), List.mem_cons] at member
      rcases member with rfl | later
      · exact List.not_mem_nil
      · exact ih later
    · rw [if_neg (by simpa using here), List.modifyHead_cons, List.mem_cons] at member
      rcases member with rfl | later
      · exact List.not_mem_cons_of_ne_of_not_mem (Ne.symm here) (ih List.mem_cons_self)
      · exact ih (List.mem_cons_of_mem _ later)

theorem separator_not_mem_piece {piece text : String} (member : piece ∈ text.splitOn (ofList [separator])) :
    separator ∉ piece.toList := by
  rw [splitOn_eq_map, List.mem_map] at member
  obtain ⟨_, split, rfl⟩ := member
  rw [toList_ofList]
  exact not_mem_of_mem_splitOn split

theorem splitOn_intercalate_separator {pieces : List String} (some : pieces ≠ [])
    (apart : ∀ piece ∈ pieces, separator ∉ piece.toList) :
    ((ofList [separator]).intercalate pieces).splitOn (ofList [separator]) = pieces := by
  have characters : ∀ piece ∈ pieces.map toList, separator ∉ piece := by
    intro piece member
    obtain ⟨text, listed, rfl⟩ := List.mem_map.mp member
    exact apart text listed
  rw [splitOn_eq_map, toList_intercalate, toList_ofList,
    List.splitOn_intercalate separator characters (by simpa using some), List.map_map]
  simp [Function.comp_def]

end MonkeyOS.Lib
