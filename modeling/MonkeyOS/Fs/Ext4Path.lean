import Mathlib.Data.List.DropRight

/-!
# Paths for the ext4 library

`path_deal_with` of `filesystem/fs/src/ext4_shim.rs`, which calls itself until nothing is
left to rewrite. A text is the list of its characters, and `parent` the path of the file.
-/

set_option autoImplicit false

namespace MonkeyOS.Fs.Ext4Path

open List

abbrev Text := List Char

def isSlash (char : Char) : Bool := char == '/'

/-- `trim_matches('/')` -/
def trimSlashes (path : Text) : Text := (path.dropWhile isSlash).rdropWhile isSlash

/-- `strip_prefix("./")` -/
def stripDot : Text → Option Text
  | '.' :: '/' :: rest => some rest
  | _ => none

/-- `replace("//", "/")` goes on behind what it has replaced. -/
def replaceSlashes : Text → Text
  | '/' :: '/' :: rest => '/' :: replaceSlashes rest
  | char :: rest => char :: replaceSlashes rest
  | [] => []

variable {path rest p : Text}

theorem replaceSlashes_shorter (path : Text) :
    replaceSlashes path = path ∨ (replaceSlashes path).length < path.length := by
  induction path using replaceSlashes.induct with
  | case1 rest ih =>
    rw [replaceSlashes]
    rcases ih with same | shorter
    · simp [same]
    · simp only [length_cons]
      omega
  | case2 _ rest single ih =>
    rw [replaceSlashes]
    · rcases ih with same | shorter
      · exact .inl (by rw [same])
      · exact .inr (Nat.succ_lt_succ shorter)
    · exact single
  | case3 => exact .inl rfl

theorem length_trimSlashes_le (path : Text) : (trimSlashes path).length ≤ path.length := by
  have kept : trimSlashes path <+: path.dropWhile isSlash := rdropWhile_prefix _ _
  exact kept.length_le.trans (dropWhile_suffix _).length_le

theorem stripDot_eq_some (stripped : stripDot path = some rest) : path = '.' :: '/' :: rest := by
  unfold stripDot at stripped
  split at stripped
  · cases stripped
    rfl
  · cases stripped

def pathDealWith (parent path : Text) : Text :=
  let p := trimSlashes path
  if p = [] ∨ p = ['.'] then []
  else
    match _ : stripDot p with
    | some rest => pathDealWith parent rest
    | none =>
      let restP := replaceSlashes p
      if _ : p ≠ restP then pathDealWith parent restP
      else parent.rdropWhile isSlash ++ '/' :: p
termination_by path.length
decreasing_by
  · have shorter : p.length ≤ path.length := length_trimSlashes_le path
    rw [stripDot_eq_some ‹stripDot p = some _›, length_cons, length_cons] at shorter
    omega
  · exact ((replaceSlashes_shorter _).resolve_left (Ne.symm ‹_›)).trans_le (length_trimSlashes_le path)

/-- The nonempty pieces between slashes, without dots at the start. -/
def components (path : Text) : List Text := (path.splitOn '/').filter (· ≠ [])

def cleaned (path : Text) : List Text := (components path).dropWhile (· == ['.'])

/-! ## What rewriting keeps -/

theorem components_append (first second : Text) :
    components (first ++ '/' :: second) = components first ++ components second := by
  rw [components, splitOn_append_cons_self, filter_append]
  rfl

theorem components_cons_slash (path : Text) : components ('/' :: path) = components path :=
  components_append [] path

theorem components_replaceSlashes (path : Text) : components (replaceSlashes path) = components path := by
  have behind (before : Text) : components (before ++ replaceSlashes path) = components (before ++ path) := by
    induction path using replaceSlashes.induct generalizing before with
    | case1 rest ih =>
      have one := ih (before ++ ['/'])
      rw [append_assoc, append_assoc, singleton_append, singleton_append] at one
      rw [replaceSlashes, one, components_append, components_append, components_cons_slash]
    | case2 char rest single ih =>
      have one := ih (before ++ [char])
      rw [append_assoc, append_assoc, singleton_append, singleton_append] at one
      rw [replaceSlashes, one]
      exact single
    | case3 => rfl
  exact behind []

theorem components_trimSlashes (path : Text) : components (trimSlashes path) = components path := by
  have front : components (path.dropWhile isSlash) = components path := by
    induction path with
    | nil => rfl
    | cons char _ ih =>
      by_cases slash : isSlash char
      · rw [dropWhile_cons_of_pos slash, ih, eq_of_beq slash, components_cons_slash]
      · rw [dropWhile_cons_of_neg slash]
  have back (text : Text) : components (text.rdropWhile isSlash) = components text := by
    induction text using List.reverseRecOn with
    | nil => rfl
    | append_singleton text char ih =>
      by_cases slash : isSlash char
      · rw [rdropWhile_concat_pos _ _ _ slash, ih, eq_of_beq slash, components_append]
        exact (append_nil _).symm
      · rw [rdropWhile_concat_neg _ _ _ slash]
  rw [trimSlashes, back, front]

/-! ## What is left -/

theorem head_trimSlashes (path : Text) : (trimSlashes path).head? ≠ some '/' := by
  intro slash
  obtain ⟨_, whole⟩ := rdropWhile_prefix isSlash (path.dropWhile isSlash)
  have first := head?_dropWhile_not isSlash path
  rw [← whole, ← trimSlashes, head?_append, slash] at first
  cases first

theorem last_trimSlashes (path : Text) : (trimSlashes path).getLast? ≠ some '/' := by
  intro slash
  obtain ⟨front, whole⟩ := getLast?_eq_some_iff.mp slash
  have kept : (trimSlashes path).rdropWhile isSlash = trimSlashes path := rdropWhile_idempotent _ _
  rw [whole, rdropWhile_concat_pos _ _ _ rfl] at kept
  have inside : front.rdropWhile isSlash <+: front := rdropWhile_prefix _ _
  rw [kept] at inside
  have shorter := inside.length_le
  rw [length_append] at shorter
  exact absurd shorter (Nat.not_le.mpr (Nat.lt_succ_self _))

/-- Without two slashes in a row or one at the end, only the first piece can be empty. -/
theorem pieces_nonempty (fixed : replaceSlashes p = p) (ends : p.getLast? ≠ some '/') :
    ∀ piece ∈ (p.splitOn '/').tail, piece ≠ [] := by
  induction p using replaceSlashes.induct with
  | case1 rest _ =>
    rw [replaceSlashes, List.cons.injEq] at fixed
    have length := congrArg List.length fixed.2
    rcases replaceSlashes_shorter rest with same | _
    · rw [same] at length
      exact absurd length (Nat.ne_of_lt (Nat.lt_succ_self _))
    · simp only [length_cons] at length
      omega
  | case2 char rest single ih =>
    rw [replaceSlashes, List.cons.injEq] at fixed
    · rw [splitOn_cons_eq_if_modifyHead]
      cases rest with
      | nil =>
        have other : char ≠ '/' := fun slash => ends (by rw [slash]; rfl)
        simp [other]
      | cons next rest =>
        have below := ih fixed.2 (by rwa [getLast?_cons_cons] at ends)
        split
        · next slash =>
          have other : next ≠ '/' := fun double => single rest (eq_of_beq slash) (by rw [double])
          rw [splitOn_cons_eq_if_modifyHead, if_neg (by simpa using other)] at below ⊢
          obtain ⟨_, _, split⟩ := exists_cons_of_ne_nil (splitOn_ne_nil '/' rest)
          rw [split, modifyHead_cons] at below ⊢
          exact forall_mem_cons.mpr ⟨cons_ne_nil _ _, below⟩
        · rw [tail_modifyHead]
          exact below
    · exact single
  | case3 => simp

theorem cleaned_normal (nonempty : p ≠ []) (starts : p.head? ≠ some '/') (ends : p.getLast? ≠ some '/')
    (notDot : p ≠ ['.']) (stripped : stripDot p = none) (fixed : replaceSlashes p = p) :
    cleaned p = p.splitOn '/' := by
  obtain ⟨first, others, split⟩ := exists_cons_of_ne_nil (splitOn_ne_nil '/' p)
  have whole : ['/'].intercalate (p.splitOn '/') = p := intercalate_splitOn '/'
  have pieces := pieces_nonempty fixed ends
  rw [split] at whole pieces
  have filled : first ≠ [] := by
    rintro rfl
    cases others with
    | nil => exact nonempty whole.symm
    | cons next others => exact starts (by rw [← whole]; rfl)
  have named : first ≠ ['.'] := by
    rintro rfl
    cases others with
    | nil => exact notDot whole.symm
    | cons next others =>
      rw [← whole] at stripped
      cases stripped
  rw [cleaned, components, split, filter_eq_self.mpr, dropWhile_cons_of_neg]
  · simpa using named
  · simpa using ⟨filled, pieces⟩

theorem cleaned_trimSlashes (path : Text) : cleaned (trimSlashes path) = cleaned path := by
  rw [cleaned, components_trimSlashes, cleaned]

/-- Rewriting ends, with the components below the path of the file. -/
theorem path_cleaned (parent path : Text) :
    pathDealWith parent path = if cleaned path = [] then []
      else parent.rdropWhile isSlash ++ '/' :: ['/'].intercalate (cleaned path) := by
  induction path using pathDealWith.induct with
  | case1 path p done =>
    have empty : cleaned path = [] := by
      rw [← cleaned_trimSlashes]
      rcases done with none | dot
      · exact congrArg cleaned none
      · exact congrArg cleaned dot
    rw [pathDealWith, if_pos done, if_pos empty]
  | case2 path p more rest stripped ih =>
    have dotted : trimSlashes path = ['.'] ++ '/' :: rest := stripDot_eq_some stripped
    have kept : cleaned path = cleaned rest := by
      rw [← cleaned_trimSlashes, dotted, cleaned, components_append]
      rfl
    rw [pathDealWith, if_neg more, kept, ← ih]
    split
    · next found =>
      cases stripped.symm.trans found
      rfl
    · next found => cases stripped.symm.trans found
  | case3 path p more stripped restP changed ih =>
    have kept : cleaned path = cleaned restP := by
      rw [← cleaned_trimSlashes, cleaned, cleaned, components_replaceSlashes]
    rw [pathDealWith, if_neg more, kept, ← ih]
    split
    · next found => cases stripped.symm.trans found
    · exact dif_pos changed
  | case4 path p more stripped restP fixed =>
    obtain ⟨nonempty, notDot⟩ := not_or.mp more
    have pieces : cleaned path = p.splitOn '/' := by
      rw [← cleaned_trimSlashes]
      exact cleaned_normal nonempty (head_trimSlashes path) (last_trimSlashes path) notDot stripped
        (not_not.mp fixed).symm
    rw [pathDealWith, if_neg more, pieces, if_neg (splitOn_ne_nil _ _), intercalate_splitOn]
    split
    · next found => cases stripped.symm.trans found
    · exact dif_neg fixed

end MonkeyOS.Fs.Ext4Path
