import IrohNix.Lib.Text

namespace IrohNix.Lib

/-- Walking the components of a path from a directory: a name leads down, `..`
up, the empty component and `.` nowhere. No walk leads above the directory. -/
def walk (stack : List (List Char)) : List (List Char) → Option (List (List Char))
  | [] => some stack
  | component :: rest =>
    if component = [] ∨ component = ['.'] then walk stack rest
    else if component = ['.', '.'] then
      match stack with
      | [] => none
      | _ :: up => walk up rest
    else walk (component :: stack) rest

/-- Lexically inside a directory, given with its closing slash: at least one
non-empty component, and no `..` leads out. -/
def Inside (directory path : String) : Prop :=
  ∃ rest, stripPrefix directory path = some rest ∧
    (∃ component ∈ rest.toList.splitOn '/', component ≠ []) ∧
    (walk [] (rest.toList.splitOn '/')).isSome

instance (directory path : String) : Decidable (Inside directory path) :=
  match h : stripPrefix directory path with
  | none => .isFalse (by simp [Inside, h])
  | some rest =>
    decidable_of_iff ((∃ component ∈ rest.toList.splitOn '/', component ≠ []) ∧
      (walk [] (rest.toList.splitOn '/')).isSome) (by simp [Inside, h])

theorem Inside.rest_ne_empty {directory path : String} (h : Inside directory path) :
    ∃ rest, path = directory ++ rest ∧ rest ≠ "" := by
  obtain ⟨rest, hp, ⟨component, hmem, hne⟩, _⟩ := h
  refine ⟨rest, stripPrefix_eq_some.mp hp, ?_⟩
  intro h
  obtain rfl := h
  simp at hmem
  exact hne hmem

end IrohNix.Lib
