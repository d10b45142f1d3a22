/-!
Cuts a text at every occurrence of a character. The pieces joined by that character are
the text (`join_split`).
-/

namespace PortablePdb.Text

/-- The pieces between the separators, of which there is always one more than there are
separators. -/
def split (separator : Char) : List Char → List (List Char)
  | [] => [[]]
  | c :: rest =>
    if c = separator then [] :: split separator rest
    else
      match split separator rest with
      | [] => [[c]]
      | piece :: pieces => (c :: piece) :: pieces

theorem split_ne_nil (separator : Char) (cs : List Char) : split separator cs ≠ [] := by
  cases cs with
  | nil => simp [split]
  | cons c rest =>
    rw [split]
    split
    · simp
    · split <;> simp

theorem join_split (separator : Char) (cs : List Char) :
    [separator].intercalate (split separator cs) = cs := by
  induction cs with
  | nil => rfl
  | cons c rest ih =>
    rw [split]
    cases pieces : split separator rest with
    | nil => exact absurd pieces (split_ne_nil separator rest)
    | cons piece more =>
      rw [pieces] at ih
      by_cases same : c = separator
      · simp only [same, ite_true, ← ih, List.intercalate, List.intersperse,
          List.flatten_cons, List.nil_append, List.singleton_append]
      · cases more <;>
          simp_all [List.intercalate, List.intersperse]

end PortablePdb.Text
