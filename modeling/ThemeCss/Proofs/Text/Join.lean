import ThemeCss.Text.Basic

/-!
# Joined texts

Joining alternates the parts with the glue, so a property that concatenation keeps passes from both
to what is joined, and a map that goes through concatenation goes through joining. An empty last
part leaves a last glue.
-/
namespace ThemeCss.Text

section intercalate

variable {α β : Type} {glue : List α}

/-- What each part and the glue have, the joined list has. -/
theorem intercalate_induction {P : List α → Prop} (nil : P [])
    (append : ∀ first second, P first → P second → P (first ++ second)) (glued : P glue)
    {parts : List (List α)} (each : ∀ part ∈ parts, P part) : P (glue.intercalate parts) := by
  induction parts with
  | nil => exact nil
  | cons part others ih =>
    simp only [List.forall_mem_cons] at each
    cases others with
    | nil => simpa using each.1
    | cons other others =>
      rw [List.intercalate_cons_cons]
      exact append _ _ (append _ _ each.1 glued) (ih each.2)

theorem mem_intercalate {parts : List (List α)} {part : List α} (listed : part ∈ parts) {x : α}
    (member : x ∈ part) : x ∈ glue.intercalate parts := by
  induction parts with
  | nil => simp at listed
  | cons first others ih =>
    cases others with
    | nil =>
      obtain rfl : part = first := by simpa using listed
      simpa using member
    | cons other others =>
      rw [List.intercalate_cons_cons, List.mem_append, List.mem_append]
      rcases List.mem_cons.mp listed with rfl | later
      · exact .inl (.inl member)
      · exact .inr (ih later)

/-- What goes through concatenation goes through joining. -/
theorem map_intercalate {f : List α → List β} (nil : f [] = [])
    (append : ∀ first second, f (first ++ second) = f first ++ f second) (parts : List (List α)) :
    f (glue.intercalate parts) = (f glue).intercalate (parts.map f) := by
  induction parts with
  | nil => simpa using nil
  | cons part others ih =>
    cases others with
    | nil => simp
    | cons other others =>
      rw [List.intercalate_cons_cons, append, append, ih]
      simp [List.intercalate_cons_cons]

end intercalate

theorem join_cons_cons (glue part other : Text) (others : List Text) :
    join glue (part :: other :: others)
      = part ++ (glue ++ join glue (other :: others)) := by
  simp [join, List.intercalate_cons_cons]

theorem join_concat {glue : Text} {parts : List Text} (some : parts ≠ []) :
    join glue (parts ++ [[]]) = join glue parts ++ glue := by
  induction parts with
  | nil => exact absurd rfl some
  | cons part others ih =>
    -- The glue behind the last part is the glue in front of the empty one.
    cases others with
    | nil => simp [join, List.intercalate_cons_cons]
    | cons other others =>
      have inner := ih (by simp)
      simp only [List.cons_append, join_cons_cons] at inner ⊢
      rw [inner]
      simp

end ThemeCss.Text
