import DocQuery.Text.Blank
import DocQuery.Text.Segments
import Mathlib.Data.List.Induction

set_option autoImplicit false

namespace DocQuery.Text

theorem joinPath_single (key : String) : joinPath [key] = key := String.intercalate_singleton

theorem joinPath_append {first second : List String} (filled : first ≠ []) (more : second ≠ []) :
    joinPath (first ++ second) = joinPath first ++ "." ++ joinPath second :=
  String.intercalate_append_of_ne_nil filled more

theorem joinPath_snoc {keys : List String} (nonempty : keys ≠ []) (last : String) :
    joinPath (keys ++ [last]) = joinPath keys ++ "." ++ last := by
  rw [joinPath_append nonempty (List.cons_ne_nil _ _), joinPath_single]

theorem splitChars_ne_nil (separator : Char) (chars segment : List Char) :
    splitChars separator chars segment ≠ [] := by
  induction chars generalizing segment with
  | nil => simp [splitChars]
  | cons c rest ih =>
    by_cases found : c = separator
    · simp [splitChars, found]
    · simpa [splitChars, found] using ih (c :: segment)

theorem segments_ne_nil (separator : Char) (s : String) : segments separator s ≠ [] :=
  splitChars_ne_nil separator s.toList []

theorem splitChars_append (separator : Char) (first second segment : List Char) :
    splitChars separator (first ++ separator :: second) segment =
      splitChars separator first segment ++ splitChars separator second [] := by
  induction first generalizing segment with
  | nil => simp [splitChars]
  | cons c rest ih =>
    by_cases found : c = separator <;> simp [splitChars, found, ih]

theorem segments_append (first second : String) :
    segments '.' (first ++ "." ++ second) = segments '.' first ++ segments '.' second := by
  simpa [segments] using splitChars_append '.' first.toList second.toList []

theorem splitChars_whole {separator : Char} {chars : List Char} (whole : separator ∉ chars)
    (segment : List Char) :
    splitChars separator chars segment = [String.ofList (segment.reverse ++ chars)] := by
  induction chars generalizing segment with
  | nil => simp [splitChars]
  | cons c rest ih =>
    obtain ⟨here, later⟩ := List.ne_and_not_mem_of_not_mem_cons whole
    simp [splitChars, Ne.symm here, ih later]

theorem segments_whole {key : String} (undotted : '.' ∉ key.toList) : segments '.' key = [key] := by
  simpa [segments] using splitChars_whole undotted []

theorem segments_joinPath {keys : List String} (nonempty : keys ≠ [])
    (undotted : ∀ key ∈ keys, '.' ∉ key.toList) : segments '.' (joinPath keys) = keys := by
  induction keys using List.reverseRecOn with
  | nil => exact absurd rfl nonempty
  | append_singleton keys last ih =>
    obtain ⟨before, own⟩ := List.forall_mem_append.mp undotted
    have single : segments '.' last = [last] := segments_whole (own last List.mem_cons_self)
    by_cases first : keys = []
    · rw [first, List.nil_append, joinPath_single, single]
    · rw [joinPath_snoc first, segments_append, ih first before, single]

end DocQuery.Text
