import WorkflowEngine.Json.Document

/-! # Comparing JSON Values

    A zero is written with its sign, but as a number it has none. Values are
    therefore compared by what is left of them without the signs of their
    zeros. A float stays different from an integer, even where both are zero.
-/

namespace WorkflowEngine

namespace Document

/-- A float; of the two zeros the positive one. -/
def dropZeroSign (x : Float) : Float := if x == 0 then 0 else x

mutual

/-- The document without the signs of its zeros. -/
def dropZeroSigns : Document → Document
  | .float x => .float (dropZeroSign x)
  | .array items => .array (dropItemSigns items)
  | .object fields => .object (dropFieldSigns fields)
  | .null => .null
  | .bool b => .bool b
  | .integer n => .integer n
  | .text s => .text s
  | .unreadable => .unreadable

/-- Drop the signs of the zeros of every document of a list. -/
def dropItemSigns : List Document → List Document
  | [] => []
  | d :: rest => dropZeroSigns d :: dropItemSigns rest

/-- Drop the signs of the zeros of the value of every field. -/
def dropFieldSigns : List (String × Document) → List (String × Document)
  | [] => []
  | (k, d) :: rest => (k, dropZeroSigns d) :: dropFieldSigns rest

end

/-! ## Canonical documents stay canonical -/

theorem dropFieldSigns_eq_map (fields : List (String × Document)) :
    dropFieldSigns fields = fields.map fun f => (f.1, f.2.dropZeroSigns) := by
  induction fields with
  | nil => rfl
  | cons f rest ih => rw [dropFieldSigns, ih, List.map_cons]

theorem ascending_dropFieldSigns (fields : List (String × Document)) :
    ascending (dropFieldSigns fields) = ascending fields := by
  rw [ascending, ascending, dropFieldSigns_eq_map]
  exact decide_eq_decide.mpr List.pairwise_map

mutual

theorem isCanonical_dropZeroSigns (d : Document) :
    d.dropZeroSigns.isCanonical = d.isCanonical := by
  match d with
  | .null | .bool _ | .integer _ | .float _ | .text _ | .unreadable => rfl
  | .array items =>
    rw [dropZeroSigns, isCanonical, isCanonical]
    exact itemsCanonical_dropItemSigns items
  | .object fields =>
    rw [dropZeroSigns, isCanonical, isCanonical, ascending_dropFieldSigns,
      fieldsCanonical_dropFieldSigns]

theorem itemsCanonical_dropItemSigns (items : List Document) :
    itemsCanonical (dropItemSigns items) = itemsCanonical items := by
  match items with
  | [] => rfl
  | d :: rest =>
    rw [dropItemSigns, itemsCanonical, itemsCanonical, isCanonical_dropZeroSigns,
      itemsCanonical_dropItemSigns]

theorem fieldsCanonical_dropFieldSigns (fields : List (String × Document)) :
    fieldsCanonical (dropFieldSigns fields) = fieldsCanonical fields := by
  match fields with
  | [] => rfl
  | (k, d) :: rest =>
    rw [dropFieldSigns, fieldsCanonical, fieldsCanonical, isCanonical_dropZeroSigns,
      fieldsCanonical_dropFieldSigns]

end

end Document

namespace Json

/-- The value without the signs of its zeros. -/
def dropZeroSigns (j : Json) : Json :=
  ⟨j.document.dropZeroSigns, (Document.isCanonical_dropZeroSigns _).trans j.canonical⟩

end Json

end WorkflowEngine
