import WorkflowEngine.SortedMap

/-! # JSON Documents and Values

    A `Document` is JSON as it is written: the fields of an object stand in
    some order and may repeat. A `Json` is what a document means: every
    object lists each of its fields once, in ascending order, and of a
    repeated field the last one counts. Values that mean the same are equal,
    and a zero means its sign as well.
-/

namespace WorkflowEngine

/-- JSON as it is written. -/
inductive Document where
  | null
  | bool (b : Bool)
  | integer (n : Int)
  | float (x : Float)
  | text (s : String)
  | array (items : List Document)
  | object (fields : List (String × Document))
  /-- Well-formed text that stands for no value: a number out of range, a text
      with half of a surrogate pair, or nesting beyond the limit. Readers
      refuse it, and passing over an unknown field ignores it. -/
  | unreadable
  deriving Inhabited

namespace Document

/-! ## Equality -/

mutual

/-- Decide whether two documents are written alike. -/
def decEq : (a b : Document) → Decidable (a = b)
  | .null, b => by cases b <;> first | exact isTrue rfl | exact isFalse nofun
  | .bool x, .bool y =>
    if h : x = y then isTrue (h ▸ rfl) else isFalse fun e => h (Document.bool.inj e)
  | .integer x, .integer y =>
    if h : x = y then isTrue (h ▸ rfl) else isFalse fun e => h (Document.integer.inj e)
  | .float x, .float y =>
    if h : x = y then isTrue (h ▸ rfl) else isFalse fun e => h (Document.float.inj e)
  | .text x, .text y =>
    if h : x = y then isTrue (h ▸ rfl) else isFalse fun e => h (Document.text.inj e)
  | .array xs, .array ys =>
    match decEqItems xs ys with
    | isTrue h => isTrue (h ▸ rfl)
    | isFalse h => isFalse fun e => h (Document.array.inj e)
  | .object xs, .object ys =>
    match decEqFields xs ys with
    | isTrue h => isTrue (h ▸ rfl)
    | isFalse h => isFalse fun e => h (Document.object.inj e)
  | .unreadable, b => by cases b <;> first | exact isTrue rfl | exact isFalse nofun
  | .bool _, .null | .bool _, .integer _ | .bool _, .float _ | .bool _, .text _
  | .bool _, .array _ | .bool _, .object _ | .bool _, .unreadable => isFalse nofun
  | .integer _, .null | .integer _, .bool _ | .integer _, .float _ | .integer _, .text _
  | .integer _, .array _ | .integer _, .object _ | .integer _, .unreadable => isFalse nofun
  | .float _, .null | .float _, .bool _ | .float _, .integer _ | .float _, .text _
  | .float _, .array _ | .float _, .object _ | .float _, .unreadable => isFalse nofun
  | .text _, .null | .text _, .bool _ | .text _, .integer _ | .text _, .float _
  | .text _, .array _ | .text _, .object _ | .text _, .unreadable => isFalse nofun
  | .array _, .null | .array _, .bool _ | .array _, .integer _ | .array _, .float _
  | .array _, .text _ | .array _, .object _ | .array _, .unreadable => isFalse nofun
  | .object _, .null | .object _, .bool _ | .object _, .integer _ | .object _, .float _
  | .object _, .text _ | .object _, .array _ | .object _, .unreadable => isFalse nofun

/-- Decide whether two lists of documents are written alike. -/
def decEqItems : (a b : List Document) → Decidable (a = b)
  | [], [] => isTrue rfl
  | [], _ :: _ => isFalse nofun
  | _ :: _, [] => isFalse nofun
  | x :: xs, y :: ys =>
    match decEq x y, decEqItems xs ys with
    | isTrue h, isTrue hs => isTrue (h ▸ hs ▸ rfl)
    | isFalse h, _ => isFalse fun e => h (List.cons.inj e).1
    | _, isFalse hs => isFalse fun e => hs (List.cons.inj e).2

/-- Decide whether two lists of fields are written alike. -/
def decEqFields : (a b : List (String × Document)) → Decidable (a = b)
  | [], [] => isTrue rfl
  | [], _ :: _ => isFalse nofun
  | _ :: _, [] => isFalse nofun
  | (j, x) :: xs, (k, y) :: ys =>
    if hk : j = k then
      match decEq x y, decEqFields xs ys with
      | isTrue h, isTrue hs => isTrue (hk ▸ h ▸ hs ▸ rfl)
      | isFalse h, _ => isFalse fun e => h (Prod.mk.inj (List.cons.inj e).1).2
      | _, isFalse hs => isFalse fun e => hs (List.cons.inj e).2
    else isFalse fun e => hk (Prod.mk.inj (List.cons.inj e).1).1

end

instance : DecidableEq Document := decEq

/-! ## Meaning -/

/-- Whether the fields of an object stand in strictly ascending order. -/
def ascending (fields : List (String × Document)) : Bool :=
  decide (fields.Pairwise (fun a b => a.1 < b.1))

mutual

/-- Whether a document is written in the one way that its meaning prescribes. -/
def isCanonical : Document → Bool
  | .array items => itemsCanonical items
  | .object fields => ascending fields && fieldsCanonical fields
  | .unreadable => false
  | .null | .bool _ | .integer _ | .float _ | .text _ => true

/-- Whether all documents of a list are canonical. -/
def itemsCanonical : List Document → Bool
  | [] => true
  | d :: rest => isCanonical d && itemsCanonical rest

/-- Whether the values of all fields are canonical. -/
def fieldsCanonical : List (String × Document) → Bool
  | [] => true
  | (_, d) :: rest => isCanonical d && fieldsCanonical rest

end

mutual

/-- The canonical document of the same meaning; there is none for an unreadable one. -/
def normalize? : Document → Option Document
  | .array items => (normalizeItems? items).map .array
  | .object fields =>
    (normalizeFields? fields).map fun fs => .object (SortedMap.ofList fs).entries
  | .unreadable => none
  | .null => some .null
  | .bool b => some (.bool b)
  | .integer n => some (.integer n)
  | .float x => some (.float x)
  | .text s => some (.text s)

/-- Normalize every document of a list. -/
def normalizeItems? : List Document → Option (List Document)
  | [] => some []
  | d :: rest => do
    let d ← normalize? d
    let rest ← normalizeItems? rest
    return d :: rest

/-- Normalize the value of every field. -/
def normalizeFields? : List (String × Document) → Option (List (String × Document))
  | [] => some []
  | (k, d) :: rest => do
    let d ← normalize? d
    let rest ← normalizeFields? rest
    return (k, d) :: rest

end

theorem fieldsCanonical_iff {fields : List (String × Document)} :
    fieldsCanonical fields = true ↔ ∀ e ∈ fields, e.2.isCanonical = true := by
  induction fields with
  | nil => simp [fieldsCanonical]
  | cons e rest ih => simp [fieldsCanonical, ih]

theorem fieldsCanonical_ofList {fields : List (String × Document)}
    (h : fieldsCanonical fields = true) :
    fieldsCanonical (SortedMap.ofList fields).entries = true := by
  rw [fieldsCanonical_iff] at h ⊢
  -- Generalise over the map built so far: its values are canonical as well.
  suffices ∀ (m : SortedMap String Document), (∀ e ∈ m.entries, e.2.isCanonical = true) →
      ∀ e ∈ (fields.foldl (fun m e => m.insert e.1 e.2) m).entries, e.2.isCanonical = true from
    this .empty (fun _ he => nomatch he)
  induction fields with
  | nil => exact fun m hm => hm
  | cons f rest ih =>
    intro m hm
    refine ih (fun e he => h e (List.mem_cons_of_mem _ he)) _ fun e he => ?_
    rcases SortedMap.mem_insertEntry he with rfl | he
    · exact h f List.mem_cons_self
    · exact hm e he

mutual

theorem isCanonical_normalize {d d' : Document} (h : d.normalize? = some d') :
    d'.isCanonical = true := by
  match d with
  | .null | .bool _ | .integer _ | .float _ | .text _ =>
    simp only [normalize?, Option.some.injEq] at h
    subst h
    rfl
  | .unreadable => cases h
  | .array items =>
    simp only [normalize?, Option.map_eq_some_iff] at h
    obtain ⟨items', h, rfl⟩ := h
    exact itemsCanonical_normalize h
  | .object fields =>
    simp only [normalize?, Option.map_eq_some_iff] at h
    obtain ⟨fields', h, rfl⟩ := h
    rw [isCanonical, Bool.and_eq_true]
    exact ⟨decide_eq_true (SortedMap.ofList fields').sorted,
      fieldsCanonical_ofList (fieldsCanonical_normalize h)⟩

theorem itemsCanonical_normalize {items items' : List Document}
    (h : normalizeItems? items = some items') : itemsCanonical items' = true := by
  match items with
  | [] =>
    simp only [normalizeItems?, Option.some.injEq] at h
    subst h
    rfl
  | d :: rest =>
    simp only [normalizeItems?, Option.bind_eq_bind, Option.bind_eq_some_iff] at h
    obtain ⟨d', hd, rest', hrest, heq⟩ := h
    cases heq
    rw [itemsCanonical, isCanonical_normalize hd, itemsCanonical_normalize hrest]
    rfl

theorem fieldsCanonical_normalize {fields fields' : List (String × Document)}
    (h : normalizeFields? fields = some fields') : fieldsCanonical fields' = true := by
  match fields with
  | [] =>
    simp only [normalizeFields?, Option.some.injEq] at h
    subst h
    rfl
  | (k, d) :: rest =>
    simp only [normalizeFields?, Option.bind_eq_bind, Option.bind_eq_some_iff] at h
    obtain ⟨d', hd, rest', hrest, heq⟩ := h
    cases heq
    rw [fieldsCanonical, isCanonical_normalize hd, fieldsCanonical_normalize hrest]
    rfl

end

end Document

/-- What a document means. -/
structure Json where
  /-- The canonical document of this meaning. -/
  document : Document
  /-- The document is the canonical one. -/
  canonical : document.isCanonical = true
  deriving DecidableEq

namespace Json

instance : Inhabited Json := ⟨⟨.null, rfl⟩⟩

/-- The meaning of a document, unless a part of it is unreadable. -/
def ofDocument? (d : Document) : Option Json :=
  match h : d.normalize? with
  | some d' => some ⟨d', Document.isCanonical_normalize h⟩
  | none => none

end Json

end WorkflowEngine
