import Mathlib.Data.List.Nodup
import Mathlib.Data.List.Perm.Basic
import Mathlib.Data.Option.Basic
import WorkflowEngine.Json.Fields

/-! # Shapes of Documents

    The same record can be written in many ways: as an object with its fields in
    any order, with further fields that nobody knows, without the fields that
    need not be written, or as a list. The shape of a document tells which of
    its parts are records. From there follow the ways to restate it
    (`Shape.Restates`) and the ways to spoil it (`Shape.Defective`), at any depth.

    ### Main statement

    `Shape.reads_record`: a reader that takes one field after the other
    (`Shape.Builds`) cannot tell a document from a restatement of it, and refuses
    defective ones.
-/

namespace WorkflowEngine

/-- Which parts of a document are records. -/
inductive Shape where
  /-- A document that is taken as it stands. -/
  | value
  /-- A list whose items have one shape. -/
  | list (item : Shape)
  /-- A record: for each field in order its name, what the field is if it is
      missing (nothing if it must not be missing), and its shape. -/
  | record (fields : List (String × Option Document × Shape))

namespace Shape

/-- The names of the fields of a record. -/
def names (fields : List (String × Option Document × Shape)) : List String := fields.map (·.1)

/-- Two documents say the same to whoever knows the shape. -/
inductive Restates : Shape → Document → Document → Prop where
  | refl {s : Shape} {d : Document} : Restates s d d
  | symm {s : Shape} {d d' : Document} : Restates s d d' → Restates s d' d
  | trans {s : Shape} {d d' d'' : Document} :
      Restates s d d' → Restates s d' d'' → Restates s d d''
  /-- The fields of an object stand in any order. -/
  | reordered {fs : List (String × Option Document × Shape)}
      {fields fields' : List (String × Document)} : fields.Perm fields' →
      Restates (.record fs) (.object fields) (.object fields')
  /-- A field that is not known may be added. -/
  | extended {fs : List (String × Option Document × Shape)} {name : String} {d : Document}
      {fields : List (String × Document)} : name ∉ names fs →
      Restates (.record fs) (.object fields) (.object ((name, d) :: fields))
  /-- A field that may be missing can be left out, or written out. -/
  | completed {fs : List (String × Option Document × Shape)} {name : String} {d : Document}
      {s : Shape} {fields : List (String × Document)} : (name, some d, s) ∈ fs →
      (∀ f ∈ fields, f.1 ≠ name) →
      Restates (.record fs) (.object fields) (.object ((name, d) :: fields))
  /-- A field may be restated. -/
  | within {fs : List (String × Option Document × Shape)} {name : String}
      {default? : Option Document} {s : Shape} {d d' : Document}
      {fields : List (String × Document)} : (name, default?, s) ∈ fs → Restates s d d' →
      Restates (.record fs) (.object ((name, d) :: fields)) (.object ((name, d') :: fields))
  /-- The first fields in order may be written as a list. -/
  | listed {fs : List (String × Option Document × Shape)} {items : List Document} :
      items.length ≤ fs.length →
      Restates (.record fs) (.object ((names fs).zip items)) (.array items)
  /-- An item of a list may be restated. -/
  | item {s : Shape} {d d' : Document} {before after : List Document} : Restates s d d' →
      Restates (.list s) (.array (before ++ d :: after)) (.array (before ++ d' :: after))

/-- Nothing can be read from a document, wherever in it the reason lies. -/
inductive Defective : Shape → Document → Prop where
  /-- A known field is repeated. -/
  | repeated {fs : List (String × Option Document × Shape)} {name : String}
      {fields : List (String × Document)} : name ∈ names fs →
      1 < fields.countP (fun f => f.1 == name) → Defective (.record fs) (.object fields)
  /-- A field that must not be missing is dropped. -/
  | dropped {fs : List (String × Option Document × Shape)} {name : String} {s : Shape}
      {fields : List (String × Document)} :
      (name, none, s) ∈ fs → (∀ f ∈ fields, f.1 ≠ name) →
      Defective (.record fs) (.object fields)
  /-- A list is longer than the record has fields. -/
  | overlong {fs : List (String × Option Document × Shape)} {items : List Document} :
      fs.length < items.length → Defective (.record fs) (.array items)
  /-- A known field is defective. -/
  | within {fs : List (String × Option Document × Shape)} {name : String}
      {default? : Option Document} {s : Shape} {d : Document} {fields : List (String × Document)} :
      (name, default?, s) ∈ fs → (name, d) ∈ fields → Defective s d →
      Defective (.record fs) (.object fields)
  /-- An item is defective. -/
  | item {s : Shape} {d : Document} {items : List Document} : d ∈ items → Defective s d →
      Defective (.list s) (.array items)
  /-- It does not help to restate the document. -/
  | restated {s : Shape} {d d' : Document} : Restates s d d' → Defective s d → Defective s d'

/-- A reader does not tell restatements apart, and refuses defective documents. -/
structure Reads {α : Type} (s : Shape) (read : Document → Option α) : Prop where
  restated : ∀ {d d' : Document}, s.Restates d d' → read d = read d'
  refused : ∀ {d : Document}, s.Defective d → read d = none

end Shape

/-! ## The fields of an object -/

namespace Document

variable {names : List String} {name : String} {d d' : Document}
  {fields fields' : List (String × Document)}

/-- No field of the given names is repeated. -/
def Unique (names : List String) (fields : List (String × Document)) : Prop :=
  ∀ name ∈ names, fields.countP (fun f => f.1 == name) ≤ 1

theorem fields?_of_unique (h : Unique names fields) :
    (object fields).fields? names = some (names.map fun name => fields.lookup name) := by
  have hall : (names.all fun name => fields.countP (fun f => f.1 == name) ≤ 1) = true := by
    rw [List.all_eq_true]
    exact fun name hname => decide_eq_true (h name hname)
  exact if_pos hall

theorem fields?_of_not_unique (h : ¬ Unique names fields) :
    (object fields).fields? names = none := by
  have hall : ¬ (names.all fun name => fields.countP (fun f => f.1 == name) ≤ 1) = true := by
    rw [List.all_eq_true]
    exact fun hall => h fun name hname => of_decide_eq_true (hall name hname)
  exact if_neg hall

/-- Of a field that is not repeated there is one value. -/
theorem lookup_eq_some_iff_mem (h : fields.countP (fun f => f.1 == name) ≤ 1) :
    fields.lookup name = some d ↔ (name, d) ∈ fields := by
  induction fields with
  | nil => simp
  | cons f fields ih =>
    obtain ⟨name', d'⟩ := f
    rw [List.countP_cons] at h
    by_cases hname : name = name'
    · subst hname
      have hzero : fields.countP (fun f => f.1 == name) = 0 := by
        rw [beq_self_eq_true, if_pos rfl] at h
        omega
      have hnone : (name, d) ∉ fields := by
        intro hmem
        exact List.countP_eq_zero.mp hzero (name, d) hmem (beq_self_eq_true name)
      rw [List.lookup_cons_self]
      simp [hnone, eq_comm]
    · have hbeq : (name == name') = false := beq_eq_false_iff_ne.mpr hname
      rw [List.lookup_cons, hbeq, ih (by omega)]
      simp [hname]

theorem lookup_eq_none_of_ne (h : ∀ f ∈ fields, f.1 ≠ name) : fields.lookup name = none := by
  rw [List.lookup_eq_none_iff]
  intro f hf
  rw [bne_iff_ne]
  exact (h f hf).symm

/-- A field that was missing may be added. -/
theorem unique_cons_iff (hmissing : ∀ f ∈ fields, f.1 ≠ name) :
    Unique names ((name, d) :: fields) ↔ Unique names fields := by
  constructor
  · intro h known hknown
    exact Nat.le_trans (List.sublist_cons_self _ _).countP_le (h known hknown)
  · intro h known hknown
    rw [List.countP_cons]
    by_cases hsame : name = known
    · subst hsame
      have hzero : fields.countP (fun f => f.1 == name) = 0 := by
        rw [List.countP_eq_zero]
        intro f hf
        simpa using hmissing f hf
      rw [hzero, beq_self_eq_true]
      decide
    · have hbeq : (name == known) = false := beq_eq_false_iff_ne.mpr hsame
      rw [hbeq, if_neg Bool.false_ne_true]
      exact h known hknown

theorem lookup_cons_ne (h : name ≠ name') :
    ((name', d) :: fields).lookup name = fields.lookup name := by
  rw [List.lookup_cons, beq_eq_false_iff_ne.mpr h]

theorem Unique.perm (h : Unique names fields) (hperm : fields.Perm fields') :
    Unique names fields' := by
  intro name hname
  rw [← hperm.countP_eq]
  exact h name hname

/-- The order of the fields does not matter. -/
theorem fields?_perm (hperm : fields.Perm fields') :
    (object fields).fields? names = (object fields').fields? names := by
  by_cases hunique : Unique names fields
  · rw [fields?_of_unique hunique, fields?_of_unique (hunique.perm hperm)]
    congr 1
    apply List.map_congr_left
    intro name hname
    apply Option.ext
    intro d
    rw [lookup_eq_some_iff_mem (hunique name hname),
      lookup_eq_some_iff_mem (hunique.perm hperm name hname), hperm.mem_iff]
  · have hunique' : ¬ Unique names fields' := fun h => hunique (h.perm hperm.symm)
    rw [fields?_of_not_unique hunique, fields?_of_not_unique hunique']

/-- Nor do fields that are not known. -/
theorem fields?_cons_of_unknown (hname : name ∉ names) :
    (object ((name, d) :: fields)).fields? names = (object fields).fields? names := by
  have hcount : ∀ known ∈ names, ((name, d) :: fields).countP (fun f => f.1 == known) =
      fields.countP (fun f => f.1 == known) := by
    intro known hknown
    have hne : name ≠ known := fun heq => hname (heq ▸ hknown)
    rw [List.countP_cons_of_neg]
    simpa using hne
  by_cases hunique : Unique names fields
  · have hunique' : Unique names ((name, d) :: fields) := fun known hknown => by
      rw [hcount known hknown]
      exact hunique known hknown
    rw [fields?_of_unique hunique, fields?_of_unique hunique']
    congr 1
    apply List.map_congr_left
    intro known hknown
    exact lookup_cons_ne fun heq => hname (heq ▸ hknown)
  · have hunique' : ¬ Unique names ((name, d) :: fields) :=
      fun h => hunique fun known hknown => by
      rw [← hcount known hknown]
      exact h known hknown
    rw [fields?_of_not_unique hunique, fields?_of_not_unique hunique']

/-- A list gives the fields in their order. -/
theorem lookup_zip (hnodup : names.Nodup) {items : List Document}
    (hlength : items.length ≤ names.length) :
    (names.map fun name => (names.zip items).lookup name) =
      items.map some ++ List.replicate (names.length - items.length) none := by
  induction names generalizing items with
  | nil =>
    cases items with
    | nil => rfl
    | cons d items => cases hlength
  | cons name names ih =>
    obtain ⟨hname, hrest⟩ := List.nodup_cons.mp hnodup
    cases items with
    | nil => simp [List.replicate_succ]
    | cons d items =>
      have htail : (names.map fun known => ((name, d) :: names.zip items).lookup known) =
          names.map fun known => (names.zip items).lookup known :=
        List.map_congr_left fun known hknown => lookup_cons_ne fun heq => hname (heq ▸ hknown)
      have hlength' : items.length ≤ names.length := Nat.le_of_succ_le_succ hlength
      rw [List.zip_cons_cons, List.map_cons, List.lookup_cons_self, htail, ih hrest hlength',
        List.length_cons, List.length_cons, Nat.add_sub_add_right]
      rfl

theorem countP_zip_le (names : List String) (items : List Document) (name : String) :
    (names.zip items).countP (fun f => f.1 == name) ≤ names.count name := by
  induction names generalizing items with
  | nil => exact Nat.le_refl 0
  | cons known names ih =>
    cases items with
    | nil => exact Nat.zero_le _
    | cons d items =>
      rw [List.zip_cons_cons, List.countP_cons, List.count_cons]
      exact Nat.add_le_add_right (ih items) _

theorem unique_zip (hnodup : names.Nodup) (items : List Document) :
    Unique names (names.zip items) := fun name _ =>
  Nat.le_trans (countP_zip_le names items name) (List.nodup_iff_count_le_one.mp hnodup name)

theorem fields?_zip (hnodup : names.Nodup) {items : List Document}
    (hlength : items.length ≤ names.length) :
    (object (names.zip items)).fields? names = (array items).fields? names := by
  rw [fields?_of_unique (unique_zip hnodup items), lookup_zip hnodup hlength]
  exact (if_pos hlength).symm

/-- An object of all fields in their order. -/
theorem fields?_of_values (hnodup : names.Nodup) {values : List Document}
    (hlength : values.length = names.length) :
    (object (names.zip values)).fields? names = some (values.map some) := by
  have hall := lookup_zip hnodup (Nat.le_of_eq hlength)
  rw [hlength, Nat.sub_self, List.replicate_zero, List.append_nil] at hall
  rw [fields?_of_unique (unique_zip hnodup values), hall]

/-- Every field has its place. -/
theorem length_of_fields? {xs : List (Option Document)} (h : d.fields? names = some xs) :
    xs.length = names.length := by
  unfold fields? at h
  split at h
  · rw [Option.ite_none_right_eq_some] at h
    obtain rfl := Option.some.inj h.2
    exact List.length_map _
  · rw [Option.ite_none_right_eq_some] at h
    obtain rfl := Option.some.inj h.2
    have hle := h.1
    rw [List.length_append, List.length_map, List.length_replicate]
    omega
  · cases h

/-! ## Taking one field after the other -/

variable {α β : Type}

/-- Read the first of the values that were written, or what it is if it is
    missing, and go on with the others. -/
def takeField (default? : Option Document) (read : Document → Option β)
    (next : β → List (Option Document) → Option α) : List (Option Document) → Option α
  | x :: rest => ((x.or default?).bind read).bind fun b => next b rest
  | [] => none

/-- Give a result when no value is left. -/
def endFields (a : α) : List (Option Document) → Option α
  | [] => some a
  | _ :: _ => none

theorem takeField_eq_some_iff {default? : Option Document} {read : Document → Option β}
    {next : β → List (Option Document) → Option α} {x : Option Document}
    {rest : List (Option Document)} {a : α} :
    takeField default? read next (x :: rest) = some a ↔
      ∃ d, x.or default? = some d ∧ ∃ b, read d = some b ∧ next b rest = some a := by
  simp only [takeField, Option.bind_eq_some_iff]
  constructor
  · rintro ⟨b, ⟨d, hd, hb⟩, hrest⟩
    exact ⟨d, hd, b, hb, hrest⟩
  · rintro ⟨d, hd, b, hb, hrest⟩
    exact ⟨b, ⟨d, hd, hb⟩, hrest⟩

theorem takeField_of_read {default? : Option Document} (read : Document → Option β)
    {next : β → List (Option Document) → Option α} {d : Document} {b : β}
    {rest : List (Option Document)} (h : read d = some b) :
    takeField default? read next (some d :: rest) = next b rest := by
  rw [takeField, Option.some_or, Option.bind_some, h, Option.bind_some]

/-- Where a later field cannot be read, no record is. -/
theorem takeField_eq_none {default? : Option Document} {read : Document → Option β}
    {next : β → List (Option Document) → Option α} {x : Option Document}
    {rest : List (Option Document)} (h : ∀ b, next b rest = none) :
    takeField default? read next (x :: rest) = none := by
  rw [takeField, Option.bind_eq_none_iff]
  exact fun b _ => h b

end Document

namespace Shape

open Document

variable {α : Type} {s : Shape} {fs : List (String × Option Document × Shape)}

/-- The reader takes the fields of a record one after the other. -/
inductive Builds {α : Type} :
    List (String × Option Document × Shape) → (List (Option Document) → Option α) →
      Prop where
  | done (a : α) : Builds [] (endFields a)
  | field {name : String} {default? : Option Document} {s : Shape} {β : Type}
      {read : Document → Option β} {fs : List (String × Option Document × Shape)}
      {next : β → List (Option Document) → Option α} :
      Reads s read → (∀ b, Builds fs (next b)) →
      Builds ((name, default?, s) :: fs) (takeField default? read next)

namespace Builds

variable {build : List (Option Document) → Option α}

/-- Values that say the same lead to the same result. -/
theorem congr (h : Builds fs build) (look look' : String → Option Document)
    (hsame : ∀ name default? s, (name, default?, s) ∈ fs →
      Option.Rel s.Restates ((look name).or default?) ((look' name).or default?)) :
    build (fs.map fun f => look f.1) = build (fs.map fun f => look' f.1) := by
  induction h with
  | done a => rfl
  | @field name default? s β read fs next hreads _ ih =>
    have hfirst : ((look name).or default?).bind read = ((look' name).or default?).bind read := by
      have hrel := hsame name default? s List.mem_cons_self
      generalize (look name).or default? = x, (look' name).or default? = x' at hrel
      cases hrel with
      | some hrestates => exact hreads.restated hrestates
      | none => rfl
    simp only [List.map_cons, takeField, hfirst]
    congr 1
    funext b
    exact ih b fun name' default?' s' hmem => hsame name' default?' s' (List.mem_cons_of_mem _ hmem)

/-- A value that is missing or defective leads to none. -/
theorem eq_none (h : Builds fs build) (look : String → Option Document) {name : String}
    {default? : Option Document} (hmem : (name, default?, s) ∈ fs)
    (hbad : ∀ d, (look name).or default? = some d → s.Defective d) :
    build (fs.map fun f => look f.1) = none := by
  induction h with
  | done a => cases hmem
  | @field name' default?' s' β read fs next hreads _ ih =>
    simp only [List.map_cons, takeField]
    rcases List.mem_cons.mp hmem with heq | hrest
    · cases heq
      cases hlook : (look name).or default? with
      | none => rfl
      | some d => rw [Option.bind_some, hreads.refused (hbad d hlook), Option.bind_none]
    · rw [Option.bind_eq_none_iff]
      exact fun b _ => ih b hrest

/-- Without a field that must not be missing there is no result. -/
theorem eq_none_of_missing (h : Builds fs build) {i : Nat} {xs : List (Option Document)}
    (hrequired : fs[i]?.map (·.2.1) = some none) (hmissing : xs[i]? = some none) :
    build xs = none := by
  induction h generalizing i xs with
  | done a => cases hrequired
  | field _ _ ih =>
    cases xs with
    | nil => rfl
    | cons x xs =>
      cases i with
      | zero =>
        obtain rfl := Option.some.inj hmissing
        obtain rfl := Option.some.inj hrequired
        rfl
      | succ i => exact takeField_eq_none fun b => ih b hrequired hmissing

end Builds

/-! ## Readers -/

/-- Where no part is a record, there is nothing to restate. -/
theorem reads_value (read : Document → Option α) : Reads .value read := by
  have hrestated : ∀ {s : Shape} {d d' : Document}, Restates s d d' → s = .value →
      d = d' := by
    intro s d d' h
    induction h with
    | refl => exact fun _ => rfl
    | symm _ ih => exact fun hs => (ih hs).symm
    | trans _ _ ih ih' => exact fun hs => (ih hs).trans (ih' hs)
    | reordered | extended | completed | within | listed | item => nofun
  have hdefective : ∀ {s : Shape} {d : Document}, Defective s d → s ≠ .value := by
    intro s d h
    induction h with
    | repeated | dropped | overlong | within | item => nofun
    | restated _ _ ih => exact ih
  exact ⟨fun h => congrArg read (hrestated h rfl), fun h => absurd rfl (hdefective h)⟩

theorem reads_list {read : Document → Option α} (h : Reads s read) :
    Reads (.list s) (asList? read) := by
  have hrestated : ∀ {t : Shape} {d d' : Document}, Restates t d d' → t = .list s →
      asList? read d = asList? read d' := by
    intro t d d' hd
    induction hd with
    | refl => exact fun _ => rfl
    | symm _ ih => exact fun ht => (ih ht).symm
    | trans _ _ ih ih' => exact fun ht => (ih ht).trans (ih' ht)
    | @item t d d' before after hitem _ =>
      rintro ⟨⟩
      simp only [asList?, List.mapM_append, List.mapM_cons, h.restated hitem]
    | reordered | extended | completed | within | listed => nofun
  have hdefective : ∀ {t : Shape} {d : Document}, Defective t d → t = .list s →
      asList? read d = none := by
    intro t d hd
    induction hd with
    | @item t d items hmem hitem _ =>
      rintro ⟨⟩
      obtain ⟨before, after, rfl⟩ := List.append_of_mem hmem
      simp [asList?, List.mapM_append, h.refused hitem]
    | restated hd _ ih => exact fun ht => (hrestated hd ht).symm.trans (ih ht)
    | repeated | dropped | overlong | within => nofun
  exact ⟨fun hd => hrestated hd rfl, fun hd => hdefective hd rfl⟩

section Record

variable {build : List (Option Document) → Option α}

/-- Objects with the same values in the known fields are read alike. -/
theorem bind_fields?_congr (h : Builds fs build) {fields fields' : List (String × Document)}
    (hunique : Unique (names fs) fields ↔ Unique (names fs) fields')
    (hsame : ∀ name default? s, (name, default?, s) ∈ fs →
      Option.Rel s.Restates ((fields.lookup name).or default?)
        ((fields'.lookup name).or default?)) :
    ((object fields).fields? (names fs)).bind build =
      ((object fields').fields? (names fs)).bind build := by
  by_cases hfields : Unique (names fs) fields
  · have hcongr := h.congr (fun name => fields.lookup name) (fun name => fields'.lookup name) hsame
    rw [fields?_of_unique hfields, fields?_of_unique (hunique.mp hfields), Option.bind_some,
      Option.bind_some]
    simp only [names, List.map_map]
    exact hcongr
  · have hfields' : ¬ Unique (names fs) fields' := fun h => hfields (hunique.mpr h)
    rw [fields?_of_not_unique hfields, fields?_of_not_unique hfields']

theorem mem_names {name : String} {default? : Option Document}
    (h : (name, default?, s) ∈ fs) : name ∈ names fs := List.mem_map_of_mem h

/-- A name belongs to one field. -/
theorem eq_of_mem_of_mem (hnodup : (names fs).Nodup) {name : String}
    {default? default?' : Option Document} {s' : Shape} (h : (name, default?, s) ∈ fs)
    (h' : (name, default?', s') ∈ fs) : default?' = default? ∧ s' = s := by
  have heq := List.inj_on_of_nodup_map hnodup h' h rfl
  obtain ⟨-, hrest⟩ := Prod.mk.inj heq
  exact Prod.mk.inj hrest

theorem rel_refl (x : Option Document) : Option.Rel s.Restates x x := by
  cases x with
  | none => exact .none
  | some d => exact .some .refl

/-- Restatements are read alike. -/
theorem bind_fields?_restated (hnodup : (names fs).Nodup) (h : Builds fs build) {t : Shape}
    {d d' : Document} (hd : Restates t d d') (ht : t = .record fs) :
    (d.fields? (names fs)).bind build = (d'.fields? (names fs)).bind build := by
  induction hd with
  | refl => rfl
  | symm _ ih => exact (ih ht).symm
  | trans _ _ ih ih' => exact (ih ht).trans (ih' ht)
  | reordered hperm => rw [fields?_perm hperm]
  | extended hname =>
    cases ht
    rw [fields?_cons_of_unknown hname]
  | @completed fs name d s fields hmem hmissing =>
    cases ht
    refine bind_fields?_congr h (unique_cons_iff hmissing).symm fun known default?' s' hknown => ?_
    by_cases hsame : known = name
    · subst hsame
      obtain ⟨rfl, rfl⟩ := eq_of_mem_of_mem hnodup hmem hknown
      rw [lookup_eq_none_of_ne hmissing, List.lookup_cons_self]
      exact rel_refl _
    · rw [lookup_cons_ne hsame]
      exact rel_refl _
  | @within fs name default? s d d' fields hmem hrestates _ =>
    cases ht
    refine bind_fields?_congr h Iff.rfl fun known default?' s' hknown => ?_
    by_cases hsame : known = name
    · subst hsame
      obtain ⟨rfl, rfl⟩ := eq_of_mem_of_mem hnodup hmem hknown
      rw [List.lookup_cons_self, List.lookup_cons_self]
      exact .some hrestates
    · rw [lookup_cons_ne hsame, lookup_cons_ne hsame]
      exact rel_refl _
  | listed hlength =>
    cases ht
    rw [fields?_zip hnodup (by rw [names, List.length_map]; exact hlength)]
  | item => cases ht

/-- Nothing is read from a defective document. -/
theorem bind_fields?_defective (hnodup : (names fs).Nodup) (h : Builds fs build) {t : Shape}
    {d : Document} (hd : Defective t d) (ht : t = .record fs) :
    (d.fields? (names fs)).bind build = none := by
  induction hd with
  | @repeated fs name fields hname hcount =>
    cases ht
    have hrepeated : ¬ Unique (names fs) fields := fun hunique => by
      have hle := hunique name hname
      omega
    rw [fields?_of_not_unique hrepeated, Option.bind_none]
  | @dropped fs name s fields hmem hmissing =>
    cases ht
    by_cases hunique : Unique (names fs) fields
    · rw [fields?_of_unique hunique, Option.bind_some]
      simp only [names, List.map_map]
      refine h.eq_none (fun name => fields.lookup name) hmem fun d hd => ?_
      rw [lookup_eq_none_of_ne hmissing] at hd
      cases hd
    · rw [fields?_of_not_unique hunique, Option.bind_none]
  | @overlong fs items hlength =>
    cases ht
    have hlong : ¬ items.length ≤ (names fs).length := by
      rw [names, List.length_map]
      omega
    have hnone : (array items).fields? (names fs) = none := if_neg hlong
    rw [hnone, Option.bind_none]
  | @within fs name default? s d fields hmem hfield hdefective _ =>
    cases ht
    by_cases hunique : Unique (names fs) fields
    · rw [fields?_of_unique hunique, Option.bind_some]
      simp only [names, List.map_map]
      refine h.eq_none (fun name => fields.lookup name) hmem fun d' hd' => ?_
      have hlook := (lookup_eq_some_iff_mem (hunique name (mem_names hmem))).mpr hfield
      rw [hlook] at hd'
      obtain rfl := Option.some.inj hd'
      exact hdefective
    · rw [fields?_of_not_unique hunique, Option.bind_none]
  | item => cases ht
  | restated hrestates _ ih =>
    rw [← bind_fields?_restated hnodup h hrestates ht]
    exact ih ht

/-- **A reader that takes one field after the other** does not tell restatements
    apart, and refuses defective documents, if the fields have different names. -/
theorem reads_record (hnodup : (names fs).Nodup) (h : Builds fs build) :
    Reads (.record fs) fun d => (d.fields? (names fs)).bind build :=
  ⟨fun hd => bind_fields?_restated hnodup h hd rfl,
    fun hd => bind_fields?_defective hnodup h hd rfl⟩

end Record

/-- What is written is read back, what is read can be written, and reading is a
    matter of the shape. -/
structure RoundTrips {α : Type} (s : Shape) (write : α → Document)
    (read : Document → Option α) (Fits : α → Prop) : Prop extends Reads s read where
  /-- A value whose numbers fit their words is read back. -/
  written : ∀ {a : α}, Fits a → read (write a) = some a
  /-- The numbers of a value that is read fit. -/
  fits : ∀ {d : Document} {a : α}, read d = some a → Fits a
  /-- A value that is read and written is read again. -/
  rewritten : ∀ {d : Document} {a : α}, read d = some a → read (write a) = some a

theorem Reads.roundTrips {write : α → Document} {read : Document → Option α}
    {Fits : α → Prop} (h : Reads s read) (hwritten : ∀ {a}, Fits a → read (write a) = some a)
    (hfits : ∀ {d a}, read d = some a → Fits a) : RoundTrips s write read Fits where
  toReads := h
  written := hwritten
  fits := hfits
  rewritten hread := hwritten (hfits hread)

end Shape

end WorkflowEngine
