import WorkflowEngine.Cluster.Topology
import WorkflowEngine.Proofs.Moments
import WorkflowEngine.Proofs.Shapes
import WorkflowEngine.Record.Codec

/-! # JSON Forms Round-Trip

    What is written of a record or of a topology is read back, what is read can
    be written, and a reader looks at nothing but what the shape of the document
    says.
-/

namespace WorkflowEngine

/-! ## Maps -/

namespace SortedMap

variable {κ β : Type} [LT κ] [LE κ] [Std.IsLinearOrder κ] [Std.LawfulOrderLT κ]
  [DecidableLT κ] [DecidableEq κ]

theorem insertEntry_append {k : κ} {v : β} {l : List (κ × β)} (h : ∀ e ∈ l, e.1 < k) :
    insertEntry k v l = l ++ [(k, v)] := by
  induction l with
  | nil => rfl
  | cons e l ih =>
    have hlt := h e List.mem_cons_self
    have hnot : ¬ k < e.1 := fun hlt' => Std.lt_irrefl (Std.lt_trans hlt hlt')
    have hne : k ≠ e.1 := fun heq => Std.lt_irrefl (heq ▸ hlt)
    rw [insertEntry, if_neg hnot, if_neg hne, ih fun e' he' => h e' (List.mem_cons_of_mem e he')]
    rfl

/-- Entries in ascending order are put one behind the other. -/
theorem foldl_insert_entries {l : List (κ × β)} {m : SortedMap κ β}
    (h : (m.entries ++ l).Pairwise fun a b => a.1 < b.1) :
    (l.foldl (fun m e => m.insert e.1 e.2) m).entries = m.entries ++ l := by
  induction l generalizing m with
  | nil => exact (List.append_nil m.entries).symm
  | cons e l ih =>
    have hbelow : ∀ e' ∈ m.entries, e'.1 < e.1 := fun e' he' =>
      (List.pairwise_append.mp h).2.2 e' he' e List.mem_cons_self
    have hinsert : (m.insert e.1 e.2).entries = m.entries ++ [e] := insertEntry_append hbelow
    rw [List.foldl_cons, ih (by rw [hinsert, List.append_assoc]; exact h), hinsert,
      List.append_assoc, List.singleton_append]

/-- A map is built from its entries. -/
theorem ofList_entries (m : SortedMap κ β) : ofList m.entries = m := by
  have hentries : (ofList m.entries).entries = m.entries :=
    foldl_insert_entries (m := empty) (by rw [empty, List.nil_append]; exact m.sorted)
  cases hm : ofList m.entries
  rw [hm] at hentries
  cases m
  congr

end SortedMap

/-! ## Values -/

namespace Document

mutual

/-- A canonical document is its own canonical form. -/
theorem normalize?_of_isCanonical {d : Document} (h : d.isCanonical = true) :
    d.normalize? = some d := by
  match d with
  | .null | .bool _ | .integer _ | .float _ | .text _ => rfl
  | .unreadable => cases h
  | .array items =>
    rw [normalize?, normalizeItems?_of_itemsCanonical h, Option.map_some]
  | .object fields =>
    rw [isCanonical, Bool.and_eq_true] at h
    have hentries := SortedMap.ofList_entries ⟨fields, of_decide_eq_true h.1⟩
    rw [normalize?, normalizeFields?_of_fieldsCanonical h.2, Option.map_some, hentries]

theorem normalizeItems?_of_itemsCanonical {items : List Document}
    (h : itemsCanonical items = true) : normalizeItems? items = some items := by
  match items with
  | [] => rfl
  | d :: rest =>
    rw [itemsCanonical, Bool.and_eq_true] at h
    rw [normalizeItems?, normalize?_of_isCanonical h.1, normalizeItems?_of_itemsCanonical h.2]
    rfl

theorem normalizeFields?_of_fieldsCanonical {fields : List (String × Document)}
    (h : fieldsCanonical fields = true) : normalizeFields? fields = some fields := by
  match fields with
  | [] => rfl
  | (k, d) :: rest =>
    rw [fieldsCanonical, Bool.and_eq_true] at h
    rw [normalizeFields?, normalize?_of_isCanonical h.1, normalizeFields?_of_fieldsCanonical h.2]
    rfl

end

end Document

/-- The document of a value means the value. -/
theorem Json.ofDocument?_document (j : Json) : ofDocument? j.document = some j := by
  have hnormalize := Document.normalize?_of_isCanonical j.canonical
  unfold ofDocument?
  split
  · rename_i d hd
    rw [hnormalize] at hd
    obtain rfl := Option.some.inj hd
    rfl
  · rename_i hd
    rw [hnormalize] at hd
    cases hd

theorem mapM_map_some {α β : Type} {write : α → β} {read : β → Option α} {l : List α}
    (h : ∀ a ∈ l, read (write a) = some a) : (l.map write).mapM read = some l := by
  induction l with
  | nil => rfl
  | cons a l ih =>
    rw [List.map_cons, List.mapM_cons, h a List.mem_cons_self,
      ih fun b hb => h b (List.mem_cons_of_mem a hb)]
    rfl

theorem Variables.ofDocument?_toDocument (vs : Variables) :
    Variables.ofDocument? (Variables.toDocument vs) = some vs := by
  have hentries : (vs.entries.map fun entry => (entry.1, entry.2.document)).mapM
      (fun (field : String × Document) => (Json.ofDocument? field.2).map (field.1, ·)) =
        some vs.entries := by
    apply mapM_map_some
    rintro ⟨name, value⟩ -
    rw [Json.ofDocument?_document, Option.map_some]
  rw [Variables.toDocument, Variables.ofDocument?, hentries, Option.map_some,
    SortedMap.ofList_entries]

/-! ## Numbers -/

namespace Document

variable {d : Document} {bound : Nat}

theorem asInt64?_integer {n : Int} (h : fitsSigned64 n = true) : (integer n).asInt64? = some n :=
  if_pos h

theorem fits_of_asInt64? {n : Int} (h : d.asInt64? = some n) : fitsSigned64 n = true := by
  unfold asInt64? at h
  split at h
  · rw [Option.ite_none_right_eq_some] at h
    obtain ⟨hfits, heq⟩ := h
    obtain rfl := Option.some.inj heq
    exact hfits
  · cases h

theorem asNat?_integer {n : Nat} (h : n < bound) : (integer n).asNat? bound = some n := by
  have hrange : 0 ≤ (n : Int) ∧ (n : Int) < bound := by omega
  exact if_pos hrange

theorem lt_of_asNat? {n : Nat} (h : d.asNat? bound = some n) : n < bound := by
  unfold asNat? at h
  split at h
  · rw [Option.ite_none_right_eq_some] at h
    obtain ⟨hrange, heq⟩ := h
    obtain rfl := Option.some.inj heq
    omega
  · cases h

theorem asList?_array {α : Type} {write : α → Document} {read : Document → Option α}
    {l : List α}
    (h : ∀ a ∈ l, read (write a) = some a) : asList? read (array (l.map write)) = some l :=
  mapM_map_some h

/-- Whatever holds of each item that is read holds of all items of a list. -/
theorem forall_of_asList? {α : Type} {read : Document → Option α} {Fits : α → Prop}
    (hread : ∀ {d a}, read d = some a → Fits a) {l : List α} (h : asList? read d = some l) :
    ∀ a ∈ l, Fits a := by
  unfold asList? at h
  split at h
  · rename_i items
    induction items generalizing l with
    | nil =>
      obtain rfl := Option.some.inj h
      nofun
    | cons d items ih =>
      simp only [List.mapM_cons, Option.bind_eq_bind, Option.bind_eq_some_iff] at h
      obtain ⟨b, hb, rest, hrest, heq⟩ := h
      obtain rfl := Option.some.inj heq
      intro a ha
      rcases List.mem_cons.mp ha with rfl | hmem
      · exact hread hb
      · exact ih hrest a hmem
  · cases h

end Document

open Document Shape

/-! ## Values of records -/

namespace RecordValue

/-- The fields of a value: only the variables may be missing. -/
def fieldShapes : List (String × Option Document × Shape) :=
  [("bpmnProcessId", none, .value), ("workflowKey", none, .value),
    ("workflowInstanceKey", none, .value), ("elementId", none, .value),
    ("scopeInstanceKey", none, .value), ("variables", some (.object []), .value)]

/-- The shape of the document of a value. -/
def shape : Shape := .record fieldShapes

/-- The keys of a value fit their words. -/
structure Fits (v : RecordValue) : Prop where
  workflowKey : fitsSigned64 v.workflowKey = true
  instanceKey : fitsSigned64 v.instanceKey = true
  scopeKey : fitsSigned64 v.scopeKey = true

/-- Read a value, one field after the other. -/
def build : List (Option Document) → Option RecordValue :=
  takeField none asText? fun processId =>
  takeField none asInt64? fun workflowKey =>
  takeField none asInt64? fun instanceKey =>
  takeField none asText? fun elementId =>
  takeField none asInt64? fun scopeKey =>
  takeField (some (.object [])) Variables.ofDocument? fun vars =>
  endFields { processId, workflowKey, instanceKey, elementId, scopeKey, vars }

theorem nodup_names : (names fieldShapes).Nodup := by decide

theorem builds : Builds fieldShapes build :=
  .field (reads_value _) fun _ => .field (reads_value _) fun _ => .field (reads_value _) fun _ =>
    .field (reads_value _) fun _ => .field (reads_value _) fun _ => .field (reads_value _) fun _ =>
      .done _

theorem ofDocument?_eq (d : Document) :
    ofDocument? d = (d.fields? (names fieldShapes)).bind build := by
  have hnames : fieldNames = names fieldShapes := rfl
  rw [ofDocument?, hnames]
  cases hslots : d.fields? (names fieldShapes) with
  | none => rfl
  | some slots =>
    match slots, length_of_fields? hslots with
    | [x₁, x₂, x₃, x₄, x₅, x₆], _ =>
      rcases x₁ with _ | d₁
      · exact (builds.eq_none_of_missing (i := 0) rfl rfl).symm
      rcases x₂ with _ | d₂
      · exact (builds.eq_none_of_missing (i := 1) rfl rfl).symm
      rcases x₃ with _ | d₃
      · exact (builds.eq_none_of_missing (i := 2) rfl rfl).symm
      rcases x₄ with _ | d₄
      · exact (builds.eq_none_of_missing (i := 3) rfl rfl).symm
      rcases x₅ with _ | d₅
      · exact (builds.eq_none_of_missing (i := 4) rfl rfl).symm
      rcases x₆ with _ | d₆
      · rfl
      · rfl

theorem reads : Reads shape ofDocument? := by
  rw [funext ofDocument?_eq]
  exact reads_record nodup_names builds

theorem ofDocument?_toDocument {v : RecordValue} (h : v.Fits) :
    ofDocument? v.toDocument = some v := by
  have hobject : v.toDocument = .object ((names fieldShapes).zip
      [.text v.processId, .integer v.workflowKey, .integer v.instanceKey, .text v.elementId,
        .integer v.scopeKey, Variables.toDocument v.vars]) := rfl
  rw [ofDocument?_eq, hobject, fields?_of_values nodup_names rfl, Option.bind_some]
  simp only [List.map_cons, List.map_nil, build]
  rw [takeField_of_read asText? rfl, takeField_of_read asInt64? (asInt64?_integer h.workflowKey),
    takeField_of_read asInt64? (asInt64?_integer h.instanceKey), takeField_of_read asText? rfl,
    takeField_of_read asInt64? (asInt64?_integer h.scopeKey),
    takeField_of_read _ (Variables.ofDocument?_toDocument v.vars), endFields]

theorem fits_of_ofDocument? {d : Document} {v : RecordValue} (h : ofDocument? d = some v) :
    v.Fits := by
  rw [ofDocument?_eq, Option.bind_eq_some_iff] at h
  obtain ⟨slots, hslots, h⟩ := h
  match slots, length_of_fields? hslots with
  | [x₁, x₂, x₃, x₄, x₅, x₆], _ =>
    simp only [build, takeField_eq_some_iff] at h
    obtain ⟨_, -, processId, -, _, -, workflowKey, hworkflowKey, _, -, instanceKey, hinstanceKey,
      _, -, elementId, -, _, -, scopeKey, hscopeKey, _, -, vars, -, hend⟩ := h
    obtain rfl := Option.some.inj hend
    exact ⟨fits_of_asInt64? hworkflowKey, fits_of_asInt64? hinstanceKey,
      fits_of_asInt64? hscopeKey⟩

theorem roundTrips : RoundTrips shape toDocument ofDocument? Fits :=
  reads.roundTrips ofDocument?_toDocument fits_of_ofDocument?

end RecordValue

/-! ## Records -/

namespace StampedRecord

/-- The fields of a record: only the source position may be missing. -/
def fieldShapes : List (String × Option Document × Shape) :=
  [("position", none, .value), ("key", none, .value), ("partitionId", none, .value),
    ("intent", none, .value), ("value", none, RecordValue.shape),
    ("sourcePosition", some .null, .value), ("timestamp", none, .value)]

/-- The shape of the document of a record. -/
def shape : Shape := .record fieldShapes

/-- The numbers of a record fit their words, and its moment is one that there is. -/
structure Fits (r : StampedRecord) : Prop where
  position : r.record.position < words64
  key : fitsSigned64 r.record.key = true
  partitionId : r.record.partitionId < words32
  value : r.record.value.Fits
  sourcePosition : ∀ q, r.record.sourcePosition = some q → q < words64
  timestamp : r.timestamp.Valid

/-- Read a record, one field after the other. -/
def build : List (Option Document) → Option StampedRecord :=
  takeField none (asNat? words64) fun position =>
  takeField none asInt64? fun key =>
  takeField none (asNat? words32) fun partitionId =>
  takeField none Intent.ofDocument? fun intent =>
  takeField none RecordValue.ofDocument? fun value =>
  takeField (some .null) sourceOfDocument? fun sourcePosition =>
  takeField none (fun d => d.asText? >>= Timestamp.ofText?) fun timestamp =>
  endFields ⟨{ position, key, partitionId, intent, value, sourcePosition }, timestamp⟩

theorem nodup_names : (names fieldShapes).Nodup := by decide

theorem builds : Builds fieldShapes build :=
  .field (reads_value _) fun _ => .field (reads_value _) fun _ => .field (reads_value _) fun _ =>
    .field (reads_value _) fun _ => .field RecordValue.reads fun _ =>
      .field (reads_value _) fun _ => .field (reads_value _) fun _ => .done _

theorem ofDocument?_eq (d : Document) :
    ofDocument? d = (d.fields? (names fieldShapes)).bind build := by
  have hnames : fieldNames = names fieldShapes := rfl
  rw [ofDocument?, hnames]
  cases hslots : d.fields? (names fieldShapes) with
  | none => rfl
  | some slots =>
    match slots, length_of_fields? hslots with
    | [x₁, x₂, x₃, x₄, x₅, x₆, x₇], _ =>
      rcases x₁ with _ | d₁
      · exact (builds.eq_none_of_missing (i := 0) rfl rfl).symm
      rcases x₂ with _ | d₂
      · exact (builds.eq_none_of_missing (i := 1) rfl rfl).symm
      rcases x₃ with _ | d₃
      · exact (builds.eq_none_of_missing (i := 2) rfl rfl).symm
      rcases x₄ with _ | d₄
      · exact (builds.eq_none_of_missing (i := 3) rfl rfl).symm
      rcases x₅ with _ | d₅
      · exact (builds.eq_none_of_missing (i := 4) rfl rfl).symm
      rcases x₇ with _ | d₇
      · exact (builds.eq_none_of_missing (i := 6) rfl rfl).symm
      rcases x₆ with _ | d₆
      · rfl
      · rfl

theorem reads : Reads shape ofDocument? := by
  rw [funext ofDocument?_eq]
  exact reads_record nodup_names builds

theorem sourceOfDocument?_sourceDocument {source : Option Nat}
    (h : ∀ q, source = some q → q < words64) :
    sourceOfDocument? (sourceDocument source) = some source := by
  cases source with
  | none => rfl
  | some q =>
    show ((Document.integer q).asNat? words64).map some = some (some q)
    rw [asNat?_integer (h q rfl), Option.map_some]

theorem lt_of_sourceOfDocument? {d : Document} {source : Option Nat}
    (h : sourceOfDocument? d = some source) : ∀ q, source = some q → q < words64 := by
  rintro q rfl
  unfold sourceOfDocument? at h
  split at h
  · cases h
  · obtain ⟨q', hq', heq⟩ := Option.map_eq_some_iff.mp h
    obtain rfl := Option.some.inj heq
    exact lt_of_asNat? hq'

theorem ofDocument?_toDocument {r : StampedRecord} (h : r.Fits) :
    ofDocument? r.toDocument = some r := by
  have hobject : r.toDocument = .object ((names fieldShapes).zip
      [.integer r.record.position, .integer r.record.key, .integer r.record.partitionId,
        r.record.intent.toDocument, r.record.value.toDocument,
        sourceDocument r.record.sourcePosition, .text r.timestamp.write]) := rfl
  have hintent : Intent.ofDocument? r.record.intent.toDocument = some r.record.intent :=
    Intent.ofName?_name r.record.intent
  have htimestamp : (Document.text r.timestamp.write).asText? >>= Timestamp.ofText? =
      some r.timestamp := by
    rw [asText?, Option.bind_eq_bind, Option.bind_some, Timestamp.ofText?_write h.timestamp]
  rw [ofDocument?_eq, hobject, fields?_of_values nodup_names rfl, Option.bind_some]
  simp only [List.map_cons, List.map_nil, build]
  rw [takeField_of_read (asNat? words64) (asNat?_integer h.position),
    takeField_of_read asInt64? (asInt64?_integer h.key),
    takeField_of_read (asNat? words32) (asNat?_integer h.partitionId), takeField_of_read _ hintent,
    takeField_of_read _ (RecordValue.ofDocument?_toDocument h.value),
    takeField_of_read _ (sourceOfDocument?_sourceDocument h.sourcePosition),
    takeField_of_read (fun d => d.asText? >>= Timestamp.ofText?) htimestamp, endFields]

theorem fits_of_ofDocument? {d : Document} {r : StampedRecord} (h : ofDocument? d = some r) :
    r.Fits := by
  rw [ofDocument?_eq, Option.bind_eq_some_iff] at h
  obtain ⟨slots, hslots, h⟩ := h
  match slots, length_of_fields? hslots with
  | [x₁, x₂, x₃, x₄, x₅, x₆, x₇], _ =>
    simp only [build, takeField_eq_some_iff] at h
    obtain ⟨_, -, position, hposition, _, -, key, hkey, _, -, partitionId, hpartitionId,
      _, -, intent, -, _, -, value, hvalue, _, -, source, hsource,
      _, -, timestamp, htimestamp, hend⟩ := h
    obtain ⟨text, -, htext⟩ := Option.bind_eq_some_iff.mp htimestamp
    obtain rfl := Option.some.inj hend
    exact ⟨lt_of_asNat? hposition, fits_of_asInt64? hkey, lt_of_asNat? hpartitionId,
      RecordValue.fits_of_ofDocument? hvalue, lt_of_sourceOfDocument? hsource,
      Timestamp.valid_of_ofText? htext⟩

theorem roundTrips : RoundTrips shape toDocument ofDocument? Fits :=
  reads.roundTrips ofDocument?_toDocument fits_of_ofDocument?

end StampedRecord

/-! ## Topologies -/

namespace PartitionInfo

/-- The fields of a partition: none may be missing. -/
def fieldShapes : List (String × Option Document × Shape) :=
  [("partitionId", none, .value), ("role", none, .value)]

/-- The shape of the document of a partition. -/
def shape : Shape := .record fieldShapes

/-- The number of a partition fits its word. -/
structure Fits (p : PartitionInfo) : Prop where
  partitionId : p.partitionId < words32

/-- Read a partition, one field after the other. -/
def build : List (Option Document) → Option PartitionInfo :=
  takeField none asCount? fun partitionId =>
  takeField none (fun d => d.asCase? >>= PartitionRole.ofName?) fun role =>
  endFields { partitionId, role }

theorem nodup_names : (names fieldShapes).Nodup := by decide

theorem builds : Builds fieldShapes build :=
  .field (reads_value _) fun _ => .field (reads_value _) fun _ => .done _

theorem ofDocument?_eq (d : Document) :
    ofDocument? d = (d.fields? (names fieldShapes)).bind build := by
  have hnames : ["partitionId", "role"] = names fieldShapes := rfl
  rw [ofDocument?, hnames]
  cases hslots : d.fields? (names fieldShapes) with
  | none => rfl
  | some slots =>
    match slots, length_of_fields? hslots with
    | [x₁, x₂], _ =>
      rcases x₁ with _ | d₁
      · exact (builds.eq_none_of_missing (i := 0) rfl rfl).symm
      rcases x₂ with _ | d₂
      · exact (builds.eq_none_of_missing (i := 1) rfl rfl).symm
      rfl

theorem reads : Reads shape ofDocument? := by
  rw [funext ofDocument?_eq]
  exact reads_record nodup_names builds

theorem ofDocument?_toDocument {p : PartitionInfo} (h : p.Fits) :
    ofDocument? p.toDocument = some p := by
  have hobject : p.toDocument = .object ((names fieldShapes).zip
      [.integer p.partitionId, .text p.role.name]) := rfl
  have hrole : (Document.text p.role.name).asCase? >>= PartitionRole.ofName? = some p.role := by
    cases p.role with
    | leader => decide +kernel
    | follower => decide +kernel
  rw [ofDocument?_eq, hobject, fields?_of_values nodup_names rfl, Option.bind_some]
  simp only [List.map_cons, List.map_nil, build]
  rw [takeField_of_read asCount? (asNat?_integer h.partitionId),
    takeField_of_read (fun d => d.asCase? >>= PartitionRole.ofName?) hrole, endFields]

theorem fits_of_ofDocument? {d : Document} {p : PartitionInfo} (h : ofDocument? d = some p) :
    p.Fits := by
  rw [ofDocument?_eq, Option.bind_eq_some_iff] at h
  obtain ⟨slots, hslots, h⟩ := h
  match slots, length_of_fields? hslots with
  | [x₁, x₂], _ =>
    simp only [build, takeField_eq_some_iff] at h
    obtain ⟨_, -, partitionId, hpartitionId, _, -, role, -, hend⟩ := h
    obtain rfl := Option.some.inj hend
    exact ⟨lt_of_asNat? hpartitionId⟩

theorem roundTrips : RoundTrips shape toDocument ofDocument? Fits :=
  reads.roundTrips ofDocument?_toDocument fits_of_ofDocument?

end PartitionInfo

namespace Broker

/-- The fields of a broker: only the partitions may be missing. -/
def fieldShapes : List (String × Option Document × Shape) :=
  [("nodeId", none, .value), ("address", none, .value),
    ("partitions", some (.array []), .list PartitionInfo.shape)]

/-- The shape of the document of a broker. -/
def shape : Shape := .record fieldShapes

/-- The numbers of a broker fit their words. -/
structure Fits (b : Broker) : Prop where
  nodeId : b.nodeId < words32
  partitions : ∀ p ∈ b.partitions, p.Fits

/-- Read a broker, one field after the other. -/
def build : List (Option Document) → Option Broker :=
  takeField none asCount? fun nodeId =>
  takeField none asText? fun address =>
  takeField (some (.array [])) (asList? PartitionInfo.ofDocument?) fun partitions =>
  endFields { nodeId, address, partitions }

theorem nodup_names : (names fieldShapes).Nodup := by decide

theorem builds : Builds fieldShapes build :=
  .field (reads_value _) fun _ => .field (reads_value _) fun _ =>
    .field (reads_list PartitionInfo.reads) fun _ => .done _

theorem ofDocument?_eq (d : Document) :
    ofDocument? d = (d.fields? (names fieldShapes)).bind build := by
  have hnames : ["nodeId", "address", "partitions"] = names fieldShapes := rfl
  rw [ofDocument?, hnames]
  cases hslots : d.fields? (names fieldShapes) with
  | none => rfl
  | some slots =>
    match slots, length_of_fields? hslots with
    | [x₁, x₂, x₃], _ =>
      rcases x₁ with _ | d₁
      · exact (builds.eq_none_of_missing (i := 0) rfl rfl).symm
      rcases x₂ with _ | d₂
      · exact (builds.eq_none_of_missing (i := 1) rfl rfl).symm
      rcases x₃ with _ | d₃
      · rfl
      · rfl

theorem reads : Reads shape ofDocument? := by
  rw [funext ofDocument?_eq]
  exact reads_record nodup_names builds

theorem ofDocument?_toDocument {b : Broker} (h : b.Fits) : ofDocument? b.toDocument = some b := by
  have hobject : b.toDocument = .object ((names fieldShapes).zip
      [.integer b.nodeId, .text b.address,
        .array (b.partitions.map PartitionInfo.toDocument)]) := rfl
  have hpartitions :=
    asList?_array fun p hp => PartitionInfo.ofDocument?_toDocument (h.partitions p hp)
  rw [ofDocument?_eq, hobject, fields?_of_values nodup_names rfl, Option.bind_some]
  simp only [List.map_cons, List.map_nil, build]
  rw [takeField_of_read asCount? (asNat?_integer h.nodeId), takeField_of_read asText? rfl,
    takeField_of_read _ hpartitions, endFields]

theorem fits_of_ofDocument? {d : Document} {b : Broker} (h : ofDocument? d = some b) : b.Fits := by
  rw [ofDocument?_eq, Option.bind_eq_some_iff] at h
  obtain ⟨slots, hslots, h⟩ := h
  match slots, length_of_fields? hslots with
  | [x₁, x₂, x₃], _ =>
    simp only [build, takeField_eq_some_iff] at h
    obtain ⟨_, -, nodeId, hnodeId, _, -, address, -, _, -, partitions, hpartitions, hend⟩ := h
    obtain rfl := Option.some.inj hend
    exact ⟨lt_of_asNat? hnodeId,
      forall_of_asList? PartitionInfo.fits_of_ofDocument? hpartitions⟩

end Broker

namespace Topology

/-- The fields of a topology: only the number of partitions must not be missing. -/
def fieldShapes : List (String × Option Document × Shape) :=
  [("clusterSize", some (.integer 0), .value), ("partitionsCount", none, .value),
    ("replicationFactor", some (.integer 0), .value),
    ("brokers", some (.array []), .list Broker.shape)]

/-- The shape of the document of a topology. -/
def shape : Shape := .record fieldShapes

/-- The numbers of a topology fit their words. -/
structure Fits (t : Topology) : Prop where
  clusterSize : t.clusterSize < words32
  partitionsCount : t.partitionsCount < words32
  replicationFactor : t.replicationFactor < words32
  brokers : ∀ b ∈ t.brokers, b.Fits

/-- Read a topology, one field after the other. -/
def build : List (Option Document) → Option Topology :=
  takeField (some (.integer 0)) asCount? fun clusterSize =>
  takeField none asCount? fun partitionsCount =>
  takeField (some (.integer 0)) asCount? fun replicationFactor =>
  takeField (some (.array [])) (asList? Broker.ofDocument?) fun brokers =>
  endFields { clusterSize, partitionsCount, replicationFactor, brokers }

theorem nodup_names : (names fieldShapes).Nodup := by decide

theorem builds : Builds fieldShapes build :=
  .field (reads_value _) fun _ => .field (reads_value _) fun _ => .field (reads_value _) fun _ =>
    .field (reads_list Broker.reads) fun _ => .done _

theorem ofDocument?_eq (d : Document) :
    ofDocument? d = (d.fields? (names fieldShapes)).bind build := by
  have hnames : ["clusterSize", "partitionsCount", "replicationFactor", "brokers"] =
      names fieldShapes := rfl
  rw [ofDocument?, hnames]
  cases hslots : d.fields? (names fieldShapes) with
  | none => rfl
  | some slots =>
    match slots, length_of_fields? hslots with
    | [x₁, x₂, x₃, x₄], _ =>
      rcases x₂ with _ | d₂
      · exact (builds.eq_none_of_missing (i := 1) rfl rfl).symm
      rcases x₁ with _ | d₁ <;> rcases x₃ with _ | d₃ <;> rcases x₄ with _ | d₄ <;> rfl

theorem reads : Reads shape ofDocument? := by
  rw [funext ofDocument?_eq]
  exact reads_record nodup_names builds

theorem ofDocument?_toDocument {t : Topology} (h : t.Fits) : ofDocument? t.toDocument = some t := by
  have hobject : t.toDocument = .object ((names fieldShapes).zip
      [.integer t.clusterSize, .integer t.partitionsCount, .integer t.replicationFactor,
        .array (t.brokers.map Broker.toDocument)]) := rfl
  have hbrokers := asList?_array fun b hb => Broker.ofDocument?_toDocument (h.brokers b hb)
  rw [ofDocument?_eq, hobject, fields?_of_values nodup_names rfl, Option.bind_some]
  simp only [List.map_cons, List.map_nil, build]
  rw [takeField_of_read asCount? (asNat?_integer h.clusterSize),
    takeField_of_read asCount? (asNat?_integer h.partitionsCount),
    takeField_of_read asCount? (asNat?_integer h.replicationFactor),
    takeField_of_read _ hbrokers, endFields]

theorem fits_of_ofDocument? {d : Document} {t : Topology} (h : ofDocument? d = some t) :
    t.Fits := by
  rw [ofDocument?_eq, Option.bind_eq_some_iff] at h
  obtain ⟨slots, hslots, h⟩ := h
  match slots, length_of_fields? hslots with
  | [x₁, x₂, x₃, x₄], _ =>
    simp only [build, takeField_eq_some_iff] at h
    obtain ⟨_, -, clusterSize, hclusterSize, _, -, partitionsCount, hpartitionsCount, _, -,
      replicationFactor, hreplicationFactor, _, -, brokers, hbrokers, hend⟩ := h
    obtain rfl := Option.some.inj hend
    exact ⟨lt_of_asNat? hclusterSize, lt_of_asNat? hpartitionsCount,
      lt_of_asNat? hreplicationFactor, forall_of_asList? Broker.fits_of_ofDocument? hbrokers⟩

theorem roundTrips : RoundTrips shape toDocument ofDocument? Fits :=
  reads.roundTrips ofDocument?_toDocument fits_of_ofDocument?

end Topology

/-- **The JSON forms of records and topologies round-trip.** A value of any of
    the types whose numbers fit their words is written and read back; what is
    read fits, and is read again once it is written. The order of the fields,
    unknown fields, fields that stand for what they are without being written,
    and lists instead of objects make no difference, at any depth. A repeated
    field, or one that must not be missing and is, makes the document refused,
    at any depth as well. -/
theorem json_forms_round_trip :
    RoundTrips RecordValue.shape RecordValue.toDocument RecordValue.ofDocument? RecordValue.Fits ∧
      RoundTrips StampedRecord.shape StampedRecord.toDocument StampedRecord.ofDocument?
        StampedRecord.Fits ∧
      RoundTrips PartitionInfo.shape PartitionInfo.toDocument PartitionInfo.ofDocument?
        PartitionInfo.Fits ∧
      RoundTrips Topology.shape Topology.toDocument Topology.ofDocument? Topology.Fits :=
  ⟨RecordValue.roundTrips, StampedRecord.roundTrips, PartitionInfo.roundTrips,
    Topology.roundTrips⟩

/-- Another order, a field nobody knows, and fields left out. -/
example :
    Topology.ofDocument? (.object
      [("region", .null), ("partitionsCount", .integer 7), ("clusterSize", .integer 3)]) =
        Topology.ofDocument? (.array [.integer 3, .integer 7, .integer 0, .array []]) := rfl

end WorkflowEngine
