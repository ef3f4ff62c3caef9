import Mathlib.Data.List.Induction
import Mathlib.Data.List.Nodup
import WorkflowEngine.Proofs.OwnKeys

/-! # The History of a Repository

    Workflows are deployed one after the other, and a deployment whose key is
    taken is refused. What the repository answers is read off this history:
    under a key lies the workflow that came first with it, and the others are
    not there (`holds_after`, `get?_after`).

    ### Searches by version

    The workflow of a version and the latest one are searched for among all
    deployed workflows. Where no two of these are of the same process and
    version, a search has one answer in any order (`Repository.Versioned`).
-/

namespace WorkflowEngine

namespace Repository

/-! ## Deployments in order -/

/-- The repository after a deployment; one that is refused leaves it alone. -/
def attempt (r : Repository) (w : Workflow) : Repository :=
  match r.deploy w with
  | .ok r' => r'
  | .error _ => r

/-- The repository after deployments in order, starting with the empty one. -/
def after (ws : List Workflow) : Repository := ws.foldl attempt .empty

/-- The workflows whose deployment is not refused, in order. -/
def accepted (r : Repository) : List Workflow → List Workflow
  | [] => []
  | w :: ws =>
    match r.deploy w with
    | .ok r' => w :: accepted r' ws
    | .error _ => accepted r ws

variable {r : Repository} {w v : Workflow} {ws vs : List Workflow}

theorem deploy_of_free (h : r.get? w.key = none) :
    r.deploy w = .ok ⟨r.workflows.insert w.key w⟩ := by
  unfold get? at h
  unfold deploy SortedMap.contains
  rw [h]
  rfl

theorem deploy_of_taken (h : r.get? w.key = some v) : r.deploy w =
    .error (.invalidArgument ("workflow key " ++ toString w.key ++ " is already deployed")) := by
  unfold get? at h
  unfold deploy SortedMap.contains
  rw [h]
  rfl

theorem attempt_of_ok {r' : Repository} (h : r.deploy w = .ok r') : r.attempt w = r' := by
  unfold attempt
  rw [h]

theorem attempt_of_error {e : EngineError} (h : r.deploy w = .error e) : r.attempt w = r := by
  unfold attempt
  rw [h]

/-- A deployment is refused exactly if its key is taken. -/
theorem deploy_eq_error_iff {e : EngineError} : r.deploy w = .error e ↔ r.get? w.key ≠ none ∧
    e = .invalidArgument ("workflow key " ++ toString w.key ++ " is already deployed") := by
  cases htaken : r.get? w.key with
  | none =>
    rw [deploy_of_free htaken]
    simp
  | some v =>
    rw [deploy_of_taken htaken]
    simp [eq_comm]

/-- Under a key lies what was there, and otherwise what is deployed. -/
theorem get?_attempt (k : Key) :
    (r.attempt w).get? k = (r.get? k).or (if w.key = k then some w else none) := by
  cases htaken : r.get? w.key with
  | none =>
    rw [attempt_of_ok (deploy_of_free htaken)]
    show (r.workflows.insert w.key w).get? k = _
    rw [SortedMap.get?_insert]
    by_cases hk : k = w.key
    · subst hk
      rw [if_pos rfl, if_pos rfl, htaken]
      rfl
    · rw [if_neg hk, if_neg (Ne.symm hk), Option.or_none]
      rfl
  | some v =>
    rw [attempt_of_error (deploy_of_taken htaken)]
    by_cases hk : w.key = k
    · subst hk
      rw [htaken]
      rfl
    · rw [if_neg hk, Option.or_none]

theorem after_concat (ws : List Workflow) (w : Workflow) :
    after (ws ++ [w]) = (after ws).attempt w := by
  unfold after
  rw [List.foldl_append]
  rfl

/-- Under a key lies the first workflow that came with it. -/
theorem get?_after (ws : List Workflow) (k : Key) :
    (after ws).get? k = ws.find? fun w => w.key == k := by
  induction ws using List.reverseRecOn with
  | nil => rfl
  | append_singleton ws w ih =>
    rw [after_concat, get?_attempt, ih, List.find?_append]
    congr 1
    by_cases hk : w.key = k
    · simp [hk]
    · simp [hk]

theorem get?_after_eq_none_iff {k : Key} :
    (after ws).get? k = none ↔ ∀ v ∈ ws, v.key ≠ k := by
  rw [get?_after, List.find?_eq_none]
  simp

/-- A repository that holds some workflows holds those beside them that it accepts. -/
theorem holds_foldl (h : r.workflows.Holds Workflow.key vs) (ws : List Workflow) :
    (ws.foldl attempt r).workflows.Holds Workflow.key (vs ++ r.accepted ws) := by
  -- What is accepted later depends on what is there, so the induction is over all repositories.
  induction ws generalizing r vs with
  | nil =>
    rw [accepted, List.append_nil]
    exact h
  | cons w ws ih =>
    rw [List.foldl_cons]
    unfold accepted
    cases htaken : r.get? w.key with
    | none =>
      rw [deploy_of_free htaken, attempt_of_ok (deploy_of_free htaken)]
      have hrest := ih (r := ⟨r.workflows.insert w.key w⟩) (h.insert htaken)
      rw [List.append_assoc] at hrest
      exact hrest
    | some v =>
      rw [deploy_of_taken htaken, attempt_of_error (deploy_of_taken htaken)]
      exact ih h

theorem holds_after (ws : List Workflow) :
    (after ws).workflows.Holds Workflow.key (empty.accepted ws) := by
  have hempty : empty.workflows.Holds Workflow.key [] := SortedMap.holds_empty Workflow.key
  exact holds_foldl hempty ws

/-! ## The latest version -/

/-- What is the latest of some workflows: none only if there are none. -/
def IsLatest (ws : List Workflow) : Option Workflow → Prop
  | none => ws = []
  | some w => w ∈ ws ∧ ∀ v ∈ ws, v.version ≤ w.version

theorem isLatest_newer {best : Option Workflow} (h : IsLatest ws best) (w : Workflow) :
    IsLatest (ws ++ [w]) (newer best w) := by
  cases best with
  | none =>
    obtain rfl : ws = [] := h
    exact ⟨by simp, by simp⟩
  | some b =>
    obtain ⟨hb, hle⟩ := h
    show IsLatest (ws ++ [w]) (if w.version < b.version then some b else some w)
    by_cases hlt : w.version < b.version
    -- The best one so far stays the best.
    · rw [if_pos hlt]
      refine ⟨List.mem_append_left _ hb, ?_⟩
      intro v hv
      rcases List.mem_append.mp hv with hv | hv
      · exact hle v hv
      · rw [List.mem_singleton.mp hv]
        omega
    -- The new one is at least as good, and so as good as all others.
    · rw [if_neg hlt]
      refine ⟨List.mem_append_right _ (List.mem_singleton_self w), ?_⟩
      intro v hv
      rcases List.mem_append.mp hv with hv | hv
      · have hvb := hle v hv
        omega
      · exact (List.mem_singleton.mp hv) ▸ Nat.le_refl _

theorem isLatest_foldl (ws : List Workflow) : IsLatest ws (ws.foldl newer none) := by
  induction ws using List.reverseRecOn with
  | nil => rfl
  | append_singleton ws w ih =>
    rw [List.foldl_append]
    exact isLatest_newer ih w

/-- Among workflows of different versions one is the latest. -/
theorem foldl_newer_eq_some_iff (h : ∀ a ∈ ws, ∀ b ∈ ws, a.version = b.version → a = b) :
    ws.foldl newer none = some w ↔ w ∈ ws ∧ ∀ v ∈ ws, v.version ≤ w.version := by
  have hlatest := isLatest_foldl ws
  cases hfold : ws.foldl newer none with
  | none =>
    rw [hfold] at hlatest
    obtain rfl : ws = [] := hlatest
    simp
  | some b =>
    rw [hfold] at hlatest
    obtain ⟨hb, hle⟩ := hlatest
    constructor
    · intro heq
      cases heq
      exact ⟨hb, hle⟩
    · rintro ⟨hw, hwle⟩
      rw [h b hb w hw (Nat.le_antisymm (hwle b hb) (hle w hw))]

/-! ## Searches by version -/

/-- What the searches by version answer, in any order of the map, where the given workflows are
    deployed. -/
structure Versioned (r : Repository) (deployed : List Workflow) : Prop where
  version : ∀ id n w, r.version? id n = some w ↔
    w ∈ deployed ∧ w.processId = id ∧ w.version = n
  noVersion : ∀ id n, r.version? id n = none ↔
    ∀ w ∈ deployed, w.processId = id → w.version ≠ n
  latest : ∀ id w, r.latest? id = some w ↔ w ∈ deployed ∧ w.processId = id ∧
    ∀ v ∈ deployed, v.processId = id → v.version ≤ w.version
  noLatest : ∀ id, r.latest? id = none ↔ ∀ w ∈ deployed, w.processId ≠ id
  /-- Another order of the map gives the same answers. -/
  anyOrder : ∀ order : List Workflow, order.Perm r.list →
    (∀ id n, order.find? (fun w => w.processId == id && w.version == n) = r.version? id n) ∧
    ∀ id, (order.filter fun w => w.processId == id).foldl newer none = r.latest? id

theorem find?_version_eq_some_iff
    (h : ∀ a ∈ ws, ∀ b ∈ ws, a.processId = b.processId → a.version = b.version → a = b)
    {id : String} {n : Nat} : ws.find? (fun w => w.processId == id && w.version == n) = some w ↔
      w ∈ ws ∧ w.processId = id ∧ w.version = n := by
  rw [find?_eq_some_iff_of_unique]
  · simp
  · intro a ha b hb hpa hpb
    simp only [Bool.and_eq_true, beq_iff_eq] at hpa hpb
    exact h a ha b hb (hpa.1.trans hpb.1.symm) (hpa.2.trans hpb.2.symm)

theorem foldl_newer_filter_eq_some_iff
    (h : ∀ a ∈ ws, ∀ b ∈ ws, a.processId = b.processId → a.version = b.version → a = b)
    {id : String} : (ws.filter fun w => w.processId == id).foldl newer none = some w ↔
      w ∈ ws ∧ w.processId = id ∧
        ∀ v ∈ ws, v.processId = id → v.version ≤ w.version := by
  rw [foldl_newer_eq_some_iff]
  · simp [and_assoc]
  · intro a ha b hb hversion
    simp only [List.mem_filter, beq_iff_eq] at ha hb
    exact h a ha.1 b hb.1 (ha.2.trans hb.2.symm) hversion

theorem foldl_newer_filter_eq_none_iff {id : String} :
    (ws.filter fun w => w.processId == id).foldl newer none = none ↔
      ∀ w ∈ ws, w.processId ≠ id := by
  have hnil : (ws.filter fun w => w.processId == id) = [] ↔ ∀ w ∈ ws, w.processId ≠ id := by
    simp [List.filter_eq_nil_iff]
  rw [← hnil]
  constructor
  · intro hnone
    have hlatest := isLatest_foldl (ws.filter fun w => w.processId == id)
    rw [hnone] at hlatest
    exact hlatest
  · intro hempty
    rw [hempty]
    rfl

theorem versioned {deployed : List Workflow} (hperm : r.list.Perm deployed)
    (h : (deployed.map fun w => (w.processId, w.version)).Nodup) : r.Versioned deployed := by
  have hunique : ∀ order : List Workflow, order.Perm deployed →
      ∀ a ∈ order, ∀ b ∈ order,
      a.processId = b.processId → a.version = b.version → a = b := by
    intro order horder a ha b hb hid hversion
    exact List.inj_on_of_nodup_map h (horder.mem_iff.mp ha) (horder.mem_iff.mp hb)
      (Prod.ext hid hversion)
  have hmem : ∀ w, w ∈ r.list ↔ w ∈ deployed := fun w => hperm.mem_iff
  have hversion : ∀ id n w, r.version? id n = some w ↔
      w ∈ deployed ∧ w.processId = id ∧ w.version = n := by
    intro id n w
    rw [← hmem]
    exact find?_version_eq_some_iff (hunique r.list hperm)
  have hlatest : ∀ id w, r.latest? id = some w ↔ w ∈ deployed ∧ w.processId = id ∧
      ∀ v ∈ deployed, v.processId = id → v.version ≤ w.version := by
    intro id w
    simp only [← hmem]
    exact foldl_newer_filter_eq_some_iff (hunique r.list hperm)
  refine ⟨hversion, ?_, hlatest, ?_, ?_⟩
  · intro id n
    simp only [Option.eq_none_iff_forall_ne_some, ne_eq, hversion, not_and]
  · intro id
    simp only [← hmem]
    exact foldl_newer_filter_eq_none_iff
  · intro order horder
    have horder' : order.Perm deployed := horder.trans hperm
    constructor
    · intro id n
      apply Option.ext
      intro w
      rw [find?_version_eq_some_iff (hunique order horder'), hversion, horder'.mem_iff]
    · intro id
      apply Option.ext
      intro w
      rw [foldl_newer_filter_eq_some_iff (hunique order horder'), hlatest]
      simp only [horder'.mem_iff]

/-- **Look-ups reflect the history.** A deployment is refused exactly if its key
    was deployed before, and then nothing changes. Under a key lies the first
    workflow that came with it, and the list holds each of these workflows once. If
    no two of them are of the same process and version, the searches by version find
    the one of a version and the latest one in any order. -/
theorem lookups_reflect_history (ws : List Workflow) :
    (∀ w, ((∃ e, (after ws).deploy w = .error e) ↔ ∃ v ∈ ws, v.key = w.key) ∧
      (∀ e, (after ws).deploy w = .error e →
        (∃ text, e = .invalidArgument text) ∧ after (ws ++ [w]) = after ws) ∧
      ∀ r, (after ws).deploy w = .ok r → after (ws ++ [w]) = r) ∧
    (∀ k, (after ws).get? k = ws.find? fun w => w.key == k) ∧
    (∀ w, w ∈ empty.accepted ws ↔ ws.find? (fun v => v.key == w.key) = some w) ∧
    ((after ws).list.Perm (empty.accepted ws) ∧ (after ws).list.Nodup) ∧
    (((empty.accepted ws).map fun w => (w.processId, w.version)).Nodup →
      (after ws).Versioned (empty.accepted ws)) := by
  have hholds := holds_after ws
  have hlist : (after ws).list.Perm (empty.accepted ws) := hholds.values
  refine ⟨?_, get?_after ws, ?_, ⟨hlist, ?_⟩, versioned hlist⟩
  · intro w
    refine ⟨?_, ?_, ?_⟩
    · simp only [deploy_eq_error_iff, ne_eq, get?_after_eq_none_iff]
      simp
    · intro e he
      refine ⟨⟨_, (deploy_eq_error_iff.mp he).2⟩, ?_⟩
      rw [after_concat, attempt_of_error he]
    · intro r hr
      rw [after_concat, attempt_of_ok hr]
  · intro w
    rw [← get?_after]
    exact (hholds.get?_eq_some_iff.trans (and_iff_left rfl)).symm
  · rw [hlist.nodup_iff]
    exact List.Nodup.of_map Workflow.key hholds.nodup

/-- The process of an order, deployed under some key as some version. -/
def orderVersion (key : Key) (version : Nat) : Workflow :=
  { OrderProcess.workflow with key, version }

/-- The second version comes under a taken key first and is refused, and then under a free one. -/
def threeDeployments : List Workflow := [orderVersion 7 1, orderVersion 7 2, orderVersion 3 2]

theorem threeDeployments_latest :
    ((empty.accepted threeDeployments).map fun w => (w.processId, w.version)).Nodup ∧
      (∃ e, (after [orderVersion 7 1]).deploy (orderVersion 7 2) = .error e) ∧
      (after threeDeployments).latest? "order" = some (orderVersion 3 2) := by
  have hdistinct :
      ((empty.accepted threeDeployments).map fun w => (w.processId, w.version)).Nodup := by
    decide
  obtain ⟨-, -, -, -, hversioned⟩ := lookups_reflect_history threeDeployments
  refine ⟨hdistinct, ?_, ?_⟩
  · rw [((lookups_reflect_history [orderVersion 7 1]).1 _).1]
    exact ⟨_, List.mem_singleton_self _, rfl⟩
  · rw [(hversioned hdistinct).latest]
    decide

end Repository

end WorkflowEngine
