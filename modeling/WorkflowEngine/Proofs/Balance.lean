import WorkflowEngine.Proofs.Emission
import WorkflowEngine.Proofs.Removal
import WorkflowEngine.Proofs.Waiting

/-! # Tokens and Containers in Balance

    Any number of events may share a workflow instance, containers may be
    activated without an event, and they may be terminated at any time. Still
    the tokens of a workflow instance fit, one by one, the containers that claim
    them, as long as it was never upset: as long as no step left it with more or
    fewer tokens than claims.

    A container in flight claims a token if it can only start with one, or if an
    event has activated it and so has left one. A container that starts at once
    and was activated from outside claims none.

    Only three kinds of records can upset a workflow instance (`Unsettles`).
    All others keep tokens and claims matched, and so do these if they keep
    their number equal. Once tokens and claims fit again, whatever happened
    before, the workflow instance is no longer out of step (`OutOfStep`).
-/

namespace WorkflowEngine

/-! ## Records in flight -/

namespace Log

/-- The records that were emitted while one of the first `n` records was handled
    and that come behind these. -/
def inFlight (l : Log) (n : Nat) : List Record :=
  (l.records.drop n).filter fun r => r.sourcePosition.any fun q => q ≤ n

variable {l : Log} {n : Nat} {r : Record} {ps : List PendingRecord}

theorem mem_inFlight : r ∈ l.inFlight n ↔
    r ∈ l.records.drop n ∧ ∃ q, r.sourcePosition = some q ∧ q ≤ n := by
  simp [inFlight, List.mem_filter, Option.any_eq_true]

/-- What is appended later does not change which records were in flight. -/
theorem inFlight_appendAll (hn : n ≤ l.lastPosition)
    (hps : ∀ x ∈ ps, ∀ q, x.sourcePosition = some q → n < q) :
    (l.appendAll ps).inFlight n = l.inFlight n := by
  have hnone : ((l.entries ps).filter fun r => r.sourcePosition.any fun q => q ≤ n) = [] := by
    refine List.filter_eq_nil_iff.mpr fun r hr hflight => ?_
    obtain ⟨x, hx, hbecomes⟩ := exists_of_become (l.entries_become ps) hr
    obtain ⟨q, hq, hle⟩ := (Option.any_eq_true _ _).mp hflight
    have hlater := hps x hx q (hbecomes.source ▸ hq)
    have hle : q ≤ n := of_decide_eq_true hle
    omega
  unfold inFlight
  rw [drop_appendAll hn, List.filter_append, hnone, List.append_nil]

/-- When the next record is handled it is no longer in flight, if it was, and
    what it emits is. -/
theorem inFlight_next (hr : l.read? (n + 1) = some r)
    (hsource : ∀ s ∈ l.records, ∀ q, s.sourcePosition = some q → q ≤ n) :
    ∃ rest, l.inFlight n = [r].filter (·.sourcePosition.isSome) ++ rest ∧
      ∀ ps : List PendingRecord, (∀ x ∈ ps, x.sourcePosition = some (n + 1)) →
        (l.appendAll ps).inFlight (n + 1) = rest ++ l.entries ps := by
  have hle : n + 1 ≤ l.lastPosition := by
    rw [read?_succ] at hr
    exact (List.getElem?_eq_some_iff.mp hr).1
  -- Every source in the log has been handled.
  have hany : ∀ s ∈ l.records, ∀ m, n ≤ m →
      (s.sourcePosition.any fun q => q ≤ m) = s.sourcePosition.isSome := by
    intro s hs m hm
    cases hq : s.sourcePosition with
    | none => rfl
    | some q => exact decide_eq_true (Nat.le_trans (hsource s hs q hq) hm)
  refine ⟨(l.records.drop (n + 1)).filter (·.sourcePosition.isSome), ?_, ?_⟩
  · unfold inFlight
    rw [← List.filter_append, List.singleton_append, ← drop_of_read? hr]
    exact List.filter_congr fun s hs => hany s (List.mem_of_mem_drop hs) n (Nat.le_refl n)
  · intro ps hps
    unfold inFlight
    rw [drop_appendAll hle, List.filter_append]
    congr 1
    · exact List.filter_congr fun s hs => hany s (List.mem_of_mem_drop hs) (n + 1) (Nat.le_succ n)
    · refine List.filter_eq_self.mpr fun s hs => ?_
      simp [entries_source hps s hs]

/-- Whether a record was emitted for one from outside. -/
def followsOutside (l : Log) (b : Record) : Bool :=
  (b.sourcePosition.bind l.read?).any fun a => a.sourcePosition.isNone

theorem followsOutside_of_read? {b : Record} {q : Nat} (hq : b.sourcePosition = some q)
    (hr : l.read? q = some r) : l.followsOutside b = r.sourcePosition.isNone := by
  unfold followsOutside
  rw [hq, Option.bind_some, hr]
  rfl

theorem followsOutside_appendAll {b : Record} {q : Nat} (hq : b.sourcePosition = some q)
    (hle : q ≤ l.lastPosition) (ps : List PendingRecord) :
    (l.appendAll ps).followsOutside b = l.followsOutside b := by
  unfold followsOutside
  rw [hq, Option.bind_some, Option.bind_some, read?_appendAll hle]

end Log

/-! ## Claims -/

namespace Repository

variable {repo : Repository} {l : Log} {b : Record}

/-- Whether a value names a container that starts at once, with the start event
    that it declares first. -/
def startsAtOnce (repo : Repository) (v : RecordValue) : Bool :=
  match (repo.get? v.workflowKey).bind fun w => w.element? v.elementId with
  | some (.container scope) => scope.firstStartEvent.isNone
  | _ => false

theorem startsAtOnce_eq {v : RecordValue} {scope : Container} (hdep : repo.Deployed)
    (h : repo.Targets v scope) : repo.startsAtOnce v = scope.firstStartEvent.isNone := by
  obtain ⟨w, hw, hel⟩ := h.lookup hdep
  unfold startsAtOnce
  rw [hw, Option.bind_some, hel]

/-- Whether a record claims a token, if its container is going to start: the
    container can only start with a token, or an event has activated it. -/
def claims (repo : Repository) (l : Log) (b : Record) : Bool :=
  !(b.intent = .elementActivated && repo.startsAtOnce b.value && l.followsOutside b)

theorem claims_of_intent (h : b.intent ≠ .elementActivated) : repo.claims l b = true := by
  simp [claims, h]

theorem claims_of_waits (h : repo.startsAtOnce b.value = false) : repo.claims l b = true := by
  simp [claims, h]

theorem claims_of_event (h : l.followsOutside b = false) : repo.claims l b = true := by
  simp [claims, h]

theorem claims_appendAll {q : Nat} (hq : b.sourcePosition = some q) (hle : q ≤ l.lastPosition)
    (ps : List PendingRecord) : repo.claims (l.appendAll ps) b = repo.claims l b := by
  unfold claims
  rw [Log.followsOutside_appendAll hq hle]

end Repository

namespace Engine

variable {e : Engine} {l : Log} {n m : Nat} {s : Key} {r : Record} {ps : List PendingRecord}

/-- The records in flight that claim a token. -/
def claiming (e : Engine) (l : Log) (n : Nat) : List Record :=
  (l.inFlight n).filter (e.repository.claims l)

theorem claiming_appendAll (hn : n ≤ l.lastPosition)
    (hps : ∀ x ∈ ps, ∀ q, x.sourcePosition = some q → n < q) :
    e.claiming (l.appendAll ps) n = e.claiming l n := by
  unfold claiming
  rw [Log.inFlight_appendAll hn hps]
  refine List.filter_congr fun b hb => ?_
  obtain ⟨-, q, hq, hqn⟩ := Log.mem_inFlight.mp hb
  exact Repository.claims_appendAll hq (Nat.le_trans hqn hn) ps

/-- The claim of the record that is handled next. -/
def ownClaim (e : Engine) (l : Log) (r : Record) : List Record :=
  [r].filter fun r => r.sourcePosition.isSome && e.repository.claims l r

theorem ownClaim_cases : e.ownClaim l r = [] ∨ e.ownClaim l r = [r] := by
  unfold ownClaim
  rw [List.filter_singleton]
  cases r.sourcePosition.isSome && e.repository.claims l r with
  | true => exact .inr rfl
  | false => exact .inl rfl

theorem ownClaim_of_outside (h : r.sourcePosition = none) : e.ownClaim l r = [] := by
  simp [ownClaim, h]

theorem ownClaim_eq (h : r.sourcePosition ≠ none) (hclaims : e.repository.claims l r = true) :
    e.ownClaim l r = [r] := by
  obtain ⟨q, hq⟩ := Option.ne_none_iff_exists'.mp h
  simp [ownClaim, hq, hclaims]

theorem ownClaim_of_free (h : e.repository.claims l r = false) : e.ownClaim l r = [] := by
  simp [ownClaim, h]

/-- When the next record is handled it no longer claims a token, if it did, and
    what it emits may. -/
theorem claiming_next (hr : l.read? (n + 1) = some r)
    (hsource : ∀ s ∈ l.records, ∀ q, s.sourcePosition = some q → q ≤ n) :
    ∃ rest, e.claiming l n = e.ownClaim l r ++ rest ∧
      ∀ ps : List PendingRecord, (∀ x ∈ ps, x.sourcePosition = some (n + 1)) →
        e.claiming (l.appendAll ps) (n + 1) =
          rest ++ (l.entries ps).filter (e.repository.claims (l.appendAll ps)) := by
  obtain ⟨rest, hflight, hnext⟩ := Log.inFlight_next hr hsource
  have hle : n + 1 ≤ l.lastPosition := by
    rw [Log.read?_succ] at hr
    exact (List.getElem?_eq_some_iff.mp hr).1
  refine ⟨rest.filter (e.repository.claims l), ?_, ?_⟩
  · unfold claiming ownClaim
    rw [hflight, List.filter_append, List.filter_filter]
    simp only [Bool.and_comm]
  · intro ps hps
    unfold claiming
    rw [hnext ps hps, List.filter_append]
    congr 1
    refine List.filter_congr fun b hb => ?_
    have hmem : b ∈ l.inFlight n := hflight ▸ List.mem_append_right _ hb
    obtain ⟨-, q, hq, hqn⟩ := Log.mem_inFlight.mp hmem
    exact Repository.claims_appendAll hq (by omega) ps

/-- What is emitted claims a token, unless it is an active container. -/
theorem claims_entries {x : PendingRecord} (hx : x.intent ≠ .elementActivated) (l' : Log) :
    (l.entries [x]).filter (e.repository.claims l') = l.entries [x] := by
  refine List.filter_eq_self.mpr fun b hb => ?_
  obtain rfl := List.mem_singleton.mp hb
  exact Repository.claims_of_intent hx

/-! ## Balance -/

/-- When the first `n` records have been handled, a workflow instance has as many
    tokens as there are containers in flight that claim one. -/
def Balanced (e : Engine) (l : Log) (n : Nat) (s : Key) : Prop :=
  ((e.stateAt l n).contents.tokensOf s).length =
    ((e.stateAt l n).contents.expecting s (e.claiming l n)).length

instance (e : Engine) (l : Log) (n : Nat) (s : Key) : Decidable (e.Balanced l n s) :=
  inferInstanceAs (Decidable (_ = _))

theorem balanced_appendAll (hn : n ≤ l.lastPosition)
    (hps : ∀ x ∈ ps, ∀ q, x.sourcePosition = some q → n < q) :
    e.Balanced (l.appendAll ps) n s ↔ e.Balanced l n s := by
  unfold Balanced
  rw [stateAt_appendAll hn, claiming_appendAll hn hps]

end Engine

/-- The records that may change the number of tokens and that of the claims
    differently. -/
inductive Repository.Unsettles (repo : Repository) (l : Log) (r : Record) : Prop where
  /-- A container that an event has activated starts at once and takes no token. -/
  | startsAtOnce {scope : Container} : r.intent = .elementActivated →
      repo.Targets r.value scope → scope.firstStartEvent.isNone = true →
      l.followsOutside r = false → Unsettles repo l r
  /-- A container is activated that belongs to no workflow instance yet, unless it
      is activated from outside and starts at once. -/
  | unplaced : r.intent = .elementActivating → r.value.instanceKey = Key.unset →
      (r.sourcePosition = none → repo.startsAtOnce r.value = false) → Unsettles repo l r
  /-- Containers are terminated. -/
  | terminates : r.intent = .elementTerminating → Unsettles repo l r

theorem Repository.Unsettles.appendAll {repo : Repository} {l : Log} {r : Record}
    (h : repo.Unsettles l r) (hsource : ∀ q, r.sourcePosition = some q → q ≤ l.lastPosition)
    (ps : List PendingRecord) : repo.Unsettles (l.appendAll ps) r := by
  cases h with
  | startsAtOnce hintent htargets hfirst houtside =>
    refine .startsAtOnce hintent htargets hfirst ?_
    cases hq : r.sourcePosition with
    | none => simp [Log.followsOutside, hq]
    | some q =>
      rw [Log.followsOutside_appendAll hq (hsource q hq)]
      exact houtside
  | unplaced hintent hunset hwaits => exact .unplaced hintent hunset hwaits
  | terminates hintent => exact .terminates hintent

/-! ## Tokens fit containers -/

/-- A token names a start event of the container that a record is about. -/
def Repository.Fits (repo : Repository) (t : Token) (b : Record) : Prop :=
  ∃ scope start, repo.Targets b.value scope ∧ start ∈ scope.startEvents ∧
    t.value.elementId = start.id

theorem Repository.Fits.congr {repo : Repository} {t : Token} {b b' : Record}
    (h : repo.Fits t b) (hworkflow : b'.value.workflowKey = b.value.workflowKey)
    (helement : b'.value.elementId = b.value.elementId) : repo.Fits t b' := by
  obtain ⟨scope, start, ⟨hdeployed, hnamed⟩, hstart, hid⟩ := h
  exact ⟨scope, start, ⟨hworkflow ▸ hdeployed, helement.trans hnamed⟩, hstart, hid⟩

/-! ## Workflow instances that are out of step -/

namespace Engine

variable {e : Engine} {l : Log} {n m : Nat} {s : Key} {ps : List PendingRecord}

/-- When the first `n` records have been handled, the tokens of a workflow instance
    fit, one by one, the containers in flight that claim them. -/
def InStep (e : Engine) (l : Log) (n : Nat) (s : Key) : Prop :=
  (e.stateAt l n).contents.Matched e.repository.Fits s (e.claiming l n)

/-- One of the first `n` records has left a workflow instance with more or fewer
    tokens than containers that claim one. -/
def Upset (e : Engine) (l : Log) (n : Nat) (s : Key) : Prop :=
  ∃ r ∈ l.records,
    r.position ≤ n ∧ e.repository.Unsettles l r ∧ ¬e.Balanced l r.position s

/-- A workflow instance was upset, and since then its tokens have never again
    fitted the containers that claim them. -/
def OutOfStep (e : Engine) (l : Log) (n : Nat) (s : Key) : Prop :=
  ∃ r ∈ l.records,
    r.position ≤ n ∧ e.repository.Unsettles l r ∧ ¬e.Balanced l r.position s ∧
    ∀ m, r.position ≤ m → m ≤ n → ¬e.InStep l m s

theorem inStep_appendAll (hn : n ≤ l.lastPosition)
    (hps : ∀ x ∈ ps, ∀ q, x.sourcePosition = some q → n < q) :
    e.InStep (l.appendAll ps) n s ↔ e.InStep l n s := by
  unfold InStep
  rw [stateAt_appendAll hn, claiming_appendAll hn hps]

theorem Upset.mono (h : e.Upset l n s) (hm : n ≤ m) : e.Upset l m s := by
  obtain ⟨r, hr, hrn, hupsets⟩ := h
  exact ⟨r, hr, Nat.le_trans hrn hm, hupsets⟩

theorem OutOfStep.upset (h : e.OutOfStep l n s) : e.Upset l n s := by
  obtain ⟨r, hr, hrn, hkind, hunbalanced, -⟩ := h
  exact ⟨r, hr, hrn, hkind, hunbalanced⟩

/-- It stays out of step while tokens and claims do not fit. -/
theorem OutOfStep.next (h : e.OutOfStep l n s) (hmisfit : ¬e.InStep l (n + 1) s) :
    e.OutOfStep l (n + 1) s := by
  obtain ⟨r, hr, hrn, hkind, hunbalanced, hnever⟩ := h
  refine ⟨r, hr, Nat.le_succ_of_le hrn, hkind, hunbalanced, ?_⟩
  intro m hrm hm
  rcases Nat.le_succ_iff.mp hm with hm | rfl
  · exact hnever m hrm hm
  · exact hmisfit

section Append

variable (hsource : ∀ r ∈ l.records, ∀ q, r.sourcePosition = some q → q ≤ l.lastPosition)
  (hn : n ≤ l.lastPosition) (hps : ∀ x ∈ ps, ∀ q, x.sourcePosition = some q → n < q)

include hsource hn hps

/-- What was upset stays upset. -/
theorem Upset.appendAll (h : e.Upset l n s) : e.Upset (l.appendAll ps) n s := by
  obtain ⟨r, hr, hrn, hkind, hunbalanced⟩ := h
  refine ⟨r, Log.mem_appendAll_of_mem hr, hrn, hkind.appendAll (hsource r hr) ps, ?_⟩
  rw [balanced_appendAll (Nat.le_trans hrn hn)]
  · exact hunbalanced
  · intro x hx q hq
    exact Nat.lt_of_le_of_lt hrn (hps x hx q hq)

/-- What is appended later does not bring a workflow instance in step before. -/
theorem OutOfStep.appendAll (h : e.OutOfStep l n s) : e.OutOfStep (l.appendAll ps) n s := by
  obtain ⟨r, hr, hrn, hkind, hunbalanced, hnever⟩ := h
  refine ⟨r, Log.mem_appendAll_of_mem hr, hrn, hkind.appendAll (hsource r hr) ps, ?_, ?_⟩
  · rw [balanced_appendAll (Nat.le_trans hrn hn)]
    · exact hunbalanced
    · intro x hx q hq
      exact Nat.lt_of_le_of_lt hrn (hps x hx q hq)
  · intro m hrm hm
    rw [inStep_appendAll (Nat.le_trans hm hn)]
    · exact hnever m hrm hm
    · intro x hx q hq
      exact Nat.lt_of_le_of_lt hm (hps x hx q hq)

end Append

end Engine

namespace Contents

/-- Some queues are emptied and some instances are gone. -/
structure Thins (c c' : Contents) : Prop where
  /-- The tokens of a scope wait as before, or they are gone. -/
  tokens : ∀ s, c'.tokensOf s = c.tokensOf s ∨ c'.tokensOf s = []
  /-- An instance is tracked as before, or it is gone. -/
  instances : ∀ k, c'.instance? k = c.instance? k ∨ c'.instance? k = none

variable {c c' : Contents} {s : Key} {r x : Record} {rs rs' : List Record}

theorem thins_terminate (hc : c.Keyed) (key : Key) (value : RecordValue) :
    c.Thins (c.terminate key value) := by
  have hprunes : c.Prunes key (Store.removeTree ⟨c, some []⟩ key).2.contents :=
    Store.removeTree_prunes (s := ⟨c, some []⟩) hc key
  have hnested : c.Thins (Store.removeTree ⟨c, some []⟩ key).2.contents :=
    ⟨fun s => (hprunes.tokens s).imp_right And.left,
      fun k => (hprunes.instances k).imp_right And.left⟩
  unfold terminate
  simp only
  split
  · exact hnested
  · refine ⟨fun s => ?_, hnested.instances⟩
    rw [tokensOf_setTokens]
    split
    · exact .inr rfl
    · exact hnested.tokens s

/-- Fewer containers are going to take a token, if any are gone. -/
theorem Thins.expecting_sublist (h : c.Thins c') :
    (c'.expecting s rs).Sublist (c.expecting s rs) := by
  unfold expecting
  refine List.Sublist.append ?_ (List.Sublist.refl _)
  refine List.monotone_filter_right rs fun r hstarts => ?_
  obtain ⟨hintent, hinstance, hsome⟩ := of_decide_eq_true hstarts
  rcases h.instances r.key with hsame | hnone
  · rw [hsame] at hsome
    exact decide_eq_true ⟨hintent, hinstance, hsome⟩
  · rw [hnone] at hsome
    cases hsome

theorem not_expects_of_intent (h : r.intent ≠ .elementActivating)
    (h' : r.intent ≠ .elementActivated) :
    ¬c.Expects s r := fun hexpects => hexpects.intent.elim h h'

theorem expecting_setInstance {k : Key}
    (h : ∀ b ∈ rs, b.intent = .elementActivated → b.key ≠ k)
    (i : Option ElementInstance) : (c.setInstance k i).expecting s rs = c.expecting s rs := by
  unfold expecting
  rw [starting_setInstance h]

theorem length_expecting_append (c : Contents) (s : Key) (rs rs' : List Record) :
    (c.expecting s (rs ++ rs')).length =
      (c.expecting s rs).length + (c.expecting s rs').length := by
  unfold expecting
  rw [starting_append, entering_append]
  simp only [List.length_append]
  omega

/-- A record takes one token. -/
theorem length_expecting_singleton (h : c.Expects s r) : (c.expecting s [r]).length = 1 := by
  obtain ⟨hinstance, hintent | ⟨hintent, hsome⟩⟩ := h
  · simp [expecting, starting, entering, hintent, hinstance]
  · have hsome := Option.isSome_iff_ne_none.mpr hsome
    simp [expecting, starting, entering, hintent, hinstance, hsome]

theorem expects_iff_length : c.Expects s r ↔ (c.expecting s [r]).length = 1 := by
  refine ⟨length_expecting_singleton, fun hone => ?_⟩
  by_contra hnot
  rw [expecting_eq_nil fun x hx => List.mem_singleton.mp hx ▸ hnot] at hone
  cases hone

end Contents

namespace Engine

section Matched

variable {e : Engine} {l : Log} {c c' : Contents} {r : Record} {out : Option PendingRecord}
  {s : Key} {own rest : List Record}

/-- Termination keeps tokens and containers matched if it keeps their number equal. -/
theorem matched_of_thins (hthins : c.Thins c') (h : c.Matched e.repository.Fits s rest)
    (hbalance : (c'.tokensOf s).length = (c'.expecting s rest).length) :
    c'.Matched e.repository.Fits s rest := by
  unfold Contents.Matched at h ⊢
  rcases hthins.tokens s with hsame | hnone
  · -- The same tokens wait, so the same containers are going to take them.
    have hlength : (c'.expecting s rest).length = (c.expecting s rest).length := by
      rw [← hbalance, hsame, h.length_eq]
    rw [hsame, hthins.expecting_sublist.eq_of_length hlength]
    exact h
  · rw [hnone] at hbalance ⊢
    rw [List.length_eq_zero_iff.mp hbalance.symm]
    exact .nil

/-- A record that takes no token may be handled, and others may join. -/
theorem matched_pass {R : Token → Record → Prop} {xs : List Record}
    (h : c.Matched R s (own ++ rest))
    (hown : own = [] ∨ own = [r]) (hnot : own = [r] → ¬c.Expects s r)
    (hxs : ∀ x ∈ xs, ¬c.Expects s x) : c.Matched R s (rest ++ xs) := by
  have hleft : c.expecting s (own ++ rest) = c.expecting s rest := by
    refine Contents.expecting_append_of_left fun x hx => ?_
    rcases hown with rfl | rfl
    · cases hx
    · obtain rfl := List.mem_singleton.mp hx
      exact hnot rfl
  exact h.congr ((Contents.expecting_append_of_right hxs).trans hleft.symm)

/-- An event leaves a token that fits the container it activates. -/
theorem matched_occurred {w : Workflow} {scope : Container} {x : Record}
    (h : c.Matched e.repository.Fits s (own ++ rest)) (hown : own = [] ∨ own = [r])
    (hintent : r.intent = .eventOccurred) (hw : e.repository.get? r.value.workflowKey = some w)
    (hscope : w.flowScopeOf? r.value.elementId = some scope) (hx : x.intent = .elementActivating)
    (hvalue : x.value = r.scopeValue scope.id) :
    (c.setTokens r.instanceKey (c.tokensOf r.instanceKey ++ [r.token])).Matched
      e.repository.Fits s (rest ++ [x]) := by
  have hinstance : x.value.instanceKey = r.instanceKey := by
    rw [hvalue]
    rfl
  have hfits : e.repository.Fits r.token x := by
    obtain ⟨start, hdeclares⟩ := Repository.declares_of_flowScopeOf? hw hscope
    refine ⟨scope, start, ⟨?_, ?_⟩, hdeclares.declared, hdeclares.named⟩
    · rw [hvalue]
      exact hdeclares.deployed
    · rw [hvalue]
      rfl
  have hrest : c.Matched e.repository.Fits s (rest ++ []) :=
    matched_pass h hown (fun _ =>
      Contents.not_expects_of_intent (by simp [hintent]) (by simp [hintent]))
      (by simp)
  rw [List.append_nil] at hrest
  rw [← hinstance]
  exact hrest.enter hx hfits

section Activating

variable {x : Record} {i : ElementInstance} (hr : r.intent = .elementActivating)
  (hx : x.intent = .elementActivated) (hkey : x.key = r.key)
  (hvalue : x.value = r.value.withInstance r.key)
  (hother : ∀ b ∈ rest, b.intent = .elementActivated → b.key ≠ r.key)

include hx hkey hvalue

/-- An active container takes a token of the workflow instance that it is in. -/
theorem expects_activated : (c.setInstance r.key (some i)).Expects s x ↔ r.instanceKey = s := by
  have hinstance : x.value.instanceKey = r.instanceKey := by
    rw [hvalue]
    rfl
  have htracked : (c.setInstance r.key (some i)).instance? x.key ≠ none := by
    rw [hkey, Contents.instance?_setInstance, if_pos rfl]
    simp
  rw [← hinstance]
  exact ⟨And.left, fun hs => ⟨hs, .inr ⟨hx, htracked⟩⟩⟩

include hr hother

/-- A container is active in the workflow instance that has a token for it: one
    that joined another would leave both with unequal numbers. -/
theorem instance_of_activated (h : c.Matched e.repository.Fits s (own ++ rest))
    (hown : own = [] ∨ own = [r]) (hplaced : r.value.instanceKey ≠ Key.unset → own = [r])
    (hwaits : r.sourcePosition = none → e.repository.startsAtOnce r.value = false)
    (hbalance : e.repository.Unsettles l r → ((c.setInstance r.key (some i)).tokensOf s).length =
      ((c.setInstance r.key (some i)).expecting s (rest ++ [x])).length) :
    own = [r] ∧ r.value.instanceKey = s ↔ r.instanceKey = s := by
  by_cases hunset : r.value.instanceKey = Key.unset
  · have hequal := hbalance (.unplaced hr hunset hwaits)
    have hlength := h.length_eq
    rw [Contents.length_expecting_append] at hlength hequal
    rw [Contents.tokensOf_setInstance, Contents.expecting_setInstance hother] at hequal
    -- As many tokens are taken by the activation as by the active container.
    have hcount : (c.expecting s own).length =
        ((c.setInstance r.key (some i)).expecting s [x]).length := by omega
    rw [← expects_activated (c := c) (i := i) hx hkey hvalue, Contents.expects_iff_length,
      ← hcount]
    rcases hown with rfl | rfl
    · simp [Contents.expecting, Contents.starting, Contents.entering]
    · rw [← Contents.expects_iff_length]
      exact ⟨fun hs => ⟨hs.2, .inl hr⟩, fun hexpects => ⟨rfl, hexpects.1⟩⟩
  · have hinstance : r.instanceKey = r.value.instanceKey :=
      RecordValue.instanceOr_of_set hunset r.key
    rw [hinstance]
    exact ⟨And.right, fun hs => ⟨hplaced hunset, hs⟩⟩

/-- An activated container goes on waiting for its token. -/
theorem matched_activating (h : c.Matched e.repository.Fits s (own ++ rest))
    (hown : own = [] ∨ own = [r]) (hplaced : r.value.instanceKey ≠ Key.unset → own = [r])
    (hwaits : r.sourcePosition = none → e.repository.startsAtOnce r.value = false)
    (hbalance : e.repository.Unsettles l r → ((c.setInstance r.key (some i)).tokensOf s).length =
      ((c.setInstance r.key (some i)).expecting s (rest ++ [x])).length) :
    (c.setInstance r.key (some i)).Matched e.repository.Fits s (rest ++ [x]) := by
  have hjoins := instance_of_activated hr hx hkey hvalue hother h hown hplaced hwaits hbalance
  by_cases hs : r.instanceKey = s
  · obtain ⟨rfl, hbefore⟩ := hjoins.mpr hs
    have hinstance : x.value.instanceKey = r.value.instanceKey := by
      rw [hbefore, ← hs, hvalue]
      rfl
    exact h.activate hr hx hkey hinstance (fun _ _ hfits => hfits)
      (fun t hfits => hfits.congr (by rw [hvalue]; rfl) (by rw [hvalue]; rfl)) hother
  · -- The container is in another workflow instance, before and after.
    have hrest : c.Matched e.repository.Fits s (rest ++ []) :=
      matched_pass h hown (fun hself hexpects => hs (hjoins.mp ⟨hself, hexpects.1⟩)) (by simp)
    rw [List.append_nil] at hrest
    have hidle : ∀ b ∈ [x], ¬(c.setInstance r.key (some i)).Expects s b := by
      intro b hb
      rw [List.mem_singleton.mp hb, expects_activated hx hkey hvalue]
      exact hs
    unfold Contents.Matched at hrest ⊢
    rw [Contents.expecting_append_of_right hidle, Contents.expecting_setInstance hother]
    exact hrest

end Activating

/-- A container that an event has activated and that starts at once takes no
    token, and leaves its workflow instance with too many. -/
theorem matched_surplus {scope : Container} {xs : List Record}
    (h : c.Matched e.repository.Fits s ([r] ++ rest)) (hr : r.intent = .elementActivated)
    (htargets : e.repository.Targets r.value scope) (hsome : c.instance? r.key ≠ none)
    (hfirst : scope.firstStartEvent.isNone = true) (houtside : l.followsOutside r = false)
    (hxs : ∀ x ∈ xs, ¬c.Expects s x)
    (hbalance : e.repository.Unsettles l r →
      (c.tokensOf s).length = (c.expecting s (rest ++ xs)).length) :
    c.Matched e.repository.Fits s (rest ++ xs) := by
  by_cases hs : r.value.instanceKey = s
  · have hequal := hbalance (.startsAtOnce hr htargets hfirst houtside)
    have hlength := h.length_eq
    have hone := Contents.length_expecting_singleton (c := c) ⟨hs, .inr ⟨hr, hsome⟩⟩
    rw [Contents.expecting_append_of_right hxs] at hequal
    rw [Contents.length_expecting_append] at hlength
    omega
  · exact matched_pass h (.inr rfl) (fun _ hexpects => hs hexpects.1) hxs

/-- A container that starts otherwise takes the oldest token. -/
theorem matched_startedByToken {x : Record} {t : Token} {ts : List Token}
    (h : c.Matched e.repository.Fits s (r :: rest)) (hr : r.intent = .elementActivated)
    (hsome : c.instance? r.key ≠ none) (htokens : c.tokensOf r.value.instanceKey = t :: ts)
    (hx : x.intent = .eventTriggering) :
    (c.setTokens r.value.instanceKey ts).Matched e.repository.Fits s (rest ++ [x]) := by
  obtain ⟨i, hi⟩ := Option.ne_none_iff_exists'.mp hsome
  have htaken := h.take hr hi htokens
  refine htaken.congr (Contents.expecting_append_of_right fun b hb => ?_)
  obtain rfl := List.mem_singleton.mp hb
  exact Contents.not_expects_of_intent (by simp [hx]) (by simp [hx])

/-- What handling a record emits that claims a token. -/
def emittedClaims (e : Engine) (l : Log) (out : Option PendingRecord) : List Record :=
  (l.entries out.toList).filter (e.repository.claims (l.appendAll out.toList))

theorem emittedClaims_of_intent {x : PendingRecord} (hx : x.intent ≠ .elementActivated) :
    e.emittedClaims l (some x) = l.entries [x] := claims_entries hx _

/-- An active container claims a token, unless it starts at once and its activation
    came from outside. -/
theorem emittedClaims_activated (hread : l.read? r.position = some r) {x : PendingRecord}
    (hx : x.intent = .elementActivated) (hsource : x.sourcePosition = some r.position)
    (hstarts : e.repository.startsAtOnce x.value = e.repository.startsAtOnce r.value) :
    e.emittedClaims l (some x) =
      if r.sourcePosition = none ∧ e.repository.startsAtOnce r.value = true then []
      else l.entries [x] := by
  have hle : r.position ≤ l.lastPosition := ((l.isSome_read? _).mp (by rw [hread]; rfl)).2
  have hfollows : (l.appendAll [x]).followsOutside (l.record x) = r.sourcePosition.isNone :=
    Log.followsOutside_of_read? hsource ((Log.read?_appendAll hle [x]).trans hread)
  have hclaims : e.repository.claims (l.appendAll [x]) (l.record x) =
      !(e.repository.startsAtOnce r.value && r.sourcePosition.isNone) := by
    have hintent : (l.record x).intent = .elementActivated := hx
    have hvalue : e.repository.startsAtOnce (l.record x).value =
        e.repository.startsAtOnce r.value := hstarts
    unfold Repository.claims
    rw [hfollows, hvalue]
    simp [hintent]
  show [l.record x].filter (e.repository.claims (l.appendAll [x])) = _
  rw [List.filter_singleton, hclaims]
  cases r.sourcePosition with
  | none => cases e.repository.startsAtOnce r.value <;> rfl
  | some q => cases e.repository.startsAtOnce r.value <;> rfl

/-- What is emitted about a container that is neither being activated nor active
    takes no token. -/
theorem emittedClaims_idle {x : PendingRecord} (hx : x.intent ≠ .elementActivating)
    (hx' : x.intent ≠ .elementActivated) (c : Contents) :
    ∀ b ∈ e.emittedClaims l (some x), ¬c.Expects s b := by
  intro b hb
  rw [emittedClaims_of_intent hx'] at hb
  obtain rfl := List.mem_singleton.mp hb
  exact Contents.not_expects_of_intent hx hx'

/-- An activated container claims a token as it did before. -/
theorem matched_activated {i : ElementInstance} {x : PendingRecord}
    (h : c.Matched e.repository.Fits s (e.ownClaim l r ++ rest))
    (hread : l.read? r.position = some r) (hr : r.intent = .elementActivating)
    (hx : x.intent = .elementActivated) (hkey : x.key = some r.key)
    (hvalue : x.value = r.value.withInstance r.key) (hsource : x.sourcePosition = some r.position)
    (hplaced : r.value.instanceKey ≠ Key.unset → r.sourcePosition ≠ none)
    (hother : ∀ b ∈ rest, b.intent = .elementActivated → b.key ≠ r.key)
    (hbalance : e.repository.Unsettles l r → ((c.setInstance r.key (some i)).tokensOf s).length =
      ((c.setInstance r.key (some i)).expecting s
        (rest ++ e.emittedClaims l (some x))).length) :
    (c.setInstance r.key (some i)).Matched e.repository.Fits s
      (rest ++ e.emittedClaims l (some x)) := by
  rw [emittedClaims_activated hread hx hsource (by rw [hvalue]; rfl)] at hbalance ⊢
  by_cases houtside : r.sourcePosition = none ∧ e.repository.startsAtOnce r.value = true
  · -- Neither the activation nor the active container claims a token.
    rw [if_pos houtside, List.append_nil]
    rw [ownClaim_of_outside houtside.1, List.nil_append] at h
    unfold Contents.Matched at h ⊢
    rw [Contents.expecting_setInstance hother]
    exact h
  · rw [if_neg houtside] at hbalance ⊢
    have hwaits : r.sourcePosition = none → e.repository.startsAtOnce r.value = false :=
      fun hsource => Bool.eq_false_iff.mpr fun hstarts => houtside ⟨hsource, hstarts⟩
    have hclaims : e.repository.claims l r = true :=
      Repository.claims_of_intent (by simp [hr])
    exact matched_activating hr hx (l.record_key_of_some hkey) hvalue hother h ownClaim_cases
      (fun hset => ownClaim_eq (hplaced hset) hclaims) hwaits hbalance

/-- A container that starts at once leaves the token of the event that activated
    it, if one did, and otherwise claims none. -/
theorem matched_startedAtOnce {scope : Container} {x : PendingRecord}
    (h : c.Matched e.repository.Fits s (e.ownClaim l r ++ rest)) (hdep : e.repository.Deployed)
    (hr : r.intent = .elementActivated) (hemitted : r.sourcePosition ≠ none)
    (htargets : e.repository.Targets r.value scope) (hsome : c.instance? r.key ≠ none)
    (hfirst : scope.firstStartEvent.isNone = true) (hx : x.intent = .eventTriggering)
    (hbalance : e.repository.Unsettles l r →
      (c.tokensOf s).length = (c.expecting s (rest ++ e.emittedClaims l (some x))).length) :
    c.Matched e.repository.Fits s (rest ++ e.emittedClaims l (some x)) := by
  have hidle : ∀ b ∈ e.emittedClaims l (some x), ¬c.Expects s b :=
    emittedClaims_idle (by simp [hx]) (by simp [hx]) c
  cases houtside : l.followsOutside r with
  | true =>
    have hstarts := (Repository.startsAtOnce_eq hdep htargets).trans hfirst
    have hnone : e.repository.claims l r = false := by
      simp [Repository.claims, hr, hstarts, houtside]
    rw [ownClaim_of_free hnone, List.nil_append] at h
    exact h.congr (Contents.expecting_append_of_right hidle)
  | false =>
    rw [ownClaim_eq hemitted (Repository.claims_of_event houtside)] at h
    exact matched_surplus h hr htargets hsome hfirst houtside hidle hbalance

/-- A termination leaves tokens and claims matched, if it keeps their number equal. -/
theorem matched_terminated {x : PendingRecord}
    (h : c.Matched e.repository.Fits s (e.ownClaim l r ++ rest)) (hkeyed : c.Keyed)
    (hr : r.intent = .elementTerminating) (hx : x.intent = .elementTerminated)
    (hbalance : e.repository.Unsettles l r →
      ((c.terminate r.key r.value).tokensOf s).length =
        ((c.terminate r.key r.value).expecting s (rest ++ e.emittedClaims l (some x))).length) :
    (c.terminate r.key r.value).Matched e.repository.Fits s
      (rest ++ e.emittedClaims l (some x)) := by
  have hrest : c.Matched e.repository.Fits s (rest ++ []) :=
    matched_pass h ownClaim_cases
      (fun _ => Contents.not_expects_of_intent (by simp [hr]) (by simp [hr])) (by simp)
  rw [List.append_nil] at hrest
  have hequal := hbalance (.terminates hr)
  have hsame : (c.terminate r.key r.value).expecting s (rest ++ e.emittedClaims l (some x)) =
      (c.terminate r.key r.value).expecting s rest :=
    Contents.expecting_append_of_right (emittedClaims_idle (by simp [hx]) (by simp [hx]) _)
  rw [hsame] at hequal
  exact (matched_of_thins (Contents.thins_terminate hkeyed r.key r.value) hrest hequal).congr
    hsame

/-- **Processing a record keeps tokens and claims matched**, if it is none of the
    records that may upset a workflow instance or keeps their number equal. -/
theorem Effect.matched (h : Effect e c r c' out) (hdep : e.repository.Deployed) (hkeyed : c.Keyed)
    (hread : l.read? r.position = some r)
    (hmatched : c.Matched e.repository.Fits s (e.ownClaim l r ++ rest))
    (hactivated : r.intent = .elementActivated → r.sourcePosition ≠ none)
    (hplaced : r.intent = .elementActivating → r.value.instanceKey ≠ Key.unset →
      r.sourcePosition ≠ none)
    (hother : r.intent = .elementActivating →
      ∀ b ∈ rest, b.intent = .elementActivated → b.key ≠ r.key)
    (hbalance : e.repository.Unsettles l r →
      (c'.tokensOf s).length = (c'.expecting s (rest ++ e.emittedClaims l out)).length) :
    c'.Matched e.repository.Fits s (rest ++ e.emittedClaims l out) := by
  have hown : e.ownClaim l r = [] ∨ e.ownClaim l r = [r] := ownClaim_cases
  cases h with
  | occurred hfinds _ hintent hscope =>
    rw [emittedClaims_of_intent (by simp)]
    exact matched_occurred hmatched hown hintent hfinds.workflow hscope rfl rfl
  | activating _ _ hintent =>
    exact matched_activated hmatched hread hintent rfl rfl rfl rfl (hplaced hintent)
      (hother hintent) hbalance
  | untracked _ hintent hnone =>
    refine matched_pass hmatched hown (fun _ hexpects => ?_) (by simp [emittedClaims])
    rcases hexpects.2 with hactivating | ⟨-, hsome⟩
    · rw [hintent] at hactivating
      cases hactivating
    · exact hsome hnone
  | startedAtOnce hfinds hintent hsome hfirst =>
    have htargets := Repository.targets_of_element? hdep hfinds.workflow hfinds.element
    exact matched_startedAtOnce hmatched hdep hintent (hactivated hintent) htargets hsome hfirst
      rfl hbalance
  | startedByToken hfinds hintent hsome hfirst htokens =>
    have htargets := Repository.targets_of_element? hdep hfinds.workflow hfinds.element
    have hwaits := (Repository.startsAtOnce_eq hdep htargets).trans hfirst
    rw [ownClaim_eq (hactivated hintent) (Repository.claims_of_waits hwaits)] at hmatched
    rw [emittedClaims_of_intent (by simp)]
    exact matched_startedByToken hmatched hintent hsome htokens rfl
  | triggering _ _ hintent =>
    exact matched_pass hmatched hown
      (fun _ => Contents.not_expects_of_intent (by simp [hintent]) (by simp [hintent]))
      (emittedClaims_idle (by simp) (by simp) c)
  | terminating _ _ hintent =>
    exact matched_terminated hmatched hkeyed hintent rfl hbalance

/-- No token appears but that of an event that occurs. -/
theorem Effect.mem_tokensOf (h : Effect e c r c' out) (hkeyed : c.Keyed) {t : Token}
    (ht : t ∈ c'.tokensOf s) :
    t ∈ c.tokensOf s ∨ r.intent = .eventOccurred ∧ r.instanceKey = s ∧ t = r.token := by
  cases h with
  | occurred _ _ hintent =>
    rw [Contents.tokensOf_setTokens] at ht
    split at ht
    · rename_i hs
      rcases List.mem_append.mp ht with hold | hnew
      · exact .inl (hs ▸ hold)
      · exact .inr ⟨hintent, hs.symm, List.mem_singleton.mp hnew⟩
    · exact .inl ht
  | activating => exact .inl ht
  | untracked => exact .inl ht
  | startedAtOnce => exact .inl ht
  | startedByToken _ _ _ _ htokens =>
    rw [Contents.tokensOf_setTokens] at ht
    split at ht
    · rename_i hs
      rw [hs, htokens]
      exact .inl (List.mem_cons_of_mem _ ht)
    · exact .inl ht
  | triggering => exact .inl ht
  | terminating =>
    rcases (Contents.thins_terminate hkeyed r.key r.value).tokens s with hsame | hnone
    · exact .inl (hsame ▸ ht)
    · rw [hnone] at ht
      cases ht

end Matched

end Engine

end WorkflowEngine
