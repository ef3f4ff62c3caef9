import WorkflowEngine.Cluster.Discovery
import Mathlib.Algebra.BigOperators.Group.Finset.Basic
import Mathlib.Algebra.BigOperators.Intervals
import Mathlib.Tactic.Ring

/-! # Discovering the Owned Partitions

    A query asks until an answer counts partitions, waits between two requests,
    and gives up after its retries. `QueryPlan.Course` tells what it may do on
    the way; of a cancellation and an answer at the same moment either may come
    first, and `QueryPlan.query` takes one of these courses. From there follows
    what a call of a holder returns, and what its snapshot is after any calls.
-/

namespace WorkflowEngine

/-! ## Answers -/

/-- The answer tells that there are so many partitions, one at least. -/
def TopologyAnswer.Counts (a : TopologyAnswer) (count : Nat) : Prop :=
  a.partitionsCount = some count ∧ 0 < count

theorem TopologyAnswer.partitionIds?_eq_some_iff {a : TopologyAnswer} {ids : List PartitionId} :
    a.partitionIds? = some ids ↔ ∃ count, a.Counts count ∧ ids = List.range' 1 count := by
  unfold partitionIds? Counts
  cases hcount : a.partitionsCount with
  | none => simp
  | some count =>
    by_cases hpos : 0 < count
    · simp [hpos, Topology.partitionIds, eq_comm]
    · simp [hpos]

theorem TopologyAnswer.partitionIds?_eq_none_iff {a : TopologyAnswer} :
    a.partitionIds? = none ↔ ∀ count, ¬ a.Counts count := by
  rw [Option.eq_none_iff_forall_ne_some]
  constructor
  · intro h count hcount
    exact h _ (partitionIds?_eq_some_iff.mpr ⟨count, hcount, rfl⟩)
  · intro h ids hids
    obtain ⟨count, hcount, -⟩ := partitionIds?_eq_some_iff.mp hids
    exact h count hcount

/-- The first answer that counts partitions, among those to a request and to so
    many retries, is that to retry number `index`. -/
structure FirstCount (answers : Nat → TopologyAnswer) (requests retries index count : Nat) :
    Prop where
  withinRetries : index ≤ retries
  earlier : ∀ i < index, ∀ other, ¬ (answers (requests + i)).Counts other
  counts : (answers (requests + index)).Counts count

namespace FirstCount

variable {answers : Nat → TopologyAnswer} {requests retries index count : Nat}

theorem later (hnone : ∀ other, ¬ (answers requests).Counts other)
    (h : FirstCount answers (requests + 1) retries index count) :
    FirstCount answers requests (retries + 1) (index + 1) count where
  withinRetries := Nat.succ_le_succ h.withinRetries
  earlier i hi := by
    cases i with
    | zero => exact hnone
    | succ i =>
      have := h.earlier i (by omega)
      rwa [Nat.add_right_comm] at this
  counts := by
    have := h.counts
    rwa [Nat.add_right_comm] at this

theorem unique {index' count' : Nat} (h : FirstCount answers requests retries index count)
    (h' : FirstCount answers requests retries index' count') :
    index' = index ∧ count' = count := by
  have hindex : index' = index := by
    rcases Nat.lt_trichotomy index' index with hlt | heq | hgt
    · exact absurd h'.counts (h.earlier index' hlt count')
    · exact heq
    · exact absurd h.counts (h'.earlier index hgt count)
  subst hindex
  have hcount := h'.counts.1
  rw [h.counts.1] at hcount
  exact ⟨rfl, (Option.some.inj hcount).symm⟩

end FirstCount

/-! ## Queries -/

/-- What a query does on the way to its end. -/
inductive QueryEvent where
  /-- It asks the cluster. -/
  | requested
  /-- It lets so much time pass. -/
  | waited (ms : Nat)
  deriving DecidableEq

/-- So many requests with a wait between each two. -/
def QueryEvent.rounds (wait n : Nat) : List QueryEvent :=
  (List.replicate n requested).intersperse (waited wait)

theorem QueryEvent.rounds_succ (wait n : Nat) :
    rounds wait (n + 2) = requested :: waited wait :: rounds wait (n + 1) := rfl

namespace QueryPlan

/-- What a query may do from the moment on at which a request is due. Where it
    is cancelled at the very moment of an answer or of the end of a wait, either
    may come first. -/
inductive Course (p : QueryPlan) (answers : Nat → TopologyAnswer) :
    Nat → Nat → Nat → List QueryEvent → QueryResult → Prop
  /-- It is cancelled before the request goes out. -/
  | heldBack {retries requests clock : Nat} :
      p.cancelledBy clock → Course p answers retries requests clock [] ⟨none, requests, clock⟩
  /-- It is cancelled before the answer comes in. -/
  | cutOff {retries requests clock : Nat} :
      p.cancelledBy (clock + (answers requests).latency) →
      Course p answers retries requests clock [.requested]
        ⟨none, requests + 1, max clock (p.cancelAt.getD 0)⟩
  /-- The answer counts partitions. -/
  | found {retries requests clock : Nat} {ids : List PartitionId} :
      ¬ p.cancelledBefore (clock + (answers requests).latency) →
      (answers requests).partitionIds? = some ids →
      Course p answers retries requests clock [.requested]
        ⟨some ids, requests + 1, clock + (answers requests).latency⟩
  /-- The last answer counts none. -/
  | exhausted {requests clock : Nat} :
      ¬ p.cancelledBefore (clock + (answers requests).latency) →
      (answers requests).partitionIds? = none →
      Course p answers 0 requests clock [.requested]
        ⟨none, requests + 1, clock + (answers requests).latency⟩
  /-- It is cancelled while it waits. -/
  | cutWait {retries requests clock : Nat} :
      ¬ p.cancelledBefore (clock + (answers requests).latency) →
      (answers requests).partitionIds? = none →
      p.cancelledBy (clock + (answers requests).latency + p.wait) →
      Course p answers (retries + 1) requests clock [.requested]
        ⟨none, requests + 1, max (clock + (answers requests).latency) (p.cancelAt.getD 0)⟩
  /-- It waits, and the next request is due. -/
  | retried {retries requests clock : Nat} {events : List QueryEvent} {result : QueryResult} :
      ¬ p.cancelledBefore (clock + (answers requests).latency) →
      (answers requests).partitionIds? = none →
      ¬ p.cancelledBefore (clock + (answers requests).latency + p.wait) →
      Course p answers retries (requests + 1) (clock + (answers requests).latency + p.wait)
        events result →
      Course p answers (retries + 1) requests clock (.requested :: .waited p.wait :: events) result

variable {p : QueryPlan} {answers : Nat → TopologyAnswer} {retries requests clock : Nat}

theorem cancelledBy_of_before {moment : Nat} (h : p.cancelledBefore moment) :
    p.cancelledBy moment := by
  unfold cancelledBy cancelledBefore at *
  split at h
  · simp only [decide_eq_true_eq] at h ⊢
    omega
  · exact h

theorem not_cancelledBy_of_never (hnever : p.cancelAt = none) (moment : Nat) :
    ¬ p.cancelledBy moment := by
  simp [cancelledBy, cancelledBefore, hnever]

/-- Making requests takes one of the courses. -/
theorem attempt_course (p : QueryPlan) (answers : Nat → TopologyAnswer)
    (retries requests clock : Nat) :
    ∃ events, p.Course answers retries requests clock events
      (p.attempt answers retries requests clock) := by
  fun_induction attempt p answers retries requests clock with
  | case1 retries requests clock answer answeredAt hcut =>
    exact ⟨_, .cutOff (cancelledBy_of_before hcut)⟩
  | case2 retries requests clock answer answeredAt hcut ids hids => exact ⟨_, .found hcut hids⟩
  | case3 requests clock answer answeredAt hcut hids => exact ⟨_, .exhausted hcut hids⟩
  | case4 requests clock answer answeredAt hcut hids retries next hwait =>
    exact ⟨_, .cutWait hcut hids (cancelledBy_of_before hwait)⟩
  | case5 requests clock answer answeredAt hcut hids retries next hwait ih =>
    obtain ⟨events, hrest⟩ := ih
    exact ⟨_, .retried hcut hids hwait hrest⟩

/-- The time that a request and so many retries take. -/
def elapsed (p : QueryPlan) (answers : Nat → TopologyAnswer) (requests retries : Nat) : Nat :=
  (∑ i ∈ Finset.range (retries + 1), (answers (requests + i)).latency) + retries * p.wait

theorem elapsed_zero (requests : Nat) :
    p.elapsed answers requests 0 = (answers requests).latency := by
  simp [elapsed]

theorem elapsed_succ (requests retries : Nat) :
    p.elapsed answers requests (retries + 1) =
      (answers requests).latency + p.wait + p.elapsed answers (requests + 1) retries := by
  unfold elapsed
  rw [Finset.sum_range_succ']
  simp only [Nat.add_zero, Nat.add_right_comm requests 1, ← Nat.add_assoc]
  ring

namespace Course

variable {events : List QueryEvent} {result : QueryResult}

/-- What a request and so many retries amount to. -/
structure Rounds (p : QueryPlan) (answers : Nat → TopologyAnswer) (requests clock retries : Nat)
    (events : List QueryEvent) (result : QueryResult) : Prop where
  course : events = QueryEvent.rounds p.wait (retries + 1)
  asked : result.requests = requests + (retries + 1)
  ended : result.endedAt = clock + p.elapsed answers requests retries

theorem Rounds.later {index : Nat}
    (h : Rounds p answers (requests + 1) (clock + (answers requests).latency + p.wait) index
      events result) :
    Rounds p answers requests clock (index + 1) (.requested :: .waited p.wait :: events)
      result where
  course := by rw [h.course, QueryEvent.rounds_succ]
  asked := by rw [h.asked]; omega
  ended := by rw [h.ended, elapsed_succ]; omega

/-- A query that finds the partitions does so with the first answer that counts
    them, cancelled later or not. -/
theorem of_found (h : p.Course answers retries requests clock events result)
    {ids : List PartitionId} (hids : result.retrieved = some ids) :
    ∃ index count, FirstCount answers requests retries index count ∧
      ids = List.range' 1 count ∧
      Rounds p answers requests clock index events result := by
  -- Only an answer ends a course that finds something; the others have no case.
  induction h with
  | heldBack _ => cases hids
  | cutOff _ => cases hids
  | @found retries requests clock _ _ hfound =>
    cases hids
    obtain ⟨count, hcount, hrange⟩ := TopologyAnswer.partitionIds?_eq_some_iff.mp hfound
    refine ⟨0, count, ⟨Nat.zero_le retries, by simp, by simpa using hcount⟩, hrange, ?_⟩
    exact ⟨rfl, rfl, by rw [elapsed_zero]⟩
  | exhausted _ _ => cases hids
  | cutWait _ _ _ => cases hids
  | retried _ hnone _ _ ih =>
    obtain ⟨index, count, hfirst, hrange, hrounds⟩ := ih hids
    have hcounts := TopologyAnswer.partitionIds?_eq_none_iff.mp hnone
    exact ⟨index + 1, count, hfirst.later hcounts, hrange, hrounds.later⟩

/-- A query that nothing cancels and that finds nothing has used up its retries. -/
theorem of_missed (h : p.Course answers retries requests clock events result)
    (hnever : p.cancelAt = none) (hmissed : result.retrieved = none) :
    (∀ i ≤ retries, ∀ count, ¬ (answers (requests + i)).Counts count) ∧
      Rounds p answers requests clock retries events result := by
  -- Without a cancellation only the last retry ends a course that finds nothing.
  induction h with
  | heldBack hcut => exact absurd hcut (not_cancelledBy_of_never hnever _)
  | cutOff hcut => exact absurd hcut (not_cancelledBy_of_never hnever _)
  | found _ _ => cases hmissed
  | exhausted _ hnone =>
    have hcounts := TopologyAnswer.partitionIds?_eq_none_iff.mp hnone
    refine ⟨?_, rfl, rfl, by rw [elapsed_zero]⟩
    intro i hi
    obtain rfl : i = 0 := Nat.le_zero.mp hi
    exact hcounts
  | cutWait _ _ hcut => exact absurd hcut (not_cancelledBy_of_never hnever _)
  | @retried retries requests _ _ _ _ hnone _ _ ih =>
    obtain ⟨hcounts, hrounds⟩ := ih hmissed
    refine ⟨?_, hrounds.later⟩
    intro i hi
    cases i with
    | zero => exact TopologyAnswer.partitionIds?_eq_none_iff.mp hnone
    | succ i =>
      have := hcounts i (by omega)
      rwa [Nat.add_right_comm] at this

/-- The requests on the way are those that the result adds, and no more than the
    first one and the retries. -/
theorem count_requested (h : p.Course answers retries requests clock events result) :
    requests + events.count .requested = result.requests ∧
      events.count .requested ≤ retries + 1 := by
  induction h with
  | heldBack _ => simp
  | cutOff _ => simp
  | found _ _ => simp
  | exhausted _ _ => simp
  | cutWait _ _ _ => simp
  | retried _ _ _ _ ih =>
    have hwaited : (QueryEvent.waited p.wait == QueryEvent.requested) = false := rfl
    simp only [List.count_cons, beq_self_eq_true, hwaited, if_true, Bool.false_eq_true, if_false]
    omega

end Course

end QueryPlan

/-! ## Calls -/

/-- What may be asked of a holder. -/
inductive HolderCall where
  | resolve
  | refresh

/-- What a call did. -/
structure CallReport where
  events : List QueryEvent
  /-- What the node owns by the answer of the cluster, if that has counted
      partitions. -/
  found : Option (List PartitionId)
  returned : List PartitionId
  /-- The holder from then on. -/
  after : Holder

namespace Holder

/-- Carry out a call. -/
def perform (h : Holder) (p : QueryPlan) (answers : Nat → TopologyAnswer) :
    HolderCall → List PartitionId × Holder
  | .resolve => h.resolve p answers
  | .refresh => h.refresh p answers

/-- Whether a call cannot be answered from the snapshot. -/
def Asks (h : Holder) : HolderCall → Prop
  | .resolve => h.owned = []
  | .refresh => True

/-- What a call may do. -/
inductive Call (h : Holder) (p : QueryPlan) (answers : Nat → TopologyAnswer) :
    HolderCall → CallReport → Prop
  /-- The snapshot is returned. -/
  | cached : h.owned ≠ [] → Call h p answers .resolve ⟨[], none, h.owned, h⟩
  /-- The query is cancelled when it is to begin. -/
  | refused {call : HolderCall} :
      h.Asks call → p.cancelledBy h.clock → Call h p answers call ⟨[], none, [], h⟩
  /-- The cluster is asked. -/
  | asked {call : HolderCall} {events : List QueryEvent} {result : QueryResult} :
      h.Asks call → ¬ p.cancelledBy h.clock →
      p.Course answers p.maxRetries h.requests h.clock events result →
      Call h p answers call
        ⟨events, result.retrieved.map h.assignment.select, (h.settle result).1,
          (h.settle result).2⟩

/-- Carrying out a call does one of the things that it may do. -/
theorem perform_call (h : Holder) (p : QueryPlan) (answers : Nat → TopologyAnswer)
    (call : HolderCall) :
    ∃ report, h.Call p answers call report ∧
      h.perform p answers call = (report.returned, report.after) := by
  by_cases hasks : h.Asks call
  · have hquery : h.perform p answers call =
        h.settle (p.query answers h.requests h.clock) := by
      cases call with
      | resolve =>
        have hempty : h.owned = [] := hasks
        simp [perform, resolve, refresh, hempty]
      | refresh => rfl
    rw [hquery, QueryPlan.query]
    split
    · rename_i hcancelled
      exact ⟨_, .refused hasks hcancelled, rfl⟩
    · rename_i hcancelled
      obtain ⟨events, hcourse⟩ :=
        p.attempt_course answers p.maxRetries h.requests h.clock
      exact ⟨_, .asked hasks hcancelled hcourse, rfl⟩
  · cases call with
    | resolve =>
      have hnonempty : h.owned ≠ [] := hasks
      refine ⟨_, .cached hnonempty, ?_⟩
      simp [perform, resolve, hnonempty]
    | refresh => exact absurd trivial hasks

variable {h : Holder} {p : QueryPlan} {answers : Nat → TopologyAnswer} {call : HolderCall}
  {report : CallReport}

/-- The call has found the partitions with retry number `index`, and the
    snapshot is what the node owns of them, which may be nothing. -/
structure Found (h : Holder) (p : QueryPlan) (answers : Nat → TopologyAnswer) (index count : Nat)
    (report : CallReport) : Prop where
  events : report.events = QueryEvent.rounds p.wait (index + 1)
  returned : report.returned = h.assignment.select (List.range' 1 count)
  found : report.found = some report.returned
  after : report.after =
    { h with
      owned := report.returned
      requests := h.requests + (index + 1)
      clock := h.clock + p.elapsed answers h.requests index
      replacements := h.replacements + 1 }

/-- The call returns nothing and leaves the snapshot alone. -/
structure Missed (h : Holder) (report : CallReport) : Prop where
  returned : report.returned = []
  found : report.found = none
  after : report.after =
    { h with requests := report.after.requests, clock := report.after.clock }

theorem settle_of_none {result : QueryResult} (hnone : result.retrieved = none) :
    h.settle result = ([], { h with requests := result.requests, clock := result.endedAt }) := by
  simp [settle, hnone]

theorem settle_of_some {result : QueryResult} {ids : List PartitionId}
    (hids : result.retrieved = some ids) :
    h.settle result = (h.assignment.select ids,
      { h with
        owned := h.assignment.select ids
        requests := result.requests
        clock := result.endedAt
        replacements := h.replacements + 1 }) := by
  simp [settle, hids]

/-- **A call that asks finds the partitions with the first answer that counts
    them, or leaves the snapshot alone.** -/
theorem Call.found_or_missed (hcall : h.Call p answers call report) (hasks : h.Asks call) :
    (∃ index count, FirstCount answers h.requests p.maxRetries index count ∧
        Found h p answers index count report) ∨
      Missed h report ∧
        (p.cancelAt = none →
          (∀ i ≤ p.maxRetries, ∀ count, ¬ (answers (h.requests + i)).Counts count) ∧
          report.events = QueryEvent.rounds p.wait (p.maxRetries + 1) ∧
          report.after.requests = h.requests + (p.maxRetries + 1) ∧
          report.after.clock = h.clock + p.elapsed answers h.requests p.maxRetries) := by
  cases hcall with
  | cached hnonempty => exact absurd hasks hnonempty
  | refused _ hcancelled =>
    refine .inr ⟨⟨rfl, rfl, rfl⟩, fun hnever => ?_⟩
    exact absurd hcancelled (QueryPlan.not_cancelledBy_of_never hnever _)
  | @asked _ events result _ _ hcourse =>
    -- Whether the course has found anything decides what becomes of the snapshot.
    cases hids : result.retrieved with
    | some ids =>
      obtain ⟨index, count, hfirst, rfl, hrounds⟩ := hcourse.of_found hids
      refine .inl ⟨index, count, hfirst, hrounds.course, ?_, ?_, ?_⟩
      · rw [settle_of_some hids]
      · rw [settle_of_some hids, Option.map_some]
      · rw [settle_of_some hids, hrounds.asked, hrounds.ended]
    | none =>
      refine .inr ⟨⟨?_, rfl, ?_⟩, fun hnever => ?_⟩
      · rw [settle_of_none hids]
      · rw [settle_of_none hids]
      · obtain ⟨hcounts, hrounds⟩ := hcourse.of_missed hnever hids
        refine ⟨hcounts, hrounds.course, ?_, ?_⟩
        · rw [settle_of_none hids, hrounds.asked]
        · rw [settle_of_none hids, hrounds.ended]

/-- A call makes no more requests than the first one and its retries. -/
theorem Call.count_requested (hcall : h.Call p answers call report) :
    report.events.count .requested ≤ p.maxRetries + 1 ∧
      report.after.requests = h.requests + report.events.count .requested := by
  cases hcall with
  | cached _ => simp
  | refused _ _ => simp
  | @asked _ events result _ _ hcourse =>
    obtain ⟨hrequests, hbound⟩ := hcourse.count_requested
    refine ⟨hbound, ?_⟩
    cases hids : result.retrieved with
    | some ids => rw [settle_of_some hids, hrequests]
    | none => rw [settle_of_none hids, hrequests]

/-- What a call has found is the snapshot from then on, and nothing else changes
    it. -/
theorem Call.snapshot (hcall : h.Call p answers call report) :
    report.after.owned = report.found.getD h.owned ∧
      report.after.replacements = h.replacements + report.found.toList.length ∧
      report.after.assignment = h.assignment := by
  by_cases hasks : h.Asks call
  · rcases hcall.found_or_missed hasks with ⟨index, count, -, hfound⟩ | ⟨hmissed, -⟩
    · rw [hfound.after, hfound.found]
      exact ⟨rfl, rfl, rfl⟩
    · rw [hmissed.after, hmissed.found]
      exact ⟨rfl, rfl, rfl⟩
  · cases hcall with
    | cached _ => exact ⟨rfl, rfl, rfl⟩
    | refused h _ => exact absurd h hasks
    | asked h _ _ => exact absurd h hasks

/-- Calls one after the other, with time between them. -/
inductive History (answers : Nat → TopologyAnswer) (h : Holder) :
    List CallReport → Holder → Prop
  | start : History answers h [] h
  | call {reports : List CallReport} {now : Holder} {p : QueryPlan} {call : HolderCall}
      {report : CallReport} :
      History answers h reports now → now.Call p answers call report →
      History answers h (reports ++ [report]) report.after
  | idle {reports : List CallReport} {now : Holder} (ms : Nat) :
      History answers h reports now →
      History answers h reports { now with clock := now.clock + ms }

/-- What calls have found, in order. -/
def findings (reports : List CallReport) : List (List PartitionId) :=
  reports.filterMap (·.found)

theorem findings_append (reports : List CallReport) (report : CallReport) :
    findings (reports ++ [report]) = findings reports ++ report.found.toList := by
  unfold findings
  rw [List.filterMap_append]
  cases hfound : report.found <;> simp [hfound]

/-- **The snapshot is what the last successful query has found.** -/
theorem History.snapshot {reports : List CallReport} {now : Holder}
    (hhistory : History answers h reports now) :
    now.owned = (findings reports).getLast?.getD h.owned ∧
      now.replacements = h.replacements + (findings reports).length ∧
      now.assignment = h.assignment := by
  induction hhistory with
  | start => exact ⟨rfl, rfl, rfl⟩
  | @call reports now p call report _ hcall ih =>
    obtain ⟨howned, hreplacements, hassignment⟩ := ih
    obtain ⟨howned', hreplacements', hassignment'⟩ := hcall.snapshot
    -- What the last call has found, if anything, is now the last finding.
    rw [findings_append, howned', hreplacements', hassignment']
    refine ⟨?_, ?_, hassignment⟩
    · cases report.found with
      | none => simpa using howned
      | some ids => simp
    · rw [hreplacements, List.length_append, Nat.add_assoc]
  | idle ms _ ih => exact ih

/-- What is expected of a call. -/
structure Specified (h : Holder) (p : QueryPlan) (answers : Nat → TopologyAnswer)
    (call : HolderCall) (report : CallReport) : Prop where
  /-- A snapshot that is not empty is returned at once. -/
  cached : call = .resolve → h.owned ≠ [] → report = ⟨[], none, h.owned, h⟩
  /-- A query that is cancelled when it is to begin does nothing. -/
  refused : h.Asks call → p.cancelledBy h.clock → report = ⟨[], none, [], h⟩
  /-- The first answer that counts partitions is the end of the query. -/
  found : h.Asks call → p.cancelAt = none → ∀ index count,
    FirstCount answers h.requests p.maxRetries index count → Found h p answers index count report
  /-- Without such an answer all retries are made, for nothing. -/
  missed : h.Asks call → p.cancelAt = none →
    (∀ i ≤ p.maxRetries, ∀ count, ¬ (answers (h.requests + i)).Counts count) →
    Missed h report ∧
      report.events = QueryEvent.rounds p.wait (p.maxRetries + 1) ∧
      report.after.requests = h.requests + (p.maxRetries + 1) ∧
      report.after.clock = h.clock + p.elapsed answers h.requests p.maxRetries
  /-- A cancellation, whenever it comes, makes no third possibility. -/
  either : h.Asks call →
    (∃ index count, FirstCount answers h.requests p.maxRetries index count ∧
      Found h p answers index count report) ∨ Missed h report
  /-- What counts the requests stays a word. -/
  counted : report.events.count .requested < words32 ∧
    report.after.requests = h.requests + report.events.count .requested

theorem Call.specified (hretries : p.maxRetries + 1 < words32)
    (hcall : h.Call p answers call report) : Specified h p answers call report where
  cached hresolve hnonempty := by
    subst hresolve
    cases hcall with
    | cached _ => rfl
    | refused hasks _ => exact absurd hasks hnonempty
    | asked hasks _ _ => exact absurd hasks hnonempty
  refused hasks hcancelled := by
    cases hcall with
    | cached hnonempty => exact absurd hasks hnonempty
    | refused _ _ => rfl
    | asked _ hrunning _ => exact absurd hcancelled hrunning
  found hasks hnever index count hfirst := by
    rcases hcall.found_or_missed hasks with ⟨index', count', hfirst', hfound⟩ | ⟨-, hmissed⟩
    · obtain ⟨rfl, rfl⟩ := hfirst.unique hfirst'
      exact hfound
    · exact absurd hfirst.counts ((hmissed hnever).1 index hfirst.withinRetries count)
  missed hasks hnever hcounts := by
    rcases hcall.found_or_missed hasks with ⟨index, count, hfirst, -⟩ | ⟨hmissed, hall⟩
    · exact absurd hfirst.counts (hcounts index hfirst.withinRetries count)
    · exact ⟨hmissed, (hall hnever).2⟩
  either hasks := (hcall.found_or_missed hasks).imp id And.left
  counted := by
    obtain ⟨hbound, hrequests⟩ := hcall.count_requested
    exact ⟨by omega, hrequests⟩

/-- **Discovery of the owned partitions.** Whatever the cluster answers and
    whenever a query is cancelled, each call of a holder does what is expected
    of it, and the snapshot is always what the last successful query has
    found. -/
theorem discovery_meets_expectations (answers : Nat → TopologyAnswer) :
    (∀ (h : Holder) (p : QueryPlan) (call : HolderCall), ∃ report,
      h.Call p answers call report ∧
        h.perform p answers call = (report.returned, report.after)) ∧
    (∀ (h : Holder) (p : QueryPlan) (call : HolderCall) (report : CallReport),
      p.maxRetries + 1 < words32 → h.Call p answers call report →
      Specified h p answers call report) ∧
    (∀ (h now : Holder) (reports : List CallReport), History answers h reports now →
      now.owned = (findings reports).getLast?.getD h.owned ∧
        now.replacements = h.replacements + (findings reports).length) := by
  refine ⟨fun h p call => h.perform_call p answers call,
    fun h p call report hretries hcall => hcall.specified hretries, ?_⟩
  intro h now reports hhistory
  obtain ⟨howned, hreplacements, -⟩ := hhistory.snapshot
  exact ⟨howned, hreplacements⟩

/-- A cluster that fails to answer, then has no partitions yet, then has six. -/
def startingCluster : Nat → TopologyAnswer
  | 0 => { partitionsCount := none }
  | 1 => { partitionsCount := some 0 }
  | _ => { partitionsCount := some 6, latency := 20 }

theorem startingCluster_firstCount : FirstCount startingCluster 0 5 2 6 where
  withinRetries := by decide
  earlier i hi other := by
    rintro ⟨hcount, hpos⟩
    obtain rfl | rfl : i = 0 ∨ i = 1 := by omega
    · simp [startingCluster] at hcount
    · simp only [startingCluster, Option.some.injEq] at hcount
      omega
  counts := ⟨rfl, by decide⟩

/-- The second of three nodes finds its partitions with the third request. -/
theorem second_node_finds_its_partitions :
    ∃ report, ({ assignment := .sharded 3 1 } : Holder).Call
        { wait := 1000, maxRetries := 5 } startingCluster .refresh report ∧
      report.events =
        [.requested, .waited 1000, .requested, .waited 1000, .requested] ∧
      report.returned = [3, 4] ∧ report.after.owned = [3, 4] ∧ report.after.clock = 2020 := by
  obtain ⟨hperform, hspecified, hsnapshot⟩ := discovery_meets_expectations startingCluster
  obtain ⟨report, hcall, -⟩ :=
    hperform { assignment := .sharded 3 1 } { wait := 1000, maxRetries := 5 } .refresh
  have hmeets := hspecified _ _ _ report (by decide) hcall
  have hfound := hmeets.found trivial rfl 2 6 startingCluster_firstCount
  have hreturned : report.returned = [3, 4] := by
    rw [hfound.returned]
    decide
  have howned := (hsnapshot _ _ _ (.call .start hcall)).1
  refine ⟨report, hcall, hfound.events, hreturned, ?_, ?_⟩
  · rw [howned, findings_append, hfound.found, hreturned]
    rfl
  · rw [hfound.after]
    rfl

end Holder

end WorkflowEngine
